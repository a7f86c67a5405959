import Mtasc.Client.Write
import Mtasc.Lib.Events

/-!
# What `M_retryTcpwrite` calls a success

The helper reports a success on two ways. Where a `write` has completed the
message it stores its offset before it adds what has been written, so that the
count is short. Where its loops end it takes any offset up to the length of
the message to be a complete one; with a retry budget of 0 that is the offset
it was called with.
-/

namespace Mtasc

open Lib

/-- A `write` returns a negative result, as the `int` the helper keeps it in. -/
def WriteFails : Trace → (q : Call) → q.Reply → Prop
  | _, .write _ _, r => wrapInt r < 0
  | _, _, _ => False

/-- A success means that all bytes of the message from offset `k` on have been
written, and that the count is the length of the message. -/
def RestWritten (message : Bytes) (k : ℕ) (c : ClientContext) (h : Trace) :
    Prop :=
  c.isRetrySuccess = true →
    h.sent = message.drop k ∧ c.clientRetryWriteBytes = message.length

/-- There is nothing to write, or the helper has a reason not to report a
success: it cannot write, may not retry, or fails in a retry. -/
def HelperHonest (ctx : ClientContext) (k : ℕ) (e : ℤ) (h : Trace) : Prop :=
  k = ctx.clientMessage.length ∨
    (ctx.socketfd < 0 ∨ ctx.thisAddrInvalid = true ∨ ctx.resovlerAddrs = []) ∨
    writeRetryable e = false ∨ 0 < ctx.maxRetyCount ∧ Ever WriteFails h

section

variable {message : Bytes} {k full : ℕ} {h : Trace} {ctx : ClientContext}

/-- What the helper takes to be written is at most what it has passed. -/
theorem writeContract_size {fd : ℤ} {data : Bytes} {r : ℤ}
    (hr : WriteContract h (.write fd data) r) (hnonneg : 0 ≤ wrapInt r) :
    toSizeT (wrapInt r) ≤ data.length := by
  rcases writeContract_reply hr with rfl | ⟨j, rfl, hj⟩
  · have hminus : wrapInt (-1) = -1 := wrapInt_of_lt (by omega) (by omega)
    omega
  · exact (toSizeT_wrapInt_le hnonneg).trans hj

/-- The state of the inner loop: there is something left to write, and no
`write` has failed. -/
structure Resuming (full : ℕ) (s : ClientContext × ℕ) (h : Trace) : Prop where
  left : s.2 < full
  message : s.1.clientMessage.length = full
  count : s.1.connectRetyCount ≤ s.1.maxRetyCount
  unfailed : ¬ Ever WriteFails h

/-- How the inner loop ends: with a success and a short count, or with a
`write` that has failed. -/
def ResumeEnd (full : ℕ) :
    Trace → Status (Flow (ClientContext × ℕ) ClientContext) → Prop
  | h, .done (.return c) =>
      c.isRetrySuccess = true ∧ c.clientRetryWriteBytes < full ∧
          ¬ Ever WriteFails h ∨
        c.isRetrySuccess = false ∧ Ever WriteFails h
  | _, .done (.fall _) => False
  | _, _ => True

theorem retryTcpwriteInner_resumes {s : ClientContext × ℕ}
    (hs : Resuming full s h) :
    (retryTcpwriteInner full s).Sat WriteContract
      (Prog.andThen (ResumeEnd full)
        (Prog.afterIter (ResumeEnd full) (Resuming full))) h := by
  obtain ⟨c, t⟩ := s
  obtain ⟨hleft, hmsg, hcount, hun⟩ := hs
  rw [retryTcpwriteInner, if_pos hleft]
  refine Prog.sat_perform_bind.mpr ⟨trivial, fun (r : ℤ) hr => ?_⟩
  simp only at hleft hmsg hcount
  have hdata : (c.messageFrom t (full - t)).length = full - t := by
    rw [ClientContext.messageFrom, List.length_take, List.length_drop, hmsg,
      Nat.min_self]
  dsimp only
  split
  · next hneg =>
    refine Or.inr ⟨rfl, ?_⟩
    rw [ever_snoc]
    exact Or.inr hneg
  · next hnonneg =>
    have hun' : ¬ Ever WriteFails (h ++ [⟨.write c.socketfd
        (c.messageFrom t (full - t)), r⟩]) := by
      rw [ever_snoc]
      rintro (hever | hneg)
      · exact hun hever
      · exact hnonneg hneg
    split
    · exact Or.inl ⟨rfl, hleft, hun'⟩
    · next hne =>
      have hsize := writeContract_size hr (Int.not_lt.mp hnonneg)
      have hleft' : wadd 64 t (toSizeT (wrapInt r)) < full := by
        rw [wadd_comm] at hne
        exact Nat.lt_of_le_of_ne ((wadd_le _ _ _).trans (by omega)) hne
      exact ⟨hleft', hmsg, hcount, hun'⟩

/-- How the loops end that write nothing. -/
def FallsAt (k : ℕ) :
    Trace → Status (Flow (ClientContext × ℕ) ClientContext) → Prop
  | h, .done (.fall (_, t)) => t = k ∧ h = []
  | _, .done (.return _) => False
  | _, _ => True

/-- With something left to write the first retry decides. -/
theorem retryTcpwriteOuter_resumes {fuel : ℕ} (hk : k < full)
    (hmsg : ctx.clientMessage.length = full)
    (hlt : ctx.connectRetyCount < ctx.maxRetyCount)
    (hun : ¬ Ever WriteFails h)
    {J : ClientContext × ℕ → Trace → Prop} :
    (retryTcpwriteOuter fuel full (ctx, k)).Sat WriteContract
      (Prog.andThen (ResumeEnd full) (Prog.afterIter (ResumeEnd full) J)) h := by
  rw [retryTcpwriteOuter, if_pos hlt]
  dsimp only
  have hloop : (Prog.iterate (retryTcpwriteInner full) fuel
      ({ ctx with connectRetyCount := ctx.connectRetyCount + 1 }, k)).Sat
        WriteContract (ResumeEnd full) h := by
    refine Prog.sat_iterate (fun _ => Resuming full) ?_ ?_ fuel _ h
      ⟨hk, hmsg, hlt, hun⟩
    · intro s h _
      trivial
    · intro n s h hs
      exact retryTcpwriteInner_resumes hs
  refine hloop.bind (fun _ _ => trivial) (fun _ _ => trivial)
    fun flow h' hst => ?_
  cases flow with
  | fall s => exact hst.elim
  | «return» c => exact hst

/-- At the end of the message the loops do nothing. -/
theorem retryTcpwriteOuter_idle {fuel : ℕ} {s : ClientContext × ℕ}
    (hs : s.2 = full)
    {φ : Trace → Status (Flow (ClientContext × ℕ) ClientContext) → Prop}
    (hstuck : φ h .stuck) (hfall : ∀ c, φ h (.done (.fall (c, full)))) :
    (retryTcpwriteOuter fuel full s).Sat WriteContract
      (Prog.andThen φ (Prog.afterIter φ fun s h' => s.2 = full ∧ h' = h)) h := by
  obtain ⟨c, t⟩ := s
  obtain rfl : t = full := hs
  rw [retryTcpwriteOuter]
  split
  · dsimp only
    rw [Prog.sat_bind]
    exact retryTcpwriteInner_behind (Nat.le_refl t) (fun _ => hstuck) ⟨rfl, rfl⟩
  · exact hfall c

/-! ## The helper -/

/-- A return without a success is honest in any case. -/
theorem honest_of_failure {c : ClientContext} {e : ℤ}
    (hc : c.isRetrySuccess = false) (hcond : HelperHonest ctx k e h) :
    RestWritten ctx.clientMessage k c h ↔ HelperHonest ctx k e h := by
  refine iff_of_true (fun hsuccess => ?_) hcond
  rw [hc] at hsuccess
  cases hsuccess

/-- A success with a short count is not. -/
theorem not_restWritten {c : ClientContext} (hc : c.isRetrySuccess = true)
    (hshort : c.clientRetryWriteBytes < message.length) :
    ¬ RestWritten message k c h := by
  intro hrest
  have hcount := (hrest hc).2
  omega

/-- Where the helper returns, a success is one exactly under the conditions. -/
def ReturnsHonest (ctx : ClientContext) (k : ℕ) (e : ℤ) :
    Trace → Status ClientContext → Prop
  | h, .done c => RestWritten ctx.clientMessage k c h ↔ HelperHonest ctx k e h
  | _, _ => True

/-- With something left to write and a retry left. -/
theorem retryTcpwriteLoop_resumes (ctx : ClientContext) (fuel : ℕ)
    (hk : k < ctx.clientMessage.length)
    (hbudget : ctx.connectRetyCount < ctx.maxRetyCount) :
    (Prog.iterate (retryTcpwriteOuter fuel ctx.clientMessage.length) fuel
      (ctx, k)).Sat WriteContract (ResumeEnd ctx.clientMessage.length) [] := by
  cases fuel with
  | zero => trivial
  | succ n =>
      rw [Prog.iterate]
      refine (retryTcpwriteOuter_resumes (J := fun _ _ => False) hk rfl
        hbudget not_ever_nil).bind ?_ ?_ ?_
      · exact fun _ hst => hst
      · exact fun _ hst => hst
      · rintro (r | s) h hst
        · exact hst
        · exact hst.elim

/-- With no retry left, or with nothing left to write. -/
theorem retryTcpwriteLoop_falls (ctx : ClientContext) (fuel : ℕ)
    (hnone : ctx.maxRetyCount ≤ ctx.connectRetyCount ∨ k = full) :
    (Prog.iterate (retryTcpwriteOuter fuel full) fuel (ctx, k)).Sat
      WriteContract (FallsAt k) [] := by
  rcases hnone with hspent | rfl
  · cases fuel with
    | zero => trivial
    | succ n =>
        rw [Prog.iterate, retryTcpwriteOuter, if_neg (Int.not_lt.mpr hspent)]
        exact ⟨rfl, rfl⟩
  · refine Prog.sat_iterate (fun _ s h => s.2 = k ∧ h = [])
      (fun _ _ _ => trivial) ?_ fuel (ctx, k) [] ⟨rfl, rfl⟩
    rintro n s h ⟨hs, rfl⟩
    exact retryTcpwriteOuter_idle hs trivial fun _ => ⟨rfl, rfl⟩

/-- The helper, for an offset that is not behind the end of the message. -/
theorem retryTcpwrite_honest (hk : k ≤ ctx.clientMessage.length) (e : ℤ)
    (fuel : ℕ) :
    (retryTcpwrite fuel ctx k ctx.clientMessage.length e).Sat WriteContract
      (ReturnsHonest ctx k e) [] := by
  rw [retryTcpwrite]
  split
  · next hrefused => exact honest_of_failure rfl (Or.inr (Or.inl hrefused))
  · next hready =>
    split
    · next hretry =>
      dsimp only
      -- whether there is something left to write, and a retry
      by_cases hleft : k < ctx.clientMessage.length ∧ 0 < ctx.maxRetyCount
      · obtain ⟨hlt, hbudget⟩ := hleft
        have hloop := retryTcpwriteLoop_resumes
          { ctx with connectRetyCount := 0 } fuel hlt hbudget
        refine hloop.bind (fun _ _ => trivial) (fun _ _ => trivial)
          fun flow h hst => ?_
        cases flow with
        | fall s => exact hst.elim
        | «return» c =>
            rcases hst with ⟨hc, hshort, hun⟩ | ⟨hc, hfailed⟩
            · refine iff_of_false (not_restWritten hc hshort) ?_
              rintro (heq | hrefused | hno | ⟨-, hfailed⟩)
              · omega
              · exact hready hrefused
              · exact absurd hretry (Bool.eq_false_iff.mp hno)
              · exact hun hfailed
            · exact honest_of_failure hc
                (Or.inr (Or.inr (Or.inr ⟨hbudget, hfailed⟩)))
      · have hnone : ctx.maxRetyCount ≤ 0 ∨ k = ctx.clientMessage.length := by
          omega
        have hloop := retryTcpwriteLoop_falls
          { ctx with connectRetyCount := 0 } fuel hnone
        refine hloop.bind (fun _ _ => trivial) (fun _ _ => trivial)
          fun flow h hst => ?_
        cases flow with
        | «return» c => exact hst.elim
        | fall s =>
            obtain ⟨c, t⟩ := s
            obtain ⟨rfl, rfl⟩ := hst
            dsimp only
            rw [if_pos hk]
            rcases Nat.lt_or_eq_of_le hk with hlt | heq
            · refine iff_of_false (not_restWritten rfl hlt) ?_
              rintro (heq | hrefused | hno | ⟨-, hfailed⟩)
              · omega
              · exact hready hrefused
              · exact absurd hretry (Bool.eq_false_iff.mp hno)
              · exact not_ever_nil hfailed
            · refine iff_of_true (fun _ => ⟨?_, heq⟩) (Or.inl heq)
              rw [heq, List.drop_length]
              rfl
    · next hretry =>
      exact honest_of_failure rfl
        (Or.inr (Or.inr (Or.inl (Bool.eq_false_iff.mpr hretry))))

/-- **When a success of the helper is one.** For every context, offset, `errno`
and sequence of results of `write` on which the helper returns: a reported
success means that exactly the rest of the message has been written, and that
the count is its length, if and only if there is nothing left to write, the
helper may not write or retry, or it has a retry and a `write` fails in it. -/
theorem retryTcpwrite_success_iff (ctx : ClientContext) (k : ℕ)
    (hk : k ≤ ctx.clientMessage.length) (e : ℤ)
    (o : Oracle Call Call.Reply) (ho : o.Obeys WriteContract) (fuel : ℕ)
    (c : ClientContext)
    (hreturn : ((retryTcpwrite fuel ctx k ctx.clientMessage.length e).exec o
      []).1 = .done c) :
    let h := ((retryTcpwrite fuel ctx k ctx.clientMessage.length e).exec o
      []).2
    RestWritten ctx.clientMessage k c h ↔ HelperHonest ctx k e h := by
  have hend := (retryTcpwrite_honest hk e fuel).exec ho
  rw [hreturn] at hend
  exact hend

/-- `GET` from offset 1 on, in two pieces and with one retry. -/
def retrying : ClientContext :=
  { connected with clientMessage := [71, 69, 84], maxRetyCount := 1 }

/-- What the helper returns when each `write` takes half. -/
def retried : ClientContext :=
  { retrying with
    connectRetyCount := 1, isRetrySuccess := true, clientRetryWriteBytes := 2 }

theorem retryTcpwrite_success_iff_halves :
    let h := ((retryTcpwrite 9 retrying 1 3 eagain).exec halfWrites []).2
    RestWritten [71, 69, 84] 1 retried h ↔ HelperHonest retrying 1 eagain h :=
  retryTcpwrite_success_iff retrying 1 (by decide) eagain halfWrites
    halfWrites_obeys 9 retried (by decide +kernel)

/-- There the whole rest is written, and a count of 2 is reported for 3. With
a budget of 0 a success is reported of which nothing has been written. -/
theorem retryTcpwrite_overstates :
    let run := (retryTcpwrite 9 retrying 1 3 eagain).exec halfWrites []
    let idle := (retryTcpwrite 9 { retrying with maxRetyCount := 0 } 1 3
      eagain).exec halfWrites []
    (run.1 = .done retried ∧ Trace.sent run.2 = [69, 84]) ∧
      (idle.1 = .done { retrying with
          maxRetyCount := 0, isRetrySuccess := true
          clientRetryWriteBytes := 1 } ∧
        Trace.sent idle.2 = []) ∧
      ¬ ∀ (ctx : ClientContext) (k : ℕ) (e : ℤ) (o : Oracle Call Call.Reply)
        (fuel : ℕ) (c : ClientContext), k ≤ ctx.clientMessage.length →
        o.Obeys WriteContract →
        let run := (retryTcpwrite fuel ctx k ctx.clientMessage.length e).exec
          o []
        run.1 = .done c → RestWritten ctx.clientMessage k c run.2 := by
  refine ⟨by decide +kernel, by decide +kernel, fun hall => ?_⟩
  have hrest := hall retrying 1 eagain halfWrites 9 retried (by decide)
    halfWrites_obeys (by decide +kernel)
  exact absurd (hrest (by decide)).2 (by decide)

end

end Mtasc
