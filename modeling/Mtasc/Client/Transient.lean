import Mtasc.Client.Write

/-!
# A transient write error

A `write` that fails with `EAGAIN` or another of the errors that the retry
helper knows. The task hands the result of the failed `write` to the helper
where the helper expects the number of bytes that have been written. As a
`size_t` the `-1` is behind the end of every message: the helper writes
nothing, and the operation ends with `io_error`.
-/

namespace Mtasc

open Lib

/-- The writes so far. -/
def Trace.writes (h : Trace) : ℕ :=
  h.countP fun e => match e.1 with
    | .write _ _ => true
    | _ => false

/-- The first writes take `pieces` bytes, the next one fails with `errno` being
`e`, and each later one takes some bytes. -/
def TransientError (pieces : List ℕ) (e : ℤ) :
    Trace → (q : Call) → q.Reply → Prop
  | h, .write _ data, k =>
      (∀ p, pieces[h.writes]? = some p → k = (p : ℤ)) ∧
        (h.writes = pieces.length → k = -1) ∧
        (pieces.length < h.writes →
          k ≤ data.length ∧ 0 ≤ k ∧ (data ≠ [] → 0 < k))
  | _, .errno, k => k = e
  | _, _, _ => True

/-- The operation has sent the whole message, once and in order, and reports
it without an error. -/
def WrittenThrough (message : Bytes) (run : Status TaskEnd × Trace) : Prop :=
  run.1 = .done .returned ∧ run.2.sent = message ∧ ∃ ec ctx,
    run.2.completions = [.write ec message.length ctx] ∧ ec.IsZero

/-- How the operation ends, given `bound` iterations. -/
def TransientEnd (bound fuel : ℕ) : Trace → Status TaskEnd → Prop
  | _, .calling => True
  | _, .stuck => fuel < bound
  | _, .undefined => False
  | h, .done e => e = .returned ∧
      ∃ s, h.completions = [s] ∧ ¬ s.ec.IsZero

/-- How the loop of the task ends: never by falling through. -/
def TransientFlow (bound fuel : ℕ) :
    Trace → Status (Flow (ClientContext × ℤ) TaskEnd) → Prop
  | _, .calling => True
  | _, .stuck => fuel < bound
  | _, .undefined => False
  | h, .done (.return e) => TransientEnd bound fuel h (.done e)
  | _, .done (.fall _) => False

section

variable {message : Bytes} {pieces : List ℕ} {e : ℤ} {bound fuel j : ℕ}
variable {ctx : ClientContext} {h : Trace}

theorem writes_snoc_write (h : Trace) (fd : ℤ) (data : Bytes) (k : ℤ) :
    Trace.writes (h ++ [⟨.write fd data, k⟩]) = h.writes + 1 := by
  simp [Trace.writes, List.countP_append]

/-- The state of the task after the first `j` pieces. -/
structure WritingPieces (message : Bytes) (pieces : List ℕ) (budget : ℤ)
    (j : ℕ) (s : ClientContext × ℤ × ℤ) (h : Trace) : Prop where
  loop : WriteLoop message s h (pieces.take j).sum
  writes : h.writes = j
  le : j ≤ pieces.length
  budget_eq : s.1.maxRetyCount = budget

theorem sum_take_le (pieces : List ℕ) (j : ℕ) :
    (pieces.take j).sum ≤ pieces.sum :=
  (List.take_sublist j pieces).sum_le_sum fun _ _ => Nat.zero_le _

theorem submit_error {k : ℕ} (hw : Writing message k h) {ec : ErrorCode}
    (hec : ¬ ec.IsZero) {n : ℕ} {c : ClientContext} :
    ∃ s, Trace.completions (h ++ [⟨.submit (.write ec n c), ()⟩]) = [s] ∧
      ¬ s.ec.IsZero := by
  refine ⟨.write ec n c, ?_, hec⟩
  rw [Trace.completions_snoc, hw.pending]
  rfl

/-- One iteration: a piece is written, or the failed write ends the task. -/
theorem asyncWriteStep_transient (hnul : 0 ∉ message)
    (hlen : message.length < 2 ^ 31) (hsum : pieces.sum < message.length)
    {n : ℕ} {s : ClientContext × ℤ × ℤ} {budget : ℤ}
    (hbound : budget.toNat < bound)
    (hs : WritingPieces message pieces budget j s h)
    (hleft : fuel < bound ∨ pieces.length < n + 1 + j) :
    (asyncWriteStep fuel s).Sat (TransientError pieces e)
      (Prog.andThen (TransientFlow bound fuel)
        (Prog.afterIter (TransientFlow bound fuel) fun s h =>
          ∃ j, WritingPieces message pieces budget j s h ∧
            (fuel < bound ∨ pieces.length < n + j))) h := by
  obtain ⟨ctx, written, totalWrite⟩ := s
  obtain ⟨⟨hw, hmsg, hwr, htot⟩, hwrites, hj, hbudget⟩ := hs
  simp only at hmsg hwr htot hbudget
  subst hwr htot
  have hlt : (pieces.take j).sum < message.length :=
    (sum_take_le pieces j).trans_lt hsum
  have hstrlen := messageStrlen_eq hnul hmsg
  generalize hk : (pieces.take j).sum = k at hw hlt ⊢
  have hdata : ctx.messageFrom k (ctx.messageStrlen - k) =
      (message.drop k).take (message.length - k) := by
    rw [ClientContext.messageFrom, hstrlen, hmsg]
  generalize (message.drop k).take (message.length - k) = data at hdata
  -- a piece, unless all of them have been written
  have hpiece : ∀ i : ℕ, TransientError pieces e h (.write ctx.socketfd data)
      (i : ℤ) → j < pieces.length ∧ pieces[j]? = some i := by
    rintro i ⟨hp, hfail, -⟩
    rw [hwrites] at hp hfail
    rcases Nat.lt_or_eq_of_le hj with hmore | hlast
    · refine ⟨hmore, ?_⟩
      have hget := List.getElem?_eq_getElem hmore
      have hi := hp _ hget
      rw [hget, Int.ofNat_inj.mp hi]
    · have hneg : (i : ℤ) = -1 := hfail hlast
      omega
  have htake : ∀ i : ℕ, pieces[j]? = some i →
      (pieces.take (j + 1)).sum = k + i := by
    intro i hi
    rw [List.take_add_one, hi, List.sum_append, Option.toList_some,
      List.sum_singleton, hk]
  have hfit : ∀ i : ℕ, pieces[j]? = some i → k + i < message.length := by
    intro i hi
    rw [← htake i hi]
    exact (sum_take_le pieces (j + 1)).trans_lt hsum
  refine sat_asyncWriteStep hdata (by omega) (by omega) trivial
    (fun heq => absurd heq (by omega)) ?_ ?_ ?_ ?_
  · rintro r ⟨hp, hfail, -⟩
    rw [hwrites] at hp hfail
    rcases Nat.lt_or_eq_of_le hj with hmore | hlast
    · have hget := List.getElem?_eq_getElem hmore
      have hle := hfit _ hget
      exact Or.inr ⟨_, hp _ hget, by omega⟩
    · exact Or.inl (hfail hlast)
  · intro i hi heq
    have hle := hfit i (hpiece i hi).2
    omega
  · intro i hi _
    obtain ⟨hmore, hget⟩ := hpiece i hi
    have hw' := hw.wrote ctx.socketfd (j := i) (by have := hfit i hget; omega)
    refine ⟨j + 1, ⟨⟨?_, hmsg, ?_, ?_⟩, ?_, hmore, hbudget⟩, by omega⟩
    · rw [htake i hget, ← hdata, ClientContext.messageFrom, hstrlen, hmsg]
      exact hw'
    · rw [htake i hget]
    · rw [htake i hget]
    · rw [writes_snoc_write, hwrites]
  · intro _ _
    have hw' := hw.failed ctx.socketfd data
    refine ⟨trivial, fun e' _ hfuel => ?_, fun _ _ => trivial, fun e' c _ => ?_⟩
    · rw [hbudget] at hfuel
      exact hfuel.trans_lt hbound
    · exact ⟨rfl, submit_error (hw'.errno e')
        (makeErrorCode_ne_zero (by decide))⟩

/-- The iterations a run with a transient error takes. -/
def transientBound (ctx : ClientContext) (pieces : List ℕ) : ℕ :=
  pieces.length + ctx.maxRetyCount.toNat + 1

theorem asyncWrite_transientEnd (ctx : ClientContext) (message : Bytes)
    (pieces : List ℕ) (hnul : 0 ∉ message) (hlen : message.length < 2 ^ 31)
    (hsum : pieces.sum < message.length) (fuel : ℕ) :
    (asyncWrite fuel ctx message).Sat (TransientError pieces e)
      (TransientEnd (transientBound ctx pieces) fuel) [] := by
  have hstart : Writing message 0 [] := ⟨rfl, rfl, Nat.zero_le _⟩
  rw [asyncWrite]
  split
  · exact ⟨trivial, fun _ _ => ⟨rfl,
      submit_error hstart (makeErrorCode_ne_zero (by decide))⟩⟩
  · dsimp only
    rw [asyncWriteTask]
    have hloop : ∀ c : ClientContext, c.clientMessage = message →
        c.maxRetyCount = ctx.maxRetyCount →
        (Prog.iterate (asyncWriteStep fuel) fuel (c, 0, 0)).Sat
          (TransientError pieces e)
          (TransientFlow (transientBound ctx pieces) fuel) [] := by
      intro c hmsg hbudget
      refine Prog.sat_iterate (fun n s h => ∃ j,
        WritingPieces message pieces ctx.maxRetyCount j s h ∧
          (fuel < transientBound ctx pieces ∨ pieces.length < n + j)) ?_ ?_
        fuel _ [] ⟨0, ⟨⟨hstart, hmsg, rfl, rfl⟩, rfl, Nat.zero_le _,
          hbudget⟩, ?_⟩
      · rintro s h ⟨j, hs, hleft⟩
        have := hs.le
        exact hleft.resolve_right (by omega)
      · rintro n s h ⟨j, hs, hleft⟩
        exact asyncWriteStep_transient hnul hlen hsum
          (by unfold transientBound; omega) hs hleft
      · unfold transientBound
        omega
    refine (hloop (ClientContext.moveConstruct _) (by rfl) (by rfl)).bind
      (fun _ hst => hst) (fun _ hst => hst) fun flow h hst => ?_
    cases flow with
    | «return» e => exact hst
    | fall s => exact hst.elim

theorem TransientEnd.not_writtenThrough {run : Status TaskEnd × Trace}
    (hrun : TransientEnd bound fuel run.2 run.1) :
    ¬ WrittenThrough message run := by
  rintro ⟨hret, -, ec, c, hcomp, hzero⟩
  rw [hret] at hrun
  obtain ⟨-, s, hs, hne⟩ := hrun
  rw [hcomp] at hs
  obtain rfl := (List.cons.inj hs).1
  exact hne hzero

/-- **A transient write error loses the message.** Wherever the error comes,
whatever has been sent before it and whatever the later writes would send, the
operation ends with one callback that reports an error, and never with the
message sent. -/
theorem asyncWrite_transient (ctx : ClientContext) (message : Bytes)
    (pieces : List ℕ) (e : ℤ) (hnul : 0 ∉ message)
    (hlen : message.length < 2 ^ 31) (hsum : pieces.sum < message.length)
    (o : Oracle Call Call.Reply) (ho : o.Obeys (TransientError pieces e)) :
    (∀ fuel, ¬ WrittenThrough message
        ((asyncWrite fuel ctx message).exec o [])) ∧
      ∃ n, ∀ fuel, n ≤ fuel →
        let run := (asyncWrite fuel ctx message).exec o []
        run.1 = .done .returned ∧
          ∃ s, Trace.completions run.2 = [s] ∧ ¬ s.ec.IsZero := by
  have hrun := fun fuel => (asyncWrite_transientEnd (e := e) ctx message pieces
    hnul hlen hsum fuel).exec ho
  refine ⟨fun fuel => (hrun fuel).not_writtenThrough,
    transientBound ctx pieces, fun fuel hfuel => ?_⟩
  rcases (asyncWrite_transientEnd (e := e) ctx message pieces hnul hlen hsum
    fuel).exec_ends ho with
    ⟨h, -, hstuck⟩ | ⟨h, -, hundefined⟩ | ⟨end', h, hdone, rfl, hs⟩
  · have hlt : fuel < transientBound ctx pieces := hstuck
    omega
  · exact hundefined.elim
  · dsimp only
    rw [hdone]
    exact ⟨rfl, hs⟩

/-- A socket that takes one byte, is full once, and then takes whatever it is
given. -/
def fullOnce : Oracle Call Call.Reply := fun h q =>
  match q with
  | .select _ _ => (1 : ℤ)
  | .recv _ _ => none
  | .read _ _ => none
  | .write _ data =>
      if Trace.writes h = 0 then (1 : ℤ)
      else if Trace.writes h = 1 then (-1 : ℤ)
      else data.length
  | .errno => eagain
  | .sslRead _ => none
  | .sslGetError _ => (0 : ℤ)
  | .pastVector _ => []
  | .submit _ => ()

theorem fullOnce_obeys : fullOnce.Obeys (TransientError [1] eagain) := by
  intro h q
  cases q with
  | write fd data =>
      refine ⟨fun p hp => ?_, fun hone => ?_, fun hlater => ?_⟩
      · obtain ⟨hlt, rfl⟩ := List.getElem?_eq_some_iff.mp hp
        have hzero : Trace.writes h = 0 := Nat.lt_one_iff.mp hlt
        simp [fullOnce, hzero]
      · have hone : Trace.writes h = 1 := hone
        simp [fullOnce, hone]
      · have hlater : 1 < Trace.writes h := hlater
        have hreply : fullOnce h (.write fd data) = (data.length : ℤ) := by
          simp only [fullOnce]
          rw [if_neg (by omega), if_neg (by omega)]
        rw [hreply]
        exact ⟨le_refl _, Int.natCast_nonneg _, fun hne =>
          Int.natCast_pos.mpr (List.length_pos_iff.mpr hne)⟩
  | errno => rfl
  | _ => trivial

/-- `GET` on that socket. -/
theorem asyncWrite_transient_get :
    ¬ WrittenThrough [71, 69, 84]
        ((asyncWrite 9 connected [71, 69, 84]).exec fullOnce []) ∧
      ∃ n, ∀ fuel, n ≤ fuel →
        let run := (asyncWrite fuel connected [71, 69, 84]).exec fullOnce []
        run.1 = .done .returned ∧
          ∃ s, Trace.completions run.2 = [s] ∧ ¬ s.ec.IsZero := by
  have h := asyncWrite_transient connected [71, 69, 84] [1] eagain (by decide)
    (by decide) (by decide) fullOnce fullOnce_obeys
  exact ⟨h.1 9, h.2⟩

/-- With a retry budget of 3 the message is not sent either: it ends with
`io_error` after one byte. -/
theorem asyncWrite_loses :
    let run := (asyncWrite 9 { connected with maxRetyCount := 3 }
      [71, 69, 84]).exec fullOnce []
    fullOnce.Obeys (TransientError [1] eagain) ∧
      (run.1 = .done .returned ∧ Trace.sent run.2 = [71] ∧
        (Trace.completions run.2).map Completion.ec = [makeErrorCode eio]) ∧
      ¬ ∀ (ctx : ClientContext) (message : Bytes) (pieces : List ℕ) (e : ℤ)
        (o : Oracle Call Call.Reply), 0 ∉ message → message.length < 2 ^ 31 →
        pieces.sum < message.length → 1 ≤ ctx.maxRetyCount →
        writeRetryable e → o.Obeys (TransientError pieces e) →
        ∃ fuel, WrittenThrough message
          ((asyncWrite fuel ctx message).exec o []) := by
  refine ⟨fullOnce_obeys, ⟨by decide +kernel, by decide +kernel,
    by decide +kernel⟩, fun hall => ?_⟩
  obtain ⟨fuel, hthrough⟩ := hall { connected with maxRetyCount := 3 }
    [71, 69, 84] [1] eagain fullOnce (by decide) (by decide) (by decide)
    (by decide) (by decide) fullOnce_obeys
  have hend := (asyncWrite_transientEnd { connected with maxRetyCount := 3 }
    [71, 69, 84] [1] (by decide) (by decide) (by decide) fuel).exec
    fullOnce_obeys
  exact hend.not_writtenThrough hthrough

end

end Mtasc
