import Mtasc.Client.Transient
import Mtasc.Lib.Events

/-!
# What `async_write` reports

The text that `async_write` sends is its message up to the first NUL: every
length is a `strlen`. The count in the callback is the number of bytes sent on
every path but one: after a failed `write` it is twice that number.
-/

namespace Mtasc

open Lib

/-- What `c_str()` of a message is to `strlen`. -/
def cString (message : Bytes) : Bytes := message.takeWhile (· != 0)

/-- A `write` fails after others have accepted bytes. -/
def FailsLate : Trace → (q : Call) → q.Reply → Prop
  | h, .write _ _, k => k < 0 ∧ h.sent ≠ []
  | _, _, _ => False

/-- What holds of every callback of `async_write`. -/
structure Reported (message : Bytes) (h : Trace) : Prop where
  text : ∀ s ∈ h.completions, s.ec.IsZero →
    h.sent = cString message ∧ s.bytes = (cString message).length
  count : message.length < 2 ^ 30 → ∀ s ∈ h.completions,
    (s.bytes = h.sent.length ↔ ¬ Ever FailsLate h)

section

variable {message : Bytes} {k : ℕ} {h : Trace} {ctx : ClientContext}

/-! ## The text of a message -/

theorem cString_isPrefix (message : Bytes) : cString message <+: message :=
  List.takeWhile_prefix _

theorem cString_eq_iff : cString message = message ↔ 0 ∉ message := by
  rw [cString, List.takeWhile_eq_self_iff]
  constructor
  · intro hall hmem
    exact absurd (hall 0 hmem) (by decide)
  · intro hnul x hx
    simpa using fun hx0 : x = 0 => hnul (hx0 ▸ hx)

/-- A message is not longer than its text only if it is its text. -/
theorem cString_length_eq_iff :
    (cString message).length = message.length ↔ 0 ∉ message := by
  rw [← cString_eq_iff]
  constructor
  · intro hlen
    exact (cString_isPrefix message).eq_of_length hlen
  · intro heq
    rw [heq]

theorem messageStrlen_cString (hmsg : ctx.clientMessage = message) :
    ctx.messageStrlen = (cString message).length := by
  rw [ClientContext.messageStrlen, hmsg, cString]

/-- The rest that a `write` is given is the rest of the text. -/
theorem messageFrom_cString (hmsg : ctx.clientMessage = message) (k : ℕ) :
    ctx.messageFrom k (ctx.messageStrlen - k) =
      ((cString message).drop k).take ((cString message).length - k) := by
  have hstrlen := messageStrlen_cString hmsg
  have htake : cString message = message.take (cString message).length :=
    List.prefix_iff_eq_take.mp (cString_isPrefix message)
  rw [ClientContext.messageFrom, hstrlen, hmsg]
  conv_rhs => rw [htake]
  rw [List.drop_take, ← htake, List.take_take, Nat.min_self]

/-! ## The loop of the task -/

/-- The state of the task while the first `k` bytes of the text have been sent
and no `write` has failed. -/
structure Counting (message : Bytes) (s : ClientContext × ℤ × ℤ) (h : Trace)
    (k : ℕ) : Prop where
  writing : Writing (cString message) k h
  message : s.1.clientMessage = message
  written : s.2.1 = k
  totalWrite : s.2.2 = k
  early : ¬ Ever FailsLate h

/-- What the loop leaves: the whole text is out, or a callback has been
submitted. -/
def CountedOut (message : Bytes) :
    Trace → Status (Flow (ClientContext × ℤ) TaskEnd) → Prop
  | h, .done (.fall (ctx, totalWrite)) =>
      Writing (cString message) (cString message).length h ∧
        ctx.clientMessage = message ∧
        totalWrite = (cString message).length ∧ ¬ Ever FailsLate h
  | h, _ => Reported message h

theorem Reported.pending (hh : h.completions = []) : Reported message h :=
  ⟨by simp [hh], by simp [hh]⟩

/-- What is reported with the callback as the last call. -/
theorem Reported.submit (hw : Writing (cString message) k h) {s : Completion}
    (htext : s.ec.IsZero →
      k = (cString message).length ∧ s.bytes = (cString message).length)
    (hcount : message.length < 2 ^ 30 →
      (s.bytes = k ↔ ¬ Ever FailsLate h)) :
    Reported message (h ++ [⟨.submit s, ()⟩]) := by
  have hone : ∀ s' ∈ Trace.completions (h ++ [⟨.submit s, ()⟩]), s' = s := by
    intro s' hs'
    rw [Trace.completions_snoc, hw.pending] at hs'
    exact List.mem_singleton.mp hs'
  have hsent : Trace.sent (h ++ [⟨.submit s, ()⟩]) = (cString message).take k := by
    rw [Trace.sent_snoc, hw.sent]
    exact List.append_nil _
  constructor
  · intro s' hs' hzero
    obtain rfl := hone s' hs'
    obtain ⟨hk, hbytes⟩ := htext hzero
    rw [hsent, hk, List.take_length]
    exact ⟨rfl, hbytes⟩
  · intro hlen s' hs'
    obtain rfl := hone s' hs'
    rw [hsent, List.length_take, Nat.min_eq_left hw.le, hcount hlen, ever_snoc]
    simp [FailsLate]

theorem asyncWriteStep_counts (hlen : message.length < 2 ^ 31) {fuel : ℕ}
    {s : ClientContext × ℤ × ℤ} (hs : Counting message s h k) :
    (asyncWriteStep fuel s).Sat WriteContract
      (Prog.andThen (CountedOut message)
        (Prog.afterIter (CountedOut message) fun s h =>
          ∃ k, Counting message s h k)) h := by
  obtain ⟨ctx, written, totalWrite⟩ := s
  obtain ⟨hw, hmsg, hwr, htot, hearly⟩ := hs
  simp only at hmsg hwr htot
  subst hwr htot
  have hk := hw.le
  have htext := (cString_isPrefix message).length_le
  have hstrlen := messageStrlen_cString hmsg
  have hnone : ∀ j : ℕ, ¬ Ever FailsLate (h ++ [⟨.write ctx.socketfd
      (((cString message).drop k).take ((cString message).length - k)),
      (j : ℤ)⟩]) := by
    intro j
    rw [ever_snoc]
    rintro (hever | ⟨hneg, -⟩)
    · exact hearly hever
    · exact absurd (Int.natCast_nonneg j) (Int.not_le.mpr hneg)
  refine sat_asyncWriteStep (messageFrom_cString hmsg k) (by omega) (by omega)
    (.pending hw.pending) ?_ ?_ ?_ ?_ ?_
  · rintro rfl
    rw [hstrlen] at hw ⊢
    exact ⟨hw, hmsg, rfl, hearly⟩
  · intro r hr
    rcases writeContract_reply hr with hneg | ⟨j, hj, hle⟩
    · exact Or.inl hneg
    · have hrest := List.length_take_le ((cString message).length - k)
        ((cString message).drop k)
      exact Or.inr ⟨j, hj, by omega⟩
  · intro j _ heq
    have hw' := hw.wrote ctx.socketfd (j := j) (by omega)
    rw [heq, hstrlen] at hw' ⊢
    exact ⟨hw', hmsg, rfl, hnone j⟩
  · intro j _ hlt
    exact ⟨k + j, hw.wrote ctx.socketfd (by omega), hmsg, rfl, rfl, hnone j⟩
  · -- the helper is called, and the count in the callback is `k + k`
    intro _ _
    have hw' := hw.failed ctx.socketfd
      (((cString message).drop k).take ((cString message).length - k))
    have hlate : Ever FailsLate (h ++ [⟨.write ctx.socketfd
        (((cString message).drop k).take ((cString message).length - k)),
        (-1 : ℤ)⟩]) ↔ k ≠ 0 := by
      rw [ever_snoc, FailsLate, hw.sent]
      simp only [hearly, false_or, ne_eq, List.take_eq_nil_iff, not_or]
      constructor
      · rintro ⟨-, hk0, -⟩
        exact hk0
      · intro hk0
        refine ⟨Int.negSucc_lt_zero 0, hk0, fun hnil => ?_⟩
        rw [hnil] at hk
        exact hk0 (Nat.le_zero.mp hk)
    refine ⟨.pending hw'.pending, fun e _ _ => .pending (hw'.errno e).pending,
      fun e _ => .pending (hw'.errno e).pending, fun e c _ => ?_⟩
    refine Reported.submit (hw'.errno e) (fun hzero =>
      absurd hzero (makeErrorCode_ne_zero (by decide))) fun hshort => ?_
    have hbytes : toSizeT (wrapInt ((k : ℤ) + k)) = k + k := by
      have hcast : ((k : ℤ) + k) = ((k + k : ℕ) : ℤ) := (Int.natCast_add k k).symm
      rw [hcast, wrapInt_natCast (by omega), toSizeT_natCast (by omega)]
    rw [ever_snoc, hlate, Completion.bytes, hbytes]
    simp only [FailsLate, or_false]
    omega

/-- **What a callback of `async_write` reports**, at every moment. -/
theorem asyncWrite_reports (ctx : ClientContext) (message : Bytes)
    (hlen : message.length < 2 ^ 31) (fuel : ℕ) :
    (asyncWrite fuel ctx message).Sat WriteContract
      (fun h _ => Reported message h) [] := by
  have hstart : Writing (cString message) 0 [] := ⟨rfl, rfl, Nat.zero_le _⟩
  have htext := (cString_isPrefix message).length_le
  rw [asyncWrite]
  split
  · refine ⟨.pending rfl, fun _ _ => Reported.submit hstart (fun hzero =>
      absurd hzero (makeErrorCode_ne_zero (by decide))) fun _ => ?_⟩
    exact iff_of_true rfl not_ever_nil
  · dsimp only
    rw [asyncWriteTask]
    have hloop : ∀ c : ClientContext, c.clientMessage = message →
        (Prog.iterate (asyncWriteStep fuel) fuel (c, 0, 0)).Sat WriteContract
          (CountedOut message) [] := by
      intro c hmsg
      refine Prog.sat_iterate (fun _ s h => ∃ k, Counting message s h k) ?_ ?_
        fuel _ [] ⟨0, hstart, hmsg, rfl, rfl, not_ever_nil⟩
      · rintro s h ⟨k, hs⟩
        exact .pending hs.writing.pending
      · rintro n s h ⟨k, hs⟩
        exact asyncWriteStep_counts hlen hs
    refine (hloop (ClientContext.moveConstruct _) (by rfl)).bind
      (fun _ hst => hst) (fun _ hst => hst) fun flow h hst => ?_
    cases flow with
    | «return» e => exact hst
    | fall s =>
        obtain ⟨hw, hmsg, htot, hearly⟩ := hst
        have hstrlen := messageStrlen_cString hmsg
        have hcast : toSizeT s.2 = (cString message).length := by
          rw [htot, toSizeT_natCast (by omega)]
        dsimp only
        rw [hstrlen, hcast, if_neg (fun hne => hne rfl)]
        exact ⟨.pending hw.pending, fun _ _ => Reported.submit hw
          (fun _ => ⟨rfl, rfl⟩) fun _ => iff_of_true rfl hearly⟩

/-- **When the count of a callback is right.** For every sequence of results of
`write`: with or without an error, the count is the number of bytes sent if and
only if no `write` has failed after bytes had been accepted. -/
theorem asyncWrite_count_iff (ctx : ClientContext) (message : Bytes)
    (hlen : message.length < 2 ^ 30) (o : Oracle Call Call.Reply)
    (ho : o.Obeys WriteContract) (fuel : ℕ) :
    let h := ((asyncWrite fuel ctx message).exec o []).2
    ∀ s ∈ Trace.completions h,
      (s.bytes = (Trace.sent h).length ↔ ¬ Ever FailsLate h) := by
  have hlong : message.length < 2 ^ 31 := by omega
  exact ((asyncWrite_reports ctx message hlong fuel).exec ho).count hlen

/-- A socket that takes one byte and fails then. -/
def failsSecond : Oracle Call Call.Reply := fun h q =>
  match q with
  | .write _ data =>
      if Trace.writes h = 0 then (min 1 data.length : ℕ) else (-1 : ℤ)
  | q => fullOnce h q

theorem failsSecond_obeys : failsSecond.Obeys WriteContract := by
  intro h q
  cases q with
  | write fd data =>
      by_cases hzero : Trace.writes h = 0
      · have hreply : failsSecond h (.write fd data) =
            ((min 1 data.length : ℕ) : ℤ) := by
          simp only [failsSecond, if_pos hzero]
        rw [hreply]
        exact Or.inr ⟨Int.natCast_nonneg _,
          Int.ofNat_le.mpr (Nat.min_le_right 1 data.length)⟩
      · refine Or.inl ?_
        simp only [failsSecond, if_neg hzero]
  | _ => trivial

/-- `GET` on that socket. -/
theorem asyncWrite_count_iff_second :
    let h := ((asyncWrite 9 connected [71, 69, 84]).exec failsSecond []).2
    ∀ s ∈ Trace.completions h,
      (s.bytes = (Trace.sent h).length ↔ ¬ Ever FailsLate h) :=
  asyncWrite_count_iff connected [71, 69, 84] (by decide) failsSecond
    failsSecond_obeys 9

/-- One byte is sent, and two are reported. -/
theorem asyncWrite_miscounts :
    let h := ((asyncWrite 9 connected [71, 69, 84]).exec failsSecond []).2
    (Trace.sent h = [71] ∧ (Trace.completions h).map Completion.bytes = [2]) ∧
      ¬ ∀ (ctx : ClientContext) (message : Bytes) (o : Oracle Call Call.Reply)
        (fuel : ℕ), message.length < 2 ^ 30 → o.Obeys WriteContract →
        let h := ((asyncWrite fuel ctx message).exec o []).2
        ∀ s ∈ Trace.completions h, s.bytes = (Trace.sent h).length := by
  refine ⟨⟨by decide +kernel, by decide +kernel⟩, fun hall => ?_⟩
  have h := hall connected [71, 69, 84] failsSecond 9 (by decide)
    failsSecond_obeys
  exact absurd h (by decide +kernel)

/-! ## The text in order -/

/-- The state of the task of `async_write` while the first `k` bytes of the
text have been sent. -/
structure SendingText (message : Bytes) (s : ClientContext × ℤ × ℤ)
    (h : Trace) (k : ℕ) : Prop where
  writing : Writing (cString message) k h
  message : s.1.clientMessage = message
  written : s.2.1 = k
  totalWrite : s.2.2 = k

/-- What the loop leaves: the text is out, or a callback has been submitted. -/
def TextOut (message : Bytes) :
    Trace → Status (Flow (ClientContext × ℤ) TaskEnd) → Prop
  | h, .done (.fall (ctx, totalWrite)) =>
      Writing (cString message) (cString message).length h ∧
        ctx.clientMessage = message ∧ totalWrite = (cString message).length
  | h, _ => InOrder (cString message) h

theorem asyncWriteStep_textInOrder (hlen : message.length < 2 ^ 31) {fuel : ℕ}
    {s : ClientContext × ℤ × ℤ} (hs : SendingText message s h k) :
    (asyncWriteStep fuel s).Sat WriteContract
      (Prog.andThen (TextOut message)
        (Prog.afterIter (TextOut message) fun s h =>
          ∃ k, SendingText message s h k)) h := by
  obtain ⟨ctx, written, totalWrite⟩ := s
  obtain ⟨hw, hmsg, hwr, htot⟩ := hs
  simp only at hmsg hwr htot
  subst hwr htot
  have hk := hw.le
  have htext := (cString_isPrefix message).length_le
  have hstrlen := messageStrlen_cString hmsg
  refine sat_asyncWriteStep (messageFrom_cString hmsg k) (by omega) (by omega)
    hw.inOrder ?_ ?_ ?_ ?_ ?_
  · rintro rfl
    rw [hstrlen] at hw ⊢
    exact ⟨hw, hmsg, rfl⟩
  · intro r hr
    rcases writeContract_reply hr with hneg | ⟨j, hj, hle⟩
    · exact Or.inl hneg
    · have hrest := List.length_take_le ((cString message).length - k)
        ((cString message).drop k)
      exact Or.inr ⟨j, hj, by omega⟩
  · intro j _ heq
    have hw' := hw.wrote ctx.socketfd (j := j) (by omega)
    rw [heq, hstrlen] at hw' ⊢
    exact ⟨hw', hmsg, rfl⟩
  · intro j _ hlt
    exact ⟨k + j, hw.wrote ctx.socketfd (by omega), hmsg, rfl, rfl⟩
  · intro _ _
    have hw' := hw.failed ctx.socketfd
      (((cString message).drop k).take ((cString message).length - k))
    exact ⟨hw'.inOrder, fun e _ _ => (hw'.errno e).inOrder,
      fun e _ => (hw'.errno e).inOrder, fun e c _ =>
        (hw'.errno e).submit _ fun hzero =>
          absurd hzero (makeErrorCode_ne_zero (by decide))⟩

/-- The text of a message is sent in order, whatever comes behind its first
NUL. -/
theorem asyncWrite_textInOrder (ctx : ClientContext)
    (hlen : message.length < 2 ^ 31) (fuel : ℕ) :
    (asyncWrite fuel ctx message).Sat WriteContract
      (fun h _ => InOrder (cString message) h) [] := by
  have hstart : Writing (cString message) 0 [] := ⟨rfl, rfl, Nat.zero_le _⟩
  have htext := (cString_isPrefix message).length_le
  rw [asyncWrite]
  split
  · exact ⟨hstart.inOrder, fun _ _ => hstart.submit _ fun hzero =>
      absurd hzero (makeErrorCode_ne_zero (by decide))⟩
  · dsimp only
    rw [asyncWriteTask]
    have hloop : ∀ c : ClientContext, c.clientMessage = message →
        (Prog.iterate (asyncWriteStep fuel) fuel (c, 0, 0)).Sat WriteContract
          (TextOut message) [] := by
      intro c hmsg
      refine Prog.sat_iterate (fun _ s h => ∃ k, SendingText message s h k)
        ?_ ?_ fuel _ [] ⟨0, hstart, hmsg, rfl, rfl⟩
      · rintro s h ⟨k, hs⟩
        exact hs.writing.inOrder
      · rintro n s h ⟨k, hs⟩
        exact asyncWriteStep_textInOrder hlen hs
    refine (hloop (ClientContext.moveConstruct _) (by rfl)).bind
      (fun _ hst => hst) (fun _ hst => hst) fun flow h hst => ?_
    cases flow with
    | «return» e => exact hst
    | fall s =>
        obtain ⟨hw, hmsg, htot⟩ := hst
        have hcast : toSizeT s.2 = (cString message).length := by
          rw [htot, toSizeT_natCast (by omega)]
        dsimp only
        rw [messageStrlen_cString hmsg, hcast, if_neg fun hne => hne rfl]
        exact ⟨hw.inOrder, fun _ _ => hw.submit _ fun _ => ⟨rfl, rfl⟩⟩

end

end Mtasc
