import Mtasc.Client.Lossless
import Mtasc.Client.Write

/-!
# One callback for each operation

At every moment of a write or a read over TCP at most one callback has been
submitted, and a task that returns has submitted one as the last thing it
did. No other end is possible, but for a read whose buffer would have to
outgrow a vector.
-/

namespace Mtasc

open Lib

/-- A callback has been submitted, as the last thing and for the first time. -/
def SubmittedLast (h : Trace) : Prop :=
  ∃ h' s, h = h' ++ [⟨.submit s, ()⟩] ∧ Trace.completions h' = []

/-- A run with one callback. It has no other end than a return, unless it is
`excused`. -/
structure CompletesOnce (run : Status TaskEnd × Trace) (excused : Prop) :
    Prop where
  atMost : ∀ h, h <+: run.2 → (Trace.completions h).length ≤ 1
  last : run.1 = .done .returned → SubmittedLast run.2
  ends : ∀ e, run.1 = .done e → e = .returned ∨ excused

section

variable {h : Trace} {ctx : ClientContext} {fuel : ℕ}

theorem SubmittedLast.length_le (hs : SubmittedLast h) :
    h.completions.length ≤ 1 := by
  obtain ⟨h', s, rfl, hnone⟩ := hs
  rw [Trace.completions_snoc, hnone]
  exact Nat.le_refl 1

/-! ## `async_write` -/

/-- How `async_write` ends. -/
def WriteEnd : Trace → Status TaskEnd → Prop
  | h, .done e => e = .returned ∧ SubmittedLast h
  | h, _ => h.completions = []

/-- What the loop of the task leaves. -/
def WriteFlow : Trace → Status (Flow (ClientContext × ℤ) TaskEnd) → Prop
  | h, .done (.return e) => e = .returned ∧ SubmittedLast h
  | h, _ => h.completions = []

/-- The replies are arbitrary. -/
def AnyReply : Trace → (q : Call) → q.Reply → Prop := fun _ _ _ => True

theorem unsubmitted_snoc (hs : h.completions = []) {q : Call} {r : q.Reply}
    (hcomp : Trace.completedBy q r = []) :
    Trace.completions (h ++ [⟨q, r⟩]) = [] := by
  rw [Trace.completions_snoc, hs, hcomp]
  rfl

theorem retryTcpwriteInner_unsubmitted (hs : h.completions = [])
    (full : ℕ) (s : ClientContext × ℕ) :
    (retryTcpwriteInner full s).Sat AnyReply
      (fun h _ => Trace.completions h = []) h := by
  obtain ⟨c, total⟩ := s
  rw [retryTcpwriteInner]
  split
  · refine Prog.Sat.bind_keeps ⟨hs, fun r _ => unsubmitted_snoc hs rfl⟩ ?_
    intro r h' hs'
    dsimp only
    split
    · split
      · exact hs'
      · exact hs'
    · split
      · exact hs'
      · exact hs'
  · exact hs

theorem retryTcpwriteOuter_unsubmitted (hs : h.completions = [])
    (full : ℕ) (s : ClientContext × ℕ) :
    (retryTcpwriteOuter fuel full s).Sat AnyReply
      (fun h _ => Trace.completions h = []) h := by
  obtain ⟨c, total⟩ := s
  rw [retryTcpwriteOuter]
  split
  · refine Prog.Sat.bind_keeps (Prog.sat_iterate_keeps
      (fun s h hs => retryTcpwriteInner_unsubmitted hs full s) fuel _ hs) ?_
    intro flow h' hs'
    cases flow with
    | fall s => exact hs'
    | «return» c => exact hs'
  · exact hs

/-- The helper submits nothing. -/
theorem retryTcpwrite_unsubmitted (hs : h.completions = [])
    (total full : ℕ) (e : ℤ) :
    (retryTcpwrite fuel ctx total full e).Sat AnyReply
      (fun h _ => Trace.completions h = []) h := by
  rw [retryTcpwrite]
  split
  · exact hs
  · split
    · refine Prog.Sat.bind_keeps (Prog.sat_iterate_keeps
        (fun s h hs => retryTcpwriteOuter_unsubmitted hs full s) fuel _ hs) ?_
      intro flow h' hs'
      cases flow with
      | «return» c => exact hs'
      | fall s =>
          obtain ⟨c, total⟩ := s
          dsimp only
          split
          · exact hs'
          · split
            · exact hs'
            · exact hs'
    · exact hs

theorem asyncWriteStep_once (hs : h.completions = [])
    (s : ClientContext × ℤ × ℤ) :
    (asyncWriteStep fuel s).Sat AnyReply
      (Prog.andThen WriteFlow
        (Prog.afterIter WriteFlow fun _ h => Trace.completions h = [])) h := by
  obtain ⟨c, written, total⟩ := s
  rw [asyncWriteStep]
  split
  · rw [Prog.sat_bind, Prog.sat_perform]
    refine ⟨hs, fun r _ => ?_⟩
    have hs' := unsubmitted_snoc hs (q := .write c.socketfd
      (c.messageFrom (toSizeT written)
        (wsub 64 c.messageStrlen (toSizeT written)))) (r := r) rfl
    simp only [Prog.andThen_done]
    split
    · rw [Prog.sat_bind, Prog.sat_perform]
      refine ⟨hs', fun e _ => ?_⟩
      have hs'' := unsubmitted_snoc hs' (q := .errno) (r := e) rfl
      rw [Prog.andThen_done]
      refine (retryTcpwrite_unsubmitted hs'' _ _ e).bind (fun _ hst => hst)
        (fun _ hst => hst) fun c' h' hst => ?_
      split
      · split
        · exact ⟨hst, fun _ _ => ⟨rfl, h', _, rfl, hst⟩⟩
        · exact ⟨hst, fun _ _ => ⟨rfl, h', _, rfl, hst⟩⟩
      · exact ⟨hst, fun _ _ => ⟨rfl, h', _, rfl, hst⟩⟩
    · split
      · exact hs'
      · exact hs'
  · exact hs

theorem asyncWrite_end (ctx : ClientContext) (message : Bytes) (fuel : ℕ) :
    (asyncWrite fuel ctx message).Sat AnyReply WriteEnd [] := by
  rw [asyncWrite]
  split
  · exact ⟨rfl, fun _ _ => ⟨rfl, [], _, rfl, rfl⟩⟩
  · dsimp only
    rw [asyncWriteTask]
    refine (Prog.sat_iterate (fun _ _ h => Trace.completions h = [])
      (fun _ _ hs => hs) (fun _ s _ hs => asyncWriteStep_once hs s) fuel _ []
      rfl).bind (fun _ hst => hst) (fun _ hst => hst) fun flow h' hst => ?_
    cases flow with
    | «return» e => exact hst
    | fall s =>
        have hst : Trace.completions h' = [] := hst
        obtain ⟨c, total⟩ := s
        dsimp only
        split
        · exact ⟨hst, fun _ _ => ⟨rfl, h', _, rfl, hst⟩⟩
        · exact ⟨hst, fun _ _ => ⟨rfl, h', _, rfl, hst⟩⟩

/-! ## All three operations -/

theorem WriteEnd.length_le {st : Status TaskEnd} (hst : WriteEnd h st) :
    h.completions.length ≤ 1 := by
  cases st with
  | done e => exact hst.2.length_le
  | calling =>
      have hst : h.completions = [] := hst
      exact hst ▸ Nat.zero_le 1
  | stuck =>
      have hst : h.completions = [] := hst
      exact hst ▸ Nat.zero_le 1
  | undefined =>
      have hst : h.completions = [] := hst
      exact hst ▸ Nat.zero_le 1

theorem HandedOver.submittedLast {b₀ : ReadBuffer} (hs : HandedOver b₀ h) :
    SubmittedLast h := by
  obtain ⟨h', ec, n, b, c, heq, hnone, -⟩ := hs
  exact ⟨h', _, heq, hnone⟩

theorem ReadEnd.length_le {b₀ : ReadBuffer} {st : Status TaskEnd}
    (hst : ReadEnd b₀ h st) : h.completions.length ≤ 1 := by
  have hnone : h.completions = [] ∨ SubmittedLast h := by
    cases st with
    | calling => exact Or.inl hst
    | stuck => exact Or.inl hst
    | undefined => exact Or.inl hst
    | done e =>
        cases e with
        | returned => exact Or.inr hst.submittedLast
        | threw => exact Or.inl hst.completions
        | undefined => exact Or.inl hst.completions
  rcases hnone with hnone | hlast
  · exact hnone ▸ Nat.zero_le 1
  · exact hlast.length_le

/-- A read completes once, or its buffer would have to outgrow a vector. -/
theorem completesOnce_read {p : Net TaskEnd} {b₀ : ReadBuffer}
    {o : Oracle Call Call.Reply} (hp : p.Sat ReadContract (ReadEnd b₀) [])
    (ho : o.Obeys ReadContract) :
    CompletesOnce (p.exec o []) (b₀.WellFormed →
      maxSize < b₀.buffer.length + (Trace.received (p.exec o []).2).length) := by
  have hend := hp.exec ho
  refine ⟨fun h hh => ?_, fun hret => ?_, fun e he => ?_⟩
  · have hmoments := hp.mono fun h st (hst : ReadEnd b₀ h st) => hst.length_le
    exact hmoments.moments ho List.nil_prefix hh
  · rw [hret] at hend
    exact hend.submittedLast
  · rw [he] at hend
    cases e with
    | returned => exact Or.inl rfl
    | threw => exact Or.inr hend.big
    | undefined => exact Or.inr hend.big

/-- **One callback for each operation.** For whatever the calls return, each
write and each read over TCP submits its callback at most once at every
moment, and exactly once and last if its task ends. -/
theorem operations_complete_once (ctx : ClientContext)
    (o : Oracle Call Call.Reply) (fuel : ℕ) :
    (∀ message, CompletesOnce ((asyncWrite fuel ctx message).exec o [])
      False) ∧
    (o.Obeys ReadContract → ∀ b chacheSize,
      let run := (asyncRead fuel (some b) ctx chacheSize).exec o []
      CompletesOnce run
        (b.WellFormed →
          maxSize < b.buffer.length + (Trace.received run.2).length)) ∧
    (o.Obeys ReadContract → 0 ≤ ctx.socketfd → ∀ delimiter,
      let run := (asyncReadUntil fuel ctx delimiter).exec o []
      CompletesOnce run (maxSize < (Trace.received run.2).length)) := by
  refine ⟨fun message => ?_, fun ho b chacheSize => ?_,
    fun ho hfd delimiter => ?_⟩
  · have hsat := asyncWrite_end ctx message fuel
    have hany : o.Obeys AnyReply := fun _ _ => trivial
    have hend := hsat.exec hany
    refine ⟨fun h hh => ?_, fun hret => ?_, fun e he => ?_⟩
    · have hmoments := hsat.mono fun h st (hst : WriteEnd h st) => hst.length_le
      exact hmoments.moments hany List.nil_prefix hh
    · rw [hret] at hend
      exact hend.2
    · rw [he] at hend
      exact Or.inl hend.1
  · exact completesOnce_read (asyncRead_end b ctx chacheSize fuel) ho
  · have honce := completesOnce_read (asyncReadUntil_end hfd delimiter fuel) ho
    refine ⟨honce.atMost, honce.last, fun e he => ?_⟩
    refine (honce.ends e he).imp_right fun hbig => ?_
    have hbig := hbig ReadBuffer.valueInit_wellFormed
    rwa [ReadBuffer.valueInit, List.length_nil, Nat.zero_add] at hbig

/-- A write that is cut short, and reads of two chunks. -/
theorem operations_complete_once_chunks :
    let o := silentStream [[66], [67]] eagain
    CompletesOnce ((asyncWrite 9 connected [71]).exec o []) False ∧
      ((asyncRead 9 (some (.filled [65])) connected 7).exec o []).1 =
        .done .returned ∧
      SubmittedLast
        ((asyncRead 9 (some (.filled [65])) connected 7).exec o []).2 ∧
      ((asyncReadUntil 9 connected [67]).exec o []).1 = .done .returned ∧
      SubmittedLast ((asyncReadUntil 9 connected [67]).exec o []).2 := by
  have hall := operations_complete_once connected
    (silentStream [[66], [67]] eagain) 9
  have ho := silentStream_reads [[66], [67]] eagain
  have hread : ((asyncRead 9 (some (.filled [65])) connected 7).exec
      (silentStream [[66], [67]] eagain) []).1 = .done .returned := by
    decide +kernel
  have huntil : ((asyncReadUntil 9 connected [67]).exec
      (silentStream [[66], [67]] eagain) []).1 = .done .returned := by
    decide +kernel
  exact ⟨hall.1 [71], hread, (hall.2.1 ho _ 7).last hread, huntil,
    (hall.2.2 ho (by decide) [67]).last huntil⟩

end

end Mtasc
