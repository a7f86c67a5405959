import Mtasc.Client.Delivery
import Mtasc.Client.Lossless
import Mtasc.Lib.Events

/-!
# What `async_read` promises

It is to call `recv` only while the buffer has fewer bytes than asked for, and
to report a success only with that many bytes or at the end of the stream. Its
loop reads before it compares, and its helper compares the size of a single
`recv`; so both promises depend on the replies. `Spoils` names the replies
that break one of them.
-/

namespace Mtasc

open Lib

/-! ## What has happened so far -/

namespace Trace

@[simp] def errnoBy : Call → ℕ
  | .errno => 1
  | _ => 0

/-- How often `errno` has been read. -/
def errnos (h : Trace) : ℕ := (h.map fun e => errnoBy e.1).sum

@[simp] theorem errnos_snoc {h : Trace} {q : Call} {r : q.Reply} :
    errnos (h ++ [⟨q, r⟩]) = errnos h + errnoBy q := by
  simp [errnos]

end Trace

/-- A call has delivered bytes. -/
def Delivers (q : Call) (r : q.Reply) : Prop := Trace.receivedBy q r ≠ []

/-- The peer has closed the connection. -/
def Closes : Trace → (q : Call) → q.Reply → Prop
  | _, .recv _ _, r => r = some []
  | _, .read _ _, r => r = some []
  | _, _, _ => False

def Completion.buffer : Completion → Option ReadBuffer
  | .write _ _ _ => none
  | .read _ _ buffer _ => buffer

/-- The number of readable bytes: those at the start and those received. -/
def held (b₀ : ReadBuffer) (h : Trace) : ℕ :=
  b₀.readableBytes + h.received.length

/-- The buffer after a trace, in which each call has appended the bytes it has
delivered. -/
def ReadBuffer.after (b₀ : ReadBuffer) (h : Trace) :
    Except BufferFault ReadBuffer :=
  h.foldlM (fun b e =>
    if Trace.receivedBy e.1 e.2 = [] then .ok b
    else b.appendTobuffer (Trace.receivedBy e.1 e.2)) b₀

theorem ReadBuffer.after_snoc {b₀ b : ReadBuffer} {h : Trace}
    (hb : b₀.after h = .ok b) {q : Call} {r : q.Reply} :
    b₀.after (h ++ [⟨q, r⟩]) =
      if Trace.receivedBy q r = [] then .ok b
      else b.appendTobuffer (Trace.receivedBy q r) := by
  simp only [after, List.foldlM_append, List.foldlM_cons, List.foldlM_nil,
    bind_pure]
  show (b₀.after h >>= _) = _
  rw [hb]
  rfl

/-- `recv` is called although the buffer has `size` bytes. -/
def RecvsFull (b₀ : ReadBuffer) (size : ℕ) : Trace → (q : Call) → q.Reply → Prop
  | h, .recv _ _, _ => size ≤ held b₀ h
  | _, _, _ => False

/-- What `async_read` promises, for a buffer `b₀` and `size` bytes. -/
structure ReadsEnough (b₀ : ReadBuffer) (size : ℕ) (h : Trace) : Prop where
  guarded : ¬ Ever (RecvsFull b₀ size) h
  enough : ∀ s ∈ h.completions, s.ec.IsZero →
    (∃ b, s.buffer = some b ∧ size ≤ b.readableBytes) ∨ Ever Closes h
  atOnce : size ≤ b₀.readableBytes → ∃ s, h.completions = [s] ∧ s.ec.IsZero

/-- `M_retryTcpRead` has given up. Two readings of `errno` come before its own,
and its `recv` is the last call but for a reading of `errno`. -/
def GaveUp (h : Trace) : Prop := 3 ≤ h.errnos ∧ ¬ Latest Delivers h

/-- The replies that break a promise. With too few bytes these are: an `EISCONN`
when `case ERROR` begins, a last retry that delivers too little, and an `errno`
of 0 behind a failed helper. With enough bytes it is what leads to a `recv`; and
behind a failed helper an `errno` that becomes the error of a read that had
nothing to do. -/
def Spoils (b₀ : ReadBuffer) (size : ℕ) (budget : ℤ) :
    Trace → (q : Call) → q.Reply → Prop
  | h, .select _ _, w => size ≤ held b₀ h ∧ 0 ≤ w
  | h, .recv fd n, r => r.getD [] ≠ [] ∧ (h.errnos : ℤ) = budget + 2 ∧
      held b₀ h + (r.getD []).length < size ∧
      ∃ b, b₀.after (h ++ [⟨.recv fd n, r⟩]) = .ok b
  | h, .errno, e =>
      (h.errnos < 2 ∧ e = eisconn ∧ held b₀ h < size) ∨
      (2 ≤ h.errnos ∧ ¬ GaveUp h ∧ Retryable e ∧ size ≤ held b₀ h) ∨
      (GaveUp h ∧ e = 0 ∧ held b₀ h < size) ∨
      (GaveUp h ∧ e ≠ 0 ∧ size ≤ b₀.readableBytes)
  | _, _, _ => False

section

variable {b₀ : ReadBuffer} {size : ℕ} {budget : ℤ} {ctx : ClientContext}
variable {h : Trace}

/-! ## Judging a run -/

/-- The promises are kept, and no reply has broken one; or one has. -/
def Verdict (b₀ : ReadBuffer) (size : ℕ) (budget : ℤ) (h : Trace) : Prop :=
  ReadsEnough b₀ size h ↔ ¬ Ever (Spoils b₀ size budget) h

/-- `recv` has been called with enough bytes in the buffer. -/
structure Broken (b₀ : ReadBuffer) (size : ℕ) (budget : ℤ) (h : Trace) :
    Prop where
  full : Ever (RecvsFull b₀ size) h
  spoiled : Ever (Spoils b₀ size budget) h

theorem Broken.verdict (hb : Broken b₀ size budget h) :
    Verdict b₀ size budget h :=
  iff_of_false (fun henough => henough.guarded hb.full) fun hno => hno hb.spoiled

theorem Broken.snoc (hb : Broken b₀ size budget h) {q : Call} {r : q.Reply} :
    Broken b₀ size budget (h ++ [⟨q, r⟩]) :=
  ⟨ever_snoc.mpr (Or.inl hb.full), ever_snoc.mpr (Or.inl hb.spoiled)⟩

/-- Nothing has gone wrong so far. -/
structure Clean (b₀ : ReadBuffer) (size : ℕ) (budget : ℤ) (ctx : ClientContext)
    (h : Trace) : Prop where
  holding : Holding b₀ ctx h
  after : ∃ b, ctx.clientReadBuffer = some b ∧ b₀.after h = .ok b
  guarded : ¬ Ever (RecvsFull b₀ size) h
  faultless : ¬ Ever (Spoils b₀ size budget) h

theorem Holding.held_eq (hs : Holding b₀ ctx h) (hwf : b₀.WellFormed) :
    ∃ b, ctx.clientReadBuffer = some b ∧ b.readableBytes = held b₀ h := by
  obtain ⟨b, hb, hrcv⟩ := hs.buffer
  refine ⟨b, hb, ?_⟩
  rw [held, ← (hrcv hwf).wellFormed.readable_length, (hrcv hwf).readable,
    List.length_append, hwf.readable_length]

/-- A run without a callback, of a read that has something to do. -/
theorem Clean.unsubmitted (hc : ¬ Ever (RecvsFull b₀ size) h)
    (hno : ¬ Ever (Spoils b₀ size budget) h) (hh : h.completions = [])
    (hsize : b₀.readableBytes < size) : Verdict b₀ size budget h := by
  refine iff_of_true ⟨hc, ?_, ?_⟩ hno
  · intro s hs
    rw [hh] at hs
    exact absurd hs List.not_mem_nil
  · intro hle
    exact absurd hsize (Nat.not_lt.mpr hle)

/-- Submitting a callback, after which the promises are kept. -/
theorem Clean.submit (hc : Clean b₀ size budget ctx h) (hwf : b₀.WellFormed)
    {ec : ErrorCode} {n : ℕ} {c : ClientContext}
    (hec : ec.IsZero → size ≤ held b₀ h ∨ Ever Closes h)
    (hzero : size ≤ b₀.readableBytes → ec.IsZero) :
    Verdict b₀ size budget
      (h ++ [⟨.submit (.read ec n ctx.clientReadBuffer c), ()⟩]) := by
  obtain ⟨b, hb, hheld⟩ := hc.holding.held_eq hwf
  have hcomp : Trace.completions
      (h ++ [⟨.submit (.read ec n ctx.clientReadBuffer c), ()⟩]) =
        [.read ec n ctx.clientReadBuffer c] := by
    rw [Trace.completions_snoc, hc.holding.completions]
    rfl
  refine iff_of_true ⟨?_, ?_, ?_⟩ ?_
  · simpa [RecvsFull] using hc.guarded
  · intro s hs hs0
    rw [hcomp] at hs
    obtain rfl := List.mem_singleton.mp hs
    rcases hec hs0 with hle | hclosed
    · exact Or.inl ⟨b, hb, hheld ▸ hle⟩
    · exact Or.inr (ever_snoc.mpr (Or.inl hclosed))
  · intro hle
    exact ⟨_, hcomp, hzero hle⟩
  · simpa [Spoils] using hc.faultless

/-- Submitting a success for too few bytes. -/
theorem Holding.submit_short (hs : Holding b₀ ctx h) (hwf : b₀.WellFormed)
    {ec : ErrorCode} {n : ℕ} {c : ClientContext} (hec : ec.IsZero)
    (hopen : ¬ Ever Closes h) (hshort : held b₀ h < size)
    (hspoiled : Ever (Spoils b₀ size budget) h) :
    Verdict b₀ size budget
      (h ++ [⟨.submit (.read ec n ctx.clientReadBuffer c), ()⟩]) := by
  obtain ⟨b, hb, hheld⟩ := hs.held_eq hwf
  refine iff_of_false (fun henough => ?_) fun hno =>
    hno (ever_snoc.mpr (Or.inl hspoiled))
  have hmem : .read ec n ctx.clientReadBuffer c ∈ Trace.completions
      (h ++ [⟨.submit (.read ec n ctx.clientReadBuffer c), ()⟩]) := by
    rw [Trace.completions_snoc]
    exact List.mem_append_right _ (List.mem_singleton_self _)
  rcases henough.enough _ hmem hec with ⟨b', hb', hle⟩ | hclosed
  · have heq : some b = some b' := hb.symm.trans hb'
    cases heq
    omega
  · rcases ever_snoc.mp hclosed with hclosed | hfalse
    · exact hopen hclosed
    · exact hfalse

/-- Submitting an error for a read that had nothing to do. -/
theorem Holding.submit_idle (hs : Holding b₀ ctx h) {ec : ErrorCode} {n : ℕ}
    {c : ClientContext} (hec : ¬ ec.IsZero) (hfull : size ≤ b₀.readableBytes)
    (hspoiled : Ever (Spoils b₀ size budget) h) :
    Verdict b₀ size budget
      (h ++ [⟨.submit (.read ec n ctx.clientReadBuffer c), ()⟩]) := by
  refine iff_of_false (fun henough => ?_) fun hno =>
    hno (ever_snoc.mpr (Or.inl hspoiled))
  obtain ⟨s, hcomp, hzero⟩ := henough.atOnce hfull
  rw [Trace.completions_snoc, hs.completions] at hcomp
  cases hcomp
  exact hec hzero

/-! ## `M_retryTcpRead` -/

/-- The loop of the helper after `j` reads. Where the buffer had enough bytes
at the start there is an iteration left. -/
structure Helping (b₀ : ReadBuffer) (size : ℕ) (budget : ℤ) (n : ℕ)
    (ctx : ClientContext) (h : Trace) (j : ℕ) : Prop where
  clean : Clean b₀ size budget ctx h
  isOpen : ¬ Ever Closes h
  errnos : h.errnos = j + 2
  count : ctx.connectRetyCount = j
  max : ctx.maxRetyCount = budget
  lt : j < budget
  last : j = 0 ∨ Latest Delivers h
  todo : b₀.readableBytes < size ∨ 0 < n

/-- What the helper returns. -/
inductive Helped (b₀ : ReadBuffer) (size : ℕ) (budget : ℤ) (ctx : ClientContext)
    (h : Trace) : Prop where
  | broken (hb : Broken b₀ size budget h)
  | enough (hsuccess : ctx.isRetrySuccess = true)
      (hc : Clean b₀ size budget ctx h)
      (hsize : size ≤ held b₀ h ∨ Ever Closes h)
  | short (hsuccess : ctx.isRetrySuccess = true) (hs : Holding b₀ ctx h)
      (hopen : ¬ Ever Closes h) (hshort : held b₀ h < size)
      (hspoiled : Ever (Spoils b₀ size budget) h)
  | failed (hfailure : ctx.isRetrySuccess = false)
      (hc : Clean b₀ size budget ctx h) (hopen : ¬ Ever Closes h)
      (hgave : GaveUp h)

/-- How the helper ends. -/
def HelpedEnd (b₀ : ReadBuffer) (size : ℕ) (budget : ℤ) :
    Trace → Status (Except TaskEnd ClientContext) → Prop
  | _, .calling => True
  | h, .done (.ok c) => Helped b₀ size budget c h
  | h, _ => Verdict b₀ size budget h

/-- A call that delivers nothing and that nothing is wrong with. -/
theorem Clean.neutral (hc : Clean b₀ size budget ctx h) {q : Call} {r : q.Reply}
    (hrec : Trace.receivedBy q r = []) (hcomp : Trace.completedBy q r = [])
    (hfull : ¬ RecvsFull b₀ size h q r) (hok : ¬ Spoils b₀ size budget h q r) :
    Clean b₀ size budget ctx (h ++ [⟨q, r⟩]) where
  holding := hc.holding.neutral hrec hcomp
  after := by
    obtain ⟨b, hb, hafter⟩ := hc.after
    refine ⟨b, hb, ?_⟩
    rw [ReadBuffer.after_snoc hafter, if_pos hrec]
  guarded := by
    rw [ever_snoc]
    exact not_or.mpr ⟨hc.guarded, hfull⟩
  faultless := by
    rw [ever_snoc]
    exact not_or.mpr ⟨hc.faultless, hok⟩

theorem Clean.errno (hc : Clean b₀ size budget ctx h) {e : ℤ}
    (hok : ¬ Spoils b₀ size budget h .errno e) :
    Clean b₀ size budget ctx (h ++ [⟨.errno, e⟩]) :=
  hc.neutral rfl rfl (fun hfull => hfull) hok

theorem Clean.of_eq (hc : Clean b₀ size budget ctx h) {c : ClientContext}
    (hb : c.clientReadBuffer = ctx.clientReadBuffer) :
    Clean b₀ size budget c h :=
  ⟨hc.holding.of_eq hb, hb ▸ hc.after, hc.guarded, hc.faultless⟩

/-- The append of what a `recv` has delivered, and the buffer after it. -/
theorem Clean.append (hc : Clean b₀ size budget ctx h) (fd : ℤ) (n : ℕ)
    {data : Bytes} (hne : data ≠ []) (hlen : data.length ≤ 4096) :
    (∃ b', ctx.appendTobuffer data =
          .ok { ctx with clientReadBuffer := some b' } ∧
        Holding b₀ { ctx with clientReadBuffer := some b' }
          (h ++ [⟨.recv fd n, some data⟩]) ∧
        b₀.after (h ++ [⟨.recv fd n, some data⟩]) = .ok b') ∨
      ∃ e, ctx.appendTobuffer data = .error e ∧ e ≠ .returned ∧
        Outgrown b₀ (h ++ [⟨.recv fd n, some data⟩]) ∧
        ∀ b, b₀.after (h ++ [⟨.recv fd n, some data⟩]) ≠ .ok b := by
  obtain ⟨b, hb, hafter⟩ := hc.after
  have hnext : b₀.after (h ++ [⟨.recv fd n, some data⟩]) =
      b.appendTobuffer data := by
    rw [ReadBuffer.after_snoc hafter]
    exact if_neg hne
  rw [hnext]
  rcases hc.holding.append (q := .recv fd n) (r := some data) data rfl rfl hlen
    with ⟨b', happ, hs⟩ | ⟨e, happ, hend, hout⟩
  · refine Or.inl ⟨b', happ, hs, ?_⟩
    rw [ClientContext.appendTobuffer, hb] at happ
    cases hb' : b.appendTobuffer data with
    | ok b'' =>
        simp only [hb', Except.ok.injEq] at happ
        cases congrArg ClientContext.clientReadBuffer happ
        rfl
    | error f =>
        simp only [hb'] at happ
        cases f <;> cases happ
  · refine Or.inr ⟨e, happ, hend, hout, fun b'' hb'' => ?_⟩
    rw [appendTobuffer_ok hb hb''] at happ
    cases happ

/-- Before a `recv` of the helper, after `j` others. -/
structure Asking (b₀ : ReadBuffer) (size : ℕ) (budget : ℤ)
    (ctx : ClientContext) (h : Trace) (j : ℕ) : Prop where
  clean : Clean b₀ size budget ctx h
  isOpen : ¬ Ever Closes h
  errnos : h.errnos = j + 3
  count : ctx.connectRetyCount = j + 1
  max : ctx.maxRetyCount = budget
  lt : j < budget
  short : held b₀ h < size

/-- A `recv` of the helper that has delivered bytes. The last one is taken to be
a success, whatever it has delivered. -/
theorem Asking.data {n j : ℕ} (hs : Asking b₀ size budget ctx h j) (fd : ℤ)
    {x : UInt8} {data : Bytes} (hlen : (x :: data).length ≤ 1096) :
    Prog.afterIter (HelpedEnd b₀ size budget)
      (fun c h => ∃ j, Helping b₀ size budget n c h j)
      (retryTcpReadReceived size ctx (some (x :: data)))
      (h ++ [⟨.recv fd 1096, some (x :: data)⟩]) := by
  obtain ⟨hc, hopen, herrnos, hcount, hmax, hlt, hshort⟩ := hs
  have htodo : b₀.readableBytes < size :=
    Nat.lt_of_le_of_lt (Nat.le_add_right _ _) hshort
  have hopen' : ¬ Ever Closes (h ++ [⟨.recv fd 1096, some (x :: data)⟩]) := by
    rw [ever_snoc]
    rintro (hclosed | hnil)
    · exact hopen hclosed
    · cases hnil
  have hguarded : ¬ Ever (RecvsFull b₀ size)
      (h ++ [⟨.recv fd 1096, some (x :: data)⟩]) := by
    rw [ever_snoc]
    exact not_or.mpr ⟨hc.guarded, Nat.not_le.mpr hshort⟩
  have hheld : held b₀ (h ++ [⟨.recv fd 1096, some (x :: data)⟩]) =
      held b₀ h + (x :: data).length := by
    simp [held, Nat.add_assoc]
  rcases hc.append fd 1096 (List.cons_ne_nil x data) (hlen.trans (by omega))
    with ⟨b', happ, hs', hafter⟩ | ⟨e, happ, -, hout, hafter⟩
  · have hclean (hlast : (j : ℤ) + 1 < budget ∨
        size ≤ held b₀ h + (x :: data).length) :
        Clean b₀ size budget { ctx with clientReadBuffer := some b' }
          (h ++ [⟨.recv fd 1096, some (x :: data)⟩]) := by
      refine ⟨hs', ⟨b', rfl, hafter⟩, hguarded, ?_⟩
      rw [ever_snoc]
      rintro (hspoils | ⟨-, hbudget, hless, -⟩)
      · exact hc.faultless hspoils
      · simp only [Option.getD_some] at hless
        omega
    simp only [retryTcpReadReceived, happ]
    split
    · next hagain =>
      have hbudget : (j : ℤ) + 1 < budget := by
        have := hagain.2
        simp only [hcount, hmax] at this
        exact this
      refine ⟨j + 1, hclean (Or.inl hbudget), hopen', ?_, ?_, hmax, ?_, ?_, ?_⟩
      · rw [Trace.errnos_snoc, herrnos]
        rfl
      · simp only [hcount]
        exact (Int.natCast_succ j).symm
      · exact_mod_cast hbudget
      · exact Or.inr (latest_snoc.mpr (List.cons_ne_nil x data))
      · exact Or.inl htodo
    · next hlast =>
      rw [if_pos (by omega)]
      by_cases henough : size ≤ held b₀ h + (x :: data).length
      · refine .enough rfl ?_ (Or.inl (hheld ▸ henough))
        exact (hclean (Or.inr henough)).of_eq rfl
      · -- the budget is used up
        have hbudget : (j : ℤ) + 1 = budget := by
          have : ¬ ((x :: data).length < size ∧ budget > j + 1) := by
            simpa only [hcount, hmax] using hlast
          omega
        refine .short rfl (hs'.of_eq rfl) hopen' ?_ ?_
        · rw [hheld]
          exact Nat.not_le.mp henough
        · refine ever_snoc.mpr (Or.inr ⟨List.cons_ne_nil x data, ?_, ?_, b',
            hafter⟩)
          · rw [herrnos]
            omega
          · exact Nat.not_le.mp henough
  · simp only [retryTcpReadReceived, happ]
    refine Clean.unsubmitted hguarded ?_ hout.completions htodo
    rw [ever_snoc]
    rintro (hspoils | ⟨-, -, -, b, hb⟩)
    · exact hc.faultless hspoils
    · exact hafter b hb

/-- What is done with the reply to a `recv` of the helper. -/
theorem retryTcpReadReceived_judged {n j : ℕ} (fd : ℤ) {r : Option Bytes}
    (hr : ∀ data, r = some data → data.length ≤ 1096)
    (hs : Asking b₀ size budget ctx h j) :
    Prog.afterIter (HelpedEnd b₀ size budget)
      (fun c h => ∃ j, Helping b₀ size budget n c h j)
      (retryTcpReadReceived size ctx r) (h ++ [⟨.recv fd 1096, r⟩]) := by
  have hfull : ¬ RecvsFull b₀ size h (.recv fd 1096) r :=
    Nat.not_le.mpr hs.short
  rcases r with _ | bytes
  · have hc := hs.clean.neutral (q := .recv fd 1096) (r := none) rfl rfl hfull
      (fun hspoils => hspoils.1 rfl)
    have hopen : ¬ Ever Closes (h ++ [⟨.recv fd 1096, none⟩]) := by
      rw [ever_snoc]
      rintro (hclosed | hnil)
      · exact hs.isOpen hclosed
      · cases hnil
    have hgives : ctx.maxRetyCount ≥ ctx.connectRetyCount := by
      rw [hs.max, hs.count]
      exact hs.lt
    rw [retryTcpReadReceived, if_pos hgives]
    refine .failed rfl (hc.of_eq rfl) hopen ⟨?_, ?_⟩
    · rw [Trace.errnos_snoc, hs.errnos]
      exact Nat.le_add_left _ _
    · rw [latest_snoc]
      exact fun hne => hne rfl
  · rcases bytes with _ | ⟨x, data⟩
    · have hc := hs.clean.neutral (q := .recv fd 1096) (r := some []) rfl rfl
        hfull (fun hspoils => hspoils.1 rfl)
      obtain ⟨b, hb, -⟩ := hs.clean.after
      simp only [retryTcpReadReceived, hb]
      rw [if_pos (Nat.zero_le _)]
      refine .enough rfl (hc.of_eq hb.symm) (Or.inr ?_)
      exact ever_snoc.mpr (Or.inr rfl)
    · exact hs.data fd (hr _ rfl)

/-- Nothing mends a broken promise. -/
theorem Broken.afterIter (hb : Broken b₀ size budget h)
    {J : ClientContext → Trace → Prop}
    (it : Iter ClientContext (Except TaskEnd ClientContext)) :
    Prog.afterIter (HelpedEnd b₀ size budget)
      (fun c h => Broken b₀ size budget h ∨ J c h) it h := by
  cases it with
  | next c => exact Or.inl hb
  | done result =>
      cases result with
      | ok c => exact .broken hb
      | error e => exact hb.verdict

theorem Helping.not_gaveUp {n j : ℕ} (hs : Helping b₀ size budget n ctx h j) :
    ¬ GaveUp h := by
  rintro ⟨hthree, hlast⟩
  rcases hs.last with hzero | hdata
  · have herrnos := hs.errnos
    omega
  · exact hlast hdata

theorem retryTcpReadStep_judged {n j : ℕ}
    (hs : Helping b₀ size budget n ctx h j) (n' : ℕ) :
    (retryTcpReadStep size ctx).Sat ReadContract
      (Prog.andThen (HelpedEnd b₀ size budget)
        (Prog.afterIter (HelpedEnd b₀ size budget) fun c h =>
          Broken b₀ size budget h ∨ ∃ j, Helping b₀ size budget n' c h j)) h := by
  have hlt : ctx.connectRetyCount < ctx.maxRetyCount := by
    rw [hs.count, hs.max]
    exact hs.lt
  rw [retryTcpReadStep, if_pos hlt]
  refine Prog.sat_perform_bind.mpr ⟨trivial, fun (e : ℤ) _ => ?_⟩
  split
  · next hretry =>
    by_cases hfull : size ≤ held b₀ h
    · -- the `recv` that follows is one too many
      have hspoils : Spoils b₀ size budget h .errno e := by
        refine Or.inr (Or.inl ⟨?_, hs.not_gaveUp, hretry, hfull⟩)
        rw [hs.errnos]
        exact Nat.le_add_left _ _
      have hfull' : size ≤ held b₀ (h ++ [⟨.errno, e⟩]) := by
        simpa [held] using hfull
      refine Prog.sat_perform_bind.mpr ⟨trivial, fun r _ => ?_⟩
      refine Broken.afterIter ⟨?_, ?_⟩ _
      · exact ever_snoc.mpr (Or.inr hfull')
      · exact ever_snoc.mpr (Or.inl (ever_snoc.mpr (Or.inr hspoils)))
    · have hok : ¬ Spoils b₀ size budget h .errno e := by
        rintro (⟨hfirst, -⟩ | ⟨-, -, -, hfull'⟩ | ⟨hgave, -⟩ | ⟨hgave, -⟩)
        · rw [hs.errnos] at hfirst
          omega
        · exact hfull hfull'
        · exact hs.not_gaveUp hgave
        · exact hs.not_gaveUp hgave
      have hasking : Asking b₀ size budget
          { ctx with connectRetyCount := ctx.connectRetyCount + 1 }
          (h ++ [⟨.errno, e⟩]) j := by
        refine ⟨?_, ?_, ?_, ?_, hs.max, hs.lt, ?_⟩
        · exact (hs.clean.errno hok).of_eq rfl
        · simpa [Closes] using hs.isOpen
        · rw [Trace.errnos_snoc, hs.errnos]
          rfl
        · simp only [hs.count]
        · simpa [held] using hfull
      refine Prog.sat_perform_bind.mpr ⟨trivial, fun r hr => ?_⟩
      have hend := retryTcpReadReceived_judged (n := n') ctx.socketfd hr hasking
      cases hit : retryTcpReadReceived size
          { ctx with connectRetyCount := ctx.connectRetyCount + 1 } r with
      | next c =>
          rw [hit] at hend
          show Prog.afterIter _ _ (retryTcpReadReceived size _ r) _
          rw [hit]
          exact Or.inr hend
      | done result =>
          rw [hit] at hend
          show Prog.afterIter _ _ (retryTcpReadReceived size _ r) _
          rw [hit]
          exact hend
  · next hother =>
    have hok : ¬ Spoils b₀ size budget h .errno e := by
      rintro (⟨hfirst, -⟩ | ⟨-, -, hretry, -⟩ | ⟨hgave, -⟩ | ⟨hgave, -⟩)
      · rw [hs.errnos] at hfirst
        omega
      · exact hother hretry
      · exact hs.not_gaveUp hgave
      · exact hs.not_gaveUp hgave
    refine .failed rfl ?_ ?_ ⟨?_, ?_⟩
    · exact (hs.clean.errno hok).of_eq rfl
    · simpa [Closes] using hs.isOpen
    · rw [Trace.errnos_snoc, hs.errnos]
      exact Nat.le_add_left _ _
    · rw [latest_snoc]
      exact fun hne => hne rfl

theorem Helped.of_eq (hs : Helped b₀ size budget ctx h) {c : ClientContext}
    (hb : c.clientReadBuffer = ctx.clientReadBuffer)
    (hflag : c.isRetrySuccess = ctx.isRetrySuccess) :
    Helped b₀ size budget c h := by
  cases hs with
  | broken hbroken => exact .broken hbroken
  | enough hsuccess hc hsize =>
      exact .enough (hflag.trans hsuccess) (hc.of_eq hb) hsize
  | short hsuccess hs hopen hshort hspoiled =>
      exact .short (hflag.trans hsuccess) (hs.of_eq hb) hopen hshort hspoiled
  | failed hfailure hc hopen hgave =>
      exact .failed (hflag.trans hfailure) (hc.of_eq hb) hopen hgave

/-- The helper, for an `errno` that is not `EISCONN`. -/
theorem retryTcpRead_judged (hc : Clean b₀ size ctx.retryBudget ctx h)
    (hopen : ¬ Ever Closes h) (herrnos : h.errnos = 2) {e : ℤ} (he : e ≠ eisconn)
    {fuel : ℕ} (hfuel : 0 < fuel) :
    (retryTcpRead fuel ctx e size).Sat ReadContract
      (HelpedEnd b₀ size ctx.retryBudget) h := by
  obtain ⟨hcount, hmax, hbuffer⟩ := retryStart_fields ctx
  have hloop : (Prog.iterate (retryTcpReadStep size) fuel ctx.retryStart).Sat
      ReadContract (HelpedEnd b₀ size ctx.retryBudget) h := by
    refine Prog.sat_iterate (fun n c h => Broken b₀ size ctx.retryBudget h ∨
      ∃ j, Helping b₀ size ctx.retryBudget n c h j) ?_ ?_ fuel _ h ?_
    · rintro c h (hbroken | ⟨j, hs⟩)
      · exact hbroken.verdict
      · have htodo := hs.todo.resolve_right (Nat.lt_irrefl 0)
        exact Clean.unsubmitted hs.clean.guarded hs.clean.faultless
          hs.clean.holding.completions htodo
    · rintro n c h (hbroken | ⟨j, hs⟩)
      · refine (Prog.sat_of_kept (fun _ _ _ hb => hb.snoc) _ hbroken).mono ?_
        intro h' st hbroken
        cases st with
        | calling => trivial
        | stuck => exact hbroken.verdict
        | undefined => exact hbroken.verdict
        | done it => exact hbroken.afterIter it
      · exact retryTcpReadStep_judged hs n
    · refine Or.inr ⟨0, hc.of_eq hbuffer, hopen, herrnos, hcount, hmax, ?_,
        Or.inl rfl, Or.inr hfuel⟩
      exact retryBudget_pos ctx
  rw [retryTcpRead, if_neg he]
  refine hloop.bind (fun _ hst => hst) (fun _ hst => hst) fun result h hst => ?_
  cases result with
  | error e => exact hst
  | ok c => exact Helped.of_eq hst rfl rfl

/-- The helper after the second `errno` of `case ERROR`. -/
theorem retryTcpRead_asked
    (hc : Clean b₀ size ctx.retryBudget ctx h) (hopen : ¬ Ever Closes h)
    (herrnos : h.errnos = 1) (e : ℤ) {fuel : ℕ} (hfuel : 0 < fuel) :
    (retryTcpRead fuel ctx e size).Sat ReadContract
      (HelpedEnd b₀ size ctx.retryBudget) (h ++ [⟨.errno, e⟩]) := by
  have hheld : held b₀ (h ++ [⟨.errno, e⟩]) = held b₀ h := by simp [held]
  have hopen' : ¬ Ever Closes (h ++ [⟨.errno, e⟩]) := by
    simpa [Closes] using hopen
  have hnone : ¬ GaveUp h := by
    rintro ⟨hthree, -⟩
    omega
  by_cases hshort : e = eisconn ∧ held b₀ h < size
  · obtain ⟨rfl, hless⟩ := hshort
    have hspoiled : Ever (Spoils b₀ size ctx.retryBudget)
        (h ++ [⟨.errno, eisconn⟩]) :=
      ever_snoc.mpr (Or.inr (Or.inl ⟨by omega, rfl, hless⟩))
    rw [retryTcpRead, if_pos rfl]
    exact .short rfl ((hc.holding.neutral rfl rfl).of_eq rfl) hopen'
      (hheld ▸ hless) hspoiled
  · have hok : ¬ Spoils b₀ size ctx.retryBudget h .errno e := by
      rintro (⟨-, hbad⟩ | ⟨htwo, -⟩ | ⟨hgave, -⟩ | ⟨hgave, -⟩)
      · exact hshort hbad
      · omega
      · exact hnone hgave
      · exact hnone hgave
    have hc' := hc.errno hok
    by_cases he : e = eisconn
    · rw [retryTcpRead, if_pos he]
      refine .enough rfl (hc'.of_eq rfl) (Or.inl ?_)
      rw [hheld]
      exact Nat.not_lt.mp fun hless => hshort ⟨he, hless⟩
    · refine retryTcpRead_judged hc' hopen' ?_ he hfuel
      rw [Trace.errnos_snoc, herrnos]
      rfl

/-! ## `async_read` -/

/-- How the task ends. -/
def Judged (b₀ : ReadBuffer) (size : ℕ) (budget : ℤ) :
    Trace → Status TaskEnd → Prop
  | _, .calling => True
  | h, _ => Verdict b₀ size budget h

/-- The loop of the task, with `n` iterations left. A buffer with enough bytes
at the start gets no further than `case ERROR`. -/
structure Basic (b₀ : ReadBuffer) (size : ℕ) (budget : ℤ) (n : ℕ)
    (s : BasicReadState × ClientContext) (h : Trace) : Prop where
  clean : Clean b₀ size budget s.2 h
  budget : s.2.retryBudget = budget
  errnos : h.errnos = 0
  todo : b₀.readableBytes < size ∨
    s.1 = .reading ∧ 1 < n ∨ s.1 = .error ∧ 0 < n
  stage : match s.1 with
    | .reading => ¬ Ever Closes h ∧
        (held b₀ h < size ∨ size ≤ b₀.readableBytes)
    | .error => ¬ Ever Closes h ∧
        (held b₀ h < size ∨ size ≤ b₀.readableBytes)
    | .verify => ¬ Ever Closes h
    | .close => Ever Closes h
    | .done => size ≤ held b₀ h

/-- What an iteration leaves. -/
abbrev BasicNext (b₀ : ReadBuffer) (size : ℕ) (budget : ℤ) (n : ℕ) :
    Trace → Status (Iter (BasicReadState × ClientContext) TaskEnd) → Prop :=
  Prog.andThen (Judged b₀ size budget)
    (Prog.afterIter (Judged b₀ size budget) fun s h =>
      Broken b₀ size budget h ∨ Basic b₀ size budget n s h)

variable {n : ℕ}

/-- Submitting the callback at the end of a case. -/
theorem sat_submitRead_judged {ok : Trace → (q : Call) → q.Reply → Prop}
    {ec : ErrorCode} {bytes : ℕ}
    (hverdict : ∀ c, Verdict b₀ size budget
      (h ++ [⟨.submit (.read ec bytes ctx.clientReadBuffer c), ()⟩])) :
    (submitRead ec bytes ctx >>= fun _ =>
        (pure (.done .returned) :
          Net (Iter (BasicReadState × ClientContext) TaskEnd))).Sat ok
      (BasicNext b₀ size budget n) h := by
  rw [Prog.sat_bind]
  exact sat_submitRead trivial (hverdict _)

theorem sat_submitReadable_judged {ok : Trace → (q : Call) → q.Reply → Prop}
    {ec : ErrorCode} (hs : Holding b₀ ctx h)
    (hverdict : ∀ bytes c, Verdict b₀ size budget
      (h ++ [⟨.submit (.read ec bytes ctx.clientReadBuffer c), ()⟩])) :
    (submitReadable ec ctx >>= fun e =>
        (pure (.done e) :
          Net (Iter (BasicReadState × ClientContext) TaskEnd))).Sat ok
      (BasicNext b₀ size budget n) h := by
  obtain ⟨b, hb, -⟩ := hs.buffer
  rw [hb] at hverdict
  rw [Prog.sat_bind]
  exact sat_submitReadable hb trivial (hverdict _ _)

theorem Broken.sat (hb : Broken b₀ size budget h) (p : BasicReadStep) :
    p.Sat ReadContract (BasicNext b₀ size budget n) h := by
  refine (Prog.sat_of_kept (fun _ _ _ hb => hb.snoc) p hb).mono ?_
  intro h' st hb
  cases st with
  | calling => trivial
  | stuck => exact hb.verdict
  | undefined => exact hb.verdict
  | done it =>
      cases it with
      | done e => exact hb.verdict
      | next s => exact Or.inl hb

/-- The `recv` of `case READING`, with too few bytes in the buffer. -/
theorem readReading_recv (hc : Clean b₀ size budget ctx h)
    (hbudget : ctx.retryBudget = budget) (herrnos : h.errnos = 0)
    (hopen : ¬ Ever Closes h) (hshort : held b₀ h < size) :
    (do match ← perform (.recv ctx.socketfd 4096) with
      | none => return .next (.error, ctx)
      | some [] => return .next (.close, ctx)
      | some data =>
        match ctx.appendTobuffer data with
        | .error e => return .done e
        | .ok ctx => return .next (.verify, ctx) : BasicReadStep).Sat
      ReadContract (BasicNext b₀ size budget n) h := by
  refine Prog.sat_perform_bind.mpr ⟨trivial, fun r hr => ?_⟩
  have htodo : b₀.readableBytes < size :=
    Nat.lt_of_le_of_lt (Nat.le_add_right _ _) hshort
  have hfull : ¬ RecvsFull b₀ size h (.recv ctx.socketfd 4096) r :=
    Nat.not_le.mpr hshort
  have hok : ¬ Spoils b₀ size budget h (.recv ctx.socketfd 4096) r := by
    rintro ⟨-, hspent, -⟩
    have hpos := retryBudget_pos ctx
    omega
  have herrnos' : Trace.errnos (h ++ [⟨.recv ctx.socketfd 4096, r⟩]) = 0 := by
    simpa using herrnos
  rcases r with _ | bytes
  · refine Or.inr ⟨hc.neutral rfl rfl hfull hok, hbudget, herrnos',
      Or.inl htodo, ?_, ?_⟩
    · rw [ever_snoc]
      rintro (hclosed | hnil)
      · exact hopen hclosed
      · cases hnil
    · exact Or.inl (by simpa [held] using hshort)
  · rcases bytes with _ | ⟨x, data⟩
    · refine Or.inr ⟨hc.neutral rfl rfl hfull hok, hbudget, herrnos',
        Or.inl htodo, ?_⟩
      exact ever_snoc.mpr (Or.inr rfl)
    · have hguarded := not_or.mpr ⟨hc.guarded, hfull⟩
      have hfaultless := not_or.mpr ⟨hc.faultless, hok⟩
      rw [← ever_snoc] at hguarded hfaultless
      rcases hc.append ctx.socketfd 4096 (List.cons_ne_nil x data) (hr _ rfl)
        with ⟨b', happ, hs, hafter⟩ | ⟨e, happ, -, hout, -⟩
      · simp only [happ]
        refine Or.inr ⟨⟨hs, ⟨b', rfl, hafter⟩, hguarded, hfaultless⟩, hbudget,
          herrnos', Or.inl htodo, ?_⟩
        show ¬ Ever Closes _
        rw [ever_snoc]
        rintro (hclosed | hnil)
        · exact hopen hclosed
        · cases hnil
      · simp only [happ]
        exact Clean.unsubmitted hguarded hfaultless hout.completions htodo

theorem readReading_judged
    (hs : Basic b₀ size budget (n + 1) (.reading, ctx) h) :
    (readReading ctx).Sat ReadContract (BasicNext b₀ size budget n) h := by
  obtain ⟨hc, hbudget, herrnos, htodo, hopen, hsize⟩ := hs
  simp only at hc hbudget
  rw [readReading]
  refine Prog.sat_perform_bind.mpr ⟨trivial, fun (w : ℤ) _ => ?_⟩
  have hopen' : ¬ Ever Closes (h ++ [⟨.select ctx.socketfd ctx.timeout, w⟩]) := by
    simpa [Closes] using hopen
  have herrnos' : Trace.errnos
      (h ++ [⟨.select ctx.socketfd ctx.timeout, w⟩]) = 0 := by
    simpa using herrnos
  have hheld : held b₀ (h ++ [⟨.select ctx.socketfd ctx.timeout, w⟩]) =
      held b₀ h := by
    simp [held]
  split
  · next hneg =>
    have hc' := hc.neutral (q := .select ctx.socketfd ctx.timeout) (r := w)
      rfl rfl (fun hfull => hfull) (fun hspoils => absurd hspoils.2
        (Int.not_le.mpr hneg))
    refine Or.inr ⟨hc', hbudget, herrnos', ?_, hopen', ?_⟩
    · rcases htodo with hless | ⟨-, hn⟩ | ⟨hno, -⟩
      · exact Or.inl hless
      · exact Or.inr (Or.inr ⟨rfl, Nat.lt_of_succ_lt_succ hn⟩)
      · cases hno
    · rw [hheld]
      exact hsize
  · next hready =>
    by_cases hfull : size ≤ held b₀ h
    · have hspoils : Spoils b₀ size budget h
          (.select ctx.socketfd ctx.timeout) w := ⟨hfull, Int.not_lt.mp hready⟩
      refine Prog.sat_perform_bind.mpr ⟨trivial, fun r _ => Broken.sat ⟨?_, ?_⟩ _⟩
      · refine ever_snoc.mpr (Or.inr ?_)
        show size ≤ held b₀ _
        rw [hheld]
        exact hfull
      · exact ever_snoc.mpr (Or.inl (ever_snoc.mpr (Or.inr hspoils)))
    · have hc' := hc.neutral (q := .select ctx.socketfd ctx.timeout) (r := w)
        rfl rfl (fun hrecv => hrecv) (fun hspoils => hfull hspoils.1)
      refine readReading_recv hc' hbudget herrnos' hopen' ?_
      rw [hheld]
      exact Nat.not_le.mp hfull

/-- What is done with what the helper returns. -/
theorem readError_helped (hwf : b₀.WellFormed) {c : ClientContext}
    (hs : Helped b₀ size budget c h) (ctx : ClientContext) :
    (if c.isRetrySuccess then do
        let e ← submitReadable {} (ctx.moveAssign c)
        return .done e
      else do
        let errno ← perform .errno
        let _ ← submitRead ⟨errno, .system⟩ 0
          { ctx with clientReadBuffer := c.clientReadBuffer }
        return .done .returned : BasicReadStep).Sat
      ReadContract (BasicNext b₀ size budget n) h := by
  cases hs with
  | broken hbroken => exact hbroken.sat _
  | enough hsuccess hc hsize =>
      rw [if_pos hsuccess]
      have hmoved : Clean b₀ size budget (ctx.moveAssign c) h := hc.of_eq rfl
      refine sat_submitReadable_judged hmoved.holding fun bytes c' => ?_
      exact hmoved.submit hwf (fun _ => hsize) fun _ => rfl
  | short hsuccess hs hopen hshort hspoiled =>
      rw [if_pos hsuccess]
      have hmoved : Holding b₀ (ctx.moveAssign c) h := hs.of_eq rfl
      refine sat_submitReadable_judged hmoved fun bytes c' => ?_
      exact hmoved.submit_short hwf rfl hopen hshort hspoiled
  | failed hfailure hc hopen hgave =>
      rw [if_neg (by simp [hfailure])]
      refine Prog.sat_perform_bind.mpr ⟨trivial, fun (e : ℤ) _ => ?_⟩
      refine sat_submitRead_judged fun c' => ?_
      have hopen' : ¬ Ever Closes (h ++ [⟨.errno, e⟩]) := by
        simpa [Closes] using hopen
      have hheld : held b₀ (h ++ [⟨.errno, e⟩]) = held b₀ h := by simp [held]
      have hs : Holding b₀ { ctx with clientReadBuffer := c.clientReadBuffer }
          (h ++ [⟨.errno, e⟩]) := (hc.holding.neutral rfl rfl).of_eq rfl
      by_cases hshort : e = 0 ∧ held b₀ h < size
      · have hspoils : Spoils b₀ size budget h .errno e :=
          Or.inr (Or.inr (Or.inl ⟨hgave, hshort⟩))
        exact hs.submit_short hwf hshort.1 hopen' (hheld ▸ hshort.2)
          (ever_snoc.mpr (Or.inr hspoils))
      · by_cases hidle : e ≠ 0 ∧ size ≤ b₀.readableBytes
        · have hspoils : Spoils b₀ size budget h .errno e :=
            Or.inr (Or.inr (Or.inr ⟨hgave, hidle⟩))
          exact hs.submit_idle hidle.1 hidle.2
            (ever_snoc.mpr (Or.inr hspoils))
        · have hok : ¬ Spoils b₀ size budget h .errno e := by
            rintro (⟨htwo, -⟩ | ⟨-, hno, -⟩ | ⟨-, hbad⟩ | ⟨-, hbad⟩)
            · have hthree := hgave.1
              omega
            · exact hno hgave
            · exact hshort hbad
            · exact hidle hbad
          have hc' : Clean b₀ size budget
              { ctx with clientReadBuffer := c.clientReadBuffer }
              (h ++ [⟨.errno, e⟩]) := (hc.errno hok).of_eq rfl
          refine hc'.submit hwf (fun hzero => Or.inl ?_) fun hle => ?_
          · rw [hheld]
            exact Nat.not_lt.mp fun hless => hshort ⟨hzero, hless⟩
          · by_contra hne
            exact hidle ⟨hne, hle⟩

theorem readError_judged (hwf : b₀.WellFormed) {fuel : ℕ} (hfuel : 0 < fuel)
    (hs : Basic b₀ size budget (n + 1) (.error, ctx) h) :
    (readError fuel size ctx).Sat ReadContract (BasicNext b₀ size budget n)
      h := by
  obtain ⟨hc, rfl, herrnos, -, hopen, hsize⟩ := hs
  simp only at hc
  rw [readError]
  refine Prog.sat_perform_bind.mpr ⟨trivial, fun (e : ℤ) _ => ?_⟩
  have hheld : held b₀ (h ++ [⟨.errno, e⟩]) = held b₀ h := by simp [held]
  have hopen' : ¬ Ever Closes (h ++ [⟨.errno, e⟩]) := by
    simpa [Closes] using hopen
  have hnone : ¬ GaveUp h := by
    rintro ⟨hthree, -⟩
    omega
  have hok : ¬ (e = eisconn ∧ held b₀ h < size) →
      ¬ Spoils b₀ size ctx.retryBudget h .errno e := by
    rintro hnot (⟨-, hbad⟩ | ⟨htwo, -⟩ | ⟨hgave, -⟩ | ⟨hgave, -⟩)
    · exact hnot hbad
    · omega
    · exact hnone hgave
    · exact hnone hgave
  split
  · next hconn =>
    refine sat_submitRead_judged fun c => ?_
    by_cases hshort : held b₀ h < size
    · have hspoiled : Ever (Spoils b₀ size ctx.retryBudget)
          (h ++ [⟨.errno, e⟩]) :=
        ever_snoc.mpr (Or.inr (Or.inl ⟨by omega, hconn, hshort⟩))
      exact (hc.holding.neutral rfl rfl).submit_short hwf rfl hopen'
        (hheld ▸ hshort) hspoiled
    · have hc' := hc.errno (hok fun hbad => hshort hbad.2)
      refine hc'.submit hwf (fun _ => Or.inl ?_) fun _ => rfl
      rw [hheld]
      exact Nat.not_lt.mp hshort
  · next hother =>
    have hc' := hc.errno (hok fun hbad => hother hbad.1)
    refine Prog.sat_perform_bind.mpr ⟨trivial, fun (e' : ℤ) _ => ?_⟩
    have hone : Trace.errnos (h ++ [⟨.errno, e⟩]) = 1 := by
      rw [Trace.errnos_snoc, herrnos]
      rfl
    refine (retryTcpRead_asked hc' hopen' hone e' hfuel).bind
      (fun _ hst => hst) (fun _ hst => hst) fun result h' hst => ?_
    cases result with
    | error end' => exact hst
    | ok c => exact readError_helped hwf hst ctx

theorem readClose_judged (hwf : b₀.WellFormed)
    (hs : Basic b₀ size budget (n + 1) (.close, ctx) h) :
    (readClose ctx).Sat ReadContract (BasicNext b₀ size budget n) h := by
  have hc : Clean b₀ size budget ctx h := hs.clean
  have hclosed : Ever Closes h := hs.stage
  have hsubmit : ∀ bytes c, Verdict b₀ size budget
      (h ++ [⟨.submit (.read {} bytes ctx.clientReadBuffer c), ()⟩]) :=
    fun _ _ => hc.submit hwf (fun _ => Or.inr hclosed) fun _ => rfl
  obtain ⟨b, hb, -⟩ := hc.after
  rw [readClose]
  simp only [hb]
  split
  · exact sat_submitRead_judged (hsubmit _)
  · exact sat_submitRead_judged (hsubmit _)

theorem readVerify_judged (hwf : b₀.WellFormed)
    (hs : Basic b₀ size budget (n + 1) (.verify, ctx) h) :
    (readVerify size ctx).Sat ReadContract (BasicNext b₀ size budget n) h := by
  obtain ⟨hc, hbudget, herrnos, htodo, hopen⟩ := hs
  have htodo : b₀.readableBytes < size := by
    rcases htodo with hless | ⟨hno, -⟩ | ⟨hno, -⟩
    · exact hless
    · cases hno
    · cases hno
  obtain ⟨b, hb, hheld⟩ := hc.holding.held_eq hwf
  rw [readVerify]
  simp only at hb
  simp only [hb, hheld]
  split
  · next hle => exact Or.inr ⟨hc, hbudget, herrnos, Or.inl htodo, hle⟩
  · next hless =>
    refine Or.inr ⟨hc, hbudget, herrnos, Or.inl htodo, hopen, Or.inl ?_⟩
    exact Nat.not_le.mp hless

theorem readStep_judged (hwf : b₀.WellFormed) {fuel : ℕ} (hfuel : 0 < fuel)
    {s : BasicReadState × ClientContext}
    (hs : Basic b₀ size budget (n + 1) s h) :
    (readStep fuel size s).Sat ReadContract (BasicNext b₀ size budget n) h := by
  obtain ⟨state, c⟩ := s
  cases state with
  | reading => exact readReading_judged hs
  | close => exact readClose_judged hwf hs
  | error => exact readError_judged hwf hfuel hs
  | verify => exact readVerify_judged hwf hs
  | done =>
      have hc : Clean b₀ size budget c h := hs.clean
      refine sat_submitReadable_judged hc.holding fun bytes c' => ?_
      exact hc.submit hwf (fun _ => Or.inl hs.stage) fun _ => rfl

/-- The number of bytes that is asked for. -/
def readSize (chacheSize : ℕ) : ℕ := if chacheSize ≤ 0 then 4096 else chacheSize

theorem asyncRead_judged (hwf : b₀.WellFormed) (ctx : ClientContext)
    (chacheSize : ℕ) {fuel : ℕ} (hfuel : 1 < fuel) :
    (asyncRead fuel (some b₀) ctx chacheSize).Sat ReadContract
      (Judged b₀ (readSize chacheSize) ctx.retryBudget) [] := by
  refine Prog.sat_iterate (fun n s h =>
    Broken b₀ (readSize chacheSize) ctx.retryBudget h ∨
      Basic b₀ (readSize chacheSize) ctx.retryBudget n s h) ?_ ?_ fuel _ [] ?_
  · rintro s h (hbroken | hs)
    · exact hbroken.verdict
    · have htodo : b₀.readableBytes < readSize chacheSize := by
        rcases hs.todo with hless | ⟨-, hno⟩ | ⟨-, hno⟩
        · exact hless
        · exact absurd hno (Nat.not_lt_zero 1)
        · exact absurd hno (Nat.lt_irrefl 0)
      exact Clean.unsubmitted hs.clean.guarded hs.clean.faultless
        hs.clean.holding.completions htodo
  · rintro n s h (hbroken | hs)
    · exact hbroken.sat _
    · exact readStep_judged hwf (Nat.zero_lt_of_lt hfuel) hs
  · refine Or.inr ⟨⟨⟨rfl, b₀, rfl, fun hwf => ⟨hwf, (List.append_nil _).symm,
      Nat.le_add_right _ _⟩⟩, ⟨b₀, rfl, rfl⟩, not_ever_nil, not_ever_nil⟩, rfl,
      rfl, Or.inr (Or.inl ⟨rfl, hfuel⟩), not_ever_nil, ?_⟩
    exact Nat.lt_or_ge b₀.readableBytes (readSize chacheSize)

/-- **When `async_read` keeps its promises.** For every buffer at the start,
every number of bytes and every sequence of replies: no `recv` is called with
enough bytes in the buffer, a success is reported only with enough bytes or at
the end of the stream, and a read that has nothing to do succeeds at once, if
and only if no reply spoils it. -/
theorem asyncRead_enough_iff (b₀ : ReadBuffer) (hwf : b₀.WellFormed)
    (ctx : ClientContext) (chacheSize : ℕ) (o : Oracle Call Call.Reply)
    (ho : o.Obeys ReadContract) (fuel : ℕ) (hfuel : 1 < fuel) :
    let h := ((asyncRead fuel (some b₀) ctx chacheSize).exec o []).2
    ReadsEnough b₀ (readSize chacheSize) h ↔
      ¬ Ever (Spoils b₀ (readSize chacheSize) ctx.retryBudget) h := by
  dsimp only
  rcases (asyncRead_judged hwf ctx chacheSize hfuel).exec_ends ho with
    ⟨h, hrun, hjudged⟩ | ⟨h, hrun, hjudged⟩ | ⟨e, h, hrun, hjudged⟩
  · rw [hrun]
    exact hjudged
  · rw [hrun]
    exact hjudged
  · rw [hrun]
    exact hjudged

/-- A byte at the start, and two chunks of a stream. -/
theorem asyncRead_enough_iff_chunks :
    let h := ((asyncRead 9 (some (.filled [65])) connected 3).exec
      (silentStream [[66], [67]] eagain) []).2
    ReadsEnough (.filled [65]) (readSize 3) h ↔
      ¬ Ever (Spoils (.filled [65]) (readSize 3) connected.retryBudget) h :=
  asyncRead_enough_iff (.filled [65]) (ReadBuffer.filled_wellFormed (by decide))
    connected 3 _ (silentStream_reads _ _) 9 (by decide)

/-- A buffer that has the one byte asked for gets a second one. On a socket that
is silent after one of seven bytes, an `errno` of 0 becomes a success. -/
theorem asyncRead_overreads :
    let full := ((asyncRead 9 (some (.filled [65])) connected 1).exec
      (silentStream [[66]] 0) []).2
    let short := ((asyncRead 9 (some (.filled [])) connected 7).exec
      (silentStream [[66]] 0) []).2
    (Trace.received full = [66] ∧ Trace.received short = [66] ∧
      (Trace.completions short).map Completion.ec = [⟨0, .system⟩]) ∧
      ¬ ∀ (b₀ : ReadBuffer) (ctx : ClientContext) (chacheSize : ℕ)
        (o : Oracle Call Call.Reply) (fuel : ℕ), b₀.WellFormed →
        o.Obeys ReadContract → 1 < fuel →
        ReadsEnough b₀ (readSize chacheSize)
          ((asyncRead fuel (some b₀) ctx chacheSize).exec o []).2 := by
  refine ⟨⟨by decide +kernel, by decide +kernel, by decide +kernel⟩,
    fun hall => ?_⟩
  have henough := hall (.filled [65]) connected 1 (silentStream [[66]] 0) 9
    (ReadBuffer.filled_wellFormed (by decide)) (silentStream_reads _ _)
    (by decide)
  refine henough.guarded ⟨[⟨.select 4 20, (1 : ℤ)⟩], .recv 4 4096, some [66],
    ?_, ?_⟩
  · exact ⟨_, rfl⟩
  · exact Nat.le_refl 1

end

end Mtasc
