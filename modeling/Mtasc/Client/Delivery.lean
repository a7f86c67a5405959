import Mtasc.Client.ReadUntil
import Mtasc.Client.Stream

/-!
# When `async_read_until` delivers a stream

A `recv` that has read bytes falls into the error handler, which hands them to
`M_retryTcpRead_until` with whatever `errno` happens to be. The helper decides
what becomes of the stream: it goes on reading only for `EAGAIN` and `EINTR`,
at most 1086 bytes at a time and within the retry budget, and takes any buffer
to be complete for `EISCONN`.
-/

namespace Mtasc

open Lib

/-- The retries the helper allows itself. -/
def ClientContext.retryBudget (ctx : ClientContext) : ℤ :=
  if ctx.maxRetyCount ≤ 0 then 10 else ctx.maxRetyCount

/-- The first scan that finds the delimiter is the one after `j` more reads. -/
structure FirstFound (cs : List Bytes) (delimiter : Bytes) (j : ℕ) : Prop where
  found : delimiterIn delimiter (streamAfter cs j).1 = true
  fresh : ∀ i < j, delimiterIn delimiter (streamAfter cs i).1 = false

/-- `errno` is one the helper retries for. -/
def Retryable (e : ℤ) : Prop := e = eagain ∨ e = eintr

/-- The helper takes what has been collected after `j` more reads to be the
answer. -/
def HelperAccepts (ctx : ClientContext) (cs : List Bytes) (delimiter : Bytes)
    (e : ℤ) (j : ℕ) : Prop :=
  e = eisconn ∧ j = 0 ∨
    Retryable e ∧ (j : ℤ) < ctx.retryBudget ∧ FirstFound cs delimiter j

/-- The callback is submitted once, without an error, and with the stream. -/
def Delivered (cs : List Bytes) (st : Status TaskEnd) (h : Trace) : Prop :=
  st = .done .returned ∧ ∃ ec b ctx,
    h.completions = [.read ec cs.flatten.length (some b) ctx] ∧ ec.IsZero ∧
      b.readable = cs.flatten

section

variable {ctx : ClientContext} {cs : List Bytes} {delimiter : Bytes} {e : ℤ}
variable {silent : Prop} {h : Trace} {j : ℕ}

theorem FirstFound.unique {j' : ℕ} (hj : FirstFound cs delimiter j)
    (hj' : FirstFound cs delimiter j') : j = j' := by
  rcases Nat.lt_trichotomy j j' with hlt | heq | hgt
  · exact absurd hj.found (by simp [hj'.fresh j hlt])
  · exact heq
  · exact absurd hj'.found (by simp [hj.fresh j' hgt])

theorem HelperAccepts.unique {j' : ℕ}
    (hj : HelperAccepts ctx cs delimiter e j)
    (hj' : HelperAccepts ctx cs delimiter e j') : j = j' := by
  have hne : ¬ Retryable eisconn := by
    unfold Retryable
    decide
  rcases hj with ⟨he, rfl⟩ | ⟨hr, -, hj⟩
  · rcases hj' with ⟨-, rfl⟩ | ⟨hr, -, -⟩
    · rfl
    · exact absurd (he ▸ hr) hne
  · rcases hj' with ⟨he, -⟩ | ⟨-, -, hj'⟩
    · exact absurd (he ▸ hr) hne
    · exact hj.unique hj'

/-! ## The loop of the helper -/

/-- The state of the helper's loop after `j` reads. -/
structure Retrying (cs : List Bytes) (delimiter : Bytes) (budget : ℤ) (j : ℕ)
    (ctx : ClientContext) (h : Trace) : Prop where
  count : ctx.connectRetyCount = j
  budget_eq : ctx.maxRetyCount = budget
  pending : h.pending cs = (streamAfter cs j).2
  completions : h.completions = []
  fresh : ∀ i < j, delimiterIn delimiter (streamAfter cs i).1 = false
  buffer : ctx.clientReadBuffer = some (.filled (streamAfter cs j).1)

/-- How the helper's loop ends, out of at most `n` iterations. -/
def RetryOutcome (cs : List Bytes) (delimiter : Bytes) (budget : ℤ) (n : ℕ) :
    Trace → Status (Except TaskEnd ClientContext) → Prop
  | _, .calling => True
  | _, .stuck => ∀ j, FirstFound cs delimiter j → n ≤ j
  | _, .undefined => False
  | h, .done (.ok ctx) =>
      h.completions = [] ∧
        if ctx.isRetrySuccess then
          ∃ j : ℕ, (j : ℤ) < budget ∧ FirstFound cs delimiter j ∧
            ctx.clientReadBuffer = some (.filled (streamAfter cs j).1)
        else
          ∀ j : ℕ, FirstFound cs delimiter j → budget ≤ j
  | _, .done (.error _) => False

/-- A scan later than all of the first `j` means a later first hit. -/
theorem FirstFound.le {i : ℕ} (hi : FirstFound cs delimiter i)
    (hfresh : ∀ i < j, delimiterIn delimiter (streamAfter cs i).1 = false) :
    j ≤ i := by
  by_contra hlt
  exact absurd hi.found (by simp [hfresh i (by omega)])

/-- The `read` after a scan without a hit takes the next chunk. When the
stream is used up it fails, and the budget runs down. -/
theorem retryTcpReadUntilRead_spec {budget : ℤ} {n : ℕ} {b : ReadBuffer}
    (hcs : ∀ c ∈ cs, c ≠ []) (hbudget : budget < 2 ^ 31)
    (hend : (streamAfter cs j).2 = [] → silent)
    (hlt : (j : ℤ) < budget)
    (hfresh : ∀ i < j + 1, delimiterIn delimiter (streamAfter cs i).1 = false)
    (hcount : ctx.connectRetyCount = (j : ℤ) + 1)
    (hmax : ctx.maxRetyCount = budget)
    (hpending : h.pending cs = (streamAfter cs j).2)
    (hcomp : h.completions = [])
    (hb : ctx.clientReadBuffer = some (.filled (streamAfter cs j).1)) :
    (retryTcpReadUntilRead b ctx).Sat (StreamContract silent cs e)
      (Prog.andThen (RetryOutcome cs delimiter budget n)
        (Prog.afterIter (RetryOutcome cs delimiter budget n)
          (Retrying cs delimiter budget (j + 1)))) h := by
  rw [retryTcpReadUntilRead, Prog.sat_bind, Prog.sat_perform]
  refine ⟨trivial, fun r hr => ?_⟩
  have hr : ReadsChunk silent 1086 (streamAfter cs j).2 r := hpending ▸ hr
  simp only [Prog.andThen_done]
  by_cases hnil : (streamAfter cs j).2 = []
  · obtain rfl : r = none := hr.2 hnil (hend hnil)
    simp only
    split
    · next hge =>
      rw [hcount, hmax] at hge
      refine ⟨by simpa using hcomp, fun i hi => ?_⟩
      have := hi.le hfresh
      omega
    · have hstop : streamAfter cs (j + 1) = streamAfter cs j :=
        streamAfter_end hnil (Nat.le_succ j)
      refine ⟨hcount, hmax, ?_, by simpa using hcomp, hfresh, hstop ▸ hb⟩
      rw [Trace.pending_snoc, Trace.consume, hpending, hnil, hstop, hnil]
      rfl
  · obtain rfl := hr.1 hnil
    have hchunk := takeChunk_ne (by omega : 0 < 1086)
      (streamAfter_rest_ne hcs j) hnil
    have hlen := takeChunk_length_le 1086 (streamAfter cs j).2
    have hsize := streamAfter_length_le cs j
    have happ := ctx.appendTobuffer_filled hb (by unfold maxSize; omega)
      hchunk (by omega)
    rw [if_pos (by unfold maxSize; omega)] at happ
    obtain ⟨x, data, hdata⟩ := List.exists_cons_of_ne_nil hchunk
    simp only [hdata] at happ ⊢
    simp only [happ]
    refine ⟨hcount, hmax, ?_, by simpa using hcomp, hfresh, ?_⟩
    · rw [Trace.pending_snoc, Trace.consume, hpending]
      rfl
    · simp only [streamAfter, hdata]

/-- One iteration: the delimiter is found, or one more chunk is read. -/
theorem retryTcpReadUntilStep_spec {budget : ℤ} {n : ℕ}
    (hcs : ∀ c ∈ cs, c ≠ []) (he : Retryable e) (hbudget : budget < 2 ^ 31)
    (hend : silent ∨ ∃ r, FirstFound cs delimiter r)
    (hs : Retrying cs delimiter budget j ctx h) :
    (retryTcpReadUntilStep delimiter ctx).Sat (StreamContract silent cs e)
      (Prog.andThen (RetryOutcome cs delimiter budget n)
        (Prog.afterIter (RetryOutcome cs delimiter budget n)
          (Retrying cs delimiter budget (j + 1)))) h := by
  have hb := hs.buffer
  rw [retryTcpReadUntilStep]
  split
  · next hlt =>
    rw [hs.count, hs.budget_eq] at hlt
    have hsize := streamAfter_length_le cs j
    have hfits : (streamAfter cs j).1.length ≤ maxSize := by
      unfold maxSize
      omega
    have hfind := ReadBuffer.filled_findDelimiter hfits delimiter
    rw [Prog.sat_bind, Prog.sat_perform]
    refine ⟨trivial, fun e' he' => ?_⟩
    obtain rfl : e' = e := he'
    have hne : e' ≠ 106 := by
      rcases he with rfl | rfl <;> decide
    simp only [Prog.andThen_done]
    rw [if_neg hne, if_pos (show e' = eagain ∨ e' = eintr from he)]
    simp only [hb, hfind]
    split
    · next hfound =>
      exact ⟨by simpa using hs.completions, j, hlt, ⟨hfound, hs.fresh⟩, rfl⟩
    · next hmiss =>
      have hmiss := Bool.eq_false_iff.mpr hmiss
      have hfresh : ∀ i < j + 1,
          delimiterIn delimiter (streamAfter cs i).1 = false := by
        intro i hi
        rcases Nat.lt_succ_iff_lt_or_eq.mp hi with hi | rfl
        · exact hs.fresh i hi
        · exact hmiss
      refine retryTcpReadUntilRead_spec hcs hbudget ?_ hlt hfresh
        (by rw [hs.count]) hs.budget_eq (by simpa using hs.pending)
        (by simpa using hs.completions) rfl
      -- after the end of the stream no later scan finds what this one has not
      intro hnil
      rcases hend with hsilent | ⟨r, hr⟩
      · exact hsilent
      · have hstop := streamAfter_end hnil (Nat.le_of_succ_le (hr.le hfresh))
        have := hr.found
        rw [hstop, hmiss] at this
        exact absurd this (by decide)
  · next hge =>
    rw [hs.count, hs.budget_eq] at hge
    refine ⟨hs.completions, fun i hi => ?_⟩
    have := hi.le hs.fresh
    omega

/-! ## The helper -/

/-- How the helper ends, for any `errno`. -/
def HelperOutcome (ctx : ClientContext) (cs : List Bytes) (delimiter : Bytes)
    (e : ℤ) (n : ℕ) : Trace → Status (Except TaskEnd ClientContext) → Prop
  | _, .calling => True
  | _, .stuck => ∀ j, HelperAccepts ctx cs delimiter e j → n ≤ j
  | _, .undefined => False
  | h, .done (.ok c) =>
      0 ≤ ctx.socketfd ∧ h.completions = [] ∧
        if c.isRetrySuccess then
          ∃ j, HelperAccepts ctx cs delimiter e j ∧
            c.clientReadBuffer = some (.filled (streamAfter cs j).1)
        else
          ∀ j, ¬ HelperAccepts ctx cs delimiter e j
  | h, .done (.error _) => ctx.socketfd < 0 ∧ h.completions = []

theorem retryBudget_pos (ctx : ClientContext) : 0 < ctx.retryBudget := by
  unfold ClientContext.retryBudget
  split <;> omega

theorem retryBudget_lt (hmax : ctx.maxRetyCount < 2 ^ 31) :
    ctx.retryBudget < 2 ^ 31 := by
  unfold ClientContext.retryBudget
  split <;> omega

theorem retryStart_fields (ctx : ClientContext) :
    ctx.retryStart.connectRetyCount = 0 ∧
      ctx.retryStart.maxRetyCount = ctx.retryBudget ∧
      ctx.retryStart.clientReadBuffer = ctx.clientReadBuffer := by
  unfold ClientContext.retryStart ClientContext.retryBudget
  split <;> exact ⟨rfl, rfl, rfl⟩

/-- With a retryable `errno` the loop reads on. -/
theorem retryLoop_retryable (hcs : ∀ c ∈ cs, c ≠ []) {c : ClientContext}
    (hfd : 0 ≤ ctx.socketfd)
    (hmax : ctx.maxRetyCount < 2 ^ 31) (he : Retryable e)
    (hend : silent ∨ ∃ r, FirstFound cs delimiter r)
    (hs : Retrying cs delimiter ctx.retryBudget 0 c h) (n : ℕ) :
    (Prog.iterate (retryTcpReadUntilStep delimiter) n c).Sat
      (StreamContract silent cs e)
      (HelperOutcome ctx cs delimiter e n) h := by
  have hne : e ≠ eisconn := by
    rcases he with rfl | rfl <;> decide
  have hloop : (Prog.iterate (retryTcpReadUntilStep delimiter) n c).Sat
      (StreamContract silent cs e)
      (RetryOutcome cs delimiter ctx.retryBudget n) h := by
    refine Prog.sat_iterate (fun m c h => ∃ j, m + j = n ∧
      Retrying cs delimiter ctx.retryBudget j c h) ?_ ?_ n c h ⟨0, rfl, hs⟩
    · rintro c h ⟨j, rfl, hs⟩ i hi
      have := hi.le hs.fresh
      omega
    · rintro m c h ⟨j, hj, hs⟩
      have hstep := retryTcpReadUntilStep_spec (n := n) hcs he
        (retryBudget_lt hmax) hend hs
      refine hstep.mono fun h' st hst => ?_
      cases st with
      | calling => exact hst
      | stuck => exact hst
      | undefined => exact hst
      | done it =>
          cases it with
          | done r => exact hst
          | next c' => exact ⟨j + 1, by omega, hst⟩
  refine hloop.mono fun h' st hst => ?_
  cases st with
  | calling => trivial
  | stuck =>
      rintro j (⟨heq, -⟩ | ⟨-, -, hj⟩)
      · exact absurd heq hne
      · exact hst j hj
  | undefined => exact hst
  | done r =>
      cases r with
      | error _ => exact hst.elim
      | ok c' =>
          obtain ⟨hcomp, hres⟩ := hst
          refine ⟨hfd, hcomp, ?_⟩
          split at hres
          · next hsucc =>
            obtain ⟨j, hlt, hj, hb⟩ := hres
            rw [if_pos hsucc]
            exact ⟨j, Or.inr ⟨he, hlt, hj⟩, hb⟩
          · next hfail =>
            rw [if_neg hfail]
            rintro j (⟨heq, -⟩ | ⟨-, hlt, hj⟩)
            · exact hne heq
            · have := hres j hj
              omega

/-- With any other `errno` the loop ends at once. -/
theorem retryLoop_other {c : ClientContext} (hfd : 0 ≤ ctx.socketfd)
    (he : ¬ Retryable e) (hlt : c.connectRetyCount < c.maxRetyCount)
    (hb : c.clientReadBuffer = some (.filled (streamAfter cs 0).1))
    (hcomp : h.completions = []) (n : ℕ) :
    (Prog.iterate (retryTcpReadUntilStep delimiter) (n + 1) c).Sat
      (StreamContract silent cs e)
      (HelperOutcome ctx cs delimiter e (n + 1)) h := by
  rw [Prog.iterate, Prog.sat_bind, retryTcpReadUntilStep, if_pos hlt,
    Prog.sat_bind, Prog.sat_perform]
  refine ⟨trivial, fun e' he' => ?_⟩
  obtain rfl : e' = e := he'
  simp only [Prog.andThen_done]
  split
  · next heq =>
    exact ⟨hfd, by simpa using hcomp, 0, Or.inl ⟨heq, rfl⟩, hb⟩
  · next hne =>
    rw [if_neg (show ¬ (e' = eagain ∨ e' = eintr) from he)]
    refine ⟨hfd, by simpa using hcomp, ?_⟩
    rintro j (⟨heq, -⟩ | ⟨hr, -⟩)
    · exact hne heq
    · exact he hr

/-- **What the helper does with the first chunk** of a stream, and with
whatever `errno` is at that time. -/
theorem retryTcpReadUntil_spec (hcs : ∀ c ∈ cs, c ≠ [])
    (hmax : ctx.maxRetyCount < 2 ^ 31)
    (hend : Retryable e → silent ∨ ∃ r, FirstFound cs delimiter r)
    (hb : ctx.clientReadBuffer = some (.filled (streamAfter cs 0).1))
    (hpending : h.pending cs = (streamAfter cs 0).2)
    (hcomp : h.completions = []) (n : ℕ) (e' : ℤ) :
    (retryTcpReadUntil (n + 1) ctx delimiter e').Sat
      (StreamContract silent cs e)
      (HelperOutcome ctx cs delimiter e (n + 1)) h := by
  rw [retryTcpReadUntil]
  split
  · next hneg => exact ⟨hneg, hcomp⟩
  · next hfd =>
    have hfd : 0 ≤ ctx.socketfd := Int.not_lt.mp hfd
    have hpos := retryBudget_pos ctx
    obtain ⟨hcount, hbudget, hbuf⟩ := retryStart_fields ctx
    rw [hb] at hbuf
    have hloop : (Prog.iterate (retryTcpReadUntilStep delimiter) (n + 1)
        ctx.retryStart).Sat (StreamContract silent cs e)
        (HelperOutcome ctx cs delimiter e (n + 1)) h := by
      by_cases he : Retryable e
      · exact retryLoop_retryable hcs hfd hmax he (hend he)
          ⟨hcount, hbudget, hpending, hcomp, fun i hi => absurd hi (by omega),
            hbuf⟩ (n + 1)
      · exact retryLoop_other hfd he (by omega) hbuf hcomp n
    refine hloop.bind (fun _ hst => hst) (fun _ hst => hst) fun r h' hst => ?_
    cases r with
    | error _ => exact hst
    | ok c' => exact hst

/-! ## The operation -/

/-- The stream gets through: the helper accepts what it has collected at the
moment when the last chunk has been read. -/
def ReadsThrough (ctx : ClientContext) (cs : List Bytes) (delimiter : Bytes)
    (e : ℤ) : Prop :=
  0 ≤ ctx.socketfd ∧
    ∃ j, HelperAccepts ctx cs delimiter e j ∧ (streamAfter cs j).2 = []

/-- How `async_read_until` ends. -/
def ReadOutcome (ctx : ClientContext) (cs : List Bytes) (delimiter : Bytes)
    (e : ℤ) (n : ℕ) : Trace → Status TaskEnd → Prop
  | _, .calling => True
  | _, .stuck => ∀ j, HelperAccepts ctx cs delimiter e j → n ≤ j
  | _, .undefined => False
  | h, .done r => Delivered cs (.done r) h ↔ ReadsThrough ctx cs delimiter e

theorem HelperAccepts.length_le (hmax : ctx.maxRetyCount < 2 ^ 31)
    (hj : HelperAccepts ctx cs delimiter e j) :
    (streamAfter cs j).1.length ≤ maxSize := by
  have hlen := streamAfter_length_le cs j
  have hbudget := retryBudget_lt hmax
  unfold maxSize
  rcases hj with ⟨-, rfl⟩ | ⟨-, hlt, -⟩ <;> omega

/-- What the helper accepts is submitted: the stream if it is all there. -/
theorem delivered_accepted (hcs : ∀ c ∈ cs, c ≠ []) (hfd : 0 ≤ ctx.socketfd)
    (hmax : ctx.maxRetyCount < 2 ^ 31) {b : ReadBuffer} {c : ClientContext}
    (hcomp : h.completions = []) (hj : HelperAccepts ctx cs delimiter e j)
    (hb : b = .filled (streamAfter cs j).1) :
    Delivered cs (.done .returned)
        (h ++ [⟨.submit (.read {} b.readableBytes (some b) c), ()⟩]) ↔
      ReadsThrough ctx cs delimiter e := by
  have hsize := hj.length_le hmax
  have hread : b.readable = (streamAfter cs j).1 :=
    hb ▸ ReadBuffer.filled_readable hsize
  have hbytes : b.readableBytes = (streamAfter cs j).1.length :=
    hb ▸ ReadBuffer.filled_readableBytes hsize
  have hlast : Trace.completions
      (h ++ [⟨.submit (.read {} b.readableBytes (some b) c), ()⟩]) =
        [.read {} b.readableBytes (some b) c] := by
    simp [hcomp]
  constructor
  · rintro ⟨-, ec, b', c', heq, -, hflat⟩
    rw [hlast] at heq
    simp only [List.cons.injEq, Completion.read.injEq, Option.some.injEq,
      and_true] at heq
    rw [← heq.2.2.1, hread] at hflat
    exact ⟨hfd, j, hj, (streamAfter_eq_flatten hcs).mp hflat⟩
  · rintro ⟨-, j', hj', hend⟩
    obtain rfl := hj.unique hj'
    have hflat := (streamAfter_eq_flatten hcs).mpr hend
    refine ⟨rfl, {}, b, c, ?_, rfl, hread.trans hflat⟩
    rw [hlast, hbytes, hflat]

/-- What is submitted after a failed retry says that nothing was read. -/
theorem not_delivered_failed (hne : cs.flatten ≠ []) (ec : ErrorCode)
    (buffer : Option ReadBuffer) (c : ClientContext)
    (hcomp : h.completions = []) :
    ¬ Delivered cs (.done .returned)
      (h ++ [⟨.submit (.read ec 0 buffer c), ()⟩]) := by
  rintro ⟨-, ec', b, c', heq, -, -⟩
  rw [Trace.completions_snoc, hcomp] at heq
  simp only [Trace.completedBy, List.nil_append, List.cons.injEq,
    Completion.read.injEq, and_true] at heq
  exact hne (List.length_eq_zero_iff.mp heq.2.1.symm)

/-- The error handler, entered with the first chunk in the buffer. -/
theorem readUntilError_spec (hcs : ∀ c ∈ cs, c ≠ []) (hne : cs.flatten ≠ [])
    (hmax : ctx.maxRetyCount < 2 ^ 31)
    (hend : Retryable e → silent ∨ ∃ r, FirstFound cs delimiter r)
    (hb : ctx.clientReadBuffer = some (.filled (streamAfter cs 0).1))
    (hpending : h.pending cs = (streamAfter cs 0).2)
    (hcomp : h.completions = []) (n : ℕ) :
    (readUntilError (n + 1) delimiter ctx).Sat (StreamContract silent cs e)
      (Prog.andThen (ReadOutcome ctx cs delimiter e (n + 1))
        (Prog.afterIter (ReadOutcome ctx cs delimiter e (n + 1))
          fun _ _ => False)) h := by
  rw [readUntilError, Prog.sat_bind, Prog.sat_perform]
  refine ⟨trivial, fun e' _ => ?_⟩
  simp only [Prog.andThen_done]
  have hhelper := retryTcpReadUntil_spec (h := h ++ [⟨.errno, e'⟩]) hcs hmax
    hend hb (by simpa using hpending) (by simpa using hcomp) n e'
  refine hhelper.bind (fun _ hst => hst) (fun _ hst => hst) fun r h' hst => ?_
  cases r with
  | error end' =>
      obtain ⟨hneg, hcomp'⟩ := hst
      refine ⟨?_, fun hthrough => absurd hthrough.1 (Int.not_le.mpr hneg)⟩
      rintro ⟨-, ec, b', c', heq, -⟩
      rw [hcomp'] at heq
      cases heq
  | ok c =>
      obtain ⟨hfd, hcomp', hres⟩ := hst
      dsimp only
      split at hres
      · next hsucc =>
        obtain ⟨j, hj, hb'⟩ := hres
        have hb'' : (ctx.moveAssign c).clientReadBuffer =
            some (.filled (streamAfter cs j).1) := hb'
        rw [if_pos hsucc, Prog.sat_bind]
        exact sat_submitReadable hb'' trivial
          (delivered_accepted hcs hfd hmax hcomp' hj rfl)
      · next hfail =>
        rw [if_neg hfail, Prog.sat_bind, Prog.sat_perform]
        refine ⟨trivial, fun e'' _ => ?_⟩
        rw [Prog.andThen_done, Prog.sat_bind]
        refine sat_submitRead trivial ⟨fun hdel => ?_, ?_⟩
        · exact absurd hdel
            (not_delivered_failed hne _ _ _ (by simpa using hcomp'))
        · rintro ⟨-, j, hj, -⟩
          exact absurd hj (hres j)

theorem readOutcome_eq {c : ClientContext} {n : ℕ}
    (hfd : c.socketfd = ctx.socketfd)
    (hmax : c.maxRetyCount = ctx.maxRetyCount) :
    ReadOutcome c cs delimiter e n = ReadOutcome ctx cs delimiter e n := by
  have haccepts : HelperAccepts c cs delimiter e =
      HelperAccepts ctx cs delimiter e := by
    unfold HelperAccepts ClientContext.retryBudget
    rw [hmax]
  funext h st
  cases st <;> simp only [ReadOutcome, ReadsThrough, haccepts, hfd]

/-- `case READING` with an empty buffer reads the first chunk and ends in the
error handler. -/
theorem readUntilReading_spec (hcs : ∀ c ∈ cs, c ≠ []) (hne : cs.flatten ≠ [])
    (hmax : ctx.maxRetyCount < 2 ^ 31)
    (hend : Retryable e → silent ∨ ∃ r, FirstFound cs delimiter r)
    (hb : ctx.clientReadBuffer = some (.filled [])) (n : ℕ) :
    (readUntilReading (n + 1) delimiter ctx).Sat (StreamContract silent cs e)
      (Prog.andThen (ReadOutcome ctx cs delimiter e (n + 1))
        (Prog.afterIter (ReadOutcome ctx cs delimiter e (n + 1))
          fun _ _ => False)) [] := by
  have hcs0 : cs ≠ [] := fun hnil => hne (by rw [hnil]; rfl)
  rw [readUntilReading, Prog.sat_bind, Prog.sat_perform]
  refine ⟨trivial, fun w hw => ?_⟩
  have hw : (0 : ℤ) < w := hw
  rw [Prog.andThen_done, if_neg (Int.not_lt.mpr (Int.le_of_lt hw)),
    Prog.sat_bind, Prog.sat_perform]
  refine ⟨trivial, fun r hr => ?_⟩
  obtain rfl : r = some (takeChunk 4096 cs).1 := hr.1 hcs0
  have hchunk := takeChunk_ne (by omega : 0 < 4096) hcs hcs0
  have hlen := takeChunk_length_le 4096 cs
  have happ := ctx.appendTobuffer_filled hb (Nat.zero_le _) hchunk hlen
  rw [if_pos (by unfold maxSize; simp only [List.length_nil]; omega),
    List.nil_append] at happ
  obtain ⟨x, data, hdata⟩ := List.exists_cons_of_ne_nil hchunk
  rw [hdata] at happ
  simp only [Prog.andThen_done, hdata, happ]
  generalize hc : { ctx with clientReadBuffer := _ } = c
  have hb' : c.clientReadBuffer = some (.filled (streamAfter cs 0).1) := by
    rw [← hc, streamAfter, hdata]
  have hfields : c.socketfd = ctx.socketfd ∧
      c.maxRetyCount = ctx.maxRetyCount := by
    rw [← hc]
    exact ⟨rfl, rfl⟩
  rw [← readOutcome_eq hfields.1 hfields.2]
  exact readUntilError_spec hcs hne (hfields.2 ▸ hmax) hend hb'
    (by simp [Trace.pending, streamAfter]) (by simp [Trace.completions]) n

theorem asyncReadUntil_outcome (hd : delimiter ≠ []) (hcs : ∀ c ∈ cs, c ≠ [])
    (hne : cs.flatten ≠ []) (hmax : ctx.maxRetyCount < 2 ^ 31)
    (hend : Retryable e → silent ∨ ∃ r, FirstFound cs delimiter r) (n : ℕ) :
    (asyncReadUntil (n + 1) ctx delimiter).Sat (StreamContract silent cs e)
      (ReadOutcome ctx cs delimiter e (n + 1)) [] := by
  have hempty : ReadBuffer.valueInit.findDelimiter delimiter = false := by
    rw [ReadBuffer.valueInit_eq_filled,
      ReadBuffer.filled_findDelimiter (Nat.zero_le _)]
    exact delimiterIn_nil hd
  generalize hc : { ctx with
    clientReadBuffer := some ReadBuffer.valueInit }.moveConstruct = c
  have hb : c.clientReadBuffer = some ReadBuffer.valueInit := by rw [← hc]; rfl
  have hfields : c.socketfd = ctx.socketfd ∧
      c.maxRetyCount = ctx.maxRetyCount := by
    rw [← hc]
    exact ⟨rfl, rfl⟩
  rw [asyncReadUntil, hc, Prog.iterate, Prog.sat_bind, readUntilStep,
    readUntilVerify, hb]
  simp only [hempty]
  rw [← readOutcome_eq hfields.1 hfields.2]
  refine (readUntilReading_spec hcs hne (hfields.2 ▸ hmax) hend hb
    n).mono fun h st hst => ?_
  cases st with
  | calling => exact hst
  | stuck => exact hst
  | undefined => exact hst
  | done it =>
      cases it with
      | done r => exact hst
      | next s => exact hst.elim

/-! ## When the stream is delivered -/

/-- A stream of non-empty chunks of at most 4096 bytes whose last chunk
completes the first occurrence of the delimiter. -/
structure Arrives (delimiter : Bytes) (cs : List Bytes) : Prop where
  delimiter_ne : delimiter ≠ []
  chunk_ne : ∀ c ∈ cs, c ≠ []
  chunk_le : ∀ c ∈ cs, c.length ≤ 4096
  complete : delimiter <:+: cs.flatten
  incomplete : ¬ delimiter <:+: cs.dropLast.flatten

theorem Arrives.flatten_ne (h : Arrives delimiter cs) : cs.flatten ≠ [] := by
  intro hnil
  have := h.complete
  rw [hnil] at this
  exact h.delimiter_ne (List.infix_nil.mp this)

/-- **When `async_read_until` delivers a stream.** Whatever follows it on the
socket, the stream is submitted exactly if `errno` is `EISCONN` and the first
chunk is all of it, or `errno` is `EAGAIN` or `EINTR` and the first scan to
find the delimiter comes after the last byte and within the retry budget. -/
theorem asyncReadUntil_delivers_iff (ctx : ClientContext) (delimiter : Bytes)
    (cs : List Bytes) (e : ℤ) (hmax : ctx.maxRetyCount < 2 ^ 31)
    (hcs : Arrives delimiter cs) :
    (∀ o : Oracle Call Call.Reply, o.Obeys (StreamContract False cs e) →
      ∃ n, ∀ fuel, n ≤ fuel →
        let run := (asyncReadUntil fuel ctx delimiter).exec o []
        Delivered cs run.1 run.2) ↔
      ReadsThrough ctx cs delimiter e := by
  constructor
  · intro hall
    obtain ⟨n, hn⟩ := hall _ (silentStream_obeys False cs e)
    have hdel := hn (n + 1) (Nat.le_succ n)
    have hsat : (asyncReadUntil (n + 1) ctx delimiter).Sat
        (StreamContract True cs e)
        (ReadOutcome ctx cs delimiter e (n + 1)) [] :=
      asyncReadUntil_outcome hcs.delimiter_ne hcs.chunk_ne hcs.flatten_ne hmax
        (fun _ => Or.inl trivial) n
    have hout := hsat.exec (silentStream_obeys True cs e)
    simp only [hdel.1] at hdel hout
    exact hout.mp hdel
  · rintro hthrough o ho
    obtain ⟨hfd, j, hj, hlast⟩ := hthrough
    refine ⟨j + 1, fun fuel hfuel => ?_⟩
    obtain ⟨n, rfl⟩ : ∃ n, fuel = n + 1 := ⟨fuel - 1, by omega⟩
    have hend : Retryable e → False ∨ ∃ r, FirstFound cs delimiter r := by
      intro he
      rcases hj with ⟨heq, -⟩ | ⟨-, -, hj⟩
      · exact absurd (heq ▸ he) (by unfold Retryable; decide)
      · exact Or.inr ⟨j, hj⟩
    dsimp only
    rcases (asyncReadUntil_outcome hcs.delimiter_ne hcs.chunk_ne
      hcs.flatten_ne hmax hend n).exec_ends ho with
      ⟨h, -, hstuck⟩ | ⟨h, -, hundefined⟩ | ⟨r, h, hrun, hout⟩
    · have := hstuck j hj
      omega
    · exact hundefined.elim
    · rw [hrun]
      exact hout.mpr ⟨hfd, j, hj, hlast⟩

/-- With `EAGAIN` a delimiter that is split between two chunks gets through. -/
theorem asyncReadUntil_delivers_iff_split :
    ReadsThrough connected [[13], [10]] [13, 10] eagain ∧
      ∀ o : Oracle Call Call.Reply,
        o.Obeys (StreamContract False [[13], [10]] eagain) →
        ∃ n, ∀ fuel, n ≤ fuel →
          let run := (asyncReadUntil fuel connected [13, 10]).exec o []
          Delivered [[13], [10]] run.1 run.2 := by
  have harrives : Arrives [13, 10] [[13], [10]] :=
    ⟨by decide, by decide, by decide, by decide, by decide⟩
  have hfirst : FirstFound [[13], [10]] [13, 10] 1 :=
    ⟨by decide +kernel, by decide +kernel⟩
  have hthrough : ReadsThrough connected [[13], [10]] [13, 10] eagain :=
    ⟨by decide, 1, Or.inr ⟨Or.inl rfl, by decide, hfirst⟩, rfl⟩
  exact ⟨hthrough, (asyncReadUntil_delivers_iff connected [13, 10]
    [[13], [10]] eagain (by decide) harrives).mpr hthrough⟩

/-- With `errno` zero a line that arrives in one chunk is dropped: what is
submitted says, without an error, that nothing was read. -/
theorem asyncReadUntil_drops :
    Arrives [10] [[65, 10]] ∧
      (silentStream [[65, 10]] 0).Obeys (StreamContract False [[65, 10]] 0) ∧
      (Trace.completions ((asyncReadUntil 2 connected [10]).exec
        (silentStream [[65, 10]] 0) []).2).map (fun s => (s.ec, s.bytes)) =
          [({}, 0)] ∧
      ¬ ∃ n, ∀ fuel, n ≤ fuel →
        let run := (asyncReadUntil fuel connected [10]).exec
          (silentStream [[65, 10]] 0) []
        Delivered [[65, 10]] run.1 run.2 := by
  have harrives : Arrives [10] [[65, 10]] :=
    ⟨by decide, by decide, by decide, by decide, by decide⟩
  refine ⟨harrives, silentStream_obeys _ _ _, by decide +kernel, ?_⟩
  rintro ⟨n, hn⟩
  have hdel := hn (n + 1) (Nat.le_succ n)
  have hnr : ¬ Retryable 0 := by
    unfold Retryable
    decide
  have hsat : (asyncReadUntil (n + 1) connected [10]).Sat
      (StreamContract False [[65, 10]] 0)
      (ReadOutcome connected [[65, 10]] [10] 0 (n + 1)) [] :=
    asyncReadUntil_outcome harrives.delimiter_ne harrives.chunk_ne
      harrives.flatten_ne (by decide) (fun he => absurd he hnr) n
  have hout := hsat.exec (silentStream_obeys False [[65, 10]] 0)
  simp only [hdel.1] at hdel hout
  obtain ⟨-, j, ⟨he, -⟩ | ⟨he, -⟩, -⟩ := hout.mp hdel
  · exact absurd he (by decide)
  · exact hnr he

end

end Mtasc
