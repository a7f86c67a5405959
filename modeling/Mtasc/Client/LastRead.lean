import Mtasc.Client.Delivery
import Mtasc.Client.Lossless
import Mtasc.Lib.Events

/-!
# The last read of a helper

`M_retryTcpRead_until` and `M_ssl_read_until_retry` look for the delimiter
before each read, and give up when their budget is used up: nobody looks at what
the last read has delivered. The one over TLS counts before it compares and has
one read less. It also gives up, without a look at the buffer, where its
`select` fails.
-/

namespace Mtasc

open Lib

namespace Trace

@[simp] def readBy : Call → ℕ
  | .read _ _ => 1
  | .sslRead _ => 1
  | _ => 0

/-- The number of reads of a helper. -/
def reads (h : Trace) : ℕ := (h.map fun e => readBy e.1).sum

@[simp] theorem reads_snoc {h : Trace} {q : Call} {r : q.Reply} :
    reads (h ++ [⟨q, r⟩]) = reads h + readBy q := by
  simp [reads]

end Trace

/-- All errors are transient, and the peer does not close the connection. -/
def TransientErrors : Trace → (q : Call) → q.Reply → Prop
  | _, .errno, e => Retryable e
  | _, .sslGetError _, e => e = sslErrorWantRead ∨ e = sslErrorWantWrite
  | _, .read _ size, r => r ≠ some [] ∧ ∀ data, r = some data → data.length ≤ size
  | _, .sslRead size, r =>
      r ≠ some [] ∧ ∀ data, r = some data → data.length ≤ size
  | _, _, _ => True

/-- A delimiter in the buffer is reported as a success. -/
def ReportsFound (delimiter : Bytes) (c : ClientContext) : Prop :=
  (∃ b, c.clientReadBuffer = some b ∧ delimiter <:+: b.readable) →
    c.isRetrySuccess = true

/-- The helper gives up with the delimiter in the buffer: after the last of the
`limit` reads it allows itself, or where `select` fails. -/
def Unexamined (start delimiter : Bytes) (limit : ℤ) :
    Trace → (q : Call) → q.Reply → Prop
  | h, .read _ _, r => (h.reads : ℤ) + 1 = limit ∧
      delimiter <:+: start ++ (h.received ++ r.getD [])
  | h, .sslRead _, r => (h.reads : ℤ) + 1 = limit ∧
      delimiter <:+: start ++ (h.received ++ r.getD [])
  | h, .select _ _, w => w < 0 ∧ delimiter <:+: start ++ h.received
  | _, _, _ => False

section

variable {b₀ : ReadBuffer} {start delimiter : Bytes} {limit : ℤ}
variable {ctx : ClientContext} {h : Trace} {j : ℕ}

/-- How a helper ends. -/
def ReportEnd (start delimiter : Bytes) (limit : ℤ) :
    Trace → Status (Except TaskEnd ClientContext) → Prop
  | h, .done (.ok c) =>
      ReportsFound delimiter c ↔ ¬ Ever (Unexamined start delimiter limit) h
  | _, _ => True

/-- After `j` reads there is only one thing that can have gone wrong. -/
structure Spent (b₀ : ReadBuffer) (delimiter : Bytes) (limit : ℤ)
    (ctx : ClientContext) (h : Trace) (j : ℕ) : Prop where
  holding : Holding b₀ ctx h
  reads : h.reads = j
  unexamined : Ever (Unexamined b₀.readable delimiter limit) h ↔
    (j = limit ∧ delimiter <:+: b₀.readable ++ h.received)

theorem Spent.of_eq (hs : Spent b₀ delimiter limit ctx h j) {c : ClientContext}
    (hb : c.clientReadBuffer = ctx.clientReadBuffer) :
    Spent b₀ delimiter limit c h j :=
  ⟨hs.holding.of_eq hb, hs.reads, hs.unexamined⟩

theorem Spent.neutral (hs : Spent b₀ delimiter limit ctx h j) {q : Call}
    {r : q.Reply} (hrec : Trace.receivedBy q r = [])
    (hcomp : Trace.completedBy q r = []) (hread : Trace.readBy q = 0)
    (hno : ¬ Unexamined b₀.readable delimiter limit h q r) :
    Spent b₀ delimiter limit ctx (h ++ [⟨q, r⟩]) j where
  holding := hs.holding.neutral hrec hcomp
  reads := by rw [Trace.reads_snoc, hread, hs.reads, Nat.add_zero]
  unexamined := by
    rw [ever_snoc, hs.unexamined, Trace.received_snoc, hrec, List.append_nil,
      or_iff_left hno]

/-- What a read leaves to be examined. -/
theorem Spent.ever_snoc (hs : Spent b₀ delimiter limit ctx h j)
    (hlt : j < limit) {q : Call} {r : q.Reply}
    (hq : Unexamined b₀.readable delimiter limit h q r ↔
      (h.reads : ℤ) + 1 = limit ∧
        delimiter <:+: b₀.readable ++ (h.received ++ Trace.receivedBy q r)) :
    Ever (Unexamined b₀.readable delimiter limit) (h ++ [⟨q, r⟩]) ↔
      (((j + 1 : ℕ) : ℤ) = limit ∧
        delimiter <:+: b₀.readable ++ Trace.received (h ++ [⟨q, r⟩])) := by
  have hnone : ¬ Ever (Unexamined b₀.readable delimiter limit) h := by
    rw [hs.unexamined]
    rintro ⟨heq, -⟩
    omega
  rw [Lib.ever_snoc, hq, or_iff_right hnone, hs.reads, Trace.received_snoc]
  rfl

/-- A return with a success. -/
theorem Spent.found (hs : Spent b₀ delimiter limit ctx h j) (hlt : j < limit)
    {c : ClientContext} (hsuccess : c.isRetrySuccess = true) :
    ReportEnd b₀.readable delimiter limit h (.done (.ok c)) := by
  refine iff_of_true (fun _ => hsuccess) ?_
  rw [hs.unexamined]
  rintro ⟨heq, -⟩
  omega

/-- A return without one. -/
theorem Holding.gave_up (hs : Holding b₀ ctx h) (hwf : b₀.WellFormed)
    (hever : Ever (Unexamined b₀.readable delimiter limit) h ↔
      delimiter <:+: b₀.readable ++ h.received) {c : ClientContext}
    (hfailure : c.isRetrySuccess = false)
    (hb : c.clientReadBuffer = ctx.clientReadBuffer) :
    ReportEnd b₀.readable delimiter limit h (.done (.ok c)) := by
  obtain ⟨b, hbuffer, hrcv⟩ := hs.buffer
  show _ ↔ ¬ _
  rw [hever, ReportsFound, hb, hbuffer, hfailure]
  constructor
  · intro hreports hocc
    refine Bool.false_ne_true (hreports ⟨b, rfl, ?_⟩)
    rwa [(hrcv hwf).readable]
  · rintro hnone ⟨b', hb', hocc⟩
    cases hb'
    rw [(hrcv hwf).readable] at hocc
    exact absurd hocc hnone

/-- A return without one, with the budget used up. -/
theorem Spent.gave_up (hs : Spent b₀ delimiter limit ctx h j)
    (hwf : b₀.WellFormed) (heq : j = limit) {c : ClientContext}
    (hfailure : c.isRetrySuccess = false)
    (hb : c.clientReadBuffer = ctx.clientReadBuffer) :
    ReportEnd b₀.readable delimiter limit h (.done (.ok c)) := by
  refine hs.holding.gave_up hwf ?_ hfailure hb
  rw [hs.unexamined]
  exact and_iff_right heq

/-! ## `M_retryTcpRead_until` -/

/-- The loop of the helper. -/
structure TcpSpending (b₀ : ReadBuffer) (delimiter : Bytes) (budget : ℤ)
    (ctx : ClientContext) (h : Trace) (j : ℕ) : Prop where
  spent : Spent b₀ delimiter budget ctx h j
  count : ctx.connectRetyCount = j
  max : ctx.maxRetyCount = budget
  le : j ≤ budget

/-- What an iteration leaves. -/
abbrev TcpReportNext (b₀ : ReadBuffer) (delimiter : Bytes) (budget : ℤ) :
    Trace → Status (Iter ClientContext (Except TaskEnd ClientContext)) → Prop :=
  Prog.andThen (ReportEnd b₀.readable delimiter budget)
    (Prog.afterIter (ReportEnd b₀.readable delimiter budget) fun c h =>
      ∃ j, TcpSpending b₀ delimiter budget c h j)

theorem retryTcpReadUntilRead_reports {budget : ℤ} (hwf : b₀.WellFormed)
    (b : ReadBuffer) (hs : Spent b₀ delimiter budget ctx h j)
    (hcount : ctx.connectRetyCount = j + 1) (hmax : ctx.maxRetyCount = budget)
    (hlt : j < budget) :
    (retryTcpReadUntilRead b ctx).Sat TransientErrors
      (TcpReportNext b₀ delimiter budget) h := by
  have hcast : ctx.connectRetyCount = ((j + 1 : ℕ) : ℤ) := by
    rw [hcount]
    exact (Int.natCast_succ j).symm
  rw [retryTcpReadUntilRead]
  refine Prog.sat_perform_bind.mpr ⟨trivial, fun r hr => ?_⟩
  obtain ⟨hopen, hsize⟩ := hr
  have hever := hs.ever_snoc hlt (q := .read ctx.socketfd 1086) (r := r) Iff.rfl
  have hreads : Trace.reads (h ++ [⟨.read ctx.socketfd 1086, r⟩]) = j + 1 := by
    rw [Trace.reads_snoc, hs.reads]
    rfl
  rcases r with _ | bytes
  · have hs' : Spent b₀ delimiter budget ctx
        (h ++ [⟨.read ctx.socketfd 1086, none⟩]) (j + 1) :=
      ⟨hs.holding.neutral rfl rfl, hreads, hever⟩
    dsimp only
    -- the iteration that the budget ends with has no scan behind its read
    split
    · next hge =>
      rw [hcast, hmax] at hge
      refine hs'.gave_up hwf ?_ rfl rfl
      omega
    · next hless =>
      rw [hcast, hmax] at hless
      exact ⟨j + 1, hs', hcast, hmax, Int.le_of_lt (Int.not_le.mp hless)⟩
  · rcases bytes with _ | ⟨x, data⟩
    · exact absurd rfl hopen
    · have hlen : (x :: data).length ≤ 4096 := (hsize _ rfl).trans (by omega)
      rcases hs.holding.append (q := .read ctx.socketfd 1086)
        (r := some (x :: data)) (x :: data) rfl rfl hlen with
        ⟨b', happ, hholding⟩ | ⟨e, happ, -, -⟩
      · simp only [happ]
        exact ⟨j + 1, ⟨hholding, hreads, hever⟩, hcast, hmax, hlt⟩
      · simp only [happ]
        trivial

theorem retryTcpReadUntilStep_reports {budget : ℤ} (hwf : b₀.WellFormed)
    (hs : TcpSpending b₀ delimiter budget ctx h j) :
    (retryTcpReadUntilStep delimiter ctx).Sat TransientErrors
      (TcpReportNext b₀ delimiter budget) h := by
  obtain ⟨hspent, hcount, hmax, hle⟩ := hs
  obtain ⟨b, hb, -⟩ := hspent.holding.buffer
  rw [retryTcpReadUntilStep, hcount, hmax]
  split
  · next hlt =>
    refine Prog.sat_perform_bind.mpr ⟨trivial, fun (e : ℤ) he => ?_⟩
    have hspent' := hspent.neutral (q := .errno) (r := e) rfl rfl rfl
      (fun hno => hno)
    have he : e = eagain ∨ e = eintr := he
    have hconn : e ≠ eisconn := by
      rcases he with rfl | rfl
      · decide
      · decide
    rw [if_neg hconn, if_pos he]
    simp only [hb]
    split
    · exact hspent'.found hlt rfl
    · exact retryTcpReadUntilRead_reports hwf b (hspent'.of_eq hb.symm) rfl rfl
        hlt
  · next hge => exact hspent.gave_up hwf (by omega) rfl rfl

theorem ReportEnd.map_move {st : Status (Except TaskEnd ClientContext)}
    {ok : Trace → (q : Call) → q.Reply → Prop}
    (hst : ReportEnd start delimiter limit h st) :
    Prog.andThen (ReportEnd start delimiter limit) (fun result h =>
      (pure (result.map ClientContext.moveConstruct) :
        Net (Except TaskEnd ClientContext)).Sat ok
          (ReportEnd start delimiter limit) h) h st := by
  cases st with
  | calling => exact hst
  | stuck => exact hst
  | undefined => exact hst
  | done result =>
      cases result with
      | error e => exact hst
      | ok c => exact hst

theorem spent_nil (hb : ctx.clientReadBuffer = some b₀) (hlimit : 0 < limit) :
    Spent b₀ delimiter limit ctx [] 0 := by
  refine ⟨⟨rfl, b₀, hb, fun hwf => ⟨hwf, (List.append_nil _).symm,
    Nat.le_add_right _ _⟩⟩, rfl, iff_of_false not_ever_nil ?_⟩
  rintro ⟨hzero, -⟩
  exact absurd hlimit (by rw [← hzero]; decide)

theorem retryTcpReadUntil_reports (hwf : b₀.WellFormed)
    (hb : ctx.clientReadBuffer = some b₀) (hbudget : 2 ≤ ctx.maxRetyCount)
    (delimiter : Bytes) (fuel : ℕ) (e : ℤ) :
    (retryTcpReadUntil fuel ctx delimiter e).Sat TransientErrors
      (ReportEnd b₀.readable delimiter ctx.maxRetyCount) [] := by
  obtain ⟨hcount, hmax, hbuffer⟩ := retryStart_fields ctx
  have heq : ctx.retryBudget = ctx.maxRetyCount := by
    rw [ClientContext.retryBudget, if_neg (by omega)]
  rw [heq] at hmax
  rw [retryTcpReadUntil]
  split
  · trivial
  · rw [Prog.sat_bind]
    have hloop : (Prog.iterate (retryTcpReadUntilStep delimiter) fuel
        ctx.retryStart).Sat TransientErrors
          (ReportEnd b₀.readable delimiter ctx.maxRetyCount) [] := by
      refine Prog.sat_iterate (fun _ c h =>
        ∃ j, TcpSpending b₀ delimiter ctx.maxRetyCount c h j) ?_ ?_ fuel _ [] ?_
      · intro c h _
        trivial
      · rintro n c h ⟨j, hs⟩
        exact retryTcpReadUntilStep_reports hwf hs
      · exact ⟨0, (spent_nil hb (by omega)).of_eq hbuffer, hcount, hmax,
          by omega⟩
    exact hloop.mono fun _ _ hst => hst.map_move

/-! ## `M_ssl_read_until_retry` -/

/-- How the loop of the helper ends. -/
def TlsReportEnd (start delimiter : Bytes) (limit : ℤ) : Trace →
    Status (Flow ClientContext (Except TaskEnd ClientContext)) → Prop
  | h, .done (.return result) =>
      ReportEnd start delimiter limit h (.done result)
  | _, .done (.fall _) => False
  | _, _ => True

/-- The loop of the helper, which allows itself `limit` reads of a budget of
one more. -/
structure TlsSpending (b₀ : ReadBuffer) (delimiter : Bytes) (limit : ℤ)
    (ctx : ClientContext) (h : Trace) (j : ℕ) : Prop where
  spent : Spent b₀ delimiter limit ctx h j
  count : ctx.connectRetyCount = j
  max : ctx.maxRetyCount = limit + 1
  le : j ≤ limit

abbrev TlsReportNext (b₀ : ReadBuffer) (delimiter : Bytes) (limit : ℤ) :
    Trace → Status (Iter ClientContext
      (Flow ClientContext (Except TaskEnd ClientContext))) → Prop :=
  Prog.andThen (TlsReportEnd b₀.readable delimiter limit)
    (Prog.afterIter (TlsReportEnd b₀.readable delimiter limit) fun c h =>
      ∃ j, TlsSpending b₀ delimiter limit c h j)

theorem sslReadUntilRetryRead_reports
    (hs : Spent b₀ delimiter limit ctx h j)
    (hcount : ctx.connectRetyCount = j + 1)
    (hmax : ctx.maxRetyCount = limit + 1) (hlt : j < limit) :
    (sslReadUntilRetryRead ctx).Sat TransientErrors
      (TlsReportNext b₀ delimiter limit) h := by
  have hcast : ctx.connectRetyCount = ((j + 1 : ℕ) : ℤ) := by
    rw [hcount]
    exact (Int.natCast_succ j).symm
  have hless : ctx.connectRetyCount < ctx.maxRetyCount := by
    rw [hcount, hmax]
    exact Int.add_lt_add_right hlt 1
  rw [sslReadUntilRetryRead]
  refine Prog.sat_perform_bind.mpr ⟨trivial, fun r hr => ?_⟩
  obtain ⟨hopen, hsize⟩ := hr
  have hever := hs.ever_snoc hlt (q := .sslRead 1086) (r := r) Iff.rfl
  have hreads : Trace.reads (h ++ [⟨.sslRead 1086, r⟩]) = j + 1 := by
    rw [Trace.reads_snoc, hs.reads]
    rfl
  rcases r with _ | bytes
  · have hs' : Spent b₀ delimiter limit ctx (h ++ [⟨.sslRead 1086, none⟩])
        (j + 1) := ⟨hs.holding.neutral rfl rfl, hreads, hever⟩
    refine Prog.sat_perform_bind.mpr ⟨trivial, fun (err : ℤ) herr => ?_⟩
    have hs'' := hs'.neutral (q := .sslGetError (-1)) (r := err) rfl rfl rfl
      (fun hno => hno)
    have herr : err = sslErrorWantRead ∨ err = sslErrorWantWrite := herr
    rw [if_pos herr, if_pos hless]
    exact ⟨j + 1, hs''.of_eq rfl, hcast, hmax, hlt⟩
  · rcases bytes with _ | ⟨x, data⟩
    · exact absurd rfl hopen
    · have hlen : (x :: data).length ≤ 4096 := (hsize _ rfl).trans (by omega)
      rcases hs.holding.append (q := .sslRead 1086) (r := some (x :: data))
        (x :: data) rfl rfl hlen with ⟨b', happ, hholding⟩ | ⟨e, happ, -, -⟩
      · simp only [happ]
        rw [if_neg (Int.not_le.mpr hless)]
        exact ⟨j + 1, ⟨hholding, hreads, hever⟩, hcast, hmax, hlt⟩
      · simp only [happ]
        trivial

theorem sslReadUntilRetryStep_reports (hwf : b₀.WellFormed)
    (hs : TlsSpending b₀ delimiter limit ctx h j) :
    (sslReadUntilRetryStep delimiter ctx).Sat TransientErrors
      (TlsReportNext b₀ delimiter limit) h := by
  obtain ⟨hspent, hcount, hmax, hle⟩ := hs
  obtain ⟨b, hb, -⟩ := hspent.holding.buffer
  rw [sslReadUntilRetryStep, hcount, hmax, if_pos (Int.lt_add_one_of_le hle)]
  dsimp only
  -- the count goes up in front of the scan, and its last value returns at once
  split
  · next hge => exact hspent.gave_up hwf (by omega) rfl rfl
  · next hless =>
    have hlt : (j : ℤ) < limit := by omega
    simp only [hb]
    split
    · exact hspent.found hlt rfl
    · exact sslReadUntilRetryRead_reports (hspent.of_eq hb.symm) rfl rfl hlt

/-- The helper up to its loop, for a budget of at least two. -/
theorem sslReadUntilRetry_reports (hwf : b₀.WellFormed)
    (hb : ctx.clientReadBuffer = some b₀) (hbudget : 2 ≤ ctx.maxRetyCount)
    (delimiter : Bytes) (fuel : ℕ) (ssl : ClientSslConfigure) (tlsRet : ℤ) :
    (sslReadUntilRetry fuel ctx ssl tlsRet delimiter).Sat TransientErrors
      (ReportEnd b₀.readable delimiter (ctx.maxRetyCount - 1)) [] := by
  rw [sslReadUntilRetry, Prog.sat_bind]
  refine Prog.Sat.mono ?_ fun _ _ hst => ReportEnd.map_move hst
  rw [sslReadUntilRetryBody]
  split
  · trivial
  · dsimp only
    refine Prog.sat_perform_bind.mpr ⟨trivial, fun (err : ℤ) herr => ?_⟩
    have hstart : Spent b₀ delimiter (ctx.maxRetyCount - 1)
        { ctx with connectRetyCount := 0 } ([] ++ [⟨.sslGetError tlsRet, err⟩])
        0 := by
      refine Spent.neutral ?_ rfl rfl rfl fun hno => hno
      exact spent_nil hb (by omega)
    have hwants : err = sslErrorWantWrite ∨ err = sslErrorWantRead := herr.symm
    have hother : err ≠ sslErrorSyscall := by
      rcases hwants with rfl | rfl
      · decide
      · decide
    rw [if_neg hother, if_pos hwants]
    refine sat_fdSet_bind (fun _ => ?_) fun _ => trivial
    refine Prog.sat_perform_bind.mpr ⟨trivial, fun (w : ℤ) _ => ?_⟩
    have hreceived : Trace.received ([] ++ [⟨.sslGetError tlsRet, err⟩] ++
        [⟨.select ctx.socketfd ctx.timeout, w⟩]) = [] := rfl
    -- a `select` that fails returns without a scan of what is there
    split
    · next hneg =>
      refine (hstart.holding.neutral rfl rfl).gave_up hwf ?_ rfl rfl
      have hnone : ¬ Ever (Unexamined b₀.readable delimiter
          (ctx.maxRetyCount - 1)) ([] ++ [⟨.sslGetError tlsRet, err⟩]) := by
        rw [hstart.unexamined]
        rintro ⟨hzero, -⟩
        omega
      rw [Lib.ever_snoc, or_iff_right hnone, hreceived]
      exact and_iff_right hneg
    · next hready =>
      have hspent := hstart.neutral
        (q := .select ctx.socketfd ctx.timeout) (r := w) rfl rfl rfl
        (fun hno => hready hno.1)
      have hloop : (Prog.iterate (sslReadUntilRetryStep delimiter) fuel
          { ctx with connectRetyCount := 0 }).Sat TransientErrors
            (TlsReportEnd b₀.readable delimiter (ctx.maxRetyCount - 1))
            ([] ++ [⟨.sslGetError tlsRet, err⟩] ++
              [⟨.select ctx.socketfd ctx.timeout, w⟩]) := by
        refine Prog.sat_iterate (fun _ c h =>
          ∃ j, TlsSpending b₀ delimiter (ctx.maxRetyCount - 1) c h j) ?_ ?_ fuel
          _ _ ?_
        · intro c h _
          trivial
        · rintro n c h ⟨j, hs⟩
          exact sslReadUntilRetryStep_reports hwf hs
        · refine ⟨0, hspent, rfl, ?_, ?_⟩
          · exact (Int.sub_add_cancel _ _).symm
          · show (0 : ℤ) ≤ ctx.maxRetyCount - 1
            omega
      rw [sslReadUntilRetryLoop]
      refine hloop.bind (fun _ hst => hst) (fun _ hst => hst)
        fun flow h hst => ?_
      cases flow with
      | fall c => exact hst.elim
      | «return» result => exact hst

/-! ## Both helpers -/

/-- **When a found delimiter is reported.** For every buffer at the start, every
budget of at least two and every sequence of replies without a permanent error
or the end of the stream: a helper that returns reports the delimiter in its
buffer as a success if and only if it has not given up with the delimiter
unexamined. -/
theorem retries_report_iff (ctx : ClientContext) (b₀ : ReadBuffer)
    (hwf : b₀.WellFormed) (hb : ctx.clientReadBuffer = some b₀)
    (hbudget : 2 ≤ ctx.maxRetyCount) (delimiter : Bytes)
    (o : Oracle Call Call.Reply) (ho : o.Obeys TransientErrors) (fuel : ℕ)
    (e : ℤ) (ssl : ClientSslConfigure) (tlsRet : ℤ) :
    let tcp := (retryTcpReadUntil fuel ctx delimiter e).exec o []
    let tls := (sslReadUntilRetry fuel ctx ssl tlsRet delimiter).exec o []
    (∀ c, tcp.1 = .done (.ok c) → (ReportsFound delimiter c ↔
      ¬ Ever (Unexamined b₀.readable delimiter ctx.maxRetyCount) tcp.2)) ∧
      ∀ c, tls.1 = .done (.ok c) → (ReportsFound delimiter c ↔
        ¬ Ever (Unexamined b₀.readable delimiter (ctx.maxRetyCount - 1))
          tls.2) := by
  constructor
  · intro c hc
    have hend := (retryTcpReadUntil_reports hwf hb hbudget delimiter fuel
      e).exec ho
    rw [hc] at hend
    exact hend
  · intro c hc
    have hend := (sslReadUntilRetry_reports hwf hb hbudget delimiter fuel ssl
      tlsRet).exec ho
    rw [hc] at hend
    exact hend

/-- A connection that delivers a byte with each read of a helper, and would
block then. -/
def dripStream (bytes : Bytes) : Oracle Call Call.Reply := fun h q =>
  let drip (size : ℕ) : Option Bytes :=
    if size = 0 then none else bytes[Trace.reads h]?.map fun x => [x]
  match q with
  | .select _ _ => (1 : ℤ)
  | .recv _ _ => none
  | .read _ size => drip size
  | .write _ _ => (0 : ℤ)
  | .errno => eagain
  | .sslRead size => drip size
  | .sslGetError _ => sslErrorWantRead
  | .pastVector _ => []
  | .submit _ => ()

theorem dripStream_obeys (bytes : Bytes) :
    (dripStream bytes).Obeys TransientErrors := by
  have hdrip : ∀ (size : ℕ) (r : Option UInt8),
      let reply := if size = 0 then none else r.map fun x => [x]
      reply ≠ some [] ∧ ∀ data, reply = some data → data.length ≤ size := by
    rintro size (_ | x)
    · simp
    · by_cases hzero : size = 0
      · simp [hzero]
      · simp only [if_neg hzero, Option.map_some]
        refine ⟨by simp, ?_⟩
        rintro data hdata
        cases hdata
        exact Nat.one_le_iff_ne_zero.mpr hzero
  intro h q
  cases q with
  | errno => exact Or.inl rfl
  | sslGetError ret => exact Or.inl rfl
  | read fd size => exact hdrip size _
  | sslRead size => exact hdrip size _
  | _ => trivial

/-- A context with an empty buffer and a budget of two. -/
def twoRetries : ClientContext :=
  { connected with maxRetyCount := 2, clientReadBuffer := some (.filled []) }

theorem retries_report_iff_empty :
    let tcp := (retryTcpReadUntil 9 twoRetries [10] eagain).exec
      (dripStream [65, 10]) []
    let tls := (sslReadUntilRetry 9 twoRetries ⟨some 2, some 1⟩ (-1) [10]).exec
      (dripStream [65, 10]) []
    (∀ c, tcp.1 = .done (.ok c) → (ReportsFound [10] c ↔
      ¬ Ever (Unexamined (ReadBuffer.filled []).readable [10] 2) tcp.2)) ∧
      ∀ c, tls.1 = .done (.ok c) → (ReportsFound [10] c ↔
        ¬ Ever (Unexamined (ReadBuffer.filled []).readable [10] (2 - 1))
          tls.2) :=
  retries_report_iff twoRetries (.filled [])
    (ReadBuffer.filled_wellFormed (by decide)) rfl (by decide) [10]
    (dripStream [65, 10]) (dripStream_obeys _) 9 eagain ⟨some 2, some 1⟩ (-1)

/-- With a budget of two the second read over TCP, and the first one over TLS,
delivers the delimiter, and a failure is returned. -/
theorem retries_overlook :
    ((retryTcpReadUntil 9 twoRetries [10] eagain).exec (dripStream [65, 10])
        []).1 = .done (.ok { twoRetries with
          clientReadBuffer := some (.filled [65, 10]) }) ∧
      ((sslReadUntilRetry 9 twoRetries ⟨some 2, some 1⟩ (-1) [10]).exec
        (dripStream [10]) []).1 = .done (.ok { twoRetries with
          clientReadBuffer := some (.filled [10]) }) ∧
      ¬ ∀ (ctx : ClientContext) (b₀ : ReadBuffer) (delimiter : Bytes)
        (o : Oracle Call Call.Reply) (fuel : ℕ) (e : ℤ) (c : ClientContext),
        b₀.WellFormed → ctx.clientReadBuffer = some b₀ →
        2 ≤ ctx.maxRetyCount → delimiter ≠ [] → o.Obeys TransientErrors →
        ((retryTcpReadUntil fuel ctx delimiter e).exec o []).1 =
          .done (.ok c) → ReportsFound delimiter c := by
  have htcp : ((retryTcpReadUntil 9 twoRetries [10] eagain).exec
      (dripStream [65, 10]) []).1 = .done (.ok { twoRetries with
        clientReadBuffer := some (.filled [65, 10]) }) := by
    decide +kernel
  refine ⟨htcp, by decide +kernel, fun hall => ?_⟩
  have hreports := hall twoRetries (.filled []) [10] (dripStream [65, 10]) 9
    eagain _ (ReadBuffer.filled_wellFormed (by decide)) rfl (by decide)
    (by decide) (dripStream_obeys _) htcp
  have hsuccess := hreports ⟨.filled [65, 10], rfl, by decide⟩
  exact Bool.false_ne_true hsuccess

end

end Mtasc
