import Mtasc.Client.Enough
import Mtasc.Client.Scans

/-!
# What a success of `async_read_until` means

A zero error code is to mean that the delimiter has been read or that the peer
has closed the connection, and that the count is the number of readable bytes.
Two readings of `errno` can make it mean nothing: one in the helper, which takes
`EISCONN` for a success, and the one behind a failed helper, which becomes the
error code whatever it is.
-/

namespace Mtasc

open Lib

/-- Every success comes with the delimiter or the end of the stream, and with
the number of readable bytes. -/
def SuccessesTrue (delimiter : Bytes) (h : Trace) : Prop :=
  ∀ s ∈ h.completions, s.ec.IsZero →
    ∃ b, s.buffer = some b ∧ (delimiter <:+: b.readable ∨ Ever Closes h) ∧
      s.bytes = b.readableBytes

def AsksErrno : (q : Call) → q.Reply → Prop
  | .errno, _ => True
  | _, _ => False

/-- A `read` of the helper has met the end of the stream. -/
def MeetsEnd : (q : Call) → q.Reply → Prop
  | .read _ _, r => r = some []
  | _, _ => False

/-- `M_retryTcpRead_until` is over. One reading of `errno` comes before its own,
and each of these but the last is followed by a `read`. -/
def RetryOver (budget : ℤ) (h : Trace) : Prop :=
  2 ≤ h.errnos ∧
    (Latest AsksErrno h ∨ Latest MeetsEnd h ∨ (h.errnos : ℤ) = budget + 1)

/-- The readings of `errno` that make a success mean nothing: `EISCONN` in the
helper before the delimiter has been received, and 0 behind a helper that has
failed otherwise than at the end of an empty stream. -/
def Deceives (delimiter : Bytes) (budget : ℤ) :
    Trace → (q : Call) → q.Reply → Prop
  | h, .errno, e =>
      (1 ≤ h.errnos ∧ ¬ RetryOver budget h ∧ e = eisconn ∧
        ¬ delimiter <:+: h.received) ∨
      (RetryOver budget h ∧ e = 0 ∧ ¬ Latest MeetsEnd h)
  | _, _, _ => False

section

variable {delimiter : Bytes} {budget : ℤ} {ctx : ClientContext} {h : Trace}

/-! ## Judging a run -/

/-- How the task ends: successes are true, and no reading of `errno` has
deceived it; or one has. -/
def SuccessEnd (delimiter : Bytes) (budget : ℤ) : Trace → Status TaskEnd → Prop
  | _, .calling => True
  | h, _ => SuccessesTrue delimiter h ↔ ¬ Ever (Deceives delimiter budget) h

/-- Nothing has been submitted, and nothing has deceived the task. -/
structure Undeceived (delimiter : Bytes) (budget : ℤ) (ctx : ClientContext)
    (h : Trace) : Prop where
  holding : Holding .valueInit ctx h
  undeceived : ¬ Ever (Deceives delimiter budget) h

theorem Holding.received_eq (hs : Holding .valueInit ctx h) :
    ∃ b, ctx.clientReadBuffer = some b ∧ b.WellFormed ∧
      b.readable = h.received := by
  obtain ⟨b, hb, hrcv⟩ := hs.buffer
  have hold := hrcv ReadBuffer.valueInit_wellFormed
  exact ⟨b, hb, hold.wellFormed, hold.readable⟩

theorem Undeceived.neutral (hs : Undeceived delimiter budget ctx h) {q : Call}
    {r : q.Reply} (hrec : Trace.receivedBy q r = [])
    (hcomp : Trace.completedBy q r = [])
    (hok : ¬ Deceives delimiter budget h q r) :
    Undeceived delimiter budget ctx (h ++ [⟨q, r⟩]) where
  holding := hs.holding.neutral hrec hcomp
  undeceived := by
    rw [ever_snoc]
    exact not_or.mpr ⟨hs.undeceived, hok⟩

theorem Undeceived.of_eq (hs : Undeceived delimiter budget ctx h)
    {c : ClientContext} (hb : c.clientReadBuffer = ctx.clientReadBuffer) :
    Undeceived delimiter budget c h :=
  ⟨hs.holding.of_eq hb, hs.undeceived⟩

/-- A run without a callback. -/
theorem successes_pending (hno : ¬ Ever (Deceives delimiter budget) h)
    (hh : h.completions = []) :
    SuccessesTrue delimiter h ↔ ¬ Ever (Deceives delimiter budget) h := by
  refine iff_of_true (fun s hs => ?_) hno
  rw [hh] at hs
  exact absurd hs List.not_mem_nil

/-- Submitting what is true. -/
theorem Undeceived.submit (hs : Undeceived delimiter budget ctx h)
    {ec : ErrorCode} {n : ℕ} {c : ClientContext}
    (htrue : ec.IsZero → (delimiter <:+: h.received ∨ Ever Closes h) ∧
      n = h.received.length) :
    SuccessEnd delimiter budget
      (h ++ [⟨.submit (.read ec n ctx.clientReadBuffer c), ()⟩])
      (.done .returned) := by
  obtain ⟨b, hb, hwf, hread⟩ := hs.holding.received_eq
  refine iff_of_true (fun s hmem hzero => ?_) ?_
  · rw [Trace.completions_snoc, hs.holding.completions] at hmem
    obtain rfl := List.mem_singleton.mp hmem
    obtain ⟨hfound, hcount⟩ := htrue hzero
    refine ⟨b, hb, ?_, ?_⟩
    · rw [hread]
      exact hfound.imp_right fun hclosed => ever_snoc.mpr (Or.inl hclosed)
    · rw [← hwf.readable_length, hread]
      exact hcount
  · simpa [Deceives] using hs.undeceived

/-- Submitting a success with neither the delimiter nor the end. -/
theorem Holding.submit_deceived (hs : Holding .valueInit ctx h) {ec : ErrorCode}
    {n : ℕ} {c : ClientContext} (hzero : ec.IsZero) (hopen : ¬ Ever Closes h)
    (hfalse : delimiter <:+: h.received → n ≠ h.received.length)
    (hdeceived : Ever (Deceives delimiter budget) h) :
    SuccessEnd delimiter budget
      (h ++ [⟨.submit (.read ec n ctx.clientReadBuffer c), ()⟩])
      (.done .returned) := by
  obtain ⟨b, hb, hwf, hread⟩ := hs.received_eq
  refine iff_of_false (fun htrue => ?_) fun hno =>
    hno (ever_snoc.mpr (Or.inl hdeceived))
  have hmem : .read ec n ctx.clientReadBuffer c ∈ Trace.completions
      (h ++ [⟨.submit (.read ec n ctx.clientReadBuffer c), ()⟩]) := by
    rw [Trace.completions_snoc]
    exact List.mem_append_right _ (List.mem_singleton_self _)
  obtain ⟨b', hb', hfound, hcount⟩ := htrue _ hmem hzero
  have heq : some b = some b' := hb.symm.trans hb'
  cases heq
  rcases hfound with hocc | hclosed
  · rw [hread] at hocc
    refine hfalse hocc ?_
    rw [← hread, hwf.readable_length]
    exact hcount
  · rcases ever_snoc.mp hclosed with hclosed | hnever
    · exact hopen hclosed
    · exact hnever

/-! ## The helper -/

/-- The loop of the helper after `j` reads. -/
structure Rereading (delimiter : Bytes) (budget : ℤ) (ctx : ClientContext)
    (h : Trace) (j : ℕ) : Prop where
  quiet : Undeceived delimiter budget ctx h
  isOpen : ¬ Ever Closes h
  errnos : h.errnos = j + 1
  count : ctx.connectRetyCount = j
  max : ctx.maxRetyCount = budget
  pos : 0 < budget
  le : j ≤ budget
  last : j = 0 ∨ ¬ Latest AsksErrno h ∧ ¬ Latest MeetsEnd h

/-- What the helper returns. -/
inductive Reread (delimiter : Bytes) (budget : ℤ) (ctx : ClientContext)
    (h : Trace) : Prop where
  | success (hsuccess : ctx.isRetrySuccess = true)
      (hs : Undeceived delimiter budget ctx h)
      (htrue : delimiter <:+: h.received ∨ Ever Closes h)
  | deceived (hsuccess : ctx.isRetrySuccess = true)
      (hs : Holding .valueInit ctx h) (hopen : ¬ Ever Closes h)
      (hnone : ¬ delimiter <:+: h.received)
      (hdeceived : Ever (Deceives delimiter budget) h)
  | ended (hfailure : ctx.isRetrySuccess = false)
      (hs : Undeceived delimiter budget ctx h) (hclosed : Ever Closes h)
      (htwo : 2 ≤ h.errnos) (hend : Latest MeetsEnd h) (hempty : h.received = [])
  | failed (hfailure : ctx.isRetrySuccess = false)
      (hs : Undeceived delimiter budget ctx h) (hopen : ¬ Ever Closes h)
      (hover : RetryOver budget h) (hend : ¬ Latest MeetsEnd h)

/-- How the helper ends. -/
def RereadEnd (delimiter : Bytes) (budget : ℤ) :
    Trace → Status (Except TaskEnd ClientContext) → Prop
  | h, .done (.ok c) => Reread delimiter budget c h
  | _, .calling => True
  | h, _ => h.completions = [] ∧ ¬ Ever (Deceives delimiter budget) h

abbrev RereadNext (delimiter : Bytes) (budget : ℤ) :
    Trace → Status (Iter ClientContext (Except TaskEnd ClientContext)) → Prop :=
  Prog.andThen (RereadEnd delimiter budget)
    (Prog.afterIter (RereadEnd delimiter budget) fun c h =>
      ∃ j, Rereading delimiter budget c h j)

section

variable {fd : ℤ} {r : Option Bytes}

/-- A `read` that is not the end of the stream leaves it open. -/
theorem open_of_read (hr : r ≠ some []) (hopen : ¬ Ever Closes h) :
    ¬ Ever Closes (h ++ [⟨.read fd 1086, r⟩]) := by
  rw [ever_snoc]
  rintro (hclosed | hend)
  · exact hopen hclosed
  · exact hr hend

theorem not_meetsEnd_of_read (hr : r ≠ some []) :
    ¬ Latest MeetsEnd (h ++ [⟨.read fd 1086, r⟩]) := by
  rw [latest_snoc]
  exact hr

theorem errnos_of_read :
    Trace.errnos (h ++ [⟨.read fd 1086, r⟩]) = h.errnos := by
  simp

/-- The next iteration of the helper, behind such a `read`. -/
theorem Rereading.again {j : ℕ}
    (hs : Undeceived delimiter budget ctx (h ++ [⟨.read fd 1086, r⟩]))
    (hr : r ≠ some []) (hopen : ¬ Ever Closes h) (herrnos : h.errnos = j + 2)
    (hcount : ctx.connectRetyCount = j + 1) (hmax : ctx.maxRetyCount = budget)
    (hlt : j < budget) :
    Rereading delimiter budget ctx (h ++ [⟨.read fd 1086, r⟩]) (j + 1) where
  quiet := hs
  isOpen := open_of_read hr hopen
  errnos := by rw [errnos_of_read, herrnos]
  count := hcount.trans (Int.natCast_succ j).symm
  max := hmax
  pos := by omega
  le := by omega
  last := by
    refine Or.inr ⟨?_, not_meetsEnd_of_read hr⟩
    rw [latest_snoc]
    exact fun hno => hno

end

/-- A `read` of the helper, the one of iteration `j + 1`. -/
theorem retryTcpReadUntilRead_true {j : ℕ} {b : ReadBuffer}
    (hs : Undeceived delimiter budget ctx h) (hopen : ¬ Ever Closes h)
    (hb : ctx.clientReadBuffer = some b) (herrnos : h.errnos = j + 2)
    (hcount : ctx.connectRetyCount = j + 1) (hmax : ctx.maxRetyCount = budget)
    (hlt : j < budget) :
    (retryTcpReadUntilRead b ctx).Sat ReadContract
      (RereadNext delimiter budget) h := by
  rw [retryTcpReadUntilRead]
  refine Prog.sat_perform_bind.mpr ⟨trivial, fun r hr => ?_⟩
  have hokread : ¬ Deceives delimiter budget h (.read ctx.socketfd 1086) r :=
    fun hno => hno
  rcases r with _ | bytes
  · have hs' := hs.neutral (q := .read ctx.socketfd 1086) (r := none) rfl rfl
      hokread
    have hfailed : (none : Option Bytes) ≠ some [] := by
      intro hnil
      cases hnil
    dsimp only
    -- a failed `read` ends the retries only with the last of the budget
    split
    · next hge =>
      rw [hcount, hmax] at hge
      refine .failed rfl (hs'.of_eq rfl) (open_of_read hfailed hopen) ⟨?_, ?_⟩
        (not_meetsEnd_of_read hfailed)
      · rw [errnos_of_read]
        omega
      · refine Or.inr (Or.inr ?_)
        rw [errnos_of_read, herrnos]
        omega
    · exact ⟨j + 1, .again hs' hfailed hopen herrnos hcount hmax hlt⟩
  · rcases bytes with _ | ⟨x, data⟩
    · have hs' := hs.neutral (q := .read ctx.socketfd 1086) (r := some []) rfl
        rfl hokread
      have hclosed : Ever Closes (h ++ [⟨.read ctx.socketfd 1086, some []⟩]) :=
        ever_snoc.mpr (Or.inr rfl)
      dsimp only
      -- the end of the stream counts as a success with bytes in the buffer
      split
      · exact .success rfl (hs'.of_eq rfl) (Or.inr hclosed)
      · next hempty =>
        obtain ⟨b', hb', hwf, hread⟩ := hs.holding.received_eq
        rw [hb] at hb'
        cases hb'
        have htwo : 2 ≤ Trace.errnos
            (h ++ [⟨.read ctx.socketfd 1086, some []⟩]) := by
          rw [errnos_of_read]
          omega
        refine .ended rfl (hs'.of_eq rfl) hclosed htwo (latest_snoc.mpr rfl) ?_
        have hnone : h.received = [] := by
          rw [← hread, ← List.length_eq_zero_iff, hwf.readable_length]
          exact Decidable.not_not.mp hempty
        rw [Trace.received_snoc, hnone]
        rfl
    · have hlen : (x :: data).length ≤ 4096 := (hr _ rfl).trans (by omega)
      have hno : ¬ Ever (Deceives delimiter budget)
          (h ++ [⟨.read ctx.socketfd 1086, some (x :: data)⟩]) := by
        rw [ever_snoc]
        exact not_or.mpr ⟨hs.undeceived, hokread⟩
      rcases hs.holding.append (q := .read ctx.socketfd 1086)
        (r := some (x :: data)) (x :: data) rfl rfl hlen with
        ⟨b', happ, hs'⟩ | ⟨e, happ, -, hout⟩
      · simp only [happ]
        have hdata : some (x :: data) ≠ some [] := by
          intro hnil
          cases hnil
        exact ⟨j + 1, .again ⟨hs', hno⟩ hdata hopen herrnos hcount hmax hlt⟩
      · simp only [happ]
        exact ⟨hout.completions, hno⟩

theorem Rereading.not_over {j : ℕ} (hs : Rereading delimiter budget ctx h j)
    (hlt : j < budget) : ¬ RetryOver budget h := by
  rintro ⟨htwo, hlast⟩
  have herrnos := hs.errnos
  rcases hs.last with hzero | ⟨hasks, hend⟩
  · omega
  · rcases hlast with hlast | hlast | hspent
    · exact hasks hlast
    · exact hend hlast
    · omega

theorem retryTcpReadUntilStep_true {j : ℕ}
    (hs : Rereading delimiter budget ctx h j) :
    (retryTcpReadUntilStep delimiter ctx).Sat ReadContract
      (RereadNext delimiter budget) h := by
  obtain ⟨b, hb, hwf, hread⟩ := hs.quiet.holding.received_eq
  rw [retryTcpReadUntilStep, hs.count, hs.max]
  split
  · next hlt =>
    have hover := hs.not_over hlt
    refine Prog.sat_perform_bind.mpr ⟨trivial, fun (e : ℤ) _ => ?_⟩
    have hopen : ¬ Ever Closes (h ++ [⟨.errno, e⟩]) := by
      simpa [Closes] using hs.isOpen
    have hsame : Trace.received (h ++ [⟨.errno, e⟩]) = h.received := by simp
    have herrnos : Trace.errnos (h ++ [⟨.errno, e⟩]) = j + 2 := by
      rw [Trace.errnos_snoc, hs.errnos]
      rfl
    have hok : ¬ (e = eisconn ∧ ¬ delimiter <:+: h.received) →
        ¬ Deceives delimiter budget h .errno e := by
      rintro hnot (⟨-, -, hbad⟩ | ⟨hyes, -⟩)
      · exact hnot hbad
      · exact hover hyes
    split
    · next hconn =>
      -- the success that `EISCONN` stands for is one only by chance
      by_cases hocc : delimiter <:+: h.received
      · have hs' := hs.quiet.neutral rfl rfl (hok fun hbad => hbad.2 hocc)
        exact .success rfl (hs'.of_eq rfl) (Or.inl (hsame ▸ hocc))
      · have hdeceives : Deceives delimiter budget h .errno e := by
          refine Or.inl ⟨?_, hover, hconn, hocc⟩
          rw [hs.errnos]
          exact Nat.le_add_left _ _
        exact .deceived rfl ((hs.quiet.holding.neutral rfl rfl).of_eq rfl) hopen
          (hsame ▸ hocc) (ever_snoc.mpr (Or.inr hdeceives))
    · next hother =>
      have hs' := hs.quiet.neutral rfl rfl (hok fun hbad => hother hbad.1)
      split
      · simp only [hb]
        split
        · next hfound =>
          refine .success rfl (hs'.of_eq hb.symm) (Or.inl ?_)
          rw [hsame, ← hread]
          exact hwf.findDelimiter_sound hfound
        · exact retryTcpReadUntilRead_true (hs'.of_eq hb.symm) hopen rfl
            herrnos rfl rfl hlt
      · refine .failed rfl (hs'.of_eq rfl) hopen ⟨?_, ?_⟩ ?_
        · omega
        · exact Or.inl (latest_snoc.mpr trivial)
        · rw [latest_snoc]
          exact fun hno => hno
  · next hspent =>
    have hle := hs.le
    have hpos := hs.pos
    have herrnos := hs.errnos
    have hlast := hs.last.resolve_left (by omega)
    refine .failed rfl (hs.quiet.of_eq rfl) hs.isOpen ⟨?_, ?_⟩ hlast.2
    · omega
    · refine Or.inr (Or.inr ?_)
      omega

theorem Reread.of_eq (hs : Reread delimiter budget ctx h) {c : ClientContext}
    (hb : c.clientReadBuffer = ctx.clientReadBuffer)
    (hflag : c.isRetrySuccess = ctx.isRetrySuccess) :
    Reread delimiter budget c h := by
  cases hs with
  | success hsuccess hs htrue =>
      exact .success (hflag.trans hsuccess) (hs.of_eq hb) htrue
  | deceived hsuccess hs hopen hnone hdeceived =>
      exact .deceived (hflag.trans hsuccess) (hs.of_eq hb) hopen hnone hdeceived
  | ended hfailure hs hclosed htwo hend hempty =>
      exact .ended (hflag.trans hfailure) (hs.of_eq hb) hclosed htwo hend hempty
  | failed hfailure hs hopen hover hend =>
      exact .failed (hflag.trans hfailure) (hs.of_eq hb) hopen hover hend

theorem retryTcpReadUntil_true
    (hs : Undeceived delimiter ctx.retryBudget ctx h)
    (hopen : ¬ Ever Closes h) (herrnos : h.errnos = 1) (fuel : ℕ) (e : ℤ) :
    (retryTcpReadUntil fuel ctx delimiter e).Sat ReadContract
      (RereadEnd delimiter ctx.retryBudget) h := by
  obtain ⟨hcount, hmax, hbuffer⟩ := retryStart_fields ctx
  have hpos := retryBudget_pos ctx
  rw [retryTcpReadUntil]
  split
  · exact ⟨hs.holding.completions, hs.undeceived⟩
  · have hloop : (Prog.iterate (retryTcpReadUntilStep delimiter) fuel
        ctx.retryStart).Sat ReadContract
          (RereadEnd delimiter ctx.retryBudget) h := by
      refine Prog.sat_iterate (fun _ c h =>
        ∃ j, Rereading delimiter ctx.retryBudget c h j) ?_ ?_ fuel _ h ?_
      · rintro c h ⟨j, hs⟩
        exact ⟨hs.quiet.holding.completions, hs.quiet.undeceived⟩
      · rintro n c h ⟨j, hs⟩
        exact retryTcpReadUntilStep_true hs
      · exact ⟨0, hs.of_eq hbuffer, hopen, herrnos, hcount, hmax, hpos,
          Int.le_of_lt hpos, Or.inl rfl⟩
    refine hloop.bind (fun _ hst => hst) (fun _ hst => hst) fun result h hst => ?_
    cases result with
    | error e => exact hst
    | ok c => exact Reread.of_eq hst rfl rfl

/-! ## `async_read_until` -/

/-- The loop of the task. -/
structure Untiling (delimiter : Bytes) (budget : ℤ)
    (s : ReadState × ClientContext) (h : Trace) : Prop where
  quiet : Undeceived delimiter budget s.2 h
  budget : s.2.retryBudget = budget
  errnos : h.errnos = 0
  stage : match s.1 with
    | .found => delimiter <:+: h.received
    | .close => Ever Closes h
    | _ => ¬ Ever Closes h

abbrev UntilNext (delimiter : Bytes) (budget : ℤ) :
    Trace → Status (Iter (ReadState × ClientContext) TaskEnd) → Prop :=
  Prog.andThen (SuccessEnd delimiter budget)
    (Prog.afterIter (SuccessEnd delimiter budget) (Untiling delimiter budget))

/-- Submitting a count at the end of a case. -/
theorem sat_submitRead_true {ok : Trace → (q : Call) → q.Reply → Prop}
    {ec : ErrorCode} {n : ℕ}
    (hend : ∀ c, SuccessEnd delimiter budget
      (h ++ [⟨.submit (.read ec n ctx.clientReadBuffer c), ()⟩])
      (.done .returned)) :
    (submitRead ec n ctx >>= fun _ =>
        (pure (.done .returned) :
          Net (Iter (ReadState × ClientContext) TaskEnd))).Sat ok
      (UntilNext delimiter budget) h := by
  rw [Prog.sat_bind]
  exact sat_submitRead trivial (hend _)

/-- Submitting the number of readable bytes, which is that of the bytes
received. -/
theorem sat_submitReadable_true {ok : Trace → (q : Call) → q.Reply → Prop}
    {ec : ErrorCode} (hs : Holding .valueInit ctx h)
    (hend : ∀ c, SuccessEnd delimiter budget
      (h ++ [⟨.submit (.read ec h.received.length ctx.clientReadBuffer c), ()⟩])
      (.done .returned)) :
    (submitReadable ec ctx >>= fun e =>
        (pure (.done e) : Net (Iter (ReadState × ClientContext) TaskEnd))).Sat
      ok (UntilNext delimiter budget) h := by
  obtain ⟨b, hb, hwf, hread⟩ := hs.received_eq
  have hlen : b.readableBytes = h.received.length := by
    rw [← hwf.readable_length, hread]
  rw [hb, ← hlen] at hend
  rw [Prog.sat_bind]
  exact sat_submitReadable hb trivial (hend _)

/-- What is done with what the helper returns. -/
theorem readUntilError_helped (hd : delimiter ≠ []) {c : ClientContext}
    (hs : Reread delimiter budget c h) (ctx : ClientContext) :
    (if c.isRetrySuccess then do
        let e ← submitReadable {} (ctx.moveAssign c)
        return .done e
      else do
        let errno ← perform .errno
        let _ ← submitRead ⟨errno, .system⟩ 0 (ctx.moveAssign c)
        return .done .returned : ReadStep).Sat
      ReadContract (UntilNext delimiter budget) h := by
  cases hs with
  | success hsuccess hs htrue =>
      rw [if_pos hsuccess]
      have hmoved : Undeceived delimiter budget (ctx.moveAssign c) h :=
        hs.of_eq rfl
      refine sat_submitReadable_true hmoved.holding fun c' => ?_
      exact hmoved.submit fun _ => ⟨htrue, rfl⟩
  | deceived hsuccess hs hopen hnone hdeceived =>
      rw [if_pos hsuccess]
      have hmoved : Holding .valueInit (ctx.moveAssign c) h := hs.of_eq rfl
      refine sat_submitReadable_true hmoved fun c' => ?_
      exact hmoved.submit_deceived rfl hopen (fun hocc => absurd hocc hnone)
        hdeceived
  | ended hfailure hs hclosed htwo hend hempty =>
      rw [if_neg (by simp [hfailure])]
      refine Prog.sat_perform_bind.mpr ⟨trivial, fun (e : ℤ) _ => ?_⟩
      refine sat_submitRead_true fun c' => ?_
      have hok : ¬ Deceives delimiter budget h .errno e := by
        rintro (⟨-, hno, -⟩ | ⟨-, -, hno⟩)
        · exact hno ⟨htwo, Or.inr (Or.inl hend)⟩
        · exact hno hend
      have hmoved : Undeceived delimiter budget (ctx.moveAssign c)
          (h ++ [⟨.errno, e⟩]) := (hs.neutral rfl rfl hok).of_eq rfl
      refine hmoved.submit fun _ => ⟨Or.inr ?_, ?_⟩
      · exact ever_snoc.mpr (Or.inl hclosed)
      · simp [hempty]
  | failed hfailure hs hopen hover hend =>
      rw [if_neg (by simp [hfailure])]
      refine Prog.sat_perform_bind.mpr ⟨trivial, fun (e : ℤ) _ => ?_⟩
      refine sat_submitRead_true fun c' => ?_
      by_cases hzero : e = 0
      · have hdeceives : Deceives delimiter budget h .errno e :=
          Or.inr ⟨hover, hzero, hend⟩
        have hmoved : Holding .valueInit (ctx.moveAssign c)
            (h ++ [⟨.errno, e⟩]) := (hs.holding.neutral rfl rfl).of_eq rfl
        refine hmoved.submit_deceived hzero ?_ ?_ ?_
        · simpa [Closes] using hopen
        · -- a delimiter among the bytes makes them more than none
          rintro hocc hnone
          have hlen := hocc.length_le
          have hpos := List.length_pos_iff.mpr hd
          omega
        · exact ever_snoc.mpr (Or.inr hdeceives)
      · have hok : ¬ Deceives delimiter budget h .errno e := by
          rintro (⟨-, hno, -⟩ | ⟨-, hyes, -⟩)
          · exact hno hover
          · exact hzero hyes
        have hmoved : Undeceived delimiter budget (ctx.moveAssign c)
            (h ++ [⟨.errno, e⟩]) := (hs.neutral rfl rfl hok).of_eq rfl
        exact hmoved.submit fun hno => absurd hno hzero

/-- The first `errno` of `case ERROR` is not looked at. -/
theorem Undeceived.errno (hs : Undeceived delimiter budget ctx h)
    (herrnos : h.errnos = 0) (e : ℤ) :
    Undeceived delimiter budget ctx (h ++ [⟨.errno, e⟩]) := by
  refine hs.neutral rfl rfl ?_
  rintro (⟨hone, -⟩ | ⟨⟨htwo, -⟩, -⟩)
  · omega
  · omega

theorem readUntilError_true (hd : delimiter ≠ [])
    (hs : Undeceived delimiter ctx.retryBudget ctx h)
    (herrnos : h.errnos = 0) (hopen : ¬ Ever Closes h) (fuel : ℕ) :
    (readUntilError fuel delimiter ctx).Sat ReadContract
      (UntilNext delimiter ctx.retryBudget) h := by
  rw [readUntilError]
  refine Prog.sat_perform_bind.mpr ⟨trivial, fun (e : ℤ) _ => ?_⟩
  have hopen' : ¬ Ever Closes (h ++ [⟨.errno, e⟩]) := by
    simpa [Closes] using hopen
  have hone : Trace.errnos (h ++ [⟨.errno, e⟩]) = 1 := by
    rw [Trace.errnos_snoc, herrnos]
    rfl
  refine (retryTcpReadUntil_true (hs.errno herrnos e) hopen' hone fuel e).bind
    (fun _ hst => hst) ?_ ?_ ?_
  · rintro h' ⟨hpending, hno⟩
    exact successes_pending hno hpending
  · intro result h' hst
    cases result with
    | error end' => exact successes_pending hst.2 hst.1
    | ok c => exact readUntilError_helped hd hst ctx
  · rintro h' ⟨hpending, hno⟩
    exact successes_pending hno hpending

/-- `case READING`, which falls into `case ERROR` with what it has read. -/
theorem readUntilReading_true (hd : delimiter ≠ [])
    (hs : Undeceived delimiter ctx.retryBudget ctx h)
    (herrnos : h.errnos = 0) (hopen : ¬ Ever Closes h) (fuel : ℕ) :
    (readUntilReading fuel delimiter ctx).Sat ReadContract
      (UntilNext delimiter ctx.retryBudget) h := by
  rw [readUntilReading]
  refine Prog.sat_perform_bind.mpr ⟨trivial, fun (w : ℤ) _ => ?_⟩
  have hs₁ := hs.neutral (q := .select ctx.socketfd ctx.timeout) (r := w) rfl
    rfl (fun hno => hno)
  have hopen₁ : ¬ Ever Closes (h ++ [⟨.select ctx.socketfd ctx.timeout, w⟩]) := by
    simpa [Closes] using hopen
  have herrnos₁ : Trace.errnos
      (h ++ [⟨.select ctx.socketfd ctx.timeout, w⟩]) = 0 := by
    simpa using herrnos
  split
  · exact ⟨hs₁, rfl, herrnos₁, hopen₁⟩
  · refine Prog.sat_perform_bind.mpr ⟨trivial, fun r hr => ?_⟩
    generalize h ++ [⟨.select ctx.socketfd ctx.timeout, w⟩] = h₁ at *
    have herrnos₂ :
        Trace.errnos (h₁ ++ [⟨.recv ctx.socketfd 4096, r⟩]) = 0 := by
      simpa using herrnos₁
    rcases r with _ | bytes
    · refine ⟨hs₁.neutral rfl rfl fun hno => hno, rfl, herrnos₂, ?_⟩
      show ¬ Ever Closes _
      rw [ever_snoc]
      rintro (hclosed | hnil)
      · exact hopen₁ hclosed
      · cases hnil
    · rcases bytes with _ | ⟨x, data⟩
      · refine ⟨hs₁.neutral rfl rfl fun hno => hno, rfl, herrnos₂, ?_⟩
        exact ever_snoc.mpr (Or.inr rfl)
      · have hno : ¬ Ever (Deceives delimiter ctx.retryBudget)
            (h₁ ++ [⟨.recv ctx.socketfd 4096, some (x :: data)⟩]) := by
          rw [ever_snoc]
          exact not_or.mpr ⟨hs₁.undeceived, fun hno => hno⟩
        rcases hs₁.holding.append (q := .recv ctx.socketfd 4096)
          (r := some (x :: data)) (x :: data) rfl rfl (hr _ rfl) with
          ⟨b', happ, hs₂⟩ | ⟨e, happ, -, hout⟩
        · simp only [happ]
          have hs₃ : Undeceived delimiter
              { ctx with clientReadBuffer := some b' }.retryBudget
              { ctx with clientReadBuffer := some b' }
              (h₁ ++ [⟨.recv ctx.socketfd 4096, some (x :: data)⟩]) :=
            ⟨hs₂, hno⟩
          refine readUntilError_true hd hs₃ herrnos₂ ?_ fuel
          rw [ever_snoc]
          rintro (hclosed | hnil)
          · exact hopen₁ hclosed
          · cases hnil
        · simp only [happ]
          exact successes_pending hno hout.completions

theorem readUntilStep_true (hd : delimiter ≠ [])
    {s : ReadState × ClientContext} (hs : Untiling delimiter budget s h)
    (fuel : ℕ) :
    (readUntilStep fuel delimiter s).Sat ReadContract
      (UntilNext delimiter budget) h := by
  obtain ⟨state, c⟩ := s
  obtain ⟨hquiet, rfl, herrnos, hstage⟩ := hs
  have hquiet : Undeceived delimiter c.retryBudget c h := hquiet
  obtain ⟨b, hb, hwf, hread⟩ := hquiet.holding.received_eq
  cases state with
  | verify =>
      rw [readUntilStep, readUntilVerify, hb]
      dsimp only
      split
      · next hfound =>
        refine ⟨hquiet, rfl, herrnos, ?_⟩
        show delimiter <:+: h.received
        rw [← hread]
        exact hwf.findDelimiter_sound hfound
      · exact readUntilReading_true hd hquiet herrnos hstage fuel
  | reading => exact readUntilReading_true hd hquiet herrnos hstage fuel
  | found =>
      refine sat_submitReadable_true hquiet.holding fun c' => ?_
      exact hquiet.submit fun _ => ⟨Or.inl hstage, rfl⟩
  | error => exact readUntilError_true hd hquiet herrnos hstage fuel
  | close =>
      have hlen : b.readableBytes = h.received.length := by
        rw [← hwf.readable_length, hread]
      rw [readUntilStep, readUntilClose]
      simp only [hb]
      split
      · refine sat_submitRead_true fun c' => ?_
        exact hquiet.submit fun _ => ⟨Or.inr hstage, hlen⟩
      · next hempty =>
        refine sat_submitRead_true fun c' => ?_
        refine hquiet.submit fun _ => ⟨Or.inr hstage, ?_⟩
        omega

theorem asyncReadUntil_true (ctx : ClientContext) (hd : delimiter ≠ [])
    (fuel : ℕ) :
    (asyncReadUntil fuel ctx delimiter).Sat ReadContract
      (SuccessEnd delimiter ctx.retryBudget) [] := by
  refine Prog.sat_iterate (fun _ => Untiling delimiter ctx.retryBudget) ?_ ?_
    fuel _ [] ?_
  · intro s h hs
    exact successes_pending hs.quiet.undeceived hs.quiet.holding.completions
  · intro n s h hs
    exact readUntilStep_true hd hs fuel
  · exact ⟨⟨⟨rfl, _, rfl, fun hwf => ⟨hwf, rfl, Nat.le_refl _⟩⟩, not_ever_nil⟩,
      rfl, rfl, not_ever_nil⟩

/-- **When a success of `async_read_until` is one.** For every delimiter and
every sequence of replies: each zero error code comes with the delimiter or the
end of the stream and with the number of readable bytes, if and only if no
reading of `errno` deceives the task. -/
theorem asyncReadUntil_true_iff (ctx : ClientContext) (delimiter : Bytes)
    (hd : delimiter ≠ []) (o : Oracle Call Call.Reply)
    (ho : o.Obeys ReadContract) (fuel : ℕ) :
    let h := ((asyncReadUntil fuel ctx delimiter).exec o []).2
    SuccessesTrue delimiter h ↔
      ¬ Ever (Deceives delimiter ctx.retryBudget) h := by
  dsimp only
  rcases (asyncReadUntil_true ctx hd fuel).exec_ends ho with
    ⟨h, hrun, hend⟩ | ⟨h, hrun, hend⟩ | ⟨e, h, hrun, hend⟩
  · rw [hrun]
    exact hend
  · rw [hrun]
    exact hend
  · rw [hrun]
    exact hend

/-- A delimiter that is split between two chunks. -/
theorem asyncReadUntil_true_iff_split :
    let h := ((asyncReadUntil 9 connected [13, 10]).exec
      (silentStream [[13], [10]] eagain) []).2
    SuccessesTrue [13, 10] h ↔
      ¬ Ever (Deceives [13, 10] connected.retryBudget) h :=
  asyncReadUntil_true_iff connected [13, 10] (by decide) _
    (silentStream_reads _ _) 9

/-- Without a delimiter and with `errno` zero, what is submitted for one byte
says, without an error, that nothing was read. -/
theorem asyncReadUntil_deceived :
    let h := ((asyncReadUntil 9 connected [10]).exec (silentStream [[65]] 0)
      []).2
    (Trace.received h = [65] ∧
      (Trace.completions h).map (fun s => (s.ec, s.bytes)) = [({}, 0)]) ∧
      ¬ ∀ (ctx : ClientContext) (delimiter : Bytes)
        (o : Oracle Call Call.Reply) (fuel : ℕ), delimiter ≠ [] →
        o.Obeys ReadContract → SuccessesTrue delimiter
          ((asyncReadUntil fuel ctx delimiter).exec o []).2 := by
  refine ⟨⟨by decide +kernel, by decide +kernel⟩, fun hall => ?_⟩
  have htrue := hall connected [10] (silentStream [[65]] 0) 9 (by decide)
    (silentStream_reads _ _)
  obtain ⟨b, hb, -, hcount⟩ := htrue _ (List.mem_singleton_self _) rfl
  cases hb
  exact absurd hcount (by decide)

end

end Mtasc
