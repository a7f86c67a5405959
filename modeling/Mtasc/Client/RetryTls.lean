import Mtasc.Client.LastRead
import Mtasc.Client.Scans
import Mtasc.Lib.Budget

/-!
# What `M_ssl_read_until_retry` reports

Nine points of the function return, and one `break` leads to another return.
Each of them sets the flag, so the incoming one does not matter, and only the
scan sets it to true. Nothing but `SSL_read` adds to the buffer. Every
iteration counts before it reads, so the loop ends within its budget; the one
place that changes the budget lowers it.

What is said of the buffer depends on `p`: that there is one, in order, and
that the reads give no more bytes than they have been given room for. The
number of reads does not depend on it.
-/

namespace Mtasc

open Lib

/-! ## The budget -/

/-- The calls that count as an attempt. -/
def Call.isAttempt : Call → Bool
  | .recv _ _ => true
  | .read _ _ => true
  | .sslRead _ => true
  | _ => false

/-- The attempts that are left to a helper. -/
def ClientContext.retriesLeft (ctx : ClientContext) : ℕ :=
  (ctx.maxRetyCount - ctx.connectRetyCount).toNat

/-- The replies to the reads fit, if `p` holds. -/
def ReadContractIf (p : Prop) : Trace → (q : Call) → q.Reply → Prop :=
  fun h q r => p → ReadContract h q r

/-- The state of the helper: what has been read is in the buffer. -/
structure SslRetrying (p : Prop) (b₀ : ReadBuffer) (ctx : ClientContext)
    (h : Trace) : Prop where
  holding : p → Holding b₀ ctx h
  received_le : p → h.received.length ≤ 1086 * callsOf Call.isAttempt h

/-- What the helper returns: the buffer with everything that has been read,
and a flag that is set only if the delimiter is in it. -/
structure SslRetried (b₀ : ReadBuffer) (delimiter : Bytes)
    (ctx : ClientContext) (h : Trace) : Prop where
  holding : Holding b₀ ctx h
  found : ctx.isRetrySuccess = true →
    ∃ b, ctx.clientReadBuffer = some b ∧ delimiter <:+: b.readable

/-- It throws only where the vector cannot hold what has been read. -/
structure SslOutgrown (b₀ : ReadBuffer) (e : TaskEnd) (h : Trace) : Prop where
  threw : e = .threw
  outgrown : Outgrown b₀ h
  received_le : h.received.length ≤ 1086 * callsOf Call.isAttempt h

/-- The result of the helper. -/
def SslResult (p : Prop) (b₀ : ReadBuffer) (delimiter : Bytes) (h : Trace) :
    Except TaskEnd ClientContext → Prop
  | .ok ctx => p → SslRetried b₀ delimiter ctx h
  | .error e => p → SslOutgrown b₀ e h

/-- How its loop is left. -/
def SslFlow (p : Prop) (b₀ : ReadBuffer) (delimiter : Bytes) (h : Trace) :
    Flow ClientContext (Except TaskEnd ClientContext) → Prop
  | .fall ctx => p → Holding b₀ ctx h
  | .return r => SslResult p b₀ delimiter h r

/-- What an iteration establishes that starts with `m` attempts left. -/
abbrev SslIter (p d : Prop) (b₀ : ReadBuffer) (delimiter : Bytes)
    (n fuel m : ℕ) :=
  PaidIter Call.isAttempt n fuel d (SslFlow p b₀ delimiter)
    ClientContext.retriesLeft (SslRetrying p b₀) m

section

variable {p d : Prop} {b₀ : ReadBuffer} {delimiter : Bytes}
variable {ctx : ClientContext} {h : Trace} {n m fuel : ℕ}

/-- An attempt that is counted is paid for. -/
theorem retriesLeft_count
    (hless : ctx.connectRetyCount < ctx.maxRetyCount) :
    { ctx with
      connectRetyCount := ctx.connectRetyCount + 1 }.retriesLeft + 1 =
        ctx.retriesLeft := by
  unfold ClientContext.retriesLeft
  dsimp only
  omega

/-- An append to a buffer that is in order fails only for want of space. -/
theorem appendTobuffer_threw {b : ReadBuffer} {data : Bytes} {e : TaskEnd}
    (hb : ctx.clientReadBuffer = some b) (hwf : b.WellFormed)
    (hdata : data.length ≤ maxSize) (he : ctx.appendTobuffer data = .error e) :
    e = .threw := by
  rw [ClientContext.appendTobuffer, hb] at he
  rcases hwf.appendTobuffer_spec data hdata with ⟨b', happ, -⟩ | ⟨happ, -⟩
  · simp only [happ] at he
    cases he
  · simp only [happ] at he
    cases he
    rfl

/-- What an append changes. -/
theorem appendTobuffer_fields {data : Bytes} {c : ClientContext}
    (hc : ctx.appendTobuffer data = .ok c) :
    ∃ b, c = { ctx with clientReadBuffer := some b } := by
  unfold ClientContext.appendTobuffer at hc
  split at hc
  · cases hc
  · split at hc
    · cases hc
      exact ⟨_, rfl⟩
    · cases hc
    · cases hc

/-- A flag that is not set needs no delimiter. -/
theorem SslRetried.gaveUp {c : ClientContext} (hs : Holding b₀ ctx h)
    (hb : c.clientReadBuffer = ctx.clientReadBuffer)
    (hflag : c.isRetrySuccess = false) : SslRetried b₀ delimiter c h := by
  refine ⟨hs.of_eq hb, ?_⟩
  intro htrue
  rw [hflag] at htrue
  cases htrue

theorem SslRetrying.other (hs : SslRetrying p b₀ ctx h) {q : Call}
    {r : q.Reply} (hattempt : q.isAttempt = false)
    (hrec : Trace.receivedBy q r = []) (hcomp : Trace.completedBy q r = []) :
    SslRetrying p b₀ ctx (h ++ [⟨q, r⟩]) := by
  constructor
  · intro hp
    exact (hs.holding hp).neutral hrec hcomp
  · intro hp
    rw [Trace.received_snoc, hrec, List.append_nil, callsOf_other hattempt]
    exact hs.received_le hp

/-- A read that has brought nothing. -/
theorem SslRetrying.idle (hs : SslRetrying p b₀ ctx h) {q : Call}
    {r : q.Reply} (hattempt : q.isAttempt = true)
    (hrec : Trace.receivedBy q r = []) (hcomp : Trace.completedBy q r = []) :
    SslRetrying p b₀ ctx (h ++ [⟨q, r⟩]) := by
  constructor
  · intro hp
    exact (hs.holding hp).neutral hrec hcomp
  · intro hp
    have hle := hs.received_le hp
    rw [Trace.received_snoc, hrec, List.append_nil, callsOf_one hattempt]
    omega

/-- Nothing has been read yet. -/
theorem SslRetrying.start (hb : p → ctx.clientReadBuffer = some b₀) :
    SslRetrying p b₀ ctx [] := by
  constructor
  · intro hp
    refine ⟨rfl, b₀, hb hp, fun hwf => ?_⟩
    exact ⟨hwf, (List.append_nil _).symm, Nat.le_refl _⟩
  · intro _
    exact Nat.zero_le _

/-- Only the buffer of the context matters. -/
theorem SslRetrying.of_eq (hs : SslRetrying p b₀ ctx h) {c : ClientContext}
    (hb : c.clientReadBuffer = ctx.clientReadBuffer) : SslRetrying p b₀ c h :=
  ⟨fun hp => (hs.holding hp).of_eq hb, hs.received_le⟩

/-- A return that gives up. -/
theorem SslRetrying.gaveUp {c : ClientContext} (hs : SslRetrying p b₀ ctx h)
    (hcalls : callsOf Call.isAttempt h ≤ n)
    (hb : c.clientReadBuffer = ctx.clientReadBuffer)
    (hflag : c.isRetrySuccess = false) :
    KeepsBudget Call.isAttempt n fuel d (SslFlow p b₀ delimiter) h
      (.done (.return (.ok c))) := by
  apply KeepsBudget.done hcalls
  intro hp
  exact .gaveUp (hs.holding hp) hb hflag

/-- Bytes that have been read go behind those in the buffer. -/
theorem SslRetrying.append (hwf : p → b₀.WellFormed)
    (hs : SslRetrying p b₀ ctx h) {data : Bytes}
    (hlen : p → data.length ≤ 1086) :
    (∃ b, ctx.appendTobuffer data =
          .ok { ctx with clientReadBuffer := some b } ∧
        SslRetrying p b₀ { ctx with clientReadBuffer := some b }
          (h ++ [⟨.sslRead 1086, some data⟩])) ∨
      ∃ e, ctx.appendTobuffer data = .error e ∧
        (p → SslOutgrown b₀ e (h ++ [⟨.sslRead 1086, some data⟩])) := by
  have hreceived : p →
      (Trace.received (h ++ [⟨.sslRead 1086, some data⟩])).length ≤
        1086 * callsOf Call.isAttempt (h ++ [⟨.sslRead 1086, some data⟩]) := by
    intro hp
    have hle := hs.received_le hp
    have hdata := hlen hp
    rw [Trace.received_snoc, List.length_append, callsOf_one rfl]
    show h.received.length + data.length ≤ _
    omega
  cases happ : ctx.appendTobuffer data with
  | ok c =>
      obtain ⟨b, rfl⟩ := appendTobuffer_fields happ
      refine Or.inl ⟨b, rfl, ?_, hreceived⟩
      intro hp
      have hdata := hlen hp
      rcases (hs.holding hp).append (q := .sslRead 1086) (r := some data) data
        rfl rfl (by omega) with ⟨b', happ', hs'⟩ | ⟨e, happ', -⟩
      · rw [happ] at happ'
        obtain rfl : b = b' := by
          injection happ' with hctx
          injection (congrArg ClientContext.clientReadBuffer hctx)
        exact hs'
      · rw [happ] at happ'
        cases happ'
  | error e =>
      refine Or.inr ⟨e, rfl, ?_⟩
      intro hp
      have hdata := hlen hp
      obtain ⟨b, hb, hrcv⟩ := (hs.holding hp).buffer
      refine ⟨?_, ?_, hreceived hp⟩
      · apply appendTobuffer_threw hb (hrcv (hwf hp)).wellFormed _ happ
        unfold maxSize
        omega
      · rcases (hs.holding hp).append (q := .sslRead 1086) (r := some data)
          data rfl rfl (by omega) with ⟨b', happ', -⟩ | ⟨e', -, -, hout⟩
        · rw [happ] at happ'
          cases happ'
        · exact hout

/-! ## The loop -/

/-- The rest of an iteration, which has one attempt to pay for. -/
theorem sslReadUntilRetryRead_pays (hwf : p → b₀.WellFormed)
    (hs : SslRetrying p b₀ ctx h) (hm : ctx.retriesLeft < m)
    (hn : callsOf Call.isAttempt h + 1 + ctx.retriesLeft ≤ n) :
    (sslReadUntilRetryRead ctx).Sat (ReadContractIf p)
      (SslIter p d b₀ delimiter n fuel m) h := by
  rw [sslReadUntilRetryRead]
  refine sat_call_paid Call.isAttempt rfl (.calling (by omega))
    fun r hr hcalls => ?_
  rcases r with _ | bytes
  · have hs₁ : SslRetrying p b₀ ctx (h ++ [⟨.sslRead 1086, none⟩]) :=
      hs.idle rfl rfl rfl
    refine sat_call_free Call.isAttempt rfl (.calling (by omega))
      fun err _ hcalls₂ => ?_
    have hs₂ := hs₁.other (q := .sslGetError (-1)) (r := err) rfl rfl rfl
    split
    · split
      · exact ⟨hs₂.of_eq rfl, hm, by rw [hcalls₂, hcalls]; exact hn⟩
      · exact hs₂.gaveUp (by omega) rfl rfl
    · split
      · exact hs₂.gaveUp (by omega) rfl rfl
      · exact .done (by omega) hs₂.holding
  · rcases bytes with _ | ⟨x, data⟩
    · have hs₁ : SslRetrying p b₀ ctx (h ++ [⟨.sslRead 1086, some []⟩]) :=
        hs.idle rfl rfl rfl
      exact hs₁.gaveUp (by omega) rfl rfl
    · have hlen : p → (x :: data).length ≤ 1086 := fun hp => hr hp _ rfl
      rcases hs.append hwf hlen with ⟨b, happ, hs₁⟩ | ⟨e, happ, hout⟩
      · simp only [happ]
        split
        · -- the budget is lowered by one
          have hfewer : (ctx.maxRetyCount - 1 - ctx.connectRetyCount).toNat ≤
              ctx.retriesLeft := by
            unfold ClientContext.retriesLeft
            omega
          refine ⟨hs₁.of_eq rfl, Nat.lt_of_le_of_lt hfewer hm, ?_⟩
          rw [hcalls]
          exact Nat.le_trans (Nat.add_le_add_left hfewer _) hn
        · refine ⟨hs₁, hm, ?_⟩
          rw [hcalls]
          exact hn
      · simp only [happ]
        exact .done (by omega) hout

theorem sslReadUntilRetryStep_pays (hwf : p → b₀.WellFormed)
    (hs : SslRetrying p b₀ ctx h)
    (hn : callsOf Call.isAttempt h + ctx.retriesLeft ≤ n) :
    (sslReadUntilRetryStep delimiter ctx).Sat (ReadContractIf p)
      (SslIter p d b₀ delimiter n fuel ctx.retriesLeft) h := by
  rw [sslReadUntilRetryStep]
  split
  · next hless =>
    have hcount := retriesLeft_count hless
    dsimp only
    split
    · exact hs.gaveUp (by omega) rfl rfl
    · cases hb : ctx.clientReadBuffer with
      | none =>
          apply KeepsBudget.done (by omega)
          intro hp
          obtain ⟨b, hsome, -⟩ := (hs.holding hp).buffer
          rw [hb] at hsome
          cases hsome
      | some b =>
          dsimp only
          split
          · next hfound =>
            apply KeepsBudget.done (by omega)
            intro hp
            obtain ⟨b', hsome, hrcv⟩ := (hs.holding hp).buffer
            rw [hb] at hsome
            cases hsome
            refine ⟨(hs.holding hp).of_eq hb.symm, fun _ => ⟨b, rfl, ?_⟩⟩
            exact (hrcv (hwf hp)).wellFormed.findDelimiter_sound hfound
          · have hsame : SslRetrying p b₀ { ctx with
                connectRetyCount := ctx.connectRetyCount + 1 } h :=
              hs.of_eq rfl
            rw [← hb]
            exact sslReadUntilRetryRead_pays hwf hsame (by omega) (by omega)
  · exact .done (by omega) hs.holding

theorem sslReadUntilRetryLoop_keeps (hwf : p → b₀.WellFormed)
    (hs : SslRetrying p b₀ ctx h)
    (hn : callsOf Call.isAttempt h + ctx.retriesLeft ≤ n) :
    (sslReadUntilRetryLoop fuel ctx delimiter).Sat (ReadContractIf p)
      (KeepsBudget Call.isAttempt n fuel d (SslResult p b₀ delimiter)) h := by
  have hloop : (Prog.iterate (sslReadUntilRetryStep delimiter) fuel ctx).Sat
      (ReadContractIf p) (KeepsBudget Call.isAttempt n fuel d
        (SslFlow p b₀ delimiter)) h :=
    sat_iterate_budget ClientContext.retriesLeft (SslRetrying p b₀)
      (fun _ _ hs hn => sslReadUntilRetryStep_pays hwf hs hn) hs hn
  rw [sslReadUntilRetryLoop]
  refine hloop.bind ?_ ?_ ?_ ?_
  · intro h hk
    exact .calling hk.calls
  · intro h hk
    exact .cutOff hk.calls (hk.stuck rfl)
  · intro flow h hk
    have hflow := hk.good flow rfl
    cases flow with
    | fall c =>
        apply KeepsBudget.done hk.calls
        intro hp
        exact .gaveUp (hflow hp) rfl rfl
    | «return» r => exact .done hk.calls hflow
  · intro h hk
    exact .undefined hk.calls (hk.defined rfl)

/-- **What the helper does**, with a descriptor and both handles. -/
theorem sslReadUntilRetry_keeps (fuel : ℕ) {ssl : ClientSslConfigure}
    (tlsRet : ℤ) (delimiter : Bytes)
    (hvalid : ¬ (ctx.socketfd < 0 ∨ ssl.opensslPtr = none ∨
      ssl.opensslCtxPtr = none))
    (hwf : p → b₀.WellFormed) (hs : SslRetrying p b₀ ctx h)
    (hn : callsOf Call.isAttempt h + ctx.maxRetyCount.toNat ≤ n) :
    (sslReadUntilRetry fuel ctx ssl tlsRet delimiter).Sat (ReadContractIf p)
      (KeepsBudget Call.isAttempt n fuel
        (FitsFdSet ctx.socketfd) (SslResult p b₀ delimiter)) h := by
  have hbody : (sslReadUntilRetryBody fuel ctx ssl tlsRet delimiter).Sat
      (ReadContractIf p)
      (KeepsBudget Call.isAttempt n fuel
        (FitsFdSet ctx.socketfd) (SslResult p b₀ delimiter)) h := by
    have hleft : { ctx with connectRetyCount := 0 }.retriesLeft =
        ctx.maxRetyCount.toNat := by
      unfold ClientContext.retriesLeft
      simp
    rw [sslReadUntilRetryBody, if_neg hvalid]
    dsimp only
    refine sat_call_free Call.isAttempt rfl (.calling (by omega))
      fun err _ hcalls₁ => ?_
    have hs₁ := hs.other (q := .sslGetError tlsRet) (r := err) rfl rfl rfl
    split
    · refine sslReadUntilRetryLoop_keeps hwf (hs₁.of_eq rfl) ?_
      omega
    · split
      · refine sat_fdSet_bind (fun _ => ?_) (.undefined (by omega))
        refine sat_call_free Call.isAttempt rfl (.calling (by omega))
          fun w _ hcalls₂ => ?_
        have hs₂ := hs₁.other (q := .select ctx.socketfd ctx.timeout) (r := w)
          rfl rfl rfl
        split
        · apply KeepsBudget.done (by omega)
          intro hp
          exact .gaveUp (hs₂.holding hp) rfl rfl
        · refine sslReadUntilRetryLoop_keeps hwf (hs₂.of_eq rfl) ?_
          omega
      · apply KeepsBudget.done (by omega)
        intro hp
        exact .gaveUp (hs₁.holding hp) rfl rfl
  rw [sslReadUntilRetry]
  apply sat_map_budget hbody
  intro h r hr
  cases r with
  | ok c =>
      intro hp
      exact ⟨(hr hp).holding.of_eq rfl, (hr hp).found⟩
  | error e => exact hr

end

/-! ## The helper -/

theorem obeys_readContractIf {p : Prop} {o : Oracle Call Call.Reply}
    (ho : p → o.Obeys ReadContract) : o.Obeys (ReadContractIf p) := by
  intro h q hp
  exact ho hp h q

/-- **The TLS read retry is sound and loses nothing.** With a descriptor that
fits into an `fd_set`, whatever the flag was and whatever the calls reply, the
helper returns; the buffer it returns has what was readable before and then all
that `SSL_read` has delivered; and the flag is true only if the delimiter is in
there. -/
theorem sslReadUntilRetry_sound (ctx : ClientContext)
    (ssl : ClientSslConfigure) (tlsRet : ℤ) (delimiter : Bytes)
    (hfits : FitsFdSet ctx.socketfd) (hssl : ssl.opensslPtr ≠ none)
    (hctx : ssl.opensslCtxPtr ≠ none) (b₀ : ReadBuffer)
    (hbuffer : ctx.clientReadBuffer = some b₀) (hwf : b₀.WellFormed)
    (hroom : b₀.buffer.length + 1086 * ctx.maxRetyCount.toNat ≤ maxSize)
    (o : Oracle Call Call.Reply) (ho : o.Obeys ReadContract) (fuel : ℕ)
    (hfuel : ctx.maxRetyCount.toNat < fuel) :
    let run := (sslReadUntilRetry fuel ctx ssl tlsRet delimiter).exec o []
    ∃ c b, run.1 = .done (.ok c) ∧ c.clientReadBuffer = some b ∧
      b.readable = b₀.readable ++ Trace.received run.2 ∧
      (c.isRetrySuccess = true → delimiter <:+: b.readable) := by
  have hvalid : ¬ (ctx.socketfd < 0 ∨ ssl.opensslPtr = none ∨
      ssl.opensslCtxPtr = none) := by
    have hfd := hfits.1
    simp only [hssl, hctx, or_false]
    omega
  have hstart : SslRetrying True b₀ ctx [] := .start fun _ => hbuffer
  have hsat := sslReadUntilRetry_keeps fuel tlsRet delimiter hvalid
    (fun _ => hwf) hstart (Nat.zero_add ctx.maxRetyCount.toNat).le
  have hobeys := obeys_readContractIf fun _ : True => ho
  obtain ⟨-, hends⟩ := KeepsBudget.ends hsat hobeys hfuel
  obtain ⟨r, hrun, hr⟩ := hends hfits
  have hcalls := (hsat.exec hobeys).calls
  intro run
  cases r with
  | error e =>
      -- the vector has room for all that the budget lets in
      have hout := hr trivial
      have hbig := hout.outgrown.big hwf
      have hle := hout.received_le
      omega
  | ok c =>
      have hret := hr trivial
      obtain ⟨b, hb, hrcv⟩ := hret.holding.buffer
      refine ⟨c, b, hrun, hb, (hrcv hwf).readable, ?_⟩
      intro hflag
      obtain ⟨b', hb', hocc⟩ := hret.found hflag
      rw [hb] at hb'
      cases hb'
      exact hocc

theorem dripStream_reads (bytes : Bytes) :
    (dripStream bytes).Obeys ReadContract := by
  intro h q
  cases q with
  | recv fd size =>
      intro data hdata
      cases hdata
  | read fd size => exact (dripStream_obeys bytes h (.read fd size)).2
  | sslRead size => exact (dripStream_obeys bytes h (.sslRead size)).2
  | _ => trivial

/-- Two reads behind a flag that was set, and the newline is found. -/
theorem sslReadUntilRetry_sound_drip :
    let run := (sslReadUntilRetry 5
      { twoRetries with maxRetyCount := 4, isRetrySuccess := true }
      ⟨some 2, some 1⟩ (-1) [10]).exec (dripStream [65, 10]) []
    ∃ c b, run.1 = .done (.ok c) ∧ c.clientReadBuffer = some b ∧
      b.readable = (ReadBuffer.filled []).readable ++ Trace.received run.2 ∧
      (c.isRetrySuccess = true → [10] <:+: b.readable) :=
  sslReadUntilRetry_sound
    { twoRetries with maxRetyCount := 4, isRetrySuccess := true }
    ⟨some 2, some 1⟩ (-1) [10] (by decide) (by decide) (by decide)
    (.filled []) rfl (ReadBuffer.filled_wellFormed (by decide)) (by decide)
    (dripStream [65, 10]) (dripStream_reads _) 5 (by decide)

/-- A descriptor that is valid but does not fit: the helper is to wait for it,
and what `FD_SET` does is undefined. -/
theorem sslReadUntilRetry_unsettable :
    (∀ fuel, ((sslReadUntilRetry fuel
      { twoRetries with maxRetyCount := 4, socketfd := 1024 }
      ⟨some 2, some 1⟩ (-1) [10]).exec (dripStream [65, 10]) []).1 =
        .undefined) ∧
      ¬ ∀ (ctx : ClientContext) (ssl : ClientSslConfigure) (tlsRet : ℤ)
        (delimiter : Bytes) (b₀ : ReadBuffer) (o : Oracle Call Call.Reply),
        0 ≤ ctx.socketfd → ssl.opensslPtr ≠ none → ssl.opensslCtxPtr ≠ none →
        delimiter ≠ [] →
        ctx.clientReadBuffer = some b₀ → b₀.WellFormed →
        b₀.buffer.length + 1086 * ctx.maxRetyCount.toNat ≤ maxSize →
        o.Obeys ReadContract → ∃ fuel,
          let run := (sslReadUntilRetry fuel ctx ssl tlsRet delimiter).exec o []
          ∃ c b, run.1 = .done (.ok c) ∧ c.clientReadBuffer = some b ∧
            b.readable = b₀.readable ++ Trace.received run.2 ∧
            (c.isRetrySuccess = true → delimiter <:+: b.readable) := by
  have hundefined : ∀ fuel, ((sslReadUntilRetry fuel
      { twoRetries with maxRetyCount := 4, socketfd := 1024 }
      ⟨some 2, some 1⟩ (-1) [10]).exec (dripStream [65, 10]) []).1 =
        .undefined := fun fuel => rfl
  refine ⟨hundefined, fun hall => ?_⟩
  obtain ⟨fuel, c, b, hrun, -⟩ := hall
    { twoRetries with maxRetyCount := 4, socketfd := 1024 }
    ⟨some 2, some 1⟩ (-1) [10] (.filled []) (dripStream [65, 10]) (by decide)
    (by decide) (by decide) (by decide) rfl
    (ReadBuffer.filled_wellFormed (by decide)) (by decide) (dripStream_reads _)
  rw [hundefined fuel] at hrun
  cases hrun

end Mtasc
