import Mtasc.Client.ReadUntil
import Mtasc.Client.Stream

/-!
# `async_read_until_tls`

The read up to a delimiter over TLS, with its helper for a failed `SSL_read`.
What `print_tls_ERR` logs is left out.
-/

namespace Mtasc

open Lib

/-! ## The code -/

/-- The handles of `M_openssl_configure`, `none` for a null pointer. -/
structure ClientSslConfigure where
  opensslPtr : Option ℕ
  opensslCtxPtr : Option ℕ
deriving DecidableEq, Repr

abbrev sslErrorWantRead : ℤ := 2
abbrev sslErrorWantWrite : ℤ := 3
abbrev sslErrorSyscall : ℤ := 5

/-- What `SSL_read` returns: the number of bytes, or `-1`. -/
def sslRet : Option Bytes → ℤ
  | none => -1
  | some data => data.length

/-- The rest of an iteration of `M_ssl_read_until_retry` where the scan has
not found the delimiter. -/
def sslReadUntilRetryRead (ctx : ClientContext) :
    Net (Iter ClientContext
      (Flow ClientContext (Except TaskEnd ClientContext))) := do
  match ← perform (.sslRead 1086) with
  | none =>
    let newTlsErr ← perform (.sslGetError (-1))
    if newTlsErr = sslErrorWantRead ∨ newTlsErr = sslErrorWantWrite then
      if ctx.connectRetyCount < ctx.maxRetyCount then
        return .next { ctx with timeout := wrapInt (ctx.timeout + 100000) }
      else
        return .done (.return (.ok { ctx with isRetrySuccess := false }))
    else if ctx.connectRetyCount ≥ ctx.maxRetyCount then
      return .done (.return (.ok { ctx with isRetrySuccess := false }))
    else
      return .done (.fall ctx)
  | some [] =>
    return .done (.return (.ok { ctx with isRetrySuccess := false }))
  | some data =>
    match ctx.appendTobuffer data with
    | .error e => return .done (.return (.error e))
    | .ok ctx =>
      if ctx.connectRetyCount ≥ ctx.maxRetyCount then
        return .next { ctx with maxRetyCount := ctx.maxRetyCount - 1 }
      else
        return .next ctx

/-- The `while` of `M_ssl_read_until_retry`. -/
def sslReadUntilRetryStep (delimiter : Bytes) (ctx : ClientContext) :
    Net (Iter ClientContext
      (Flow ClientContext (Except TaskEnd ClientContext))) :=
  if ctx.maxRetyCount > ctx.connectRetyCount then
    let ctx := { ctx with connectRetyCount := ctx.connectRetyCount + 1 }
    if ctx.maxRetyCount ≤ ctx.connectRetyCount then
      return .done (.return (.ok { ctx with isRetrySuccess := false }))
    else
      match ctx.clientReadBuffer with
      | none => return .done (.return (.error .undefined))
      | some b =>
        if b.findDelimiter delimiter then
          return .done (.return (.ok { ctx with isRetrySuccess := true }))
        else
          sslReadUntilRetryRead ctx
  else
    return .done (.fall ctx)

/-- The `while` of `M_ssl_read_until_retry` and what follows it. -/
def sslReadUntilRetryLoop (fuel : ℕ) (ctx : ClientContext)
    (delimiter : Bytes) : Net (Except TaskEnd ClientContext) := do
  match ← Prog.iterate (sslReadUntilRetryStep delimiter) fuel ctx with
  | .return result => return result
  | .fall ctx => return .ok { ctx with isRetrySuccess := false }

/-- The body of `M_ssl_read_until_retry`, up to its `return client_ctx`. -/
def sslReadUntilRetryBody (fuel : ℕ) (ctx : ClientContext)
    (ssl : ClientSslConfigure) (tlsRet : ℤ) (delimiter : Bytes) :
    Net (Except TaskEnd ClientContext) :=
  if ctx.socketfd < 0 ∨ ssl.opensslPtr = none ∨ ssl.opensslCtxPtr = none then
    return .error .threw
  else do
    let ctx := { ctx with connectRetyCount := 0 }
    let tlsReadErr ← perform (.sslGetError tlsRet)
    if tlsReadErr = sslErrorSyscall then
      sslReadUntilRetryLoop fuel ctx delimiter
    else if tlsReadErr = sslErrorWantWrite ∨ tlsReadErr = sslErrorWantRead then
      fdSet ctx.socketfd
      let waitSocketEvent ← perform (.select ctx.socketfd ctx.timeout)
      if waitSocketEvent < 0 then
        return .ok { ctx with isRetrySuccess := false }
      else
        sslReadUntilRetryLoop fuel ctx delimiter
    else
      return .ok { ctx with isRetrySuccess := false }

/-- `M_ssl_read_until_retry`. The context is passed by rvalue reference, and
the result is moved from it. -/
def sslReadUntilRetry (fuel : ℕ) (ctx : ClientContext)
    (ssl : ClientSslConfigure) (tlsRet : ℤ) (delimiter : Bytes) :
    Net (Except TaskEnd ClientContext) := do
  let result ← sslReadUntilRetryBody fuel ctx ssl tlsRet delimiter
  return result.map ClientContext.moveConstruct

/-- What an iteration of the loop of the task does; its state has `M_tls_ret`
in it. -/
abbrev TlsStep : Type := Net (Iter (ReadState × ClientContext × ℤ) TaskEnd)

/-- `case FOUND`. -/
def readUntilTlsFound (ctx : ClientContext) : TlsStep := do
  let e ← submitReadable {} ctx
  return .done e

/-- `case CLOSE`. -/
def readUntilTlsClose (ctx : ClientContext) : TlsStep := do
  let e ← submitReadable (makeErrorCode econnreset) ctx
  return .done e

/-- `case ERROR`. -/
def readUntilTlsError (fuel : ℕ) (ssl : ClientSslConfigure)
    (delimiter : Bytes) (ctx : ClientContext) (tlsRet : ℤ) : TlsStep := do
  match ← sslReadUntilRetry fuel ctx ssl tlsRet delimiter with
  | .error e => return .done e
  | .ok retryCtx =>
    let ctx := ctx.moveAssign retryCtx
    if ctx.isRetrySuccess then
      let e ← submitReadable {} ctx
      return .done e
    else
      let _ ← perform (.sslGetError tlsRet)
      let _ ← submitRead (makeErrorCode eio) 0 ctx
      return .done .returned

/-- `case READING`. Where the peer has closed the connection it has no
`return` after the callback and falls into `case FOUND`, with a context that
has been moved from. -/
def readUntilTlsReading (ctx : ClientContext) : TlsStep := do
  fdSet ctx.socketfd
  let waitRet ← perform (.select ctx.socketfd ctx.timeout)
  if waitRet < 0 then
    let _ ← submitRead (makeErrorCode etimedout) 0 ctx
    return .done .returned
  else
    match ← perform (.sslRead 596) with
    | none => return .next (.error, ctx, sslRet none)
    | some [] =>
      let ctx ← submitRead (makeErrorCode econnreset) 0 ctx
      readUntilTlsFound ctx
    | some data =>
      match ctx.appendTobuffer data with
      | .error e => return .done e
      | .ok ctx => return .next (.verify, ctx, sslRet (some data))

/-- `case VERIFY`. Each `memcmp` of its scan is of the memory behind the
readable bytes, which is why the whole scan depends on one comparison. -/
def readUntilTlsVerify (delimiter : Bytes) (ctx : ClientContext)
    (tlsRet : ℤ) : TlsStep :=
  match ctx.clientReadBuffer with
  | none => return .done .undefined
  | some b =>
    if delimiter.length ≤ b.readableBytes then do
      let past ← perform (.pastVector delimiter.length)
      if scan b.readableBytes delimiter fun _ =>
          memcmpEq (b.peekData ++ past) b.readableBytes delimiter then
        return .next (.found, ctx, tlsRet)
      else
        readUntilTlsReading ctx
    else
      readUntilTlsReading ctx

/-- The loop of the task. In state `FOUND` the loop is left, and nothing
follows it. -/
def readUntilTlsStep (fuel : ℕ) (ssl : ClientSslConfigure)
    (delimiter : Bytes) : ReadState × ClientContext × ℤ → TlsStep
  | (.verify, ctx, tlsRet) => readUntilTlsVerify delimiter ctx tlsRet
  | (.reading, ctx, _) => readUntilTlsReading ctx
  | (.error, ctx, tlsRet) => readUntilTlsError fuel ssl delimiter ctx tlsRet
  | (.close, ctx, _) => readUntilTlsClose ctx
  | (.found, _, _) => return .done .returned

/-- `async_read_until_tls`, with the task it posts. -/
def asyncReadUntilTls (fuel : ℕ) (ssl : ClientSslConfigure)
    (ctx : ClientContext) (delimiter : Bytes) : Net TaskEnd :=
  let buffer := some ReadBuffer.valueInit
  if ctx.socketfd < 0 ∨ ssl.opensslPtr = none ∨ ssl.opensslCtxPtr = none ∨
      delimiter = [] then do
    perform (.submit (.read (makeErrorCode ebadf) 0 buffer ctx.moveConstruct))
    return .returned
  else
    Prog.iterate (readUntilTlsStep fuel ssl delimiter) fuel
      (.verify, { ctx with clientReadBuffer := buffer }.moveConstruct, 0)

/-! ## One callback for each read -/

/-- A read returns at most as many bytes as it has been given room for. -/
def ReadContract : Trace → (q : Call) → q.Reply → Prop
  | _, .recv _ size, r => ∀ data, r = some data → data.length ≤ size
  | _, .read _ size, r => ∀ data, r = some data → data.length ≤ size
  | _, .sslRead size, r => ∀ data, r = some data → data.length ≤ size
  | _, _, _ => True

/-- The replies that mislead the task: the memory behind the vector begins
with the delimiter, or the peer has closed the connection in the main loop,
whose reads are those of 596 bytes. -/
def Misleads (delimiter : Bytes) : (q : Call) → q.Reply → Prop
  | .pastVector _, past => past.take delimiter.length = delimiter
  | .sslRead size, r => size = 596 ∧ r = some []
  | _, _ => False

/-- No reply misleads the task, and a vector can hold what has been read. -/
structure NotMisled (delimiter : Bytes) (h : Trace) : Prop where
  reply : ∀ x ∈ h, ¬ Misleads delimiter x.1 x.2
  fits : h.received.length ≤ maxSize

/-- The task has returned with one callback submitted, and has dereferenced
no null pointer on the way. -/
def SubmittedOnce (h : Trace) (e : TaskEnd) : Prop :=
  e = .returned ∧ h.completions.length = 1

section

variable {delimiter : Bytes} {ctx : ClientContext} {h : Trace}

theorem notMisled_snoc {q : Call} {r : q.Reply} (hs : NotMisled delimiter h)
    (hq : ¬ Misleads delimiter q r)
    (hfits : (h.received ++ Trace.receivedBy q r).length ≤ maxSize) :
    NotMisled delimiter (h ++ [⟨q, r⟩]) where
  reply := by
    intro x hx
    rcases List.mem_append.mp hx with hx | hx
    · exact hs.reply x hx
    · rw [List.mem_singleton.mp hx]
      exact hq
  fits := by rwa [Trace.received_snoc]

theorem misled_snoc {q : Call} {r : q.Reply} (hq : Misleads delimiter q r) :
    ¬ NotMisled delimiter (h ++ [⟨q, r⟩]) := fun hs =>
  hs.reply ⟨q, r⟩ (by simp) hq

/-- The state of the task while it has not submitted its callback. -/
structure TlsReading (delimiter : Bytes) (ctx : ClientContext) (h : Trace) :
    Prop where
  fd : 0 ≤ ctx.socketfd
  buffer : ctx.clientReadBuffer = some (.filled h.received)
  notMisled : NotMisled delimiter h
  completions : h.completions = []

/-- The buffer cannot grow any more. -/
def Overflown (delimiter : Bytes) (h : Trace) : Prop :=
  h.completions = [] ∧ ¬ NotMisled delimiter h

theorem TlsReading.neutral (hs : TlsReading delimiter ctx h) {q : Call}
    {r : q.Reply} (hq : ¬ Misleads delimiter q r)
    (hrec : Trace.receivedBy q r = []) (hcomp : Trace.completedBy q r = []) :
    TlsReading delimiter ctx (h ++ [⟨q, r⟩]) where
  fd := hs.fd
  buffer := by rw [Trace.received_snoc, hrec, List.append_nil, hs.buffer]
  notMisled := notMisled_snoc hs.notMisled hq (by
    rw [hrec, List.append_nil]
    exact hs.notMisled.fits)
  completions := by rw [Trace.completions_snoc, hs.completions, hcomp]; rfl

/-- Only the descriptor and the buffer of the context matter. -/
theorem TlsReading.of_eq (hs : TlsReading delimiter ctx h) {c : ClientContext}
    (hfd : c.socketfd = ctx.socketfd)
    (hb : c.clientReadBuffer = ctx.clientReadBuffer) :
    TlsReading delimiter c h :=
  ⟨hfd ▸ hs.fd, hb ▸ hs.buffer, hs.notMisled, hs.completions⟩

/-- Bytes that have been read go behind those in the buffer. -/
theorem TlsReading.append (hs : TlsReading delimiter ctx h) (size : ℕ)
    {data : Bytes} (hdata : data ≠ []) (hlen : data.length ≤ 4096) :
    (∃ ctx', ctx.appendTobuffer data = .ok ctx' ∧
        TlsReading delimiter ctx' (h ++ [⟨.sslRead size, some data⟩])) ∨
      ctx.appendTobuffer data = .error .threw ∧
        Overflown delimiter (h ++ [⟨.sslRead size, some data⟩]) := by
  have happ := ctx.appendTobuffer_filled hs.buffer hs.notMisled.fits hdata hlen
  have hcomp : Trace.completions (h ++ [⟨.sslRead size, some data⟩]) = [] := by
    simpa using hs.completions
  split at happ
  · next hle =>
    refine Or.inl ⟨_, happ, hs.fd, ?_, ?_, hcomp⟩
    · rw [Trace.received_snoc]
      rfl
    · refine notMisled_snoc hs.notMisled ?_ (by simpa using hle)
      rintro ⟨-, heq⟩
      exact hdata (Option.some.inj heq)
  · next hbig =>
    refine Or.inr ⟨happ, hcomp, fun hsound => hbig ?_⟩
    simpa using hsound.fits

/-! ## The helper -/

/-- How the helper's loop ends. -/
def TlsRetryEnd (delimiter : Bytes) : Trace →
    Status (Flow ClientContext (Except TaskEnd ClientContext)) → Prop
  | h, .done (.fall ctx) => TlsReading delimiter ctx h
  | h, .done (.return (.ok ctx)) => TlsReading delimiter ctx h
  | h, .done (.return (.error _)) => Overflown delimiter h
  | _, _ => True

theorem sslReadUntilRetryRead_spec (hs : TlsReading delimiter ctx h) :
    (sslReadUntilRetryRead ctx).Sat ReadContract
      (Prog.andThen (TlsRetryEnd delimiter)
        (Prog.afterIter (TlsRetryEnd delimiter) (TlsReading delimiter))) h := by
  rw [sslReadUntilRetryRead, Prog.sat_bind, Prog.sat_perform]
  refine ⟨trivial, fun r hr => ?_⟩
  simp only [Prog.andThen_done]
  cases r with
  | none =>
      have hs' : TlsReading delimiter ctx (h ++ [⟨.sslRead 1086, none⟩]) :=
        hs.neutral (by simp [Misleads]) rfl rfl
      simp only
      rw [Prog.sat_bind, Prog.sat_perform]
      refine ⟨trivial, fun err _ => ?_⟩
      have hs'' := hs'.neutral (q := .sslGetError (-1)) (r := err) id rfl rfl
      simp only [Prog.andThen_done]
      split
      · split <;> exact hs''.of_eq rfl rfl
      · split <;> exact hs''.of_eq rfl rfl
  | some bytes =>
      cases bytes with
      | nil =>
          have hs' : TlsReading delimiter ctx
              (h ++ [⟨.sslRead 1086, some []⟩]) :=
            hs.neutral (by simp [Misleads]) rfl rfl
          exact hs'.of_eq rfl rfl
      | cons x data =>
          have hlen : (x :: data).length ≤ 1086 := hr _ rfl
          rcases hs.append 1086 (List.cons_ne_nil x data) (by omega) with
            ⟨ctx', happ, hs'⟩ | ⟨happ, hover⟩
          · simp only [happ]
            split <;> exact hs'.of_eq rfl rfl
          · simp only [happ]
            exact hover

theorem sslReadUntilRetryStep_spec (hs : TlsReading delimiter ctx h) :
    (sslReadUntilRetryStep delimiter ctx).Sat ReadContract
      (Prog.andThen (TlsRetryEnd delimiter)
        (Prog.afterIter (TlsRetryEnd delimiter) (TlsReading delimiter))) h := by
  rw [sslReadUntilRetryStep]
  split
  · dsimp only
    split
    · exact hs.of_eq rfl rfl
    · simp only [hs.buffer]
      split
      · exact hs.of_eq rfl hs.buffer.symm
      · exact sslReadUntilRetryRead_spec (hs.of_eq rfl hs.buffer.symm)
  · exact hs

/-- How the helper ends. -/
def TlsHelperEnd (delimiter : Bytes) : Trace →
    Status (Except TaskEnd ClientContext) → Prop
  | h, .done (.ok ctx) => TlsReading delimiter ctx h
  | h, .done (.error _) => Overflown delimiter h
  | _, _ => True

theorem sslReadUntilRetryLoop_spec (hs : TlsReading delimiter ctx h)
    (fuel : ℕ) :
    (sslReadUntilRetryLoop fuel ctx delimiter).Sat ReadContract
      (TlsHelperEnd delimiter) h := by
  have hloop : (Prog.iterate (sslReadUntilRetryStep delimiter) fuel ctx).Sat
      ReadContract (TlsRetryEnd delimiter) h :=
    Prog.sat_iterate (fun _ ctx h => TlsReading delimiter ctx h)
      (fun _ _ _ => trivial) (fun _ _ _ hs => sslReadUntilRetryStep_spec hs)
      fuel ctx h hs
  rw [sslReadUntilRetryLoop]
  refine hloop.bind (fun _ _ => trivial) (fun _ _ => trivial)
    fun flow h' hst => ?_
  cases flow with
  | fall c => exact hst.of_eq rfl rfl
  | «return» r =>
      cases r with
      | error e => exact hst
      | ok c => exact hst

theorem sslReadUntilRetryBody_spec {ssl : ClientSslConfigure} {tlsRet : ℤ}
    (hs : TlsReading delimiter ctx h) (hssl : ssl.opensslPtr ≠ none)
    (hctx : ssl.opensslCtxPtr ≠ none) (fuel : ℕ) :
    (sslReadUntilRetryBody fuel ctx ssl tlsRet delimiter).Sat ReadContract
      (TlsHelperEnd delimiter) h := by
  have hvalid : ¬ (ctx.socketfd < 0 ∨ ssl.opensslPtr = none ∨
      ssl.opensslCtxPtr = none) := by
    have := hs.fd
    simp only [hssl, hctx, or_false]
    omega
  rw [sslReadUntilRetryBody, if_neg hvalid, Prog.sat_bind, Prog.sat_perform]
  refine ⟨trivial, fun err _ => ?_⟩
  have hs' := hs.neutral (q := .sslGetError tlsRet) (r := err) id rfl rfl
  simp only [Prog.andThen_done]
  split
  · refine sslReadUntilRetryLoop_spec ?_ fuel
    exact hs'.of_eq rfl rfl
  · split
    · refine sat_fdSet_bind (fun _ => ?_) fun _ => trivial
      rw [Prog.sat_bind, Prog.sat_perform]
      refine ⟨trivial, fun w _ => ?_⟩
      have hs'' := hs'.neutral (q := .select ctx.socketfd ctx.timeout)
        (r := w) id rfl rfl
      simp only [Prog.andThen_done]
      split
      · exact hs''.of_eq rfl rfl
      · refine sslReadUntilRetryLoop_spec ?_ fuel
        exact hs''.of_eq rfl rfl
    · exact hs'.of_eq rfl rfl

/-- **The helper keeps what has been read** and submits nothing. -/
theorem sslReadUntilRetry_spec {ssl : ClientSslConfigure} {tlsRet : ℤ}
    (hs : TlsReading delimiter ctx h) (hssl : ssl.opensslPtr ≠ none)
    (hctx : ssl.opensslCtxPtr ≠ none) (fuel : ℕ) :
    (sslReadUntilRetry fuel ctx ssl tlsRet delimiter).Sat ReadContract
      (TlsHelperEnd delimiter) h := by
  rw [sslReadUntilRetry]
  refine (sslReadUntilRetryBody_spec hs hssl hctx fuel).bind
    (fun _ _ => trivial) (fun _ _ => trivial) fun r h' hst => ?_
  cases r with
  | error e => exact hst
  | ok c => exact hst.of_eq rfl rfl

/-! ## The task -/

/-- How the task ends. -/
def TlsEnd (delimiter : Bytes) : Trace → Status TaskEnd → Prop
  | h, .done e => SubmittedOnce h e ↔ NotMisled delimiter h
  | _, _ => True

/-- The states the loop of the task passes through. -/
def TlsLoop (delimiter : Bytes) :
    ReadState × ClientContext × ℤ → Trace → Prop
  | (.found, _, _), h => Overflown delimiter h
  | (_, ctx, _), h => TlsReading delimiter ctx h

/-- Submitting a callback while none has been submitted, and returning. -/
theorem TlsReading.submit (hs : TlsReading delimiter ctx h) (s : Completion) :
    TlsEnd delimiter (h ++ [⟨.submit s, ()⟩]) (.done .returned) := by
  have hcomp : Trace.completions (h ++ [⟨.submit s, ()⟩]) = [s] := by
    simp [hs.completions]
  have hsound := notMisled_snoc (q := .submit s) (r := ()) hs.notMisled id
    (by simpa using hs.notMisled.fits)
  exact iff_of_true ⟨rfl, by rw [hcomp]; rfl⟩ hsound

theorem Overflown.end (hover : Overflown delimiter h) (e : TaskEnd) :
    TlsEnd delimiter h (.done e) := by
  refine iff_of_false ?_ hover.2
  rintro ⟨-, hone⟩
  rw [hover.1] at hone
  exact absurd hone (by decide)

theorem readUntilTlsError_spec {ssl : ClientSslConfigure} {tlsRet : ℤ}
    (hs : TlsReading delimiter ctx h) (hssl : ssl.opensslPtr ≠ none)
    (hctx : ssl.opensslCtxPtr ≠ none) (fuel : ℕ) :
    (readUntilTlsError fuel ssl delimiter ctx tlsRet).Sat ReadContract
      (Prog.andThen (TlsEnd delimiter)
        (Prog.afterIter (TlsEnd delimiter) (TlsLoop delimiter))) h := by
  rw [readUntilTlsError]
  refine (sslReadUntilRetry_spec hs hssl hctx fuel).bind (fun _ _ => trivial)
    (fun _ _ => trivial) fun r h' hst => ?_
  cases r with
  | error e => exact hst.end e
  | ok c =>
      have hs' : TlsReading delimiter (ctx.moveAssign c) h' :=
        hst.of_eq rfl rfl
      dsimp only
      split
      · rw [Prog.sat_bind]
        exact sat_submitReadable hs'.buffer trivial (hs'.submit _)
      · rw [Prog.sat_bind, Prog.sat_perform]
        refine ⟨trivial, fun err _ => ?_⟩
        have hs'' := hs'.neutral (q := .sslGetError tlsRet) (r := err)
          id rfl rfl
        rw [Prog.andThen_done, Prog.sat_bind]
        exact sat_submitRead trivial (hs''.submit _)

/-- `case READING`: where the peer has closed the connection, what follows
the callback dereferences the null pointer the callback has left. -/
theorem readUntilTlsReading_spec (hs : TlsReading delimiter ctx h) :
    (readUntilTlsReading ctx).Sat ReadContract
      (Prog.andThen (TlsEnd delimiter)
        (Prog.afterIter (TlsEnd delimiter) (TlsLoop delimiter))) h := by
  rw [readUntilTlsReading]
  refine sat_fdSet_bind (fun _ => ?_) fun _ => trivial
  rw [Prog.sat_bind, Prog.sat_perform]
  refine ⟨trivial, fun w _ => ?_⟩
  have hs' := hs.neutral (q := .select ctx.socketfd ctx.timeout) (r := w)
    id rfl rfl
  simp only [Prog.andThen_done]
  split
  · rw [Prog.sat_bind]
    exact sat_submitRead trivial (hs'.submit _)
  · rw [Prog.sat_bind, Prog.sat_perform]
    refine ⟨trivial, fun r hr => ?_⟩
    simp only [Prog.andThen_done]
    cases r with
    | none =>
        exact hs'.neutral (q := .sslRead 596) (r := none) (by simp [Misleads])
          rfl rfl
    | some bytes =>
        cases bytes with
        | nil =>
            rw [Prog.sat_bind]
            refine sat_submitRead trivial ?_
            -- the buffer has been moved into the callback
            show TlsEnd delimiter _ (.done .undefined)
            refine iff_of_false (fun hone => ?_) fun hsound => ?_
            · cases hone.1
            · exact hsound.reply ⟨.sslRead 596, some []⟩ (by simp) ⟨rfl, rfl⟩
        | cons x data =>
            have hlen : (x :: data).length ≤ 596 := hr _ rfl
            rcases hs'.append 596 (List.cons_ne_nil x data) (by omega) with
              ⟨ctx', happ, hs''⟩ | ⟨happ, hover⟩
            · simp only [happ]
              exact hs''
            · simp only [happ]
              exact hover.end _

theorem scan_const {n : ℕ} (hle : delimiter.length ≤ n) (hit : Bool) :
    scan n delimiter (fun _ => hit) = hit := by
  have hpos : 0 < min (n + 1 - delimiter.length) 2147483648 := by omega
  rw [scan]
  cases hit with
  | false => simp
  | true => exact List.any_eq_true.mpr ⟨0, List.mem_range.mpr hpos, rfl⟩

/-- `case VERIFY`: the delimiter is found in the memory behind the vector. -/
theorem readUntilTlsVerify_spec {tlsRet : ℤ}
    (hs : TlsReading delimiter ctx h) :
    (readUntilTlsVerify delimiter ctx tlsRet).Sat ReadContract
      (Prog.andThen (TlsEnd delimiter)
        (Prog.afterIter (TlsEnd delimiter) (TlsLoop delimiter))) h := by
  have hfits := hs.notMisled.fits
  rw [readUntilTlsVerify, hs.buffer]
  simp only [ReadBuffer.filled_readableBytes hfits]
  split
  · next hle =>
    rw [Prog.sat_bind, Prog.sat_perform]
    refine ⟨trivial, fun past _ => ?_⟩
    have hcmp : memcmpEq ((ReadBuffer.filled h.received).peekData ++ past)
        h.received.length delimiter =
          (past.take delimiter.length == delimiter) := by
      simp [memcmpEq, slice, ReadBuffer.peekData, ReadBuffer.filled]
    simp only [Prog.andThen_done, scan_const hle, hcmp]
    split
    · next hhit =>
      have hmis : Misleads delimiter (.pastVector delimiter.length) past :=
        beq_iff_eq.mp hhit
      exact ⟨by simpa using hs.completions, misled_snoc hmis⟩
    · next hmiss =>
      refine readUntilTlsReading_spec (hs.neutral (fun hmis => hmiss ?_)
        rfl rfl)
      exact beq_iff_eq.mpr hmis
  · exact readUntilTlsReading_spec hs

theorem readUntilTlsStep_spec {ssl : ClientSslConfigure}
    {s : ReadState × ClientContext × ℤ} (hs : TlsLoop delimiter s h)
    (hssl : ssl.opensslPtr ≠ none) (hctx : ssl.opensslCtxPtr ≠ none)
    (fuel : ℕ) :
    (readUntilTlsStep fuel ssl delimiter s).Sat ReadContract
      (Prog.andThen (TlsEnd delimiter)
        (Prog.afterIter (TlsEnd delimiter) (TlsLoop delimiter))) h := by
  obtain ⟨state, c, tlsRet⟩ := s
  cases state with
  | verify => exact readUntilTlsVerify_spec hs
  | reading => exact readUntilTlsReading_spec hs
  | error => exact readUntilTlsError_spec hs hssl hctx fuel
  | found => exact hs.end _
  | close =>
      have hs : TlsReading delimiter c h := hs
      rw [readUntilTlsStep, readUntilTlsClose, Prog.sat_bind]
      exact sat_submitReadable hs.buffer trivial (hs.submit _)

/-- **When the TLS read submits its callback once.** Whenever the task of
`async_read_until_tls` ends, it has returned with exactly one callback
submitted if and only if no reply has misled it: never has the memory behind
the readable bytes equalled the delimiter, and never has a read of the main
loop reported a closed connection. -/
theorem asyncReadUntilTls_once (ssl : ClientSslConfigure)
    (ctx : ClientContext) (delimiter : Bytes) (o : Oracle Call Call.Reply)
    (ho : o.Obeys ReadContract) (fuel : ℕ) (e : TaskEnd)
    (hend : ((asyncReadUntilTls fuel ssl ctx delimiter).exec o []).1 =
      .done e) :
    SubmittedOnce ((asyncReadUntilTls fuel ssl ctx delimiter).exec o []).2 e ↔
      NotMisled delimiter
        ((asyncReadUntilTls fuel ssl ctx delimiter).exec o []).2 := by
  have hempty : NotMisled delimiter [] := ⟨by simp, Nat.zero_le _⟩
  have hsat : (asyncReadUntilTls fuel ssl ctx delimiter).Sat ReadContract
      (TlsEnd delimiter) [] := by
    rw [asyncReadUntilTls]
    split
    · rw [Prog.sat_bind]
      refine ⟨trivial, fun _ _ => iff_of_true ⟨rfl, rfl⟩ ?_⟩
      exact notMisled_snoc hempty id (Nat.zero_le _)
    · next hvalid =>
      simp only [not_or] at hvalid
      obtain ⟨hfd, hssl, hctx, -⟩ := hvalid
      refine Prog.sat_iterate (fun _ => TlsLoop delimiter)
        (fun _ _ _ => trivial)
        (fun _ _ _ hs => readUntilTlsStep_spec hs hssl hctx fuel) fuel _ [] ?_
      exact ⟨Int.not_lt.mp hfd, rfl, hempty, rfl⟩
  have hout := hsat.exec ho
  rw [hend] at hout
  exact hout

/-- A peer whose reads all give `reply`, over memory that holds `past`. -/
def tlsPeer (reply : Option Bytes) (past : Bytes) : Oracle Call Call.Reply :=
  fun _ q =>
    match q with
    | .select _ _ => (1 : ℤ)
    | .recv _ _ => none
    | .read _ _ => none
    | .write _ _ => (0 : ℤ)
    | .errno => (0 : ℤ)
    | .sslRead size => reply.map fun data => data.take size
    | .sslGetError _ => (1 : ℤ)
    | .pastVector _ => past
    | .submit _ => ()

theorem tlsPeer_obeys (reply : Option Bytes) (past : Bytes) :
    (tlsPeer reply past).Obeys ReadContract := by
  intro h q
  cases q with
  | recv fd size =>
      intro data hdata
      cases hdata
  | read fd size =>
      intro data hdata
      cases hdata
  | sslRead size =>
      intro data hdata
      obtain ⟨bytes, -, rfl⟩ := Option.map_eq_some_iff.mp hdata
      exact List.length_take_le size bytes
  | _ => trivial

/-- A read up to a newline from that peer. -/
def tlsRun (reply : Option Bytes) (past : Bytes) : Status TaskEnd × Trace :=
  (asyncReadUntilTls 3 ⟨some 1, some 2⟩ connected [10]).exec
    (tlsPeer reply past) []

/-- A peer that sends a letter, keeps the main loop waiting then, and sends the
newline to the helper. -/
def brokenLine : Oracle Call Call.Reply := fun h q =>
  match q with
  | .sslRead size =>
      if size ≠ 596 then some (List.take size [10])
      else if Trace.received h = [] then some (List.take size [65])
      else none
  | .sslGetError _ => sslErrorWantRead
  | q => tlsPeer none [] h q

theorem brokenLine_obeys : brokenLine.Obeys ReadContract := by
  intro h q
  cases q with
  | recv fd size => exact tlsPeer_obeys none [] h (.recv fd size)
  | read fd size => exact tlsPeer_obeys none [] h (.read fd size)
  | sslRead size =>
      intro data hdata
      simp only [brokenLine] at hdata
      split at hdata
      · cases hdata
        exact List.length_take_le size _
      · split at hdata
        · cases hdata
          exact List.length_take_le size _
        · cases hdata
  | _ => trivial

/-- The line is delivered, and reported once. -/
theorem asyncReadUntilTls_once_line :
    let run := (asyncReadUntilTls 9 ⟨some 1, some 2⟩
      { connected with maxRetyCount := 4 } [10]).exec brokenLine []
    (run.1 = .done .returned ∧ Trace.received run.2 = [65, 10] ∧
        (Trace.completions run.2).map Completion.bytes = [2]) ∧
      (SubmittedOnce run.2 .returned ↔ NotMisled [10] run.2) :=
  ⟨by decide +kernel, asyncReadUntilTls_once _ _ _ _ brokenLine_obeys 9 _
    (by decide +kernel)⟩

/-- A delimiter in the memory behind the buffer ends the task without a
callback. A closed connection ends it, after one callback, at a null
pointer. -/
theorem asyncReadUntilTls_not_once :
    ((tlsPeer (some [65]) [10]).Obeys ReadContract ∧
      (tlsRun (some [65]) [10]).1 = .done .returned ∧
      Trace.completions (tlsRun (some [65]) [10]).2 = []) ∧
    (tlsPeer (some []) []).Obeys ReadContract ∧
      (tlsRun (some []) []).1 = .done .undefined ∧
      (Trace.completions (tlsRun (some []) []).2).length = 1 :=
  ⟨⟨tlsPeer_obeys _ _, by decide +kernel, by decide +kernel⟩,
    tlsPeer_obeys _ _, by decide +kernel, by decide +kernel⟩

end

end Mtasc
