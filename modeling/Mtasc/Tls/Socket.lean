import Mtasc.Client.ReadTls
import Mtasc.Client.Write

/-!
# `socketSSL`

The creation of a TLS object, the handshake with its retry helper, the write
and the destruction. An operation checks its arguments where it is called and
posts either the user's callback or a task; the task runs later, on what
`M_openssl_configure` holds then. What OpenSSL logs is left out, and so are the
library's initialization and its error queue.
-/

namespace Mtasc

open Lib

/-! ## Data -/

/-- `M_openssl_configure` with all its fields. -/
structure OpensslConfigure extends ClientSslConfigure where
  opensslInit : Bool := false
  caCertPath : String := ""
  tlsVerifyDepth : ℤ := 4
deriving DecidableEq, Repr

/-- `client_ssl_configure()`. -/
def OpensslConfigure.default : OpensslConfigure :=
  { opensslPtr := none, opensslCtxPtr := none }

structure OpensslOptions where
  enableCustomCert : Bool := false
  enableClientKey : Bool := false
  enableTlsV1 : Bool := false
deriving DecidableEq, Repr

inductive TlsMethod where
  | tlsClientMethod
  | tlsv12ClientMethod
deriving DecidableEq, Repr

abbrev sslErrorSsl : ℤ := 1

/-! ## Calls -/

/-- A user's callback with the arguments it is submitted with. -/
inductive TlsCompletion where
  | create (ec : ErrorCode) (options : OpensslOptions) (ctx : ClientContext)
  | connect (ec : ErrorCode) (ctx : ClientContext)
  | write (ec : ErrorCode) (ctx : ClientContext) (bytes : ℕ)
deriving DecidableEq

def TlsCompletion.ec : TlsCompletion → ErrorCode
  | .create ec _ _ => ec
  | .connect ec _ => ec
  | .write ec _ _ => ec

/-- The handles are `none` for a null pointer. -/
inductive TlsCall where
  | sslCtxNew (method : TlsMethod)
  | sslCtxSetVerify (sslCtx : Option ℕ)
  | sslCtxLoadVerifyFile (sslCtx : Option ℕ) (path : String)
  | sslCtxSetDefaultVerifyPaths (sslCtx : Option ℕ)
  | sslCtxSetTlsextServernameCallback (sslCtx : Option ℕ)
  | sslCtxSetVerifyDepth (sslCtx : Option ℕ) (depth : ℤ)
  | sslCtxFree (sslCtx : Option ℕ)
  | sslNew (sslCtx : Option ℕ)
  | sslSetTlsextHostName (ssl : Option ℕ) (host : Option String)
  | sslSetFd (ssl : Option ℕ) (fd : ℤ)
  | sslConnect (ssl : Option ℕ)
  | sslGetError (ssl : Option ℕ) (ret : ℤ)
  /-- `num` bytes are asked for; `data` is the message from there on, or as much
  of it as there is. -/
  | sslWrite (ssl : Option ℕ) (data : Bytes) (num : ℤ)
  | sslShutdown (ssl : Option ℕ)
  | sslFree (ssl : Option ℕ)
  /-- `free` of the C library, on an `SSL*`. -/
  | freeSsl (ssl : Option ℕ)
  /-- `free` of the C library, on an `SSL_CTX*`. -/
  | freeSslCtx (sslCtx : Option ℕ)
  /-- With the `fd_set` of the one descriptor, that `fdSet` has set. -/
  | select (fd timeout : ℤ)
  | errno
  | close (fd : ℤ)
  | submit (s : TlsCompletion)
deriving DecidableEq

@[reducible] def TlsCall.Reply : TlsCall → Type
  | .sslCtxNew _ => Option ℕ
  | .sslCtxLoadVerifyFile _ _ => ℤ
  | .sslCtxSetDefaultVerifyPaths _ => ℤ
  | .sslNew _ => Option ℕ
  | .sslConnect _ => ℤ
  | .sslGetError _ _ => ℤ
  | .sslWrite _ _ _ => ℤ
  | .select _ _ => ℤ
  | .errno => ℤ
  | _ => Unit

abbrev TlsNet : Type → Type := Prog TlsCall TlsCall.Reply

abbrev TlsTrace : Type := History TlsCall TlsCall.Reply

abbrev tlsPerform (q : TlsCall) : TlsNet q.Reply := Prog.perform q

namespace TlsTrace

@[simp] def completedBy : (q : TlsCall) → q.Reply → List TlsCompletion
  | .submit s, _ => [s]
  | _, _ => []

def completions (h : TlsTrace) : List TlsCompletion :=
  h.flatMap fun e => completedBy e.1 e.2

/-- Of an `SSL_write` the first as many bytes as it returns. -/
@[simp] def sentBy : (q : TlsCall) → q.Reply → Bytes
  | .sslWrite _ data _, k => data.take (Int.toNat k)
  | _, _ => []

def sent (h : TlsTrace) : Bytes := h.flatMap fun e => sentBy e.1 e.2

@[simp] theorem completions_snoc {h : TlsTrace} {q : TlsCall} {r : q.Reply} :
    completions (h ++ [⟨q, r⟩]) = completions h ++ completedBy q r := by
  simp [completions]

@[simp] theorem sent_snoc {h : TlsTrace} {q : TlsCall} {r : q.Reply} :
    sent (h ++ [⟨q, r⟩]) = sent h ++ sentBy q r := by
  simp [sent]

end TlsTrace

/-- A task that an operation posts. -/
inductive TlsTask where
  | create (options : OpensslOptions) (ctx : ClientContext)
  | connect (ctx : ClientContext)
  | write (ctx : ClientContext)
deriving DecidableEq

inductive Posted where
  | callback (s : TlsCompletion)
  | task (t : TlsTask)
deriving DecidableEq

/-- What a task does to `M_openssl_configure`, and how it ends. -/
abbrev TlsRun : Type := TlsNet (OpensslConfigure × TaskEnd)

/-- The last step of a task. -/
def submitTls (cfg : OpensslConfigure) (s : TlsCompletion) : TlsRun := do
  tlsPerform (.submit s)
  return (cfg, .returned)

/-- A callback with `errno` for its error code. -/
def submitErrno (cfg : OpensslConfigure) (s : ErrorCode → TlsCompletion) :
    TlsRun := do
  let errno ← tlsPerform .errno
  submitTls cfg (s ⟨errno, .system⟩)

/-! ## The creation -/

/-- `init_client_openssl`. -/
def OpensslConfigure.initClientOpenssl (cfg : OpensslConfigure) :
    OpensslConfigure :=
  if cfg.opensslInit then cfg else { cfg with opensslInit := true }

/-- `M_create_tls`. -/
def createTls (sslContext : Option ℕ) (fd : ℤ) (hostname : Option String) :
    TlsNet (Option ℕ) :=
  if sslContext = none then
    return none
  else do
    let ssl ← tlsPerform (.sslNew sslContext)
    tlsPerform (.sslSetTlsextHostName ssl hostname)
    tlsPerform (.sslSetFd ssl fd)
    return ssl

/-- `M_create_tls_context`. -/
def createTlsContext (cfg : OpensslConfigure) (options : OpensslOptions) :
    TlsNet (Option ℕ) := do
  let sslCtx ← tlsPerform (.sslCtxNew
    (if options.enableTlsV1 then .tlsv12ClientMethod else .tlsClientMethod))
  tlsPerform (.sslCtxSetVerify sslCtx)
  let verify ←
    if options.enableCustomCert then
      tlsPerform (.sslCtxLoadVerifyFile sslCtx cfg.caCertPath)
    else
      tlsPerform (.sslCtxSetDefaultVerifyPaths sslCtx)
  if verify ≠ 1 then
    tlsPerform (.sslCtxFree sslCtx)
    return none
  else
    tlsPerform (.sslCtxSetTlsextServernameCallback sslCtx)
    tlsPerform (.sslCtxSetVerifyDepth sslCtx cfg.tlsVerifyDepth)
    return sslCtx

/-- The calls that configure a new context. -/
inductive TlsCall.Configures (sslCtx : Option ℕ) : TlsCall → Prop where
  | verify : Configures sslCtx (.sslCtxSetVerify sslCtx)
  | file (path : String) : Configures sslCtx (.sslCtxLoadVerifyFile sslCtx path)
  | paths : Configures sslCtx (.sslCtxSetDefaultVerifyPaths sslCtx)
  | callback : Configures sslCtx (.sslCtxSetTlsextServernameCallback sslCtx)
  | depth (n : ℤ) : Configures sslCtx (.sslCtxSetVerifyDepth sslCtx n)

/-- **The rule for `M_create_tls_context`.** `J` holds from the new context on,
is kept while it is configured, and leads to `next` with the context or, after
its release, without one. -/
theorem sat_createTlsContext {α : Type}
    {ok : TlsTrace → (q : TlsCall) → q.Reply → Prop}
    {ψ : TlsTrace → Status α → Prop} {next : Option ℕ → TlsTrace → Prop}
    (J : Option ℕ → TlsTrace → Prop) {cfg : OpensslConfigure}
    {options : OpensslOptions} {h : TlsTrace} (hstart : ψ h .calling)
    (hnew : ∀ method sslCtx, J sslCtx (h ++ [⟨.sslCtxNew method, sslCtx⟩]))
    (hcalling : ∀ sslCtx h, J sslCtx h → ψ h .calling)
    (hkeep : ∀ sslCtx h q r, TlsCall.Configures sslCtx q → J sslCtx h →
      J sslCtx (h ++ [⟨q, r⟩]))
    (hfail : ∀ sslCtx h, J sslCtx h →
      next none (h ++ [⟨.sslCtxFree sslCtx, ()⟩]))
    (hdone : ∀ sslCtx h, J sslCtx h → next sslCtx h) :
    (createTlsContext cfg options).Sat ok (Prog.andThen ψ next) h := by
  rw [createTlsContext]
  generalize (if options.enableTlsV1 then TlsMethod.tlsv12ClientMethod
    else .tlsClientMethod) = method
  refine Prog.sat_perform_bind.mpr ⟨hstart, fun sslCtx _ => ?_⟩
  refine Prog.sat_perform_bind.mpr ⟨hcalling _ _ (hnew _ _), fun _ _ => ?_⟩
  have hverify := hkeep sslCtx _ _ () .verify (hnew method sslCtx)
  have hrest : ∀ (verify : ℤ) h, J sslCtx h →
      (if verify ≠ 1 then do
        tlsPerform (.sslCtxFree sslCtx)
        return none
      else do
        tlsPerform (.sslCtxSetTlsextServernameCallback sslCtx)
        tlsPerform (.sslCtxSetVerifyDepth sslCtx cfg.tlsVerifyDepth)
        return sslCtx : TlsNet (Option ℕ)).Sat ok (Prog.andThen ψ next) h := by
    intro verify h hJ
    split
    · exact ⟨hcalling _ _ hJ, fun _ _ => hfail _ _ hJ⟩
    · have hJ' := hkeep sslCtx h _ () .callback hJ
      exact ⟨hcalling _ _ hJ, fun _ _ => ⟨hcalling _ _ hJ', fun _ _ =>
        hdone _ _ (hkeep sslCtx _ _ () (.depth _) hJ')⟩⟩
  split
  · exact Prog.sat_perform_bind.mpr ⟨hcalling _ _ hverify, fun verify _ =>
      hrest verify _ (hkeep sslCtx _ _ verify (.file _) hverify)⟩
  · exact Prog.sat_perform_bind.mpr ⟨hcalling _ _ hverify, fun verify _ =>
      hrest verify _ (hkeep sslCtx _ _ verify .paths hverify)⟩

/-- The task of `async_create_tls` from its first check on. The second check,
like the first, is of the context. -/
def createTlsChecked (cfg : OpensslConfigure) (options : OpensslOptions)
    (ctx : ClientContext) (sslCtx : Option ℕ) : TlsRun :=
  let cfg := { cfg with opensslCtxPtr := sslCtx }
  if cfg.opensslCtxPtr = none then
    submitErrno cfg (.create · options ctx.moveConstruct)
  else do
    let ssl ← createTls cfg.opensslCtxPtr ctx.socketfd ctx.addrsHost
    let cfg := { cfg with opensslPtr := ssl }
    if cfg.opensslCtxPtr = none then
      submitErrno cfg (.create · options ctx.moveConstruct)
    else
      submitTls cfg (.create {} options ctx.moveConstruct)

/-- The task of `async_create_tls`. -/
def createTlsTask (cfg : OpensslConfigure) (options : OpensslOptions)
    (ctx : ClientContext) : TlsRun := do
  let sslCtx ← createTlsContext cfg options
  createTlsChecked cfg options ctx sslCtx

/-- `async_create_tls`. -/
def asyncCreateTls (cfg : OpensslConfigure) (options : OpensslOptions)
    (ctx : ClientContext) : OpensslConfigure × Posted :=
  let cfg := cfg.initClientOpenssl
  if ¬ cfg.opensslInit then
    (cfg, .callback
      (.create (makeErrorCode ebadf) options ctx.moveConstruct))
  else
    (cfg, .task (.create options ctx.moveConstruct))

/-! ## The handshake -/

/-- `M_creater_new_retry_tls`. -/
def createrNewRetryTls (badTls ctxTls : Option ℕ) (fd : ℤ)
    (hostname : Option String) : TlsNet (Option ℕ) := do
  tlsPerform (.freeSsl badTls)
  let newSsl ← tlsPerform (.sslNew ctxTls)
  if newSsl = none then
    return none
  else
    tlsPerform (.sslSetTlsextHostName newSsl hostname)
    tlsPerform (.sslSetFd newSsl fd)
    return newSsl

/-- The result of `M_ssl_handshake_retry`, which also sets `M_openssl_ptr`. -/
abbrev HandshakeResult : Type :=
  Except TaskEnd (OpensslConfigure × ClientContext)

/-- The `switch` of `M_ssl_handshake_retry`. -/
def handshakeRetrySwitch (cfg : OpensslConfigure) (handshakeErr : ℤ)
    (ctx : ClientContext) (retryTls : Option ℕ) :
    TlsNet (Iter (ClientContext × Option ℕ) HandshakeResult) :=
  if handshakeErr = sslErrorSyscall then do
    let errno ← tlsPerform .errno
    if errno = econnreset ∨ errno = etimedout then
      let retryRet ← tlsPerform (.sslConnect retryTls)
      if retryRet ≠ 1 then
        if ctx.connectRetyCount > ctx.maxRetyCount then
          return .done (.ok (cfg, { ctx with isRetrySuccess := false }))
        else
          let _ ← tlsPerform (.sslGetError cfg.opensslPtr retryRet)
          return .next (ctx, retryTls)
      else
        return .done (.ok ({ cfg with opensslPtr := retryTls },
          { ctx with isRetrySuccess := true }))
    else
      return .done (.ok (cfg, { ctx with isRetrySuccess := false }))
  else if handshakeErr = sslErrorSsl then
    return .done (.error .threw)
  else
    return .next (ctx, retryTls)

/-- The `while` of `M_ssl_handshake_retry`; its state is the context and
`M_retry_tls`. -/
def handshakeRetryStep (cfg : OpensslConfigure) (handshakeErr : ℤ)
    (retryCtx : Option ℕ) :
    ClientContext × Option ℕ →
      TlsNet (Iter (ClientContext × Option ℕ) HandshakeResult)
  | (ctx, retryTls) =>
    if ctx.connectRetyCount < ctx.maxRetyCount then
      let ctx := { ctx with connectRetyCount := ctx.connectRetyCount + 1 }
      if handshakeErr = sslErrorWantRead ∨
          handshakeErr = sslErrorWantWrite then do
        let retry ← tlsPerform (.sslConnect retryTls)
        if retry ≠ 1 then
          if ctx.connectRetyCount > ctx.maxRetyCount then
            return .done (.ok (cfg, { ctx with isRetrySuccess := false }))
          else
            return .next (ctx, retryTls)
        else
          return .done (.ok (cfg, { ctx with isRetrySuccess := true }))
      else do
        let retryTls ← createrNewRetryTls retryTls retryCtx ctx.socketfd
          ctx.addrsHost
        handshakeRetrySwitch cfg handshakeErr ctx retryTls
    else
      return .done (.ok (cfg, { ctx with isRetrySuccess := false }))

/-- `M_ssl_handshake_retry`. The context is passed by rvalue reference: what is
returned is also what the caller's context has become. -/
def sslHandshakeRetry (fuel : ℕ) (cfg : OpensslConfigure)
    (ctx : ClientContext) (handshakeErr : ℤ) (retryTls retryCtx : Option ℕ) :
    TlsNet HandshakeResult :=
  if ctx.socketfd < 0 then
    return .error .threw
  else
    Prog.iterate (handshakeRetryStep cfg handshakeErr retryCtx) fuel
      ({ ctx with connectRetyCount := 0 }, retryTls)

/-- The task of `async_try_connect_tls` from the retry on. -/
def connectTlsRetry (fuel : ℕ) (cfg : OpensslConfigure) (ctx : ClientContext)
    (handshakeErr : ℤ) : TlsRun := do
  match ← sslHandshakeRetry fuel cfg ctx handshakeErr cfg.opensslPtr
      cfg.opensslCtxPtr with
  | .error e => return (cfg, e)
  | .ok (cfg, ctx) =>
    let tlsRetryConnect := ctx.moveConstruct
    let ctx := ctx.moveAssign tlsRetryConnect
    if tlsRetryConnect.isRetrySuccess then
      submitTls cfg (.connect {} ctx.moveConstruct)
    else
      submitErrno cfg (.connect · ctx.moveConstruct)

/-- The task of `async_try_connect_tls`. -/
def connectTlsTask (fuel : ℕ) (cfg : OpensslConfigure) (ctx : ClientContext) :
    TlsRun := do
  let tlsConnectRet ← tlsPerform (.sslConnect cfg.opensslPtr)
  if tlsConnectRet = 1 then
    submitTls cfg (.connect {} ctx.moveConstruct)
  else if tlsConnectRet < 1 ∨ tlsConnectRet ≤ 0 then
    let handshakeErr ← tlsPerform (.sslGetError cfg.opensslPtr tlsConnectRet)
    if handshakeErr = 0 ∨ handshakeErr = sslErrorWantRead ∨
        handshakeErr = sslErrorWantWrite then
      fdSet ctx.socketfd
      let waitRet ← tlsPerform (.select ctx.socketfd ctx.timeout)
      if waitRet < 0 then
        submitTls cfg (.connect (makeErrorCode etimedout) ctx.moveConstruct)
      else
        connectTlsRetry fuel cfg ctx handshakeErr
    else
      connectTlsRetry fuel cfg ctx handshakeErr
  else
    submitTls cfg (.connect (makeErrorCode econnreset) ctx.moveConstruct)

/-- `async_try_connect_tls`. -/
def asyncTryConnectTls (cfg : OpensslConfigure) (ctx : ClientContext) :
    Posted :=
  if ctx.socketfd < 0 ∨ cfg.opensslPtr = none then
    .callback (.connect (makeErrorCode ebadf) ctx.moveConstruct)
  else
    .task (.connect ctx.moveConstruct)

/-! ## The write -/

/-- The inner `while` of `M_ssl_write_retry`; its state is the context and
`M_write_toal_data`. The length it passes is `sizeof` of a `size_t`. -/
def sslWriteRetryInner (retryTls : Option ℕ) (strfullLen : ℕ) :
    ClientContext × ℕ → TlsNet (Iter (ClientContext × ℕ) ClientContext)
  | (ctx, writeToalData) =>
    if writeToalData < strfullLen then do
      let retryWriteRet ← tlsPerform
        (.sslWrite retryTls (ctx.messageFrom writeToalData 8) 8)
      if retryWriteRet < 0 then
        if ctx.maxRetyCount ≤ ctx.connectRetyCount then
          return .done { ctx with isRetrySuccess := false }
        else
          return .next (ctx, writeToalData)
      else if retryWriteRet = 0 then
        return .done { ctx with isRetrySuccess := false }
      else if wadd 64 (toSizeT retryWriteRet) writeToalData = strfullLen then
        return .done { ctx with isRetrySuccess := true }
      else
        let writeToalData := wadd 64 writeToalData (toSizeT retryWriteRet)
        return .next ({ ctx with clientRetryWriteBytes := writeToalData },
          writeToalData)
    else
      return .done { ctx with isRetrySuccess := false }

/-- `M_ssl_write_retry`. Every path through the body of its `while` returns,
so that the loop is an `if`. -/
def sslWriteRetry (fuel : ℕ) (ctx : ClientContext)
    (retryTls retryCtx : Option ℕ) (tlsRet : ℤ)
    (strfullLen writeToalData : ℕ) : TlsNet (Except TaskEnd ClientContext) :=
  if ctx.socketfd < 0 ∨ retryTls = none ∨ retryCtx = none then
    return .error .threw
  else
    let ctx := { ctx with connectRetyCount := 0 }
    if ctx.connectRetyCount < ctx.maxRetyCount then do
      let ctx := { ctx with connectRetyCount := ctx.connectRetyCount + 1 }
      let writeErr ← tlsPerform (.sslGetError retryTls tlsRet)
      if writeErr = sslErrorWantWrite ∨ writeErr = sslErrorWantRead ∨
          sslErrorSyscall ≠ 0 then
        let errno ← tlsPerform .errno
        if errno ≠ eagain ∨ errno ≠ eintr ∨ errno ≠ enobufs ∨
            errno ≠ etimedout then
          return .ok { ctx with isRetrySuccess := false }
        else
          fdSet ctx.socketfd
          let waitRet ← tlsPerform (.select ctx.socketfd ctx.socketfd)
          if waitRet < 0 ∧ ctx.maxRetyCount ≤ ctx.connectRetyCount then
            return .ok { ctx with isRetrySuccess := false }
          else
            let ctx ← Prog.iterate (sslWriteRetryInner retryTls strfullLen)
              fuel (ctx, writeToalData)
            return .ok ctx
      else
        return .ok ctx
    else
      return .ok { ctx with isRetrySuccess := false }

/-- **The rule for `M_ssl_write_retry`.** No `errno` is equal to all of those it
names: it gives up at the first one, without a success and without a call of
`SSL_write`. -/
theorem sat_sslWriteRetry {ok : TlsTrace → (q : TlsCall) → q.Reply → Prop}
    {φ : TlsTrace → Status (Except TaskEnd ClientContext) → Prop}
    (I : TlsTrace → Prop) {fuel : ℕ} {ctx : ClientContext}
    {retryTls retryCtx : Option ℕ} {tlsRet : ℤ} {strfullLen writeToalData : ℕ}
    {h : TlsTrace} (hI : I h) (hcalling : ∀ h, I h → φ h .calling)
    (hgetError : ∀ h e, I h → I (h ++ [⟨.sslGetError retryTls tlsRet, e⟩]))
    (herrno : ∀ h e, I h → I (h ++ [⟨.errno, e⟩]))
    (hfailed : ∀ c h, I h → c.isRetrySuccess = false → φ h (.done (.ok c)))
    (hthrew : ctx.socketfd < 0 ∨ retryTls = none ∨ retryCtx = none →
      φ h (.done (.error .threw))) :
    (sslWriteRetry fuel ctx retryTls retryCtx tlsRet strfullLen
      writeToalData).Sat ok φ h := by
  rw [sslWriteRetry]
  split
  · next hinvalid => exact hthrew hinvalid
  · dsimp only
    split
    · refine Prog.sat_perform_bind.mpr ⟨hcalling h hI, fun writeErr _ => ?_⟩
      have hI' := hgetError h writeErr hI
      -- the third disjunct of the test is the constant itself
      rw [if_pos (Or.inr (Or.inr (by decide)))]
      refine Prog.sat_perform_bind.mpr ⟨hcalling _ hI', fun errno _ => ?_⟩
      have hdiffers : errno ≠ eagain ∨ errno ≠ eintr ∨ errno ≠ enobufs ∨
          errno ≠ etimedout := by
        by_cases heagain : errno = eagain
        · exact Or.inr (Or.inl (by rw [heagain]; decide))
        · exact Or.inl heagain
      rw [if_pos hdiffers]
      exact hfailed _ _ (herrno _ errno hI') rfl
    · exact hfailed _ _ hI rfl

/-- The task of `async_write_tls`. -/
def writeTlsTask (fuel : ℕ) (cfg : OpensslConfigure) (ctx : ClientContext) :
    TlsRun := do
  let writeTlsRet ← tlsPerform (.sslWrite cfg.opensslPtr
    (ctx.messageFrom 0 ctx.clientMessageLength.toNat) ctx.clientMessageLength)
  if writeTlsRet < 0 then
    let tlsErr ← tlsPerform (.sslGetError cfg.opensslPtr writeTlsRet)
    match ← sslWriteRetry fuel ctx cfg.opensslPtr cfg.opensslCtxPtr tlsErr
        (toSizeT ctx.clientMessageLength)
        (toSizeT (wrapInt (ctx.clientMessageLength - writeTlsRet))) with
    | .error e => return (cfg, e)
    | .ok ctx =>
      let retryWriteRet := ctx.moveConstruct
      if retryWriteRet.isRetrySuccess then
        submitTls cfg (.write {} retryWriteRet.moveConstruct
          retryWriteRet.clientRetryWriteBytes)
      else
        submitTls cfg
          (.write (makeErrorCode eio) retryWriteRet.moveConstruct 0)
  else if writeTlsRet > 0 then
    submitTls cfg (.write {} ctx.moveConstruct (toSizeT writeTlsRet))
  else
    tlsPerform (.sslShutdown cfg.opensslPtr)
    tlsPerform (.sslCtxFree cfg.opensslCtxPtr)
    tlsPerform (.sslFree cfg.opensslPtr)
    tlsPerform (.close ctx.socketfd)
    submitTls cfg (.write (makeErrorCode econnreset) ctx.moveConstruct 0)

/-- `async_write_tls`. Without a TLS object nothing is posted. -/
def asyncWriteTls (cfg : OpensslConfigure) (ctx : ClientContext)
    (message : Bytes) : Option Posted :=
  if ctx.socketfd < 0 then
    some (.callback (.write (makeErrorCode ebadf) ctx.moveConstruct 0))
  else if cfg.opensslPtr ≠ none then
    let ctx := { ctx with clientMessage := message }
    let ctx := { ctx with clientMessageLength := wrapInt ctx.messageStrlen }
    some (.task (.write ctx.moveConstruct))
  else
    none

/-! ## What is posted, and the destruction -/

def TlsTask.run (fuel : ℕ) (cfg : OpensslConfigure) : TlsTask → TlsRun
  | .create options ctx => createTlsTask cfg options ctx
  | .connect ctx => connectTlsTask fuel cfg ctx
  | .write ctx => writeTlsTask fuel cfg ctx

/-- What the pool does with what is posted. -/
def Posted.run (fuel : ℕ) (cfg : OpensslConfigure) : Posted → TlsRun
  | .callback s => submitTls cfg s
  | .task t => t.run fuel cfg

/-- `~client_ssl_configure`. -/
def destroyClientSslConfigure (cfg : OpensslConfigure) : TlsNet Unit :=
  if cfg.opensslCtxPtr ≠ none ∧ cfg.opensslPtr ≠ none then do
    tlsPerform (.freeSsl cfg.opensslPtr)
    tlsPerform (.sslCtxFree cfg.opensslCtxPtr)
  else
    return ()

/-- `~socketSSL`, whose member is destroyed after its body. -/
def destroySocketSsl (cfg : OpensslConfigure) : TlsNet Unit := do
  if cfg.opensslCtxPtr ≠ none ∧ cfg.opensslCtxPtr ≠ none then
    tlsPerform (.freeSslCtx cfg.opensslCtxPtr)
    tlsPerform (.sslCtxFree cfg.opensslCtxPtr)
    destroyClientSslConfigure cfg
  else
    destroyClientSslConfigure cfg

/-- A connection on which everything succeeds. -/
def willingPeer : Oracle TlsCall TlsCall.Reply := fun _ q =>
  match q with
  | .sslCtxNew _ => some 1
  | .sslCtxLoadVerifyFile _ _ => (1 : ℤ)
  | .sslCtxSetDefaultVerifyPaths _ => (1 : ℤ)
  | .sslNew _ => some 2
  | .sslConnect _ => (1 : ℤ)
  | .sslGetError _ _ => (0 : ℤ)
  | .sslWrite _ data _ => (data.length : ℤ)
  | .select _ _ => (1 : ℤ)
  | .errno => (0 : ℤ)
  | .sslCtxSetVerify _ => ()
  | .sslCtxSetTlsextServernameCallback _ => ()
  | .sslCtxSetVerifyDepth _ _ => ()
  | .sslCtxFree _ => ()
  | .sslSetTlsextHostName _ _ => ()
  | .sslSetFd _ _ => ()
  | .sslShutdown _ => ()
  | .sslFree _ => ()
  | .freeSsl _ => ()
  | .freeSslCtx _ => ()
  | .close _ => ()
  | .submit _ => ()

end Mtasc
