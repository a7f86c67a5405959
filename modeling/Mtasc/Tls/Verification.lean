import Mtasc.Tls.Handles
import Mtasc.Lib.Events

/-!
# What a handshake trusts

Runs of a `socketSSL` with the setters of its configuration between the other
steps. From a trace one reads the settings of every context and, since an
object takes them over from its context, of every object. A name stands for
what was created last under it.

Whatever is retried, renewed or created anew in between: a handshake and a
write go to objects whose context verifies the peer, against certificates that
could be loaded and to a depth that was configured.
-/

namespace Mtasc

open Lib TlsTrace

/-! ## The setters -/

/-- `load_custom_CA_cert`. -/
def OpensslConfigure.loadCustomCACert (cfg : OpensslConfigure)
    (certPath : String) : OpensslConfigure :=
  if cfg.caCertPath.isEmpty then { cfg with caCertPath := certPath } else cfg

/-- `set_tls_verify_depth`. -/
def OpensslConfigure.setTlsVerifyDepth (cfg : OpensslConfigure) (number : ℤ) :
    OpensslConfigure :=
  { cfg with tlsVerifyDepth := number }

inductive SslStep where
  | object (a : ObjectStep)
  | loadCustomCACert (certPath : String)
  | setTlsVerifyDepth (number : ℤ)
deriving DecidableEq

namespace TlsObject

def configure (o : Oracle TlsCall TlsCall.Reply) (fuel : ℕ) (s : TlsObject) :
    SslStep → TlsObject
  | .object a => s.step o fuel a
  | .loadCustomCACert certPath =>
      if s.phase = .alive then { s with cfg := s.cfg.loadCustomCACert certPath }
      else s
  | .setTlsVerifyDepth number =>
      if s.phase = .alive then { s with cfg := s.cfg.setTlsVerifyDepth number }
      else s

def runConfigured (o : Oracle TlsCall TlsCall.Reply) (fuel : ℕ)
    (s : TlsObject) (as : List SslStep) : TlsObject :=
  as.foldl (configure o fuel) s

end TlsObject

/-! ## Settings -/

inductive TrustStore where
  | system
  | file (path : String)
deriving DecidableEq, Repr

/-- What a context has been set to; without a trust store as long as none could
be loaded. -/
structure Settings where
  peer : Bool := false
  store : Option TrustStore := none
  depth : Option ℤ := none
deriving DecidableEq, Repr

structure Openssl where
  ctx : ℕ → Settings := fun _ => {}
  ssl : ℕ → Settings := fun _ => {}

namespace Openssl

def set (w : Openssl) (n : ℕ) (f : Settings → Settings) : Openssl :=
  { w with ctx := Function.update w.ctx n (f (w.ctx n)) }

/-- `SSL_new` copies the settings of the context. -/
@[simp] def step (w : Openssl) : (q : TlsCall) → q.Reply → Openssl
  | .sslCtxNew _, some n => w.set n fun _ => {}
  | .sslCtxSetVerify (some n), _ => w.set n ({ · with peer := true })
  | .sslCtxLoadVerifyFile (some n) path, ret =>
      if ret = 1 then w.set n ({ · with store := some (.file path) }) else w
  | .sslCtxSetDefaultVerifyPaths (some n), ret =>
      if ret = 1 then w.set n ({ · with store := some .system }) else w
  | .sslCtxSetVerifyDepth (some n) depth, _ =>
      w.set n ({ · with depth := some depth })
  | .sslNew sslCtx, some n =>
      { w with ssl := Function.update w.ssl n (sslCtx.elim {} w.ctx) }
  | _, _ => w

@[simp] theorem ctx_set (w : Openssl) (n : ℕ) (f : Settings → Settings) :
    (w.set n f).ctx n = f (w.ctx n) := Function.update_self _ _ _

@[simp] theorem ssl_set (w : Openssl) (n : ℕ) (f : Settings → Settings) :
    (w.set n f).ssl = w.ssl := rfl

end Openssl

/-- What OpenSSL has at the end of a trace. -/
def TlsTrace.openssl (h : TlsTrace) : Openssl :=
  h.foldl (fun w e => w.step e.1 e.2) {}

@[simp] theorem TlsTrace.openssl_snoc {h : TlsTrace} {q : TlsCall}
    {r : q.Reply} : openssl (h ++ [⟨q, r⟩]) = (openssl h).step q r := by
  simp [openssl]

/-- The object whose peer a call talks to. -/
@[simp] def TlsCall.peer : TlsCall → Option ℕ
  | .sslConnect ssl => ssl
  | .sslWrite ssl _ _ => ssl
  | _ => none

/-- A call on an object whose settings are not among `T`. -/
def Distrusted (T : Settings → Prop) (h : TlsTrace) (q : TlsCall)
    (_ : q.Reply) : Prop :=
  ∃ n ∈ q.peer, ¬ T ((openssl h).ssl n)

/-- No object comes without a context. -/
@[simp] def NeedsContext (_ : TlsTrace) : (q : TlsCall) → q.Reply → Prop
  | .sslNew none, ssl => ssl = none
  | _, _ => True

/-- So far every call went to an object set as `T` says, and so are the context
`sslCtx` and the objects `ssls`. -/
structure Guarded (T : Settings → Prop) (sslCtx : Option ℕ)
    (ssls : List (Option ℕ)) (h : TlsTrace) : Prop where
  quiet : ¬ Ever (Distrusted T) h
  ctx : ∀ n ∈ sslCtx, T ((openssl h).ctx n)
  ssl : ∀ n, some n ∈ ssls → T ((openssl h).ssl n)

namespace Guarded

variable {T : Settings → Prop} {sslCtx : Option ℕ} {ssls : List (Option ℕ)}
variable {h : TlsTrace}

/-- A call that sets nothing. -/
theorem call (hg : Guarded T sslCtx ssls h) {q : TlsCall} {r : q.Reply}
    (hpeer : ∀ n ∈ q.peer, T ((openssl h).ssl n))
    (hstep : (openssl h).step q r = openssl h) :
    Guarded T sslCtx ssls (h ++ [⟨q, r⟩]) := by
  refine ⟨?_, ?_, ?_⟩
  · rw [ever_snoc]
    rintro (hever | ⟨n, hn, hnot⟩)
    · exact hg.quiet hever
    · exact hnot (hpeer n hn)
  · rw [openssl_snoc, hstep]
    exact hg.ctx
  · rw [openssl_snoc, hstep]
    exact hg.ssl

/-- Setting a context leaves the objects as they are. -/
theorem setting (hg : Guarded T sslCtx ssls h) {q : TlsCall} {r : q.Reply}
    (hpeer : q.peer = none)
    (hstep : ((openssl h).step q r).ssl = (openssl h).ssl) :
    Guarded T none ssls (h ++ [⟨q, r⟩]) := by
  refine ⟨?_, fun n hn => (by cases hn), ?_⟩
  · rw [ever_snoc]
    rintro (hever | ⟨n, hn, -⟩)
    · exact hg.quiet hever
    · rw [hpeer] at hn
      cases hn
  · rw [openssl_snoc, hstep]
    exact hg.ssl

/-- A new object is set as its context is. -/
theorem create (hg : Guarded T sslCtx ssls h) {ssl : Option ℕ}
    (hnew : NeedsContext h (.sslNew sslCtx) ssl) :
    Guarded T sslCtx (ssl :: ssls) (h ++ [⟨.sslNew sslCtx, ssl⟩]) := by
  refine ⟨?_, ?_, ?_⟩
  · rw [ever_snoc]
    rintro (hever | ⟨n, hn, -⟩)
    · exact hg.quiet hever
    · cases hn
  · cases ssl <;> simpa using hg.ctx
  · intro m hm
    cases ssl with
    | none => simpa using hg.ssl m (by simpa using hm)
    | some n =>
        cases sslCtx with
        | none => cases hnew
        | some c =>
            rw [openssl_snoc, Openssl.step]
            by_cases hmn : m = n
            · subst hmn
              simpa using hg.ctx c rfl
            · change T (Function.update (openssl h).ssl n ((openssl h).ctx c) m)
              rw [Function.update_of_ne hmn]
              refine hg.ssl m ((List.mem_cons.mp hm).resolve_left ?_)
              intro heq
              exact hmn (Option.some.inj heq)

theorem forget (hg : Guarded T sslCtx ssls h) {ssls' : List (Option ℕ)}
    (hsub : ∀ n, some n ∈ ssls' → some n ∈ ssls) : Guarded T sslCtx ssls' h :=
  ⟨hg.quiet, hg.ctx, fun n hn => hg.ssl n (hsub n hn)⟩

/-- `SSL_connect` and `SSL_write` on an object that is guarded. -/
theorem talk (hg : Guarded T sslCtx ssls h) {q : TlsCall} {r : q.Reply}
    (hpeer : q.peer ∈ ssls) (hstep : (openssl h).step q r = openssl h) :
    Guarded T sslCtx ssls (h ++ [⟨q, r⟩]) :=
  hg.call (fun n hn => hg.ssl n (by rw [← Option.mem_def.mp hn]; exact hpeer))
    hstep

/-- A call that neither sets anything nor talks to a peer. -/
theorem other (hg : Guarded T sslCtx ssls h) {q : TlsCall} {r : q.Reply}
    (hpeer : q.peer = none) (hstep : (openssl h).step q r = openssl h) :
    Guarded T sslCtx ssls (h ++ [⟨q, r⟩]) :=
  hg.call (fun n hn => (by rw [hpeer] at hn; cases hn)) hstep

end Guarded

section

variable {T : Settings → Prop} {cfg : OpensslConfigure} {ctx : ClientContext}
variable {ssls : List (Option ℕ)} {sslCtx : Option ℕ} {h : TlsTrace}
variable {fuel : ℕ}

/-! ## The tasks -/

/-- What `M_create_tls_context` sets a context to is among `T`. -/
def OpensslConfigure.Sets (cfg : OpensslConfigure) (T : Settings → Prop) :
    Prop :=
  ∀ store ∈ [TrustStore.system, .file cfg.caCertPath],
    T { peer := true, store := some store, depth := some cfg.tlsVerifyDepth }

/-- At the end of a task the handles that are left are guarded, and the
settings for the next context are the old ones. -/
def TaskGuards (T : Settings → Prop) (cfg : OpensslConfigure) (h : TlsTrace) :
    Status (OpensslConfigure × TaskEnd) → Prop
  | .done (cfg', .returned) =>
      Guarded T cfg'.opensslCtxPtr [cfg'.opensslPtr] h ∧
        cfg'.caCertPath = cfg.caCertPath ∧
        cfg'.tlsVerifyDepth = cfg.tlsVerifyDepth
  | _ => ¬ Ever (Distrusted T) h

theorem submitTls_guards {ssl : Option ℕ} (hg : Guarded T sslCtx [ssl] h)
    {s : TlsCompletion} :
    (submitTls { cfg with opensslPtr := ssl, opensslCtxPtr := sslCtx } s).Sat
      NeedsContext (TaskGuards T cfg) h :=
  ⟨hg.quiet, fun _ _ => ⟨hg.other rfl rfl, rfl, rfl⟩⟩

theorem submitErrno_guards {ssl : Option ℕ} (hg : Guarded T sslCtx [ssl] h)
    {s : ErrorCode → TlsCompletion} :
    (submitErrno { cfg with opensslPtr := ssl, opensslCtxPtr := sslCtx } s).Sat
      NeedsContext (TaskGuards T cfg) h :=
  Prog.sat_perform_bind.mpr ⟨hg.quiet, fun _ _ =>
    submitTls_guards (hg.other rfl rfl)⟩

/-! ### The creation -/

/-- A context that is being set: its settings so far. -/
structure Setting (T : Settings → Prop) (ssls : List (Option ℕ))
    (sslCtx : Option ℕ) (settings : Settings) (h : TlsTrace) : Prop where
  guarded : Guarded T none ssls h
  settings : ∀ n ∈ sslCtx, (openssl h).ctx n = settings

/-- A call that sets the context and nothing else. -/
theorem Setting.set {settings : Settings}
    (hs : Setting T ssls sslCtx settings h) {q : TlsCall} {r : q.Reply}
    (f : Settings → Settings) (hpeer : q.peer = none)
    (hstep : (openssl h).step q r = sslCtx.elim (openssl h)
      fun n => (openssl h).set n f) :
    Setting T ssls sslCtx (f settings) (h ++ [⟨q, r⟩]) := by
  refine ⟨hs.guarded.setting hpeer ?_, ?_⟩
  · rw [hstep]
    cases sslCtx <;> rfl
  · intro n hn
    rw [openssl_snoc, hstep, Option.mem_def.mp hn]
    simp [hs.settings n hn]

/-- A context with a trust store, from the check of the load on. -/
theorem Setting.loaded {store : TrustStore}
    (hs : Setting T ssls sslCtx { peer := true, store := some store } h)
    (hT : T { peer := true, store := some store
              depth := some cfg.tlsVerifyDepth }) :
    Guarded T sslCtx ssls (h ++
      [⟨.sslCtxSetTlsextServernameCallback sslCtx, ()⟩] ++
      [⟨.sslCtxSetVerifyDepth sslCtx cfg.tlsVerifyDepth, ()⟩]) := by
  have hcallback : Setting T ssls sslCtx { peer := true, store := some store }
      (h ++ [⟨.sslCtxSetTlsextServernameCallback sslCtx, ()⟩]) :=
    ⟨hs.guarded.other rfl rfl, by simpa using hs.settings⟩
  have hdepth := hcallback.set
    (q := .sslCtxSetVerifyDepth sslCtx cfg.tlsVerifyDepth) (r := ())
    ({ · with depth := some cfg.tlsVerifyDepth }) rfl (by cases sslCtx <;> rfl)
  refine ⟨hdepth.guarded.quiet, fun n hn => ?_, hdepth.guarded.ssl⟩
  rw [hdepth.settings n hn]
  exact hT

/-- **`M_create_tls_context`.** A context that it returns is set in full. -/
theorem createTlsContext_guards {α : Type}
    {ψ : TlsTrace → Status α → Prop} {next : Option ℕ → TlsTrace → Prop}
    (hg : Guarded T none ssls h) (hsets : cfg.Sets T)
    (options : OpensslOptions)
    (hcalling : ∀ h, ¬ Ever (Distrusted T) h → ψ h .calling)
    (hnext : ∀ sslCtx h, Guarded T sslCtx ssls h → next sslCtx h) :
    (createTlsContext cfg options).Sat NeedsContext (Prog.andThen ψ next) h := by
  rw [createTlsContext]
  generalize (if options.enableTlsV1 then TlsMethod.tlsv12ClientMethod
    else .tlsClientMethod) = method
  refine Prog.sat_perform_bind.mpr ⟨hcalling h hg.quiet, fun sslCtx _ => ?_⟩
  have hnew : Setting T ssls sslCtx {} (h ++ [⟨.sslCtxNew method, sslCtx⟩]) := by
    refine ⟨hg.setting rfl (by cases sslCtx <;> rfl), fun n hn => ?_⟩
    rw [openssl_snoc, Option.mem_def.mp hn]
    simp
  refine Prog.sat_perform_bind.mpr ⟨hcalling _ hnew.guarded.quiet,
    fun _ _ => ?_⟩
  have hverify := hnew.set (q := .sslCtxSetVerify sslCtx) (r := ())
    ({ · with peer := true }) rfl (by cases sslCtx <;> rfl)
  -- from the check of the load on, the context has a store if the load said so
  have hrest : ∀ (verify : ℤ) (store : TrustStore) h,
      store ∈ [TrustStore.system, .file cfg.caCertPath] →
      Guarded T none ssls h →
      (verify = 1 →
        Setting T ssls sslCtx { peer := true, store := some store } h) →
      (if verify ≠ 1 then do
        tlsPerform (.sslCtxFree sslCtx)
        return none
      else do
        tlsPerform (.sslCtxSetTlsextServernameCallback sslCtx)
        tlsPerform (.sslCtxSetVerifyDepth sslCtx cfg.tlsVerifyDepth)
        return sslCtx : TlsNet (Option ℕ)).Sat NeedsContext
        (Prog.andThen ψ next) h := by
    intro verify store h hstore hg hs
    split
    · exact ⟨hcalling _ hg.quiet, fun _ _ => hnext _ _ (hg.other rfl rfl)⟩
    · next hverify =>
      have hset := hs (not_not.mp hverify)
      exact ⟨hcalling _ hg.quiet, fun _ _ =>
        ⟨hcalling _ (hg.other rfl rfl).quiet, fun _ _ =>
          hnext _ _ (hset.loaded (hsets store hstore))⟩⟩
  split
  · refine Prog.sat_perform_bind.mpr ⟨hcalling _ hverify.guarded.quiet,
      fun verify _ => hrest verify (.file cfg.caCertPath) _ (by simp) ?_ ?_⟩
    · refine hverify.guarded.setting rfl ?_
      cases sslCtx with
      | none => rfl
      | some n => rw [Openssl.step]; split <;> rfl
    · rintro rfl
      exact hverify.set (fun s => { s with store := some (.file cfg.caCertPath) })
        rfl (by cases sslCtx <;> rfl)
  · refine Prog.sat_perform_bind.mpr ⟨hcalling _ hverify.guarded.quiet,
      fun verify _ => hrest verify .system _ (by simp) ?_ ?_⟩
    · refine hverify.guarded.setting rfl ?_
      cases sslCtx with
      | none => rfl
      | some n => rw [Openssl.step]; split <;> rfl
    · rintro rfl
      exact hverify.set (fun s => { s with store := some .system })
        rfl (by cases sslCtx <;> rfl)

theorem createTlsTask_guards
    (hg : Guarded T cfg.opensslCtxPtr [cfg.opensslPtr] h) (hsets : cfg.Sets T)
    (options : OpensslOptions) (ctx : ClientContext) :
    (createTlsTask cfg options ctx).Sat NeedsContext (TaskGuards T cfg) h := by
  have hnone : Guarded T none [cfg.opensslPtr] h :=
    ⟨hg.quiet, fun _ hn => (by cases hn), hg.ssl⟩
  refine Prog.sat_bind.mpr (createTlsContext_guards hnone hsets options
    (fun _ hquiet => hquiet) fun sslCtx h hg => ?_)
  rw [createTlsChecked]
  dsimp only
  split
  · exact submitErrno_guards hg
  · rename_i hsome
    rw [createTls, if_neg hsome]
    refine Prog.sat_bind.mpr (Prog.sat_perform_bind.mpr ⟨hg.quiet,
      fun ssl hnew => ?_⟩)
    have hssl := hg.create hnew
    have hhost := hssl.other (q := .sslSetTlsextHostName ssl ctx.addrsHost)
      (r := ()) rfl rfl
    have hfd := hhost.other (q := .sslSetFd ssl ctx.socketfd) (r := ()) rfl rfl
    refine ⟨hssl.quiet, fun _ _ => ⟨hhost.quiet, fun _ _ => ?_⟩⟩
    refine submitTls_guards (hfd.forget fun n hn => ?_)
    exact List.mem_cons.mpr (Or.inl (List.mem_singleton.mp hn))

/-! ### The handshake -/

/-- The retry renews the object and leaves the context and what the next one is
set to. -/
def RetryGuards (T : Settings → Prop) (cfg : OpensslConfigure) (h : TlsTrace) :
    Status HandshakeResult → Prop
  | .done (.ok (cfg', _)) =>
      Guarded T cfg.opensslCtxPtr [cfg'.opensslPtr] h ∧
        cfg' = { cfg with opensslPtr := cfg'.opensslPtr }
  | .done (.error e) => e = .threw ∧ ¬ Ever (Distrusted T) h
  | _ => ¬ Ever (Distrusted T) h

/-- `M_creater_new_retry_tls`. -/
theorem createrNewRetryTls_guards {α : Type}
    {ψ : TlsTrace → Status α → Prop} {next : Option ℕ → TlsTrace → Prop}
    (hg : Guarded T sslCtx ssls h) (badTls : Option ℕ) (fd : ℤ)
    (hostname : Option String)
    (hcalling : ∀ h, ¬ Ever (Distrusted T) h → ψ h .calling)
    (hnext : ∀ ssl h, Guarded T sslCtx (ssl :: ssls) h → next ssl h) :
    (createrNewRetryTls badTls sslCtx fd hostname).Sat NeedsContext
      (Prog.andThen ψ next) h := by
  have hfree := hg.other (q := .freeSsl badTls) (r := ()) rfl rfl
  refine Prog.sat_perform_bind.mpr ⟨hcalling h hg.quiet, fun _ _ => ?_⟩
  refine Prog.sat_perform_bind.mpr ⟨hcalling _ hfree.quiet, fun ssl hnew => ?_⟩
  have hssl := hfree.create hnew
  split
  · rename_i hnone
    exact hnext none _ (hnone ▸ hssl)
  · have hhost := hssl.other (q := .sslSetTlsextHostName ssl hostname)
      (r := ()) rfl rfl
    exact ⟨hcalling _ hssl.quiet, fun _ _ => ⟨hcalling _ hhost.quiet,
      fun _ _ => hnext _ _ (hhost.other rfl rfl)⟩⟩

/-- One round of the retry. -/
theorem handshakeRetryStep_guards {err : ℤ} {s : ClientContext × Option ℕ}
    (hg : Guarded T cfg.opensslCtxPtr [s.2, cfg.opensslPtr] h) :
    (handshakeRetryStep cfg err cfg.opensslCtxPtr s).Sat NeedsContext
      (Prog.andThen (RetryGuards T cfg) (Prog.afterIter (RetryGuards T cfg)
        fun s h => Guarded T cfg.opensslCtxPtr [s.2, cfg.opensslPtr] h)) h := by
  obtain ⟨ctx, retryTls⟩ := s
  have hleave : ∀ (ssl : Option ℕ) h,
      Guarded T cfg.opensslCtxPtr [ssl, cfg.opensslPtr] h →
      Guarded T cfg.opensslCtxPtr [cfg.opensslPtr] h :=
    fun ssl h hg => hg.forget fun n hn => List.mem_cons_of_mem _ hn
  rw [handshakeRetryStep]
  split
  · dsimp only
    split
    · -- the object is tried again as it is
      refine Prog.sat_perform_bind.mpr ⟨hg.quiet, fun retry _ => ?_⟩
      have hconnect := hg.talk (q := .sslConnect retryTls) (r := retry)
        (by simp) rfl
      split
      · split
        · exact ⟨hleave _ _ hconnect, rfl⟩
        · exact hconnect
      · exact ⟨hleave _ _ hconnect, rfl⟩
    · -- it is renewed first
      refine Prog.sat_bind.mpr (createrNewRetryTls_guards hg retryTls _ _
        (fun _ hquiet => hquiet) fun ssl h hg => ?_)
      replace hg : Guarded _ _ [ssl, cfg.opensslPtr] h := hg.forget fun n hn => by
        simp only [List.mem_cons] at hn ⊢
        tauto
      rw [handshakeRetrySwitch]
      split
      · refine Prog.sat_perform_bind.mpr ⟨hg.quiet, fun errno _ => ?_⟩
        have hg := hg.other (q := .errno) (r := errno) rfl rfl
        split
        · refine Prog.sat_perform_bind.mpr ⟨hg.quiet, fun retry _ => ?_⟩
          have hconnect := hg.talk (q := .sslConnect ssl) (r := retry)
            (by simp) rfl
          split
          · split
            · exact ⟨hleave _ _ hconnect, rfl⟩
            · exact ⟨hconnect.quiet, fun _ _ => hconnect.other rfl rfl⟩
          · -- the only end that takes the new object
            exact ⟨hconnect.forget fun n hn =>
              List.mem_cons.mpr (Or.inl (List.mem_singleton.mp hn)), rfl⟩
        · exact ⟨hleave _ _ hg, rfl⟩
      · split
        · exact ⟨rfl, hg.quiet⟩
        · exact hg
  · exact ⟨hleave _ _ hg, rfl⟩

theorem sslHandshakeRetry_guards
    (hg : Guarded T cfg.opensslCtxPtr [cfg.opensslPtr] h) (err : ℤ) :
    (sslHandshakeRetry fuel cfg ctx err cfg.opensslPtr cfg.opensslCtxPtr).Sat
      NeedsContext (RetryGuards T cfg) h := by
  rw [sslHandshakeRetry]
  split
  · exact ⟨rfl, hg.quiet⟩
  · refine Prog.sat_iterate (fun _ s h => Guarded T cfg.opensslCtxPtr
      [s.2, cfg.opensslPtr] h) (fun _ _ hg => hg.quiet)
      (fun _ _ _ hg => handshakeRetryStep_guards hg) fuel _ h ?_
    exact hg.forget (by simp)

theorem connectTlsRetry_guards
    (hg : Guarded T cfg.opensslCtxPtr [cfg.opensslPtr] h) (err : ℤ) :
    (connectTlsRetry fuel cfg ctx err).Sat NeedsContext (TaskGuards T cfg)
      h := by
  refine (sslHandshakeRetry_guards hg err).bind (fun _ hquiet => hquiet)
    (fun _ hquiet => hquiet) ?_
  intro result h hr
  cases result with
  | error e =>
      obtain ⟨rfl, hquiet⟩ := hr
      exact hquiet
  | ok r =>
      obtain ⟨cfg', ctx'⟩ := r
      obtain ⟨hg, heq⟩ := hr
      rw [heq]
      dsimp only
      split
      · exact submitTls_guards hg
      · exact submitErrno_guards hg

theorem connectTlsTask_guards
    (hg : Guarded T cfg.opensslCtxPtr [cfg.opensslPtr] h) (ctx : ClientContext) :
    (connectTlsTask fuel cfg ctx).Sat NeedsContext (TaskGuards T cfg) h := by
  refine Prog.sat_perform_bind.mpr ⟨hg.quiet, fun ret _ => ?_⟩
  have hg := hg.talk (q := .sslConnect cfg.opensslPtr) (r := ret) (by simp) rfl
  split
  · exact submitTls_guards hg
  · split
    · refine Prog.sat_perform_bind.mpr ⟨hg.quiet, fun err _ => ?_⟩
      have hg := hg.other (q := .sslGetError cfg.opensslPtr ret) (r := err)
        rfl rfl
      split
      · refine sat_fdSet_bind (fun _ => ?_) fun _ => hg.quiet
        refine Prog.sat_perform_bind.mpr ⟨hg.quiet, fun wait _ => ?_⟩
        have hg := hg.other (q := .select ctx.socketfd ctx.timeout) (r := wait)
          rfl rfl
        split
        · exact submitTls_guards hg
        · exact connectTlsRetry_guards hg err
      · exact connectTlsRetry_guards hg err
    · exact submitTls_guards hg

/-! ### The write -/

theorem writeTlsTask_guards
    (hg : Guarded T cfg.opensslCtxPtr [cfg.opensslPtr] h) (ctx : ClientContext) :
    (writeTlsTask fuel cfg ctx).Sat NeedsContext (TaskGuards T cfg) h := by
  refine Prog.sat_perform_bind.mpr ⟨hg.quiet, fun ret _ => ?_⟩
  have hg := hg.talk (q := .sslWrite cfg.opensslPtr
    (ctx.messageFrom 0 ctx.clientMessageLength.toNat) ctx.clientMessageLength)
    (r := ret) (by simp) rfl
  split
  · refine Prog.sat_perform_bind.mpr ⟨hg.quiet, fun err _ => ?_⟩
    have hg := hg.other (q := .sslGetError cfg.opensslPtr ret) (r := err)
      rfl rfl
    have hretry : (sslWriteRetry fuel ctx cfg.opensslPtr cfg.opensslCtxPtr err
        (toSizeT ctx.clientMessageLength)
        (toSizeT (wrapInt (ctx.clientMessageLength - ret)))).Sat NeedsContext
        (fun h _ => Guarded T cfg.opensslCtxPtr [cfg.opensslPtr] h) _ :=
      sat_sslWriteRetry (fun h => Guarded T cfg.opensslCtxPtr [cfg.opensslPtr] h)
        hg (fun _ hg => hg) (fun _ _ hg => hg.other rfl rfl)
        (fun _ _ hg => hg.other rfl rfl) (fun _ _ hg _ => hg) fun _ => hg
    refine hretry.bind (fun _ hg => hg.quiet) (fun _ hg => hg.quiet) ?_
      fun _ hg => hg.quiet
    intro result h hg
    cases result with
    | error e =>
        cases e with
        | returned => exact ⟨hg, rfl, rfl⟩
        | threw => exact hg.quiet
        | undefined => exact hg.quiet
    | ok ctx =>
        dsimp only
        split
        · exact submitTls_guards hg
        · exact submitTls_guards hg
  · split
    · exact submitTls_guards hg
    · have hshutdown := hg.other (q := .sslShutdown cfg.opensslPtr) (r := ())
        rfl rfl
      have hctx := hshutdown.other (q := .sslCtxFree cfg.opensslCtxPtr)
        (r := ()) rfl rfl
      have hssl := hctx.other (q := .sslFree cfg.opensslPtr) (r := ()) rfl rfl
      have hclose := hssl.other (q := .close ctx.socketfd) (r := ()) rfl rfl
      exact ⟨hg.quiet, fun _ _ => ⟨hshutdown.quiet, fun _ _ =>
        ⟨hctx.quiet, fun _ _ => ⟨hssl.quiet, fun _ _ =>
          submitTls_guards hclose⟩⟩⟩⟩

theorem posted_guards
    (hg : Guarded T cfg.opensslCtxPtr [cfg.opensslPtr] h) (hsets : cfg.Sets T)
    (p : Posted) :
    (p.run fuel cfg).Sat NeedsContext (TaskGuards T cfg) h := by
  cases p with
  | callback s => exact submitTls_guards hg
  | task t =>
      cases t with
      | create options ctx => exact createTlsTask_guards hg hsets options ctx
      | connect ctx => exact connectTlsTask_guards hg ctx
      | write ctx => exact writeTlsTask_guards hg ctx

end

/-! ## The runs -/

def SslStep.certPath : SslStep → Option String
  | .loadCustomCACert certPath => some certPath
  | _ => none

def SslStep.verifyDepth : SslStep → Option ℤ
  | .setTlsVerifyDepth number => some number
  | _ => none

/-- The first path given to `load_custom_CA_cert` that is not empty. -/
def customPath (as : List SslStep) : String :=
  ((as.filterMap SslStep.certPath).find? fun path => !path.isEmpty).getD ""

/-- The default and what `set_tls_verify_depth` has been given. -/
def verifyDepths (as : List SslStep) : List ℤ :=
  4 :: as.filterMap SslStep.verifyDepth

/-- The peer has to be verified, against certificates of the system or of a file
that was set, to a depth that was set. -/
structure Settings.Verifies (as : List SslStep) (settings : Settings) :
    Prop where
  peer : settings.peer = true
  store : ∃ store ∈ [TrustStore.system, .file "", .file (customPath as)],
    settings.store = some store
  depth : ∃ depth ∈ verifyDepths as, settings.depth = some depth

section

variable {o : Oracle TlsCall TlsCall.Reply} {fuel : ℕ}
variable {as : List SslStep} {s : TlsObject}

theorem customPath_snoc (a : SslStep) :
    customPath (as ++ [a]) = if (customPath as).isEmpty then
      a.certPath.getD "" else customPath as := by
  rw [customPath, customPath, List.filterMap_append, List.find?_append]
  cases hfind : (as.filterMap SslStep.certPath).find? fun path =>
      !path.isEmpty with
  | none =>
      cases hpath : a.certPath with
      | none => simp [hpath]
      | some path =>
          by_cases hempty : path = "" <;> simp [hpath, hempty]
  | some path =>
      have hne := List.find?_some hfind
      rw [Bool.not_eq_true'] at hne
      simp [hne]

theorem verifyDepths_snoc {depth : ℤ} (a : SslStep)
    (h : depth ∈ verifyDepths as) : depth ∈ verifyDepths (as ++ [a]) := by
  rw [verifyDepths, List.filterMap_append, ← List.cons_append]
  exact List.mem_append_left _ h

theorem Settings.Verifies.snoc {settings : Settings} (a : SslStep)
    (h : settings.Verifies as) : settings.Verifies (as ++ [a]) := by
  obtain ⟨store, hmem, hstore⟩ := h.store
  obtain ⟨depth, hdepth, heq⟩ := h.depth
  refine ⟨h.peer, ⟨store, ?_, hstore⟩, depth, verifyDepths_snoc a hdepth, heq⟩
  rw [customPath_snoc]
  split
  · next hempty =>
    rw [String.isEmpty_iff.mp hempty] at hmem
    simp only [List.mem_cons, List.not_mem_nil, or_false, or_self] at hmem
    rcases hmem with rfl | rfl <;> simp
  · exact hmem

theorem Guarded.mono {T T' : Settings → Prop} {sslCtx : Option ℕ}
    {ssls : List (Option ℕ)} {h : TlsTrace} (hg : Guarded T sslCtx ssls h)
    (hT : ∀ settings, T settings → T' settings) :
    Guarded T' sslCtx ssls h := by
  refine ⟨?_, fun n hn => hT _ (hg.ctx n hn), fun n hn => hT _ (hg.ssl n hn)⟩
  rintro ⟨p, q, r, hle, n, hn, hnot⟩
  exact hg.quiet ⟨p, q, r, hle, n, hn, fun h => hnot (hT _ h)⟩

/-- The invariant of a run. -/
structure TrustInv (as : List SslStep) (s : TlsObject) : Prop where
  guarded : s.phase = .alive → Guarded (Settings.Verifies as)
    s.cfg.opensslCtxPtr [s.cfg.opensslPtr] s.trace
  quiet : ¬ Ever (Distrusted (Settings.Verifies as)) s.trace
  path : s.phase = .alive → s.cfg.caCertPath = customPath as
  depth : s.phase = .alive → s.cfg.tlsVerifyDepth ∈ verifyDepths as

theorem TrustInv.sets (hinv : TrustInv as s) (halive : s.phase = .alive) :
    s.cfg.Sets (Settings.Verifies as) := by
  intro store hmem
  rw [hinv.path halive] at hmem
  refine ⟨rfl, ⟨store, ?_, rfl⟩, _, hinv.depth halive, rfl⟩
  simp only [List.mem_cons, List.not_mem_nil, or_false] at hmem ⊢
  exact hmem.imp_right Or.inr

/-- The object does what it did before, and what was set before is known
still. -/
theorem TrustInv.snoc (hinv : TrustInv as s) (a : ObjectStep) :
    TrustInv (as ++ [.object a]) s := by
  have hpath : customPath (as ++ [.object a]) = customPath as := by
    simp [customPath, SslStep.certPath]
  have hmono : ∀ settings : Settings, settings.Verifies as →
      settings.Verifies (as ++ [.object a]) := fun _ h => h.snoc _
  refine ⟨fun halive => (hinv.guarded halive).mono hmono, ?_, ?_, ?_⟩
  · rintro ⟨p, q, r, hle, n, hn, hnot⟩
    exact hinv.quiet ⟨p, q, r, hle, n, hn, fun h => hnot (hmono _ h)⟩
  · intro halive
    rw [hpath]
    exact hinv.path halive
  · exact fun halive => verifyDepths_snoc _ (hinv.depth halive)

theorem ran_trustInv (hinv : TrustInv as s) (halive : s.phase = .alive)
    (posted : List Posted)
    {r : Status (OpensslConfigure × TaskEnd) × TlsTrace}
    (hr : TaskGuards (Settings.Verifies as) s.cfg r.2 r.1) :
    TrustInv as (s.ran posted r) := by
  obtain ⟨st, h⟩ := r
  have hlost : ¬ Ever (Distrusted (Settings.Verifies as)) h →
      TrustInv as { s with trace := h, phase := .terminated } := fun hquiet =>
    ⟨fun hphase => (by cases hphase), hquiet, fun hphase => (by cases hphase),
      fun hphase => (by cases hphase)⟩
  cases st with
  | calling => exact hlost hr
  | stuck => exact hlost hr
  | undefined => exact hlost hr
  | done result =>
      obtain ⟨cfg, e⟩ := result
      cases e with
      | returned =>
          obtain ⟨hg, hpath, hdepth⟩ := hr
          refine ⟨fun _ => hg, hg.quiet, fun _ => ?_, fun _ => ?_⟩
          · exact hpath.trans (hinv.path halive)
          · change cfg.tlsVerifyDepth ∈ _
            rw [hdepth]
            exact hinv.depth halive
      | threw => exact hlost hr
      | undefined => exact hlost hr

/-- The destruction talks to nobody. -/
theorem destroySocketSsl_quiet {T : Settings → Prop} {cfg : OpensslConfigure}
    {h : TlsTrace} (hquiet : ¬ Ever (Distrusted T) h) :
    (destroySocketSsl cfg).Sat NeedsContext
      (fun h _ => ¬ Ever (Distrusted T) h) h := by
  have hcall : ∀ h (q : TlsCall) r, q.peer = none → ¬ Ever (Distrusted T) h →
      ¬ Ever (Distrusted T) (h ++ [⟨q, r⟩]) := by
    intro h q r hpeer hquiet
    rw [ever_snoc]
    rintro (hever | ⟨n, hn, -⟩)
    · exact hquiet hever
    · rw [hpeer] at hn
      cases hn
  have hmember : ∀ h, ¬ Ever (Distrusted T) h →
      (destroyClientSslConfigure cfg).Sat NeedsContext
        (fun h _ => ¬ Ever (Distrusted T) h) h := by
    intro h hquiet
    rw [destroyClientSslConfigure]
    split
    · have hfree := hcall h (.freeSsl cfg.opensslPtr) () rfl hquiet
      exact ⟨hquiet, fun _ _ => ⟨hfree, fun _ _ => hcall _ _ _ rfl hfree⟩⟩
    · exact hquiet
  rw [destroySocketSsl]
  split
  · have hfree := hcall h (.freeSslCtx cfg.opensslCtxPtr) () rfl hquiet
    have hctx := hcall _ (.sslCtxFree cfg.opensslCtxPtr) () rfl hfree
    exact ⟨hquiet, fun _ _ => ⟨hfree, fun _ _ => hmember _ hctx⟩⟩
  · exact hmember h hquiet

theorem stepAlive_trustInv (ho : o.Obeys NeedsContext) (hinv : TrustInv as s)
    (halive : s.phase = .alive) (a : ObjectStep) :
    TrustInv as (s.stepAlive o fuel a) := by
  have hg := hinv.guarded halive
  cases a with
  | create options ctx =>
      have hinit : s.cfg.initClientOpenssl =
          { s.cfg with opensslInit := s.cfg.initClientOpenssl.opensslInit } := by
        rw [OpensslConfigure.initClientOpenssl]
        split <;> rfl
      have hcfg : (asyncCreateTls s.cfg options ctx).1 =
          s.cfg.initClientOpenssl := by
        rw [asyncCreateTls]
        split <;> rfl
      rw [hinit] at hcfg
      refine ⟨fun _ => ?_, hinv.quiet, fun _ => ?_, fun _ => ?_⟩
      · change Guarded _ (asyncCreateTls s.cfg options ctx).1.opensslCtxPtr
          [(asyncCreateTls s.cfg options ctx).1.opensslPtr] s.trace
        rw [hcfg]
        exact hg
      · change (asyncCreateTls s.cfg options ctx).1.caCertPath = _
        rw [hcfg]
        exact hinv.path halive
      · change (asyncCreateTls s.cfg options ctx).1.tlsVerifyDepth ∈ _
        rw [hcfg]
        exact hinv.depth halive
  | connect ctx => exact ⟨hinv.guarded, hinv.quiet, hinv.path, hinv.depth⟩
  | write ctx message =>
      exact ⟨hinv.guarded, hinv.quiet, hinv.path, hinv.depth⟩
  | run i =>
      rw [TlsObject.stepAlive]
      cases hp : s.posted[i]? with
      | none => exact hinv
      | some p =>
          exact ran_trustInv hinv halive _
            ((posted_guards hg (hinv.sets halive) p).exec ho)
  | destroy =>
      rw [TlsObject.stepAlive]
      split
      · exact hinv
      · exact ⟨fun hphase => (by cases hphase),
          (destroySocketSsl_quiet hinv.quiet).exec ho,
          fun hphase => (by cases hphase), fun hphase => (by cases hphase)⟩

theorem configure_trustInv (ho : o.Obeys NeedsContext) (hinv : TrustInv as s)
    (a : SslStep) : TrustInv (as ++ [a]) (s.configure o fuel a) := by
  have hmono : ∀ settings : Settings, settings.Verifies as →
      settings.Verifies (as ++ [a]) := fun _ h => h.snoc a
  have hquiet : ¬ Ever (Distrusted (Settings.Verifies (as ++ [a]))) s.trace := by
    rintro ⟨p, q, r, hle, n, hn, hnot⟩
    exact hinv.quiet ⟨p, q, r, hle, n, hn, fun h => hnot (hmono _ h)⟩
  have hover : s.phase ≠ .alive → TrustInv (as ++ [a]) s := fun hphase =>
    ⟨fun halive => absurd halive hphase, hquiet,
      fun halive => absurd halive hphase, fun halive => absurd halive hphase⟩
  cases a with
  | object a =>
      rw [TlsObject.configure, TlsObject.step]
      split
      · next halive => exact stepAlive_trustInv ho (hinv.snoc a) halive a
      · exact hinv.snoc a
  | loadCustomCACert certPath =>
      rw [TlsObject.configure]
      split
      · next halive =>
        have hg := (hinv.guarded halive).mono hmono
        have hdepth := verifyDepths_snoc (.loadCustomCACert certPath)
          (hinv.depth halive)
        refine ⟨fun _ => ?_, hquiet, fun _ => ?_, fun _ => ?_⟩
        · rw [OpensslConfigure.loadCustomCACert]
          split <;> exact hg
        · rw [customPath_snoc, ← hinv.path halive,
            OpensslConfigure.loadCustomCACert]
          split <;> rfl
        · rw [OpensslConfigure.loadCustomCACert]
          split <;> exact hdepth
      · next hphase => exact hover hphase
  | setTlsVerifyDepth number =>
      rw [TlsObject.configure]
      split
      · next halive =>
        refine ⟨fun _ => (hinv.guarded halive).mono hmono, hquiet, fun _ => ?_,
          fun _ => ?_⟩
        · rw [customPath_snoc, ← hinv.path halive]
          split
          · next hempty => exact String.isEmpty_iff.mp hempty
          · rfl
        · simp [verifyDepths, SslStep.verifyDepth,
            OpensslConfigure.setTlsVerifyDepth]
      · next hphase => exact hover hphase

theorem runConfigured_trustInv (ho : o.Obeys NeedsContext)
    (as : List SslStep) :
    TrustInv as (TlsObject.runConfigured o fuel {} as) := by
  induction as using List.reverseRecOn with
  | nil =>
      refine ⟨fun _ => ⟨not_ever_nil, ?_, ?_⟩, not_ever_nil, fun _ => rfl,
        fun _ => List.mem_cons_self⟩
      · intro n hn
        cases hn
      · intro n hn
        cases List.mem_singleton.mp hn
  | append_singleton as a ih =>
      rw [TlsObject.runConfigured, List.foldl_append]
      exact configure_trustInv ho ih a

/-- **What a handshake trusts.** A call of `SSL_connect` or `SSL_write` goes to
an object that verifies its peer. -/
theorem TlsObject.handshake_verified (o : Oracle TlsCall TlsCall.Reply)
    (ho : o.Obeys NeedsContext) (fuel : ℕ) (as : List SslStep) {h : TlsTrace}
    {q : TlsCall} {r : q.Reply} {n : ℕ}
    (hle : h ++ [⟨q, r⟩] <+: (TlsObject.runConfigured o fuel {} as).trace)
    (hpeer : q.peer = some n) : ((openssl h).ssl n).Verifies as := by
  by_contra hnot
  exact (runConfigured_trustInv ho as).quiet ⟨h, q, r, hle, n, hpeer, hnot⟩

/-- A connection on which everything succeeds but an object without a
context. -/
def carefulPeer : Oracle TlsCall TlsCall.Reply := fun h q =>
  match q with
  | .sslNew none => none
  | q => willingPeer h q

theorem TlsObject.handshake_verified_custom :
    ((openssl ((TlsObject.runConfigured carefulPeer 9 {}
      [.loadCustomCACert "ca.pem",
        .object (.create { enableCustomCert := true } connected),
        .object (.run 0), .object (.connect connected),
        .object (.run 0)]).trace.take 9)).ssl 2).Verifies
      [.loadCustomCACert "ca.pem",
        .object (.create { enableCustomCert := true } connected),
        .object (.run 0), .object (.connect connected), .object (.run 0)] := by
  have ho : carefulPeer.Obeys NeedsContext := by
    intro h q
    cases q with
    | sslNew sslCtx => cases sslCtx <;> trivial
    | _ => trivial
  exact TlsObject.handshake_verified carefulPeer ho 9 _
    (q := .sslConnect (some 2)) (r := (1 : ℤ)) ⟨_, rfl⟩ rfl

end

end Mtasc
