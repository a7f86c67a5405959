import Mtasc.Tls.Verification
import Mtasc.Lib.Owners

/-!
# In which order an object is used

A TLS object is created, connected and written to. From a trace one reads how
far each object has come; a name stands for what was created last under it.

A program that drives a `socketSSL` by its callbacks calls an operation once
nothing is posted, a handshake from the callback of a creation, and a write from
that of a handshake or a write, each without an error. In such a run no object
is connected that is not new, and nothing is written to an object whose
handshake has not succeeded, or that has been shut down or released since:
whatever is retried, renewed or reported in between.
-/

namespace Mtasc

open Lib TlsTrace

/-! ## Stages -/

/-- An object that is gone has not been created, or it has been shut down or
released. -/
inductive SslStage where
  | gone
  | fresh
  | connected
deriving DecidableEq, Repr

/-- What a call does to the stages of the objects. -/
@[simp] def SslStage.step (w : ℕ → SslStage) :
    (q : TlsCall) → q.Reply → ℕ → SslStage
  | .sslNew _, some n => Function.update w n .fresh
  | .sslConnect (some n), ret =>
      if ret = 1 then Function.update w n .connected else w
  | .sslShutdown (some n), _ => Function.update w n .gone
  | .sslFree (some n), _ => Function.update w n .gone
  | .freeSsl (some n), _ => Function.update w n .gone
  | _, _ => w

namespace TlsTrace

/-- How far the objects have come at the end of a trace. -/
def stages (h : TlsTrace) : ℕ → SslStage :=
  h.foldl (fun w e => SslStage.step w e.1 e.2) fun _ => .gone

@[simp] theorem stages_snoc {h : TlsTrace} {q : TlsCall} {r : q.Reply} :
    stages (h ++ [⟨q, r⟩]) = SslStage.step (stages h) q r := by
  simp [stages]

end TlsTrace

/-- What a callback without an error says of the object. -/
def TlsCompletion.stage : TlsCompletion → SslStage
  | .create _ _ _ => .fresh
  | .connect _ _ => .connected
  | .write _ _ _ => .connected

/-- A handshake of an object that is not new, or a write to none that is
connected. -/
def Untimely (h : TlsTrace) : (q : TlsCall) → q.Reply → Prop
  | .sslConnect ssl, _ => ∃ n ∈ ssl, stages h n ≠ .fresh
  | .sslWrite ssl _ _, _ => ¬ ∃ n ∈ ssl, stages h n = .connected
  | _, _ => False

/-- Where OpenSSL fails, `errno` is set. -/
@[simp] def ErrnoSet (_ : TlsTrace) : (q : TlsCall) → q.Reply → Prop
  | .errno, errno => errno ≠ 0
  | _, _ => True

/-- So far no call was untimely, and the object `ssl` has come to `stage`. -/
structure Staged (stage : SslStage) (ssl : Option ℕ) (h : TlsTrace) :
    Prop where
  quiet : ¬ Ever Untimely h
  stage : ∀ n ∈ ssl, stages h n = stage

section

variable {stage : SslStage} {ssl : Option ℕ} {h : TlsTrace}
variable {cfg : OpensslConfigure} {ctx : ClientContext} {fuel : ℕ}

theorem quiet_snoc (hquiet : ¬ Ever Untimely h) {q : TlsCall} {r : q.Reply}
    (hq : ¬ Untimely h q r) : ¬ Ever Untimely (h ++ [⟨q, r⟩]) := by
  rw [ever_snoc]
  exact not_or.mpr ⟨hquiet, hq⟩

namespace Staged

/-- A call after which every object is as far as before. -/
theorem call (hs : Staged stage ssl h) {q : TlsCall} {r : q.Reply}
    (hq : ¬ Untimely h q r) (hstep : SslStage.step (stages h) q r = stages h) :
    Staged stage ssl (h ++ [⟨q, r⟩]) := by
  refine ⟨quiet_snoc hs.quiet hq, ?_⟩
  rw [stages_snoc, hstep]
  exact hs.stage

/-- A call that has nothing to do with the order. -/
theorem other (hs : Staged stage ssl h) {q : TlsCall} {r : q.Reply}
    (hq : Untimely h q r = False)
    (hstep : SslStage.step (stages h) q r = stages h) :
    Staged stage ssl (h ++ [⟨q, r⟩]) :=
  hs.call (hq ▸ not_false) hstep

theorem connect_timely (hs : Staged .fresh ssl h) (ret : ℤ) :
    ¬ Untimely h (.sslConnect ssl) ret := by
  rintro ⟨n, hn, hne⟩
  exact hne (hs.stage n hn)

theorem connectFailed (hs : Staged .fresh ssl h) {ret : ℤ} (hret : ret ≠ 1) :
    Staged .fresh ssl (h ++ [⟨.sslConnect ssl, ret⟩]) := by
  refine hs.call (hs.connect_timely ret) ?_
  cases ssl with
  | none => rfl
  | some n => exact if_neg hret

theorem connected (hs : Staged .fresh ssl h) :
    Staged .connected ssl (h ++ [⟨.sslConnect ssl, (1 : ℤ)⟩]) := by
  refine ⟨quiet_snoc hs.quiet (hs.connect_timely 1), ?_⟩
  rintro n rfl
  simp

end Staged

/-- A new object. -/
theorem staged_new (hquiet : ¬ Ever Untimely h) (sslCtx ssl : Option ℕ) :
    Staged .fresh ssl (h ++ [⟨.sslNew sslCtx, ssl⟩]) := by
  refine ⟨quiet_snoc hquiet not_false, ?_⟩
  rintro n rfl
  simp

/-! ## The tasks -/

/-- If the latest callback was without an error, the object has come to the
stage that it stands for. -/
def ReportedStage (ssl : Option ℕ) (h : TlsTrace) : Prop :=
  ∀ c ∈ (completions h).getLast?, c.ec.IsZero → Staged c.stage ssl h

/-- How a task ends. -/
def TaskStages (h : TlsTrace) :
    Status (OpensslConfigure × TaskEnd) → Prop
  | .done (cfg, .returned) =>
      ¬ Ever Untimely h ∧ ReportedStage cfg.opensslPtr h
  | _ => ¬ Ever Untimely h

theorem reported_submit (hquiet : ¬ Ever Untimely h) {c : TlsCompletion}
    (hstage : c.ec.IsZero → ∀ n ∈ ssl, stages h n = c.stage) :
    ReportedStage ssl (h ++ [⟨.submit c, ()⟩]) := by
  intro c' hc' hzero
  rw [completions_snoc, completedBy, List.getLast?_append_of_ne_nil _
    (List.cons_ne_nil c []), List.getLast?_singleton, Option.mem_some_iff] at hc'
  subst hc'
  refine ⟨quiet_snoc hquiet not_false, ?_⟩
  rw [stages_snoc]
  exact hstage hzero

theorem submitTls_stages (hquiet : ¬ Ever Untimely h) {c : TlsCompletion}
    (hstage : c.ec.IsZero → ∀ n ∈ cfg.opensslPtr, stages h n = c.stage) :
    (submitTls cfg c).Sat ErrnoSet TaskStages h :=
  ⟨hquiet, fun _ _ =>
    ⟨quiet_snoc hquiet not_false, reported_submit hquiet hstage⟩⟩

theorem submitTls_stages_error (hquiet : ¬ Ever Untimely h)
    {c : TlsCompletion} (hc : ¬ c.ec.IsZero) :
    (submitTls cfg c).Sat ErrnoSet TaskStages h :=
  submitTls_stages hquiet fun hzero => absurd hzero hc

/-- An error code from `errno` is one. -/
theorem submitErrno_stages (hquiet : ¬ Ever Untimely h)
    {s : ErrorCode → TlsCompletion} (hs : ∀ ec, (s ec).ec = ec) :
    (submitErrno cfg s).Sat ErrnoSet TaskStages h := by
  refine Prog.sat_perform_bind.mpr ⟨hquiet, fun errno herrno => ?_⟩
  refine submitTls_stages_error ?_ ?_
  · exact quiet_snoc hquiet not_false
  · rw [hs]
    exact herrno

/-! ### The creation -/

theorem createTlsTask_stages (hquiet : ¬ Ever Untimely h)
    (options : OpensslOptions) (ctx : ClientContext) :
    (createTlsTask cfg options ctx).Sat ErrnoSet TaskStages h := by
  refine Prog.sat_bind.mpr (sat_createTlsContext
    (fun _ h => ¬ Ever Untimely h) hquiet
    (fun _ _ => quiet_snoc hquiet not_false) (fun _ _ hquiet => hquiet)
    ?_ (fun _ _ hquiet => ?_) (fun sslCtx h hquiet => ?_))
  · intro sslCtx h q r hq hquiet
    refine quiet_snoc hquiet ?_
    cases hq <;> exact not_false
  · rw [createTlsChecked]
    refine submitErrno_stages (s := (.create · options ctx.moveConstruct)) ?_
      fun _ => rfl
    exact quiet_snoc hquiet not_false
  · rw [createTlsChecked]
    dsimp only
    split
    · exact submitErrno_stages hquiet fun _ => rfl
    · rename_i hsome
      rw [createTls, if_neg hsome]
      refine Prog.sat_bind.mpr (Prog.sat_perform_bind.mpr ⟨hquiet,
        fun ssl _ => ?_⟩)
      have hnew := staged_new hquiet sslCtx ssl
      have hhost := hnew.other (q := .sslSetTlsextHostName ssl ctx.addrsHost)
        (r := ()) rfl rfl
      have hfd := hhost.other (q := .sslSetFd ssl ctx.socketfd) (r := ())
        rfl rfl
      exact ⟨hnew.quiet, fun _ _ => ⟨hhost.quiet, fun _ _ =>
        submitTls_stages hfd.quiet fun _ => hfd.stage⟩⟩

/-! ### The handshake -/

/-- How the retry helper ends. -/
def RetryStages (h : TlsTrace) : Status HandshakeResult → Prop
  | .done (.ok (cfg, c)) => ¬ Ever Untimely h ∧
      (c.isRetrySuccess = true → Staged .connected cfg.opensslPtr h)
  | .done (.error e) => e = .threw ∧ ¬ Ever Untimely h
  | _ => ¬ Ever Untimely h

/-- The object of a retry is new; it is the old one as long as none is
created. -/
structure RetryingNew (cfg : OpensslConfigure) (err : ℤ)
    (s : ClientContext × Option ℕ) (h : TlsTrace) : Prop where
  staged : Staged .fresh s.2 h
  same : err = sslErrorWantRead ∨ err = sslErrorWantWrite →
    s.2 = cfg.opensslPtr

theorem createrNewRetryTls_stages {α : Type}
    {ψ : TlsTrace → Status α → Prop} {next : Option ℕ → TlsTrace → Prop}
    (hquiet : ¬ Ever Untimely h) (badTls ctxTls : Option ℕ) (fd : ℤ)
    (hostname : Option String)
    (hcalling : ∀ h, ¬ Ever Untimely h → ψ h .calling)
    (hnext : ∀ ssl h, Staged .fresh ssl h → next ssl h) :
    (createrNewRetryTls badTls ctxTls fd hostname).Sat ErrnoSet
      (Prog.andThen ψ next) h := by
  have hfree : ¬ Ever Untimely (h ++ [⟨.freeSsl badTls, ()⟩]) :=
    quiet_snoc hquiet not_false
  refine Prog.sat_perform_bind.mpr ⟨hcalling h hquiet, fun _ _ => ?_⟩
  refine Prog.sat_perform_bind.mpr ⟨hcalling _ hfree, fun ssl _ => ?_⟩
  have hnew := staged_new hfree ctxTls ssl
  split
  · rename_i hnone
    exact hnext none _ (hnone ▸ hnew)
  · have hhost := hnew.other (q := .sslSetTlsextHostName ssl hostname)
      (r := ()) rfl rfl
    exact ⟨hcalling _ hnew.quiet, fun _ _ => ⟨hcalling _ hhost.quiet,
      fun _ _ => hnext _ _ (hhost.other rfl rfl)⟩⟩

/-- One round of the retry. -/
theorem handshakeRetryStep_stages {err : ℤ} {s : ClientContext × Option ℕ}
    (retryCtx : Option ℕ) (hs : RetryingNew cfg err s h) :
    (handshakeRetryStep cfg err retryCtx s).Sat ErrnoSet
      (Prog.andThen RetryStages (Prog.afterIter RetryStages
        (RetryingNew cfg err))) h := by
  obtain ⟨ctx, retryTls⟩ := s
  obtain ⟨hs, hsame⟩ := hs
  dsimp only at hs hsame
  have hgivenUp : ∀ {h : TlsTrace} {c : ClientContext}, ¬ Ever Untimely h →
      c.isRetrySuccess = false → RetryStages h (.done (.ok (cfg, c))) := by
    intro h c hquiet hc
    refine ⟨hquiet, fun hsuccess => ?_⟩
    rw [hc] at hsuccess
    cases hsuccess
  rw [handshakeRetryStep]
  split
  · dsimp only
    split
    · -- the object is tried again as it is
      rename_i hwant
      refine Prog.sat_perform_bind.mpr ⟨hs.quiet, fun retry _ => ?_⟩
      split
      · rename_i hretry
        have hfailed := hs.connectFailed hretry
        split
        · exact hgivenUp hfailed.quiet rfl
        · exact ⟨hfailed, hsame⟩
      · rename_i hretry
        obtain rfl : retry = 1 := not_not.mp hretry
        refine ⟨hs.connected.quiet, fun _ => ?_⟩
        rw [← hsame hwant]
        exact hs.connected
    · -- it is renewed first
      rename_i hwant
      refine Prog.sat_bind.mpr (createrNewRetryTls_stages hs.quiet retryTls _ _
        _ (fun _ hquiet => hquiet) fun ssl h hs => ?_)
      rw [handshakeRetrySwitch]
      split
      · refine Prog.sat_perform_bind.mpr ⟨hs.quiet, fun errno _ => ?_⟩
        have hs := hs.other (q := .errno) (r := errno) rfl rfl
        split
        · refine Prog.sat_perform_bind.mpr ⟨hs.quiet, fun retry _ => ?_⟩
          split
          · rename_i hretry
            have hfailed := hs.connectFailed hretry
            split
            · exact hgivenUp hfailed.quiet rfl
            · exact ⟨hfailed.quiet, fun _ _ =>
                ⟨hfailed.other rfl rfl, fun hw => absurd hw hwant⟩⟩
          · rename_i hretry
            obtain rfl : retry = 1 := not_not.mp hretry
            exact ⟨hs.connected.quiet, fun _ => hs.connected⟩
        · exact hgivenUp hs.quiet rfl
      · split
        · exact ⟨rfl, hs.quiet⟩
        · exact ⟨hs, fun hw => absurd hw hwant⟩
  · exact hgivenUp hs.quiet rfl

theorem connectTlsRetry_stages (hs : Staged .fresh cfg.opensslPtr h) (err : ℤ) :
    (connectTlsRetry fuel cfg ctx err).Sat ErrnoSet TaskStages h := by
  have hretry : (sslHandshakeRetry fuel cfg ctx err cfg.opensslPtr
      cfg.opensslCtxPtr).Sat ErrnoSet RetryStages h := by
    rw [sslHandshakeRetry]
    split
    · exact ⟨rfl, hs.quiet⟩
    · exact Prog.sat_iterate (fun _ => RetryingNew cfg err)
        (fun _ _ hs => hs.staged.quiet)
        (fun _ _ _ hs => handshakeRetryStep_stages _ hs) fuel _ h
        ⟨hs, fun _ => rfl⟩
  refine hretry.bind (fun _ hquiet => hquiet) (fun _ hquiet => hquiet) ?_
  intro result h hr
  cases result with
  | error e =>
      obtain ⟨rfl, hquiet⟩ := hr
      exact hquiet
  | ok r =>
      obtain ⟨cfg', ctx'⟩ := r
      obtain ⟨hquiet, hsuccess⟩ := hr
      dsimp only
      split
      · rename_i hc
        exact submitTls_stages hquiet fun _ => (hsuccess hc).stage
      · exact submitErrno_stages hquiet fun _ => rfl

theorem connectTlsTask_stages (hs : Staged .fresh cfg.opensslPtr h)
    (ctx : ClientContext) :
    (connectTlsTask fuel cfg ctx).Sat ErrnoSet TaskStages h := by
  refine Prog.sat_perform_bind.mpr ⟨hs.quiet, fun ret _ => ?_⟩
  split
  · rename_i hret
    obtain rfl : ret = 1 := hret
    exact submitTls_stages hs.connected.quiet fun _ => hs.connected.stage
  · rename_i hret
    have hs := hs.connectFailed hret
    split
    · refine Prog.sat_perform_bind.mpr ⟨hs.quiet, fun err _ => ?_⟩
      have hs := hs.other (q := .sslGetError cfg.opensslPtr ret) (r := err)
        rfl rfl
      split
      · refine sat_fdSet_bind (fun _ => ?_) fun _ => hs.quiet
        refine Prog.sat_perform_bind.mpr ⟨hs.quiet, fun wait _ => ?_⟩
        have hs := hs.other (q := .select ctx.socketfd ctx.timeout) (r := wait)
          rfl rfl
        split
        · exact submitTls_stages_error hs.quiet
            (makeErrorCode_ne_zero (by decide))
        · exact connectTlsRetry_stages hs err
      · exact connectTlsRetry_stages hs err
    · exact submitTls_stages_error hs.quiet
        (makeErrorCode_ne_zero (by decide))

/-! ### The write -/

theorem writeTlsTask_stages (hs : Staged .connected cfg.opensslPtr h)
    (hsome : cfg.opensslPtr ≠ none) (ctx : ClientContext) :
    (writeTlsTask fuel cfg ctx).Sat ErrnoSet TaskStages h := by
  obtain ⟨n, hn⟩ := Option.ne_none_iff_exists'.mp hsome
  refine Prog.sat_perform_bind.mpr ⟨hs.quiet, fun ret _ => ?_⟩
  have hs := hs.call (q := .sslWrite cfg.opensslPtr
    (ctx.messageFrom 0 ctx.clientMessageLength.toNat) ctx.clientMessageLength)
    (r := ret) (not_not.mpr ⟨n, hn, hs.stage n hn⟩) rfl
  split
  · refine Prog.sat_perform_bind.mpr ⟨hs.quiet, fun err _ => ?_⟩
    have hs := hs.other (q := .sslGetError cfg.opensslPtr ret) (r := err)
      rfl rfl
    have hretry : (sslWriteRetry fuel ctx cfg.opensslPtr cfg.opensslCtxPtr err
        (toSizeT ctx.clientMessageLength)
        (toSizeT (wrapInt (ctx.clientMessageLength - ret)))).Sat ErrnoSet
        (fun h st => ¬ Ever Untimely h ∧
          (∀ c, st = .done (.ok c) → c.isRetrySuccess = false) ∧
          ∀ e, st = .done (.error e) → e = .threw) _ :=
      sat_sslWriteRetry (fun h => ¬ Ever Untimely h) hs.quiet
        (fun _ hquiet => ⟨hquiet, fun _ heq => (by cases heq),
          fun _ heq => (by cases heq)⟩)
        (fun _ _ hquiet => quiet_snoc hquiet not_false)
        (fun _ _ hquiet => quiet_snoc hquiet not_false)
        (fun c _ hquiet hc => ⟨hquiet, fun c' heq => by cases heq; exact hc,
          fun _ heq => (by cases heq)⟩)
        fun _ => ⟨hs.quiet, fun _ heq => (by cases heq),
          fun _ heq => by cases heq; rfl⟩
    refine hretry.bind (fun _ hq => hq.1) (fun _ hq => hq.1) ?_
      fun _ hq => hq.1
    intro result h hresult
    obtain ⟨hquiet, hfailed, hthrew⟩ := hresult
    cases result with
    | error e =>
        obtain rfl := hthrew e rfl
        exact hquiet
    | ok c =>
        dsimp only
        rw [if_neg (by
          rw [ClientContext.moveConstruct, hfailed c rfl]
          exact Bool.false_ne_true)]
        exact submitTls_stages_error hquiet
          (makeErrorCode_ne_zero (by decide))
  · split
    · exact submitTls_stages hs.quiet fun _ => hs.stage
    · -- the connection has been closed: the object is released
      have hshutdown : ¬ Ever Untimely
          (_ ++ [⟨.sslShutdown cfg.opensslPtr, ()⟩]) :=
        quiet_snoc hs.quiet not_false
      have hctx : ¬ Ever Untimely
          (_ ++ [⟨.sslCtxFree cfg.opensslCtxPtr, ()⟩]) :=
        quiet_snoc hshutdown not_false
      have hssl : ¬ Ever Untimely (_ ++ [⟨.sslFree cfg.opensslPtr, ()⟩]) :=
        quiet_snoc hctx not_false
      have hclose : ¬ Ever Untimely (_ ++ [⟨.close ctx.socketfd, ()⟩]) :=
        quiet_snoc hssl not_false
      exact ⟨hs.quiet, fun _ _ => ⟨hshutdown, fun _ _ => ⟨hctx, fun _ _ =>
        ⟨hssl, fun _ _ => submitTls_stages_error hclose
          (makeErrorCode_ne_zero (by decide))⟩⟩⟩⟩

/-- What has been posted may run: a handshake on a new object, a write on one
that is connected; a callback only reports an error. -/
def Posted.Timely (ssl : Option ℕ) (h : TlsTrace) : Posted → Prop
  | .callback c => ¬ c.ec.IsZero
  | .task (.create _ _) => True
  | .task (.connect _) => Staged .fresh ssl h
  | .task (.write _) => ssl ≠ none ∧ Staged .connected ssl h

theorem posted_stages (hquiet : ¬ Ever Untimely h) {p : Posted}
    (hp : p.Timely cfg.opensslPtr h) :
    (p.run fuel cfg).Sat ErrnoSet TaskStages h := by
  cases p with
  | callback c => exact submitTls_stages_error hquiet hp
  | task t =>
      cases t with
      | create options ctx => exact createTlsTask_stages hquiet options ctx
      | connect ctx => exact connectTlsTask_stages hp ctx
      | write ctx => exact writeTlsTask_stages hp.2 hp.1 ctx

theorem asyncCreateTls_timely (options : OpensslOptions) (ctx : ClientContext) :
    (asyncCreateTls cfg options ctx).2.Timely ssl h := by
  rw [asyncCreateTls]
  split
  · exact makeErrorCode_ne_zero (by decide)
  · trivial

theorem asyncCreateTls_opensslPtr (options : OpensslOptions)
    (ctx : ClientContext) :
    (asyncCreateTls cfg options ctx).1.opensslPtr = cfg.opensslPtr := by
  have hinit : cfg.initClientOpenssl.opensslPtr = cfg.opensslPtr := by
    rw [OpensslConfigure.initClientOpenssl]
    split <;> rfl
  rw [asyncCreateTls]
  split <;> exact hinit

theorem asyncTryConnectTls_timely (hs : Staged .fresh cfg.opensslPtr h)
    (ctx : ClientContext) :
    (asyncTryConnectTls cfg ctx).Timely cfg.opensslPtr h := by
  rw [asyncTryConnectTls]
  split
  · exact makeErrorCode_ne_zero (by decide)
  · exact hs

theorem asyncWriteTls_timely (hs : Staged .connected cfg.opensslPtr h)
    (ctx : ClientContext) (message : Bytes) :
    ∀ p ∈ asyncWriteTls cfg ctx message, p.Timely cfg.opensslPtr h := by
  intro p hp
  rw [asyncWriteTls] at hp
  split at hp
  · cases hp
    exact makeErrorCode_ne_zero (by decide)
  · split at hp
    · next hsome =>
      cases hp
      exact ⟨hsome, hs⟩
    · cases hp

end

/-! ## The runs -/

namespace TlsObject

/-- The latest callback is without an error and stands for this stage. -/
def Succeeded (s : TlsObject) (stage : SslStage) : Prop :=
  ∃ c ∈ (completions s.trace).getLast?, c.ec.IsZero ∧ c.stage = stage

/-- An operation is called while something is posted, or not from the callback
it has to wait for. -/
def TooEarly (s : TlsObject) : SslStep → Prop
  | .object (.create _ _) => s.posted ≠ []
  | .object (.connect _) => s.posted ≠ [] ∨ ¬ s.Succeeded .fresh
  | .object (.write _ _) => s.posted ≠ [] ∨ ¬ s.Succeeded .connected
  | _ => False

/-- The invariant of a run. -/
structure Ordered (s : TlsObject) : Prop where
  quiet : ¬ Ever Untimely s.trace
  posted : s.phase = .alive → s.posted.length ≤ 1
  timely : s.phase = .alive →
    ∀ p ∈ s.posted, p.Timely s.cfg.opensslPtr s.trace
  reported : s.phase = .alive → ReportedStage s.cfg.opensslPtr s.trace

variable {o : Oracle TlsCall TlsCall.Reply} {fuel : ℕ} {s : TlsObject}

theorem Ordered.staged (hs : s.Ordered) (halive : s.phase = .alive)
    {stage : SslStage} (hsuccess : s.Succeeded stage) :
    Staged stage s.cfg.opensslPtr s.trace := by
  obtain ⟨c, hc, hzero, rfl⟩ := hsuccess
  exact hs.reported halive c hc hzero

/-- An operation that is called in time posts what may run. -/
theorem Ordered.post (hs : s.Ordered) (hposted : s.posted = [])
    {cfg : OpensslConfigure} (hcfg : cfg.opensslPtr = s.cfg.opensslPtr)
    {ps : List Posted} (hlen : ps.length ≤ 1)
    (hps : ∀ p ∈ ps, p.Timely s.cfg.opensslPtr s.trace) :
    Ordered { s with cfg := cfg, posted := s.posted ++ ps } := by
  rw [hposted, List.nil_append]
  refine ⟨hs.quiet, fun _ => hlen, fun _ => ?_, fun halive => ?_⟩
  · show ∀ p ∈ ps, p.Timely cfg.opensslPtr s.trace
    rw [hcfg]
    exact hps
  · show ReportedStage cfg.opensslPtr s.trace
    rw [hcfg]
    exact hs.reported halive

theorem ran_ordered {r : Status (OpensslConfigure × TaskEnd) × TlsTrace}
    (hr : TaskStages r.2 r.1) : (s.ran [] r).Ordered := by
  obtain ⟨st, h⟩ := r
  have hlost : ¬ Ever Untimely h →
      Ordered { s with trace := h, phase := .terminated } := fun hquiet =>
    ⟨hquiet, fun hphase => (by cases hphase), fun hphase => (by cases hphase),
      fun hphase => (by cases hphase)⟩
  cases st with
  | calling => exact hlost hr
  | stuck => exact hlost hr
  | undefined => exact hlost hr
  | done result =>
      obtain ⟨cfg, e⟩ := result
      cases e with
      | returned =>
          obtain ⟨hquiet, hreported⟩ := hr
          exact ⟨hquiet, fun _ => Nat.zero_le 1,
            fun _ p hp => absurd hp List.not_mem_nil, fun _ => hreported⟩
      | threw => exact hlost hr
      | undefined => exact hlost hr

theorem destroySocketSsl_timely {cfg : OpensslConfigure} {h : TlsTrace}
    (hquiet : ¬ Ever Untimely h) :
    (destroySocketSsl cfg).Sat ErrnoSet (fun h _ => ¬ Ever Untimely h) h := by
  have hmember : ∀ h, ¬ Ever Untimely h →
      (destroyClientSslConfigure cfg).Sat ErrnoSet
        (fun h _ => ¬ Ever Untimely h) h := by
    intro h hquiet
    rw [destroyClientSslConfigure]
    split
    · have hfree : ¬ Ever Untimely (h ++ [⟨.freeSsl cfg.opensslPtr, ()⟩]) :=
        quiet_snoc hquiet not_false
      exact ⟨hquiet, fun _ _ =>
        ⟨hfree, fun _ _ => quiet_snoc hfree not_false⟩⟩
    · exact hquiet
  rw [destroySocketSsl]
  split
  · have hfree : ¬ Ever Untimely (h ++ [⟨.freeSslCtx cfg.opensslCtxPtr, ()⟩]) :=
      quiet_snoc hquiet not_false
    have hctx : ¬ Ever Untimely
        (_ ++ [⟨.sslCtxFree cfg.opensslCtxPtr, ()⟩]) :=
      quiet_snoc hfree not_false
    exact ⟨hquiet, fun _ _ => ⟨hfree, fun _ _ => hmember _ hctx⟩⟩
  · exact hmember h hquiet

theorem stepAlive_ordered (ho : o.Obeys ErrnoSet) (hs : s.Ordered)
    (halive : s.phase = .alive) {a : ObjectStep}
    (hearly : ¬ s.TooEarly (.object a)) :
    (s.stepAlive o fuel a).Ordered := by
  cases a with
  | create options ctx =>
      refine hs.post (not_not.mp hearly) ?_ (Nat.le_refl 1) ?_
      · exact asyncCreateTls_opensslPtr options ctx
      · rintro p hp
        rw [List.mem_singleton.mp hp]
        exact asyncCreateTls_timely options ctx
  | connect ctx =>
      obtain ⟨hposted, hsuccess⟩ := not_or.mp hearly
      refine hs.post (not_not.mp hposted) rfl (Nat.le_refl 1) ?_
      rintro p hp
      rw [List.mem_singleton.mp hp]
      exact asyncTryConnectTls_timely (hs.staged halive (not_not.mp hsuccess))
        ctx
  | write ctx message =>
      obtain ⟨hposted, hsuccess⟩ := not_or.mp hearly
      refine hs.post (not_not.mp hposted) rfl (Option.length_toList_le) ?_
      rintro p hp
      exact asyncWriteTls_timely (hs.staged halive (not_not.mp hsuccess)) ctx
        message p (Option.mem_toList.mp hp)
  | run i =>
      rw [stepAlive]
      cases hp : s.posted[i]? with
      | none => exact hs
      | some p =>
          have hmem := List.mem_of_getElem? hp
          -- it was the only one
          have hrest : s.posted.eraseIdx i = [] := by
            have hi := (List.getElem?_eq_some_iff.mp hp).1
            have hlen := hs.posted halive
            refine List.length_eq_zero_iff.mp ?_
            rw [List.length_eraseIdx_of_lt hi]
            omega
          dsimp only
          rw [hrest]
          exact ran_ordered
            ((posted_stages hs.quiet (hs.timely halive p hmem)).exec ho)
  | destroy =>
      rw [stepAlive]
      split
      · exact hs
      · exact ⟨(destroySocketSsl_timely hs.quiet).exec ho,
          fun hphase => (by cases hphase), fun hphase => (by cases hphase),
          fun hphase => (by cases hphase)⟩

/-- A setter has nothing to do with the order. -/
theorem Ordered.configure (hs : s.Ordered) {cfg : OpensslConfigure}
    (hcfg : cfg.opensslPtr = s.cfg.opensslPtr) :
    Ordered { s with cfg := cfg } := by
  refine ⟨hs.quiet, hs.posted, ?_, ?_⟩
  · show s.phase = .alive → ∀ p ∈ s.posted, p.Timely cfg.opensslPtr s.trace
    rw [hcfg]
    exact hs.timely
  · show s.phase = .alive → ReportedStage cfg.opensslPtr s.trace
    rw [hcfg]
    exact hs.reported

theorem configure_ordered (ho : o.Obeys ErrnoSet) (hs : s.Ordered)
    {a : SslStep} (hearly : ¬ s.TooEarly a) :
    (s.configure o fuel a).Ordered := by
  cases a with
  | object a =>
      rw [TlsObject.configure, step]
      split
      · next halive => exact stepAlive_ordered ho hs halive hearly
      · exact hs
  | loadCustomCACert certPath =>
      rw [TlsObject.configure]
      split
      · refine hs.configure ?_
        rw [OpensslConfigure.loadCustomCACert]
        split <;> rfl
      · exact hs
  | setTlsVerifyDepth number =>
      rw [TlsObject.configure]
      split
      · exact hs.configure rfl
      · exact hs

theorem runConfigured_ordered (ho : o.Obeys ErrnoSet) {as : List SslStep}
    (hearly : Never (configure o fuel) TooEarly {} as) :
    (runConfigured o fuel {} as).Ordered := by
  have hinit : Ordered {} := by
    exact ⟨not_ever_nil, fun _ => Nat.zero_le 1,
      fun _ p hp => absurd hp List.not_mem_nil,
      fun _ c hc => (by cases hc)⟩
  exact foldl_of_never (I := Ordered)
    (fun _ _ hs ha => configure_ordered ho hs ha) hinit hearly

/-- **In which order an object is used.** If no operation is called too early,
`SSL_connect` is called on objects that are new, and `SSL_write` on objects
whose handshake has succeeded. -/
theorem calls_timely (o : Oracle TlsCall TlsCall.Reply)
    (ho : o.Obeys ErrnoSet) (fuel : ℕ) (as : List SslStep)
    (hearly : Never (configure o fuel) TooEarly {} as) {h : TlsTrace}
    {q : TlsCall} {r : q.Reply}
    (hle : h ++ [⟨q, r⟩] <+: (runConfigured o fuel {} as).trace) :
    (∀ n, q = .sslConnect (some n) → stages h n = .fresh) ∧
      ∀ ssl data num, q = .sslWrite ssl data num →
        ∃ n, ssl = some n ∧ stages h n = .connected := by
  have hquiet := (runConfigured_ordered ho hearly).quiet
  constructor
  · rintro n rfl
    by_contra hne
    exact hquiet ⟨h, _, r, hle, n, rfl, hne⟩
  · rintro ssl data num rfl
    by_contra hnone
    exact hquiet ⟨h, _, r, hle, hnone⟩

/-- The first object is reset in its handshake, and `errno` says so; the next
one is connected. -/
def resetOnce : Oracle TlsCall TlsCall.Reply := fun h q =>
  match q with
  | .sslNew _ => if h.any (·.1 matches .sslNew _) then some 3 else some 2
  | .sslConnect ssl => if ssl = some 2 then (-1 : ℤ) else (1 : ℤ)
  | .sslGetError _ _ => sslErrorSyscall
  | .errno => econnreset
  | q => willingPeer h q

/-- An object is renewed in its handshake; the write goes to the new one. -/
theorem calls_timely_renewed :
    let as : List SslStep := [.object (.create {} connected), .object (.run 0),
      .object (.connect { connected with maxRetyCount := 2 }), .object (.run 0),
      .object (.write connected [104, 105]), .object (.run 0)]
    ∃ n, some 3 = some n ∧
      stages ((runConfigured resetOnce 9 {} as).trace.take 18) n =
        .connected := by
  intro as
  have ho : resetOnce.Obeys ErrnoSet := by
    intro h q
    cases q with
    | errno => exact (by decide : econnreset ≠ 0)
    | _ => trivial
  have hearly : Never (configure resetOnce 9) TooEarly {} as := by
    refine ⟨not_not.mpr rfl, id, ?_, id, ?_, id, trivial⟩
    · rintro (hposted | hnot)
      · exact hposted rfl
      · exact hnot ⟨_, rfl, rfl, rfl⟩
    · rintro (hposted | hnot)
      · exact hposted rfl
      · exact hnot ⟨_, rfl, rfl, rfl⟩
  have hwritten : (runConfigured resetOnce 9 {} as).trace.take 18 ++
      [⟨.sslWrite (some 3) [104, 105] 2, (2 : ℤ)⟩] =
        (runConfigured resetOnce 9 {} as).trace.take 19 := by
    have hlength : wrapInt 2 = 2 := wrapInt_of_lt (by decide) (by decide)
    have hposted : runConfigured resetOnce 9 {} (as.take 5) =
        { runConfigured resetOnce 9 {} (as.take 4) with
          posted := [.task (.write { connected with
            clientMessage := [104, 105], clientMessageLength := 2 })] } := by
      rw [← hlength]
      rfl
    show ((runConfigured resetOnce 9 {} (as.take 5)).configure resetOnce 9
      (.object (.run 0))).trace.take 18 ++ _ =
        ((runConfigured resetOnce 9 {} (as.take 5)).configure resetOnce 9
          (.object (.run 0))).trace.take 19
    rw [hposted]
    rfl
  exact (calls_timely resetOnce ho 9 as hearly
    (hwritten ▸ List.take_prefix 19 _)).2 _ [104, 105] 2 rfl

end TlsObject

end Mtasc
