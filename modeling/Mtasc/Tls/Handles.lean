import Mtasc.Tls.Socket
import Mtasc.Lib.Ledger

/-!
# The handles of a `socketSSL`

A run of one object: calls of its operations in any order, tasks of the pool in
any order, and the destruction once no task holds the object. The ledger of a
trace has the handles from `SSL_CTX_new` and `SSL_new`.

The object frees handles by `free`, overwrites pointers to live ones and keeps
pointers to released ones. Each of these is tied to one kind of step; a run
without such steps keeps to the protocol.
-/

namespace Mtasc

open Lib

inductive Handle where
  | sslCtx (n : ℕ)
  | ssl (n : ℕ)
deriving DecidableEq, Repr

/-- What a pointer names. -/
def ctxHandle (sslCtx : Option ℕ) : List Handle := sslCtx.toList.map .sslCtx

def sslHandle (ssl : Option ℕ) : List Handle := ssl.toList.map .ssl

namespace TlsTrace

/-- What a call does to handles. -/
@[simp] def usedBy : (q : TlsCall) → q.Reply → List (Use Handle)
  | .sslCtxNew _, sslCtx => (ctxHandle sslCtx).map .acquire
  | .sslCtxSetVerify sslCtx, _ => (ctxHandle sslCtx).map .use
  | .sslCtxLoadVerifyFile sslCtx _, _ => (ctxHandle sslCtx).map .use
  | .sslCtxSetDefaultVerifyPaths sslCtx, _ => (ctxHandle sslCtx).map .use
  | .sslCtxSetTlsextServernameCallback sslCtx, _ =>
      (ctxHandle sslCtx).map .use
  | .sslCtxSetVerifyDepth sslCtx _, _ => (ctxHandle sslCtx).map .use
  | .sslCtxFree sslCtx, _ => (ctxHandle sslCtx).map .release
  | .sslNew sslCtx, ssl =>
      (ctxHandle sslCtx).map .use ++ (sslHandle ssl).map .acquire
  | .sslSetTlsextHostName ssl _, _ => (sslHandle ssl).map .use
  | .sslSetFd ssl _, _ => (sslHandle ssl).map .use
  | .sslConnect ssl, _ => (sslHandle ssl).map .use
  | .sslGetError ssl _, _ => (sslHandle ssl).map .use
  | .sslWrite ssl _ _, _ => (sslHandle ssl).map .use
  | .sslShutdown ssl, _ => (sslHandle ssl).map .use
  | .sslFree ssl, _ => (sslHandle ssl).map .release
  | .freeSsl ssl, _ => (sslHandle ssl).map .misuse
  | .freeSslCtx sslCtx, _ => (ctxHandle sslCtx).map .misuse
  | .select _ _, _ => []
  | .errno, _ => []
  | .close _, _ => []
  | .submit _, _ => []

/-- The handles of a run. -/
def handles (h : TlsTrace) : Ledger Handle :=
  Ledger.run {} (h.flatMap fun e => usedBy e.1 e.2)

@[simp] theorem handles_snoc {h : TlsTrace} {q : TlsCall} {r : q.Reply} :
    handles (h ++ [⟨q, r⟩]) = (handles h).run (usedBy q r) := by
  simp [handles]

/-- What has gone wrong at some moment shows in every later trace. -/
theorem sound_of_prefix {h h' : TlsTrace} (hle : h <+: h')
    (hs : (handles h').sound = true) : (handles h).sound = true := by
  obtain ⟨t, rfl⟩ := hle
  by_contra hunsound
  have hlater := Ledger.run_unsound (Bool.not_eq_true _ ▸ hunsound)
    (t.flatMap fun e => usedBy e.1 e.2)
  rw [handles, List.flatMap_append, Ledger.run_append] at hs
  exact Bool.false_ne_true (hlater.symm.trans hs)

end TlsTrace

open TlsTrace

/-! ## Runs of an object -/

/-- A task that throws ends the program. -/
inductive ObjectPhase where
  | alive
  | terminated
  | destroyed
deriving DecidableEq, Repr

structure TlsObject where
  cfg : OpensslConfigure := .default
  posted : List Posted := []
  trace : TlsTrace := []
  phase : ObjectPhase := .alive

inductive ObjectStep where
  | create (options : OpensslOptions) (ctx : ClientContext)
  | connect (ctx : ClientContext)
  | write (ctx : ClientContext) (message : Bytes)
  /-- The pool runs what has been posted at this index. -/
  | run (i : ℕ)
  | destroy
deriving DecidableEq

def Posted.isTask : Posted → Bool
  | .callback _ => false
  | .task _ => true

namespace TlsObject

/-- What is left after a posted task has run. -/
def ran (s : TlsObject) (posted : List Posted) :
    Status (OpensslConfigure × TaskEnd) × TlsTrace → TlsObject
  | (.done (cfg, .returned), h) =>
      { s with cfg := cfg, posted := posted, trace := h }
  | (_, h) => { s with trace := h, phase := .terminated }

/-- A step of an object that is alive. The tasks hold a `shared_ptr` to it. -/
def stepAlive (o : Oracle TlsCall TlsCall.Reply) (fuel : ℕ) (s : TlsObject) :
    ObjectStep → TlsObject
  | .create options ctx =>
      let (cfg, p) := asyncCreateTls s.cfg options ctx
      { s with cfg := cfg, posted := s.posted ++ [p] }
  | .connect ctx =>
      { s with posted := s.posted ++ [asyncTryConnectTls s.cfg ctx] }
  | .write ctx message =>
      { s with
        posted := s.posted ++ (asyncWriteTls s.cfg ctx message).toList }
  | .run i =>
      match s.posted[i]? with
      | none => s
      | some p => s.ran (s.posted.eraseIdx i) ((p.run fuel s.cfg).exec o s.trace)
  | .destroy =>
      if s.posted.any Posted.isTask then s
      else
        { s with
          trace := ((destroySocketSsl s.cfg).exec o s.trace).2
          phase := .destroyed }

def step (o : Oracle TlsCall TlsCall.Reply) (fuel : ℕ) (s : TlsObject)
    (a : ObjectStep) : TlsObject :=
  if s.phase = .alive then s.stepAlive o fuel a else s

def run (o : Oracle TlsCall TlsCall.Reply) (fuel : ℕ) (s : TlsObject)
    (as : List ObjectStep) : TlsObject :=
  as.foldl (step o fuel) s

/-- At no moment has a released handle been used, or a handle been released
twice or by another function than its own; and none is left after the
destruction. -/
structure KeepsProtocol (s : TlsObject) : Prop where
  sound : ∀ h, h <+: s.trace → (handles h).sound = true
  released : s.phase = .destroyed → (handles s.trace).live = []

end TlsObject

/-! ## The steps that keep to the protocol -/

/-- The handshake does not replace the object: it succeeds at once, it wants
more data, it has no retries, or it is given up before them. -/
def KeepsObject (o : Oracle TlsCall TlsCall.Reply) (h : TlsTrace)
    (ssl : Option ℕ) (ctx : ClientContext) : Prop :=
  let ret : ℤ := o h (.sslConnect ssl)
  let h := h ++ [⟨.sslConnect ssl, ret⟩]
  let err : ℤ := o h (.sslGetError ssl ret)
  let h := h ++ [⟨.sslGetError ssl ret, err⟩]
  let wait : ℤ := o h (.select ctx.socketfd ctx.timeout)
  1 ≤ ret ∨ err = sslErrorWantRead ∨ err = sslErrorWantWrite ∨
    ctx.maxRetyCount ≤ 0 ∨ err = 0 ∧ wait < 0

/-- A task may run with `M_openssl_configure` as it is: a creation if no handle
is live, a handshake and a write if what they use is. -/
def TlsTask.Spares (o : Oracle TlsCall TlsCall.Reply) (cfg : OpensslConfigure)
    (h : TlsTrace) : TlsTask → Prop
  | .create _ _ => (handles h).live = []
  | .connect ctx => (∀ x ∈ sslHandle cfg.opensslPtr, x ∈ (handles h).live) ∧
      KeepsObject o h cfg.opensslPtr ctx
  | .write ctx =>
      (∀ x ∈ sslHandle cfg.opensslPtr, x ∈ (handles h).live) ∧
        ((o h (.sslWrite cfg.opensslPtr
            (ctx.messageFrom 0 ctx.clientMessageLength.toNat)
            ctx.clientMessageLength) : ℤ) = 0 →
          ∀ x ∈ ctxHandle cfg.opensslCtxPtr, x ∈ (handles h).live)

def Posted.Spares (o : Oracle TlsCall TlsCall.Reply) (cfg : OpensslConfigure)
    (h : TlsTrace) : Posted → Prop
  | .callback _ => True
  | .task t => t.Spares o cfg h

/-- A step keeps to the protocol. The object may be destroyed if it has no
context. -/
def ObjectStep.Spares (o : Oracle TlsCall TlsCall.Reply) (s : TlsObject) :
    ObjectStep → Prop
  | .run i => ∀ p ∈ s.posted[i]?, p.Spares o s.cfg s.trace
  | .destroy => s.cfg.opensslCtxPtr = none
  | _ => True

/-- Every step of a run keeps to the protocol. -/
def SparesAll (o : Oracle TlsCall TlsCall.Reply) (fuel : ℕ) :
    TlsObject → List ObjectStep → Prop
  | _, [] => True
  | s, a :: as => a.Spares o s ∧ SparesAll o fuel (s.step o fuel a) as

instance (o : Oracle TlsCall TlsCall.Reply) (h : TlsTrace) (ssl : Option ℕ)
    (ctx : ClientContext) : Decidable (KeepsObject o h ssl ctx) :=
  inferInstanceAs (Decidable (_ ∨ _ ∨ _ ∨ _ ∨ _ ∧ _))

instance (o : Oracle TlsCall TlsCall.Reply) (cfg : OpensslConfigure)
    (h : TlsTrace) : (t : TlsTask) → Decidable (t.Spares o cfg h)
  | .create _ _ => inferInstanceAs (Decidable (_ = _))
  | .connect _ => inferInstanceAs (Decidable (_ ∧ _))
  | .write _ => inferInstanceAs (Decidable (_ ∧ (_ → _)))

instance (o : Oracle TlsCall TlsCall.Reply) (cfg : OpensslConfigure)
    (h : TlsTrace) : (p : Posted) → Decidable (p.Spares o cfg h)
  | .callback _ => inferInstanceAs (Decidable True)
  | .task t => inferInstanceAs (Decidable (t.Spares o cfg h))

instance (o : Oracle TlsCall TlsCall.Reply) (s : TlsObject) :
    (a : ObjectStep) → Decidable (a.Spares o s)
  | .run i => inferInstanceAs (Decidable (∀ p ∈ s.posted[i]?, _))
  | .destroy => inferInstanceAs (Decidable (_ = _))
  | .create _ _ => inferInstanceAs (Decidable True)
  | .connect _ => inferInstanceAs (Decidable True)
  | .write _ _ => inferInstanceAs (Decidable True)

instance decidableSparesAll (o : Oracle TlsCall TlsCall.Reply) (fuel : ℕ) :
    (s : TlsObject) → (as : List ObjectStep) → Decidable (SparesAll o fuel s as)
  | _, [] => inferInstanceAs (Decidable True)
  | s, a :: as =>
      let _ := decidableSparesAll o fuel (s.step o fuel a) as
      inferInstanceAs (Decidable (_ ∧ _))

/-! ## The invariant -/

/-- The live handles are those `M_openssl_configure` names, or there are
none. -/
def Held (cfg : OpensslConfigure) (live : List Handle) : Prop :=
  live = [] ∨ cfg.opensslCtxPtr ≠ none ∧
    live = sslHandle cfg.opensslPtr ++ ctxHandle cfg.opensslCtxPtr

section

variable {cfg : OpensslConfigure} {ctx : ClientContext} {h : TlsTrace}
variable {live : List Handle} {o : Oracle TlsCall TlsCall.Reply} {fuel : ℕ}
variable {α : Type}

/-- The ledger of a trace that has kept to the protocol so far. -/
abbrev Sound (live : List Handle) (h : TlsTrace) : Prop :=
  handles h = { live := live }

theorem Sound.use (hs : Sound live h) {q : TlsCall} {r : q.Reply}
    {xs : List Handle} (hq : usedBy q r = xs.map .use) (hx : ∀ x ∈ xs, x ∈ live) :
    Sound live (h ++ [⟨q, r⟩]) := by
  rw [Sound, handles_snoc, hs, hq]
  exact Ledger.run_use hx

/-- A call that has nothing to do with handles. -/
theorem Sound.other (hs : Sound live h) {q : TlsCall} {r : q.Reply}
    (hq : usedBy q r = []) : Sound live (h ++ [⟨q, r⟩]) :=
  hs.use (show usedBy q r = ([] : List Handle).map .use from hq) nofun

/-- The end of a task: where it returns, the live handles are held. -/
def TaskKeeps (h : TlsTrace) :
    Status (OpensslConfigure × TaskEnd) → Prop
  | .done (cfg, .returned) => ∃ live, Sound live h ∧ Held cfg live
  | _ => (handles h).sound = true

theorem Sound.sound (hs : Sound live h) : (handles h).sound = true := by
  rw [hs]

theorem sat_submitTls {ok : TlsTrace → (q : TlsCall) → q.Reply → Prop}
    (hs : Sound live h) (hheld : Held cfg live) (s : TlsCompletion) :
    (submitTls cfg s).Sat ok TaskKeeps h :=
  ⟨hs.sound, fun _ _ => ⟨live, hs.other rfl, hheld⟩⟩

theorem sat_submitErrno {ok : TlsTrace → (q : TlsCall) → q.Reply → Prop}
    (hs : Sound live h) (hheld : Held cfg live)
    (s : ErrorCode → TlsCompletion) :
    (submitErrno cfg s).Sat ok TaskKeeps h :=
  Prog.sat_perform_bind.mpr ⟨hs.sound, fun _ _ =>
    sat_submitTls (hs.other rfl) hheld _⟩

/-! ### The creation -/

theorem Sound.acquireCtx (hs : Sound [] h) {method : TlsMethod}
    (sslCtx : Option ℕ) :
    Sound (ctxHandle sslCtx) (h ++ [⟨.sslCtxNew method, sslCtx⟩]) := by
  rw [Sound, handles_snoc, hs]
  cases sslCtx with
  | none => rfl
  | some n => rfl

theorem Sound.releaseCtx {sslCtx : Option ℕ} (hs : Sound (ctxHandle sslCtx) h) :
    Sound [] (h ++ [⟨.sslCtxFree sslCtx, ()⟩]) := by
  rw [Sound, handles_snoc, hs]
  cases sslCtx with
  | none => rfl
  | some n => simp [ctxHandle, Ledger.step]

theorem Sound.acquireSsl {sslCtx : Option ℕ} (hs : Sound (ctxHandle sslCtx) h)
    (ssl : Option ℕ) :
    Sound (sslHandle ssl ++ ctxHandle sslCtx)
      (h ++ [⟨.sslNew sslCtx, ssl⟩]) := by
  rw [Sound, handles_snoc, hs, usedBy, Ledger.run_append,
    Ledger.run_use fun _ hx => hx]
  cases ssl with
  | none => rfl
  | some n => rfl

theorem Sound.configured {sslCtx : Option ℕ} (hs : Sound (ctxHandle sslCtx) h)
    {q : TlsCall} {r : q.Reply} (hq : TlsCall.Configures sslCtx q) :
    Sound (ctxHandle sslCtx) (h ++ [⟨q, r⟩]) := by
  have hused : usedBy q r = (ctxHandle sslCtx).map .use := by
    cases hq <;> rfl
  exact hs.use hused fun _ hx => hx

variable {ok : TlsTrace → (q : TlsCall) → q.Reply → Prop}

theorem createTlsChecked_keeps (cfg : OpensslConfigure)
    (options : OpensslOptions) (ctx : ClientContext) (sslCtx : Option ℕ)
    (hs : Sound (ctxHandle sslCtx) h) :
    (createTlsChecked cfg options ctx sslCtx).Sat ok TaskKeeps h := by
  rw [createTlsChecked]
  dsimp only
  split
  · rename_i hnone
    rw [hnone] at hs
    exact sat_submitErrno hs (Or.inl rfl) _
  · rename_i hsome
    rw [createTls, if_neg hsome]
    refine Prog.sat_bind.mpr (Prog.sat_perform_bind.mpr ⟨hs.sound,
      fun ssl _ => ?_⟩)
    have hnew := hs.acquireSsl ssl
    have hmem : ∀ x ∈ sslHandle ssl, x ∈ sslHandle ssl ++ ctxHandle sslCtx :=
      fun x hx => List.mem_append_left _ hx
    have hhost := hnew.use (q := .sslSetTlsextHostName ssl ctx.addrsHost)
      (r := ()) rfl hmem
    have hfd := hhost.use (q := .sslSetFd ssl ctx.socketfd) (r := ()) rfl hmem
    refine ⟨hnew.sound, fun _ _ => ⟨hhost.sound, fun _ _ => ?_⟩⟩
    exact sat_submitTls hfd (Or.inr ⟨hsome, rfl⟩) _

theorem createTlsTask_keeps (hs : Sound [] h) (options : OpensslOptions)
    (ctx : ClientContext) :
    (createTlsTask cfg options ctx).Sat ok TaskKeeps h :=
  Prog.sat_bind.mpr (sat_createTlsContext
    (fun sslCtx h => Sound (ctxHandle sslCtx) h) hs.sound
    (fun _ sslCtx => hs.acquireCtx sslCtx) (fun _ _ hs => hs.sound)
    (fun _ _ _ _ hq hs => hs.configured hq)
    (fun _ _ hs => createTlsChecked_keeps cfg options ctx none hs.releaseCtx)
    fun sslCtx _ hs => createTlsChecked_keeps cfg options ctx sslCtx hs)

/-! ### The handshake -/

/-- The replies are those of `o`. -/
abbrev repliesOf (o : Oracle TlsCall TlsCall.Reply) :
    TlsTrace → (q : TlsCall) → q.Reply → Prop :=
  fun h q r => r = o h q

/-- What the retry helper keeps where it does not replace the object. -/
def RetryKeeps (cfg : OpensslConfigure) (live : List Handle) (h : TlsTrace) :
    Status HandshakeResult → Prop
  | .done (.ok (cfg', _)) => cfg' = cfg ∧ Sound live h
  | .done (.error e) => e = .threw ∧ (handles h).sound = true
  | _ => (handles h).sound = true

theorem sslHandshakeRetry_keeps (hs : Sound live h) {err : ℤ}
    (hssl : ∀ x ∈ sslHandle cfg.opensslPtr, x ∈ live)
    (hkeep : err = sslErrorWantRead ∨ err = sslErrorWantWrite ∨
      ctx.maxRetyCount ≤ 0) (retryCtx : Option ℕ) :
    (sslHandshakeRetry fuel cfg ctx err cfg.opensslPtr retryCtx).Sat ok
      (RetryKeeps cfg live) h := by
  rw [sslHandshakeRetry]
  split
  · exact ⟨rfl, hs.sound⟩
  · refine Prog.sat_iterate (fun _ s h => Sound live h ∧
      s.2 = cfg.opensslPtr ∧ 0 ≤ s.1.connectRetyCount ∧
        s.1.maxRetyCount = ctx.maxRetyCount) (fun _ _ hs => hs.1.sound) ?_
      fuel _ h ⟨hs, rfl, le_refl _, rfl⟩
    rintro n ⟨c, retryTls⟩ h ⟨hs, rfl, hnonneg, hmax⟩
    dsimp only at hnonneg hmax
    rw [handshakeRetryStep]
    split
    · rename_i hlt
      have hwant : err = sslErrorWantRead ∨ err = sslErrorWantWrite := by
        rcases hkeep with herr | herr | hle
        · exact Or.inl herr
        · exact Or.inr herr
        · omega
      dsimp only
      rw [if_pos hwant]
      refine Prog.sat_perform_bind.mpr ⟨hs.sound, fun ret _ => ?_⟩
      have hs' := hs.use (q := .sslConnect cfg.opensslPtr) (r := ret) rfl hssl
      split
      · split
        · exact ⟨rfl, hs'⟩
        · exact ⟨hs', rfl, Int.le_add_one hnonneg, hmax⟩
      · exact ⟨rfl, hs'⟩
    · exact ⟨rfl, hs⟩

theorem connectTlsRetry_keeps (hs : Sound live h) (hheld : Held cfg live)
    {err : ℤ} (hssl : ∀ x ∈ sslHandle cfg.opensslPtr, x ∈ live)
    (hkeep : err = sslErrorWantRead ∨ err = sslErrorWantWrite ∨
      ctx.maxRetyCount ≤ 0) :
    (connectTlsRetry fuel cfg ctx err).Sat ok TaskKeeps h := by
  rw [connectTlsRetry]
  refine (sslHandshakeRetry_keeps hs hssl hkeep _).bind (fun _ hst => hst)
    (fun _ hst => hst) fun result h hst => ?_
  cases result with
  | error e =>
      obtain ⟨rfl, hsound⟩ := hst
      exact hsound
  | ok result =>
      obtain ⟨cfg', c⟩ := result
      obtain ⟨rfl, hs⟩ := hst
      dsimp only
      split
      · exact sat_submitTls hs hheld _
      · exact sat_submitErrno hs hheld _

theorem connectTlsTask_keeps (hs : Sound live h) (hheld : Held cfg live)
    (hssl : ∀ x ∈ sslHandle cfg.opensslPtr, x ∈ live)
    (hkeep : KeepsObject o h cfg.opensslPtr ctx) :
    (connectTlsTask fuel cfg ctx).Sat (repliesOf o) TaskKeeps h := by
  rw [connectTlsTask]
  refine Prog.sat_perform_bind.mpr ⟨hs.sound, fun ret hret => ?_⟩
  have hs₁ := hs.use (q := .sslConnect cfg.opensslPtr) (r := ret) rfl hssl
  split
  · exact sat_submitTls hs₁ hheld _
  · split
    · rename_i hlt
      have hlt : ¬ 1 ≤ ret := by
        rcases hlt with hlt | hle
        · exact Int.not_le.mpr hlt
        · exact Int.not_le.mpr (lt_of_le_of_lt hle Int.one_pos)
      refine Prog.sat_perform_bind.mpr ⟨hs₁.sound, fun err herr => ?_⟩
      have hs₂ := hs₁.use (q := .sslGetError cfg.opensslPtr ret) (r := err) rfl
        hssl
      split
      · refine sat_fdSet_bind (fun _ => ?_) fun _ => hs₂.sound
        refine Prog.sat_perform_bind.mpr ⟨hs₂.sound, fun wait hwait => ?_⟩
        have hs₃ := hs₂.other (q := .select ctx.socketfd ctx.timeout)
          (r := wait) rfl
        split
        · exact sat_submitTls hs₃ hheld _
        · rename_i hnowait
          refine connectTlsRetry_keeps hs₃ hheld hssl ?_
          subst hret herr hwait
          rcases hkeep with hone | hread | hwrite | hbudget | ⟨-, hwait⟩
          · exact absurd hone hlt
          · exact Or.inl hread
          · exact Or.inr (Or.inl hwrite)
          · exact Or.inr (Or.inr hbudget)
          · exact absurd hwait hnowait
      · rename_i hother
        refine connectTlsRetry_keeps hs₂ hheld hssl ?_
        subst hret herr
        rcases hkeep with hone | hread | hwrite | hbudget | ⟨hzero, -⟩
        · exact absurd hone hlt
        · exact Or.inl hread
        · exact Or.inr (Or.inl hwrite)
        · exact Or.inr (Or.inr hbudget)
        · exact absurd (Or.inl hzero) hother
    · exact sat_submitTls hs₁ hheld _

/-! ### The write -/

theorem sslWriteRetry_keeps (hs : Sound live h)
    (hssl : ∀ x ∈ sslHandle cfg.opensslPtr, x ∈ live) (retryCtx : Option ℕ)
    (tlsRet : ℤ) (strfullLen writeToalData : ℕ) {next}
    (hnext : ∀ c h, Sound live h → next (.ok c) h)
    (hthrew : ∀ h, Sound live h → next (.error .threw) h) :
    (sslWriteRetry fuel ctx cfg.opensslPtr retryCtx tlsRet strfullLen
      writeToalData).Sat ok (Prog.andThen TaskKeeps next) h := by
  refine sat_sslWriteRetry (Sound live) hs ?_ ?_ ?_ ?_ ?_
  · intro h hs
    exact hs.sound
  · intro h e hs
    exact hs.use rfl hssl
  · intro h e hs
    exact hs.other rfl
  · intro c h hs _
    exact hnext c h hs
  · intro _
    exact hthrew h hs

theorem Sound.releaseHeldCtx (hs : Sound live h) (hheld : Held cfg live)
    (hssl : ∀ x ∈ sslHandle cfg.opensslPtr, x ∈ live)
    (hctx : ∀ x ∈ ctxHandle cfg.opensslCtxPtr, x ∈ live) :
    Sound (sslHandle cfg.opensslPtr)
      (h ++ [⟨.sslCtxFree cfg.opensslCtxPtr, ()⟩]) := by
  rw [Sound, handles_snoc, hs]
  rcases hheld with rfl | ⟨-, rfl⟩
  · have hnossl : sslHandle cfg.opensslPtr = [] :=
      List.eq_nil_iff_forall_not_mem.mpr fun x hx => by cases hssl x hx
    have hnoctx : ctxHandle cfg.opensslCtxPtr = [] :=
      List.eq_nil_iff_forall_not_mem.mpr fun x hx => by cases hctx x hx
    rw [usedBy, hnossl, hnoctx]
    rfl
  · cases cfg.opensslCtxPtr with
    | none => simp [ctxHandle]
    | some n =>
        cases cfg.opensslPtr with
        | none => simp [ctxHandle, sslHandle, Ledger.step]
        | some m => simp [ctxHandle, sslHandle, Ledger.step]

theorem Sound.releaseSsl {ssl : Option ℕ} (hs : Sound (sslHandle ssl) h) :
    Sound [] (h ++ [⟨.sslFree ssl, ()⟩]) := by
  rw [Sound, handles_snoc, hs]
  cases ssl with
  | none => rfl
  | some n => simp [sslHandle, Ledger.step]

theorem writeTlsTask_keeps (hs : Sound live h) (hheld : Held cfg live)
    (hssl : ∀ x ∈ sslHandle cfg.opensslPtr, x ∈ live)
    (hctx : (o h (.sslWrite cfg.opensslPtr
        (ctx.messageFrom 0 ctx.clientMessageLength.toNat)
        ctx.clientMessageLength) : ℤ) = 0 →
      ∀ x ∈ ctxHandle cfg.opensslCtxPtr, x ∈ live) :
    (writeTlsTask fuel cfg ctx).Sat (repliesOf o) TaskKeeps h := by
  rw [writeTlsTask]
  refine Prog.sat_perform_bind.mpr ⟨hs.sound, ?_⟩
  rintro ret hret
  have hs₁ := hs.use (q := .sslWrite cfg.opensslPtr
    (ctx.messageFrom 0 ctx.clientMessageLength.toNat) ctx.clientMessageLength)
    (r := ret) rfl hssl
  split
  · refine Prog.sat_perform_bind.mpr ⟨hs₁.sound, fun err _ => ?_⟩
    have hs₂ := hs₁.use (q := .sslGetError cfg.opensslPtr ret) (r := err) rfl
      hssl
    refine Prog.sat_bind.mpr (sslWriteRetry_keeps hs₂ hssl _ _ _ _ ?_ ?_)
    · intro c h hs
      dsimp only
      split
      · exact sat_submitTls hs hheld _
      · exact sat_submitTls hs hheld _
    · intro h hs
      exact hs.sound
  · split
    · exact sat_submitTls hs₁ hheld _
    · -- the peer has closed the connection
      rename_i hneg hpos
      have hzero : ret = 0 :=
        Int.le_antisymm (Int.not_lt.mp hpos) (Int.not_lt.mp hneg)
      have hshut := hs₁.use (q := .sslShutdown cfg.opensslPtr) (r := ()) rfl
        hssl
      have hctxFreed := hshut.releaseHeldCtx hheld hssl
        (hctx (hret.symm.trans hzero))
      have hfreed := hctxFreed.releaseSsl
      refine ⟨hs₁.sound, fun _ _ => ⟨hshut.sound, fun _ _ =>
        ⟨hctxFreed.sound, fun _ _ => ⟨hfreed.sound, fun _ _ => ?_⟩⟩⟩⟩
      exact sat_submitTls (hfreed.other rfl) (Or.inl rfl) _

/-! ## Runs that keep to the protocol -/

/-- The invariant of an object. -/
structure ObjectInv (s : TlsObject) : Prop where
  sound : (handles s.trace).sound = true
  held : s.phase = .alive → ∃ live, Sound live s.trace ∧ Held s.cfg live
  released : s.phase = .destroyed → (handles s.trace).live = []

theorem posted_keeps (hs : Sound live h) (hheld : Held cfg live) (p : Posted)
    (hp : p.Spares o cfg h) :
    (p.run fuel cfg).Sat (repliesOf o) TaskKeeps h := by
  cases p with
  | callback s => exact sat_submitTls hs hheld s
  | task t =>
      have ht : t.Spares o cfg h := hp
      cases t with
      | create options ctx =>
          have hnone : live = [] := by
            rw [TlsTask.Spares, hs] at ht
            exact ht
          rw [hnone] at hs
          exact createTlsTask_keeps hs options ctx
      | connect ctx =>
          obtain ⟨hssl, hkeep⟩ := ht
          rw [hs] at hssl
          exact connectTlsTask_keeps hs hheld hssl hkeep
      | write ctx =>
          obtain ⟨hssl, hctx⟩ := ht
          rw [hs] at hssl hctx
          exact writeTlsTask_keeps hs hheld hssl hctx

theorem ran_inv {s : TlsObject} (posted : List Posted)
    {r : Status (OpensslConfigure × TaskEnd) × TlsTrace}
    (halive : s.phase = .alive) (hr : TaskKeeps r.2 r.1) :
    ObjectInv (s.ran posted r) := by
  obtain ⟨st, h⟩ := r
  have hlost : (handles h).sound = true →
      ObjectInv { s with trace := h, phase := .terminated } :=
    fun hsound => ⟨hsound, nofun, nofun⟩
  cases st with
  | calling => exact hlost hr
  | stuck => exact hlost hr
  | undefined => exact hlost hr
  | done result =>
      obtain ⟨cfg, e⟩ := result
      cases e with
      | returned =>
          obtain ⟨live, hs, hheld⟩ := hr
          refine ⟨hs.sound, fun _ => ⟨live, hs, hheld⟩, fun hphase => ?_⟩
          have hphase : s.phase = .destroyed := hphase
          rw [halive] at hphase
          cases hphase
      | threw => exact hlost hr
      | undefined => exact hlost hr

/-- `async_create_tls` leaves the pointers alone until its task runs. -/
theorem asyncCreateTls_held (options : OpensslOptions) (ctx : ClientContext) :
    Held (asyncCreateTls cfg options ctx).1 live ↔ Held cfg live := by
  have hinit : Held cfg.initClientOpenssl live ↔ Held cfg live := by
    rw [OpensslConfigure.initClientOpenssl]
    split <;> rfl
  rw [asyncCreateTls]
  split <;> exact hinit

theorem stepAlive_inv {s : TlsObject} (a : ObjectStep) (halive : s.phase = .alive)
    (hinv : ObjectInv s) (hspares : a.Spares o s) :
    ObjectInv (s.stepAlive o fuel a) := by
  obtain ⟨live, hs, hheld⟩ := hinv.held halive
  cases a with
  | create options ctx =>
      exact ⟨hinv.sound, fun _ =>
        ⟨live, hs, (asyncCreateTls_held options ctx).mpr hheld⟩, hinv.released⟩
  | connect ctx => exact ⟨hinv.sound, hinv.held, hinv.released⟩
  | write ctx message => exact ⟨hinv.sound, hinv.held, hinv.released⟩
  | run i =>
      rw [TlsObject.stepAlive]
      cases hp : s.posted[i]? with
      | none => exact hinv
      | some p =>
          exact ran_inv _ halive ((posted_keeps hs hheld p
            (hspares p hp)).exec fun _ _ => rfl)
  | destroy =>
      rw [TlsObject.stepAlive]
      split
      · exact hinv
      · have hnone : s.cfg.opensslCtxPtr = none := hspares
        have hempty : live = [] := by
          rcases hheld with hempty | ⟨hctx, -⟩
          · exact hempty
          · exact absurd hnone hctx
        have htrace : ((destroySocketSsl s.cfg).exec o s.trace).2 = s.trace := by
          rw [destroySocketSsl, destroyClientSslConfigure, if_neg, if_neg]
          · rfl
          · exact fun hne => hne.1 hnone
          · exact fun hne => hne.1 hnone
        rw [hempty] at hs
        rw [htrace]
        exact ⟨hs.sound, nofun, fun _ => congrArg Ledger.live hs⟩

theorem step_inv {s : TlsObject} (a : ObjectStep) (hinv : ObjectInv s)
    (hspares : a.Spares o s) : ObjectInv (s.step o fuel a) := by
  rw [TlsObject.step]
  split
  · rename_i halive
    exact stepAlive_inv a halive hinv hspares
  · exact hinv

theorem run_inv (as : List ObjectStep) {s : TlsObject} (hinv : ObjectInv s)
    (hspares : SparesAll o fuel s as) : ObjectInv (s.run o fuel as) := by
  induction as generalizing s with
  | nil => exact hinv
  | cons a as ih => exact ih (step_inv a hinv hspares.1) hspares.2

/-- **The handle protocol.** In every run in which no task uses or overwrites
the wrong handles, no handshake replaces the object and the object has no
context when it is destroyed, every handle is released exactly once, by its own
function, and not used after that. -/
theorem run_keepsProtocol (o : Oracle TlsCall TlsCall.Reply) (fuel : ℕ)
    (as : List ObjectStep) (h : SparesAll o fuel {} as) :
    (TlsObject.run o fuel {} as).KeepsProtocol := by
  have hstart : ObjectInv {} := by
    refine ⟨rfl, fun _ => ⟨[], rfl, Or.inl rfl⟩, nofun⟩
  have hinv := run_inv as hstart h
  exact ⟨fun _ hle => sound_of_prefix hle hinv.sound, hinv.released⟩

/-- A peer that closes the connection at the first write, and CA certificates
that can be loaded once. -/
def closingPeer : Oracle TlsCall TlsCall.Reply := fun h q =>
  match q with
  | .sslCtxSetDefaultVerifyPaths _ => if h.length < 3 then (1 : ℤ) else (0 : ℤ)
  | .sslWrite _ _ _ => (0 : ℤ)
  | q => willingPeer h q

/-- After the peer has closed the connection, a creation that fails leaves the
object without a context, so that it can be destroyed. -/
theorem run_keepsProtocol_closing :
    (TlsObject.run closingPeer 9 {} [.create {} connected, .run 0,
      .connect connected, .run 0, .write connected [71], .run 0,
      .create {} connected, .run 0, .destroy]).KeepsProtocol :=
  run_keepsProtocol closingPeer 9 _ (by decide +kernel)

/-- An object that is created and destroyed passes its context to `free`. -/
theorem run_breaksProtocol :
    let s := TlsObject.run closingPeer 9 {}
      [.create {} connected, .run 0, .destroy]
    (s.phase = .destroyed ∧ (handles s.trace).sound = false) ∧
      ¬ ∀ (o : Oracle TlsCall TlsCall.Reply) (fuel : ℕ)
        (as : List ObjectStep), (TlsObject.run o fuel {} as).KeepsProtocol := by
  refine ⟨by decide +kernel, fun hall => ?_⟩
  have h := (hall closingPeer 9
    [.create {} connected, .run 0, .destroy]).sound _ List.prefix_rfl
  exact absurd h (by decide +kernel)

end

end Mtasc
