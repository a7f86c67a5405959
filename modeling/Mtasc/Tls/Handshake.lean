import Mtasc.Tls.Socket

/-!
# What a TLS callback reports

A callback without an error means a handshake that has succeeded, or a context
and an object that exist, except for one way: a failed operation takes its
error code from `errno`, which OpenSSL need not have set.
-/

namespace Mtasc

open Lib

namespace TlsTrace

@[simp] def connectedBy (ssl : Option ℕ) :
    (q : TlsCall) → q.Reply → Option ℤ
  | .sslConnect ssl', ret => if ssl' = ssl then some ret else none
  | _, _ => none

/-- What the latest `SSL_connect` on a handle has returned. -/
def latestConnect (ssl : Option ℕ) (h : TlsTrace) : Option ℤ :=
  h.foldl (fun latest e => (connectedBy ssl e.1 e.2).or latest) none

@[simp] def errorBy : (q : TlsCall) → q.Reply → Option ℤ
  | .sslGetError _ _, err => some err
  | _, _ => none

/-- What the first `SSL_get_error` has returned. -/
def firstError (h : TlsTrace) : Option ℤ :=
  h.foldl (fun first e => first.or (errorBy e.1 e.2)) none

@[simp] def errnoBy : (q : TlsCall) → q.Reply → Option ℤ
  | .errno, errno => some errno
  | _, _ => none

/-- The value of `errno`, if the last call reads it. -/
def lastErrno (h : TlsTrace) : Option ℤ :=
  h.getLast?.bind fun e => errnoBy e.1 e.2

/-- The value of `errno` that goes into the callback submitted last, if its
error code is made from `errno`. -/
def reportedErrno (h : TlsTrace) : Option ℤ :=
  match h.getLast? with
  | some ⟨.submit _, _⟩ => lastErrno h.dropLast
  | _ => none

@[simp] def refusedBy : (q : TlsCall) → q.Reply → Bool
  | .sslNew _, ssl => ssl = none
  | _, _ => false

/-- Every `SSL_new` gives an object. -/
def SslNewSucceeds (h : TlsTrace) : Prop :=
  ∀ e ∈ h, refusedBy e.1 e.2 = false

section

variable {h : TlsTrace} {q : TlsCall} {r : q.Reply}

@[simp] theorem latestConnect_snoc (ssl : Option ℕ) :
    latestConnect ssl (h ++ [⟨q, r⟩]) =
      (connectedBy ssl q r).or (latestConnect ssl h) := by
  simp [latestConnect]

@[simp] theorem firstError_snoc :
    firstError (h ++ [⟨q, r⟩]) = (firstError h).or (errorBy q r) := by
  simp [firstError]

@[simp] theorem lastErrno_snoc : lastErrno (h ++ [⟨q, r⟩]) = errnoBy q r := by
  simp [lastErrno]

@[simp] theorem reportedErrno_submit (s : TlsCompletion) :
    reportedErrno (h ++ [⟨.submit s, ()⟩]) = lastErrno h := by
  simp [reportedErrno]

@[simp] theorem sslNewSucceeds_snoc :
    SslNewSucceeds (h ++ [⟨q, r⟩]) ↔
      SslNewSucceeds h ∧ refusedBy q r = false := by
  simp only [SslNewSucceeds, List.forall_mem_append, List.forall_mem_singleton]

/-- Nothing is reported before a callback is submitted. -/
theorem reportedErrno_pending (hh : completions h = []) :
    reportedErrno h = none := by
  rcases List.eq_nil_or_concat h with rfl | ⟨h', ⟨q, r⟩, rfl⟩
  · rfl
  · cases q with
    | submit s => simp at hh
    | _ => simp [reportedErrno]

end

end TlsTrace

open TlsTrace

/-- How an error code comes about: `good` is what one without an error stands
for. -/
inductive Outcome (ec : ErrorCode) (good : Prop) (h : TlsTrace) : Prop where
  | success (hec : ec.IsZero) (hgood : good) (hno : reportedErrno h = none)
  | error (hec : ¬ ec.IsZero) (hno : reportedErrno h = none)
  | errno (hec : reportedErrno h = some ec.value) (hbad : ¬ good)

theorem Outcome.truthful_iff {ec : ErrorCode} {good : Prop} {h : TlsTrace}
    (ho : Outcome ec good h) :
    (ec.IsZero → good) ↔ reportedErrno h ≠ some 0 := by
  cases ho with
  | success hec hgood hno => simp [hgood, hno]
  | error hec hno => simp [hec, hno]
  | errno hec hbad =>
      constructor
      · intro hgood hzero
        rw [hec] at hzero
        exact hbad (hgood (Option.some.inj hzero))
      · intro hne hzero
        exact absurd (hec.trans (congrArg some hzero)) hne

section

variable {ok : TlsTrace → (q : TlsCall) → q.Reply → Prop}
variable {cfg : OpensslConfigure} {ctx : ClientContext} {h : TlsTrace}
variable {α : Type} {err budget : ℤ} {fuel : ℕ}

/-! ## The handshake -/

/-- A handshake that has failed with `err` and goes on. -/
structure Handshaking (err : ℤ) (h : TlsTrace) : Prop where
  pending : completions h = []
  unconnected : ∀ ssl, latestConnect ssl h ≠ some 1
  error : firstError h = some err

theorem Handshaking.snoc (hs : Handshaking err h) {q : TlsCall} {r : q.Reply}
    (hc : completedBy q r = []) (hr : ∀ ssl, connectedBy ssl q r ≠ some 1) :
    Handshaking err (h ++ [⟨q, r⟩]) := by
  refine ⟨?_, fun ssl => ?_, ?_⟩
  · rw [completions_snoc, hs.pending, hc]
    rfl
  · rw [latestConnect_snoc]
    cases hssl : connectedBy ssl q r with
    | none => exact hs.unconnected ssl
    | some ret =>
        have hret := hr ssl
        rw [hssl] at hret
        exact hret
  · rw [firstError_snoc, hs.error]
    rfl

/-- A call that is neither a callback nor an `SSL_connect`. -/
theorem Handshaking.other (hs : Handshaking err h) {q : TlsCall} {r : q.Reply}
    (hc : completedBy q r = []) (hr : ∀ ssl, connectedBy ssl q r = none) :
    Handshaking err (h ++ [⟨q, r⟩]) :=
  hs.snoc hc fun ssl => by
    rw [hr ssl]
    nofun

theorem Handshaking.connectFailed (hs : Handshaking err h) (ssl : Option ℕ)
    {ret : ℤ} (hret : ret ≠ 1) :
    Handshaking err (h ++ [⟨.sslConnect ssl, ret⟩]) := by
  refine hs.snoc rfl fun ssl' => ?_
  rw [connectedBy]
  split
  · simpa using hret
  · simp

/-- How the retry helper ends. -/
def HandshakeEnd (err budget : ℤ) (fuel : ℕ) (h : TlsTrace) :
    Status HandshakeResult → Prop
  | .calling => True
  | .stuck => completions h = [] ∧ fuel ≤ budget.toNat
  | .undefined => False
  | .done (.error e) => e = .threw ∧ completions h = [] ∧
      firstError h = some err ∧ err = sslErrorSsl ∧ 0 < budget
  | .done (.ok (cfg, c)) => completions h = [] ∧ firstError h = some err ∧
      (err = sslErrorSsl → budget ≤ 0) ∧
      (c.isRetrySuccess = true →
        latestConnect cfg.opensslPtr h = some 1 ∧ lastErrno h = none) ∧
      (c.isRetrySuccess = false → ∀ ssl, latestConnect ssl h ≠ some 1)

/-- The invariant of its loop, with `n` iterations left. -/
structure RetryingTls (cfg : OpensslConfigure) (err budget : ℤ) (fuel n : ℕ)
    (s : ClientContext × Option ℕ) (h : TlsTrace) : Prop where
  handshaking : Handshaking err h
  budget_eq : s.1.maxRetyCount = budget
  left : s.1.connectRetyCount + n = fuel
  le : s.1.connectRetyCount ≤ budget.toNat
  same : err = sslErrorWantRead ∨ err = sslErrorWantWrite →
    s.2 = cfg.opensslPtr
  first : err = sslErrorSsl → s.1.connectRetyCount = 0

theorem handshakeEnd_failed (hs : Handshaking err h)
    (hbudget : err = sslErrorSsl → budget ≤ 0) (fuel : ℕ)
    (hc : ctx.isRetrySuccess = false) :
    HandshakeEnd err budget fuel h (.done (.ok (cfg, ctx))) := by
  refine ⟨hs.pending, hs.error, hbudget, fun hc' => ?_,
    fun _ => hs.unconnected⟩
  rw [hc] at hc'
  cases hc'

theorem handshakeEnd_connected (hs : Handshaking err h)
    (hbudget : err = sslErrorSsl → budget ≤ 0) (fuel : ℕ) (ssl : Option ℕ)
    (hc : ctx.isRetrySuccess = true) :
    HandshakeEnd err budget fuel (h ++ [⟨.sslConnect ssl, (1 : ℤ)⟩])
      (.done (.ok ({ cfg with opensslPtr := ssl }, ctx))) := by
  refine ⟨?_, ?_, hbudget, fun _ => ⟨?_, ?_⟩, fun hc' => ?_⟩
  · rw [completions_snoc, hs.pending]
    rfl
  · rw [firstError_snoc, hs.error]
    rfl
  · simp
  · simp
  · rw [hc] at hc'
    cases hc'

/-- The new object replaces the old one, and nothing else is known of it. -/
theorem sat_createrNewRetryTls {ψ : TlsTrace → Status α → Prop}
    {next : Option ℕ → TlsTrace → Prop} (hs : Handshaking err h)
    (hcalling : ∀ h, ψ h .calling)
    (hnext : ∀ newTls h, Handshaking err h → next newTls h)
    (badTls ctxTls : Option ℕ) (fd : ℤ) (hostname : Option String) :
    (createrNewRetryTls badTls ctxTls fd hostname).Sat ok
      (Prog.andThen ψ next) h := by
  refine Prog.sat_perform_bind.mpr ⟨hcalling _, fun _ _ => ?_⟩
  refine Prog.sat_perform_bind.mpr ⟨hcalling _, fun newTls _ => ?_⟩
  have hs' := (hs.other (q := .freeSsl badTls) (r := ()) rfl
    fun _ => rfl).other (q := .sslNew ctxTls) (r := newTls) rfl fun _ => rfl
  split
  · exact hnext _ _ hs'
  · refine ⟨hcalling _, fun _ _ => ⟨hcalling _, fun _ _ => ?_⟩⟩
    exact hnext _ _ ((hs'.other rfl fun _ => rfl).other rfl fun _ => rfl)

/-- What an iteration of the retry helper establishes. -/
abbrev RetryIter (cfg : OpensslConfigure) (err budget : ℤ) (fuel n : ℕ) :
    TlsTrace → Status (Iter (ClientContext × Option ℕ) HandshakeResult) →
      Prop :=
  Prog.andThen (HandshakeEnd err budget fuel)
    (Prog.afterIter (HandshakeEnd err budget fuel)
      (RetryingTls cfg err budget fuel n))

theorem handshakeRetrySwitch_spec (ctx : ClientContext)
    (hs : Handshaking err h) {n : ℕ}
    (hbudget : ctx.maxRetyCount = budget)
    (hleft : ctx.connectRetyCount + n = fuel)
    (hle : ctx.connectRetyCount ≤ budget)
    (hpos : err = sslErrorSsl → 0 < budget)
    (hwant : ¬ (err = sslErrorWantRead ∨ err = sslErrorWantWrite))
    (retryTls : Option ℕ) :
    (handshakeRetrySwitch cfg err ctx retryTls).Sat ok
      (RetryIter cfg err budget fuel n) h := by
  have hle' : ctx.connectRetyCount ≤ budget.toNat :=
    hle.trans (Int.self_le_toNat budget)
  have hnext : ∀ h, Handshaking err h → err ≠ sslErrorSsl →
      RetryingTls cfg err budget fuel n (ctx, retryTls) h :=
    fun h hs hssl => ⟨hs, hbudget, hleft, hle', fun hw => absurd hw hwant,
      fun he => absurd he hssl⟩
  rw [handshakeRetrySwitch]
  split
  · rename_i herr
    have hssl : err ≠ sslErrorSsl := by
      rw [herr]
      decide
    refine Prog.sat_perform_bind.mpr ⟨trivial, fun errno _ => ?_⟩
    have hs' := hs.other (q := .errno) (r := errno) rfl fun _ => rfl
    split
    · refine Prog.sat_perform_bind.mpr ⟨trivial, fun ret _ => ?_⟩
      split
      · rename_i hret
        have hfailed := hs'.connectFailed retryTls hret
        split
        · exact handshakeEnd_failed hfailed (fun he => absurd he hssl) fuel rfl
        · refine Prog.sat_perform_bind.mpr ⟨trivial, fun ret' _ => ?_⟩
          exact hnext _ (hfailed.other rfl fun _ => rfl) hssl
      · rename_i hret
        obtain rfl : ret = 1 := not_not.mp hret
        exact handshakeEnd_connected hs' (fun he => absurd he hssl) fuel
          retryTls rfl
    · exact handshakeEnd_failed hs' (fun he => absurd he hssl) fuel rfl
  · split
    · rename_i hssl
      exact ⟨rfl, hs.pending, hs.error, hssl, hpos hssl⟩
    · rename_i hssl
      exact hnext h hs hssl

theorem handshakeRetryStep_spec {n : ℕ} {s : ClientContext × Option ℕ}
    (retryCtx : Option ℕ) (hs : RetryingTls cfg err budget fuel (n + 1) s h) :
    (handshakeRetryStep cfg err retryCtx s).Sat ok
      (RetryIter cfg err budget fuel n) h := by
  obtain ⟨ctx, retryTls⟩ := s
  obtain ⟨hs, hbudget, hleft, hle, hsame, hfirst⟩ := hs
  dsimp only at hbudget hleft hle hsame hfirst
  subst hbudget
  rw [handshakeRetryStep]
  split
  · rename_i hlt
    have hleft' : ctx.connectRetyCount + 1 + n = fuel := by omega
    dsimp only
    split
    · rename_i hwant
      have hssl : err ≠ sslErrorSsl := by
        rcases hwant with rfl | rfl <;> decide
      refine Prog.sat_perform_bind.mpr ⟨trivial, fun ret _ => ?_⟩
      split
      · rename_i hret
        have hfailed := hs.connectFailed retryTls hret
        split
        · exact handshakeEnd_failed hfailed (fun he => absurd he hssl) fuel rfl
        · have hle' : ctx.connectRetyCount + 1 ≤ ctx.maxRetyCount.toNat := by
            omega
          exact ⟨hfailed, rfl, hleft', hle', hsame, fun he => absurd he hssl⟩
      · rename_i hret
        obtain rfl : ret = 1 := not_not.mp hret
        rw [hsame hwant]
        exact handshakeEnd_connected hs (fun he => absurd he hssl) fuel
          cfg.opensslPtr rfl
    · rename_i hwant
      have hpos : err = sslErrorSsl → 0 < ctx.maxRetyCount := by
        intro he
        rw [hfirst he] at hlt
        exact hlt
      refine Prog.sat_bind.mpr (sat_createrNewRetryTls hs (fun _ => trivial)
        (fun newTls h hs => ?_) _ _ _ _)
      exact handshakeRetrySwitch_spec { ctx with
        connectRetyCount := ctx.connectRetyCount + 1 } hs rfl hleft' hlt hpos
        hwant newTls
  · rename_i hlt
    refine handshakeEnd_failed hs (fun he => ?_) fuel rfl
    have := hfirst he
    omega

theorem sslHandshakeRetry_spec (hs : Handshaking err h)
    (hfd : ¬ ctx.socketfd < 0) (retryCtx : Option ℕ) (fuel : ℕ) :
    (sslHandshakeRetry fuel cfg ctx err cfg.opensslPtr retryCtx).Sat ok
      (HandshakeEnd err ctx.maxRetyCount fuel) h := by
  rw [sslHandshakeRetry, if_neg hfd]
  refine Prog.sat_iterate (RetryingTls cfg err ctx.maxRetyCount fuel) ?_ ?_ fuel
    _ h ⟨hs, rfl, Int.zero_add _, Int.natCast_nonneg _, fun _ => rfl,
      fun _ => rfl⟩
  · intro s h hr
    have hleft := hr.left
    have hle := hr.le
    exact ⟨hr.handshaking.pending, by omega⟩
  · intro n s h hr
    exact handshakeRetryStep_spec retryCtx hr

/-- The replies on which the retry helper throws. -/
def ThrowsOn (budget : ℤ) (h : TlsTrace) : Prop :=
  firstError h = some sslErrorSsl ∧ 0 < budget

theorem throwsOn_snoc {q : TlsCall} {r : q.Reply} (hq : errorBy q r = none) :
    ThrowsOn budget (h ++ [⟨q, r⟩]) ↔ ThrowsOn budget h := by
  rw [ThrowsOn, firstError_snoc, hq, Option.or_none, ThrowsOn]

/-- The errors before which `async_try_connect_tls` waits. -/
def Awaited (err : ℤ) : Prop :=
  err = 0 ∨ err = sslErrorWantRead ∨ err = sslErrorWantWrite

theorem Awaited.ne_ssl {err : ℤ} (herr : Awaited err) : err ≠ sslErrorSsl := by
  rcases herr with rfl | rfl | rfl <;> decide

/-- The replies on which it waits for a descriptor that does not fit. -/
def WaitsUnset (fd : ℤ) (h : TlsTrace) : Prop :=
  (∃ err, firstError h = some err ∧ Awaited err) ∧ ¬ FitsFdSet fd

/-- The replies on which it comes to its end. -/
structure Answerable (fd budget : ℤ) (h : TlsTrace) : Prop where
  caught : ¬ ThrowsOn budget h
  fits : ¬ WaitsUnset fd h

theorem answerable_snoc {fd : ℤ} {q : TlsCall} {r : q.Reply}
    (hq : errorBy q r = none) (ha : Answerable fd budget h) :
    Answerable fd budget (h ++ [⟨q, r⟩]) := by
  refine ⟨(throwsOn_snoc hq).not.mpr ha.caught, ?_⟩
  rw [WaitsUnset, firstError_snoc, hq, Option.or_none]
  exact ha.fits

/-- No handshake has failed. -/
theorem answerable_none {fd : ℤ} (hnone : firstError h = none) :
    Answerable fd budget h := by
  constructor
  · rintro ⟨hssl, -⟩
    rw [hnone] at hssl
    cases hssl
  · rintro ⟨⟨err, herr, -⟩, -⟩
    rw [hnone] at herr
    cases herr

theorem answerable_error {fd : ℤ} (herror : firstError h = some err)
    (hbudget : err = sslErrorSsl → budget ≤ 0)
    (hfits : Awaited err → FitsFdSet fd) : Answerable fd budget h := by
  constructor
  · rintro ⟨hssl, hpos⟩
    rw [herror] at hssl
    exact absurd hpos (Int.not_lt.mpr (hbudget (Option.some.inj hssl)))
  · rintro ⟨⟨err', herr', hwait⟩, hfd⟩
    rw [herror] at herr'
    cases herr'
    exact hfd (hfits hwait)

/-- How `async_try_connect_tls` ends. -/
def ConnectTlsEnd (fd budget : ℤ) (fuel : ℕ) (h : TlsTrace) :
    Status (OpensslConfigure × TaskEnd) → Prop
  | .calling => True
  | .stuck => completions h = [] ∧ fuel ≤ budget.toNat
  | .undefined => completions h = [] ∧ WaitsUnset fd h
  | .done (cfg, e) =>
      (ThrowsOn budget h ∧ e = .threw ∧ completions h = []) ∨
      (Answerable fd budget h ∧ e = .returned ∧
        ∃ ec c, completions h = [.connect ec c] ∧
          Outcome ec (latestConnect cfg.opensslPtr h = some 1) h)

theorem sat_submitConnect {fd : ℤ} (hh : completions h = [])
    (ha : Answerable fd budget h) {ec : ErrorCode} {c : ClientContext}
    (ho : Outcome ec (latestConnect cfg.opensslPtr h = some 1)
      (h ++ [⟨.submit (.connect ec c), ()⟩])) :
    (submitTls cfg (.connect ec c)).Sat ok (ConnectTlsEnd fd budget fuel) h := by
  refine ⟨trivial, fun _ _ => Or.inr ⟨?_, rfl, ec, c, ?_, ?_⟩⟩
  · exact answerable_snoc rfl ha
  · rw [completions_snoc, hh]
    rfl
  · rw [latestConnect_snoc]
    exact ho

theorem sat_submitConnect_error {fd : ℤ} (hh : completions h = [])
    (ha : Answerable fd budget h) (herrno : lastErrno h = none)
    {ec : ErrorCode} (hec : ¬ ec.IsZero) (c : ClientContext) :
    (submitTls cfg (.connect ec c)).Sat ok (ConnectTlsEnd fd budget fuel) h :=
  sat_submitConnect hh ha (.error hec ((reportedErrno_submit _).trans herrno))

theorem connectTlsRetry_spec (hs : Handshaking err h)
    (hfd : ¬ ctx.socketfd < 0) (hfits : Awaited err → FitsFdSet ctx.socketfd) :
    (connectTlsRetry fuel cfg ctx err).Sat ok
      (ConnectTlsEnd ctx.socketfd ctx.maxRetyCount fuel) h := by
  rw [connectTlsRetry]
  refine (sslHandshakeRetry_spec hs hfd _ fuel).bind (fun _ _ => trivial)
    (fun _ hst => hst) ?_ fun _ hst => hst.elim
  intro result h hst
  cases result with
  | error e =>
      obtain ⟨rfl, hpending, herror, rfl, hpos⟩ := hst
      exact Or.inl ⟨⟨herror, hpos⟩, rfl, hpending⟩
  | ok result =>
      obtain ⟨cfg', c⟩ := result
      obtain ⟨hpending, herror, hbudget, hsuccess, hfailed⟩ := hst
      have ha : Answerable ctx.socketfd ctx.maxRetyCount h :=
        answerable_error herror hbudget hfits
      dsimp only
      cases hc : c.isRetrySuccess with
      | true =>
          obtain ⟨hlatest, herrno⟩ := hsuccess hc
          have hc' : c.moveConstruct.isRetrySuccess = true := hc
          rw [if_pos hc']
          exact sat_submitConnect hpending ha
            (.success rfl hlatest ((reportedErrno_submit _).trans herrno))
      | false =>
          have hne : ¬ c.moveConstruct.isRetrySuccess = true := by
            rw [ClientContext.moveConstruct, hc]
            exact Bool.false_ne_true
          rw [if_neg hne]
          refine Prog.sat_perform_bind.mpr ⟨trivial, fun errno _ => ?_⟩
          refine sat_submitConnect ?_ (answerable_snoc rfl ha) (.errno ?_ ?_)
          · rw [completions_snoc, hpending]
            rfl
          · rw [reportedErrno_submit, lastErrno_snoc]
            rfl
          · rw [latestConnect_snoc]
            exact hfailed hc cfg'.opensslPtr

theorem connectTlsTask_spec (ctx : ClientContext)
    (hfd : ¬ ctx.socketfd < 0) :
    (connectTlsTask fuel cfg ctx).Sat ok
      (ConnectTlsEnd ctx.socketfd ctx.maxRetyCount fuel) [] := by
  rw [connectTlsTask]
  refine Prog.sat_perform_bind.mpr ⟨trivial, fun ret _ => ?_⟩
  split
  · rename_i hret
    obtain rfl : ret = 1 := hret
    refine sat_submitConnect rfl (answerable_none rfl) (.success rfl ?_ rfl)
    simp [latestConnect]
  · rename_i hret
    split
    · refine Prog.sat_perform_bind.mpr ⟨trivial, fun err _ => ?_⟩
      have hs : Handshaking err ([] ++ [⟨.sslConnect cfg.opensslPtr, ret⟩] ++
          [⟨.sslGetError cfg.opensslPtr ret, err⟩]) := by
        refine ⟨rfl, fun ssl => ?_, rfl⟩
        show (if cfg.opensslPtr = ssl then some ret else none).or none ≠ some 1
        split
        · simpa using hret
        · simp
      split
      · rename_i herr
        refine sat_fdSet_bind ?_ ?_
        · intro hfits
          refine Prog.sat_perform_bind.mpr ⟨trivial, fun wait _ => ?_⟩
          have hs' := hs.other (q := .select ctx.socketfd ctx.timeout)
            (r := wait) rfl fun _ => rfl
          split
          · have ha : Answerable ctx.socketfd ctx.maxRetyCount _ :=
              answerable_error hs'.error
                (fun he => absurd he (Awaited.ne_ssl herr)) fun _ => hfits
            exact sat_submitConnect_error rfl ha rfl
              (makeErrorCode_ne_zero (by decide)) _
          · exact connectTlsRetry_spec hs' hfd fun _ => hfits
        · intro hunfit
          exact ⟨rfl, ⟨err, rfl, herr⟩, hunfit⟩
      · rename_i herr
        exact connectTlsRetry_spec hs hfd fun hwait => absurd hwait herr
    · exact sat_submitConnect_error rfl (answerable_none rfl) rfl
        (makeErrorCode_ne_zero (by decide)) _

theorem asyncTryConnectTls_spec (cfg cfg' : OpensslConfigure)
    (ctx : ClientContext) :
    ((asyncTryConnectTls cfg ctx).run fuel cfg').Sat ok
      (ConnectTlsEnd ctx.socketfd ctx.maxRetyCount fuel) [] := by
  rw [asyncTryConnectTls]
  split
  · exact sat_submitConnect_error rfl (answerable_none rfl) rfl
      (makeErrorCode_ne_zero (by decide)) _
  · rename_i hguard
    exact connectTlsTask_spec ctx.moveConstruct fun hfd =>
      hguard (Or.inl hfd)

/-! ## The creation -/

/-- Nothing has been reported, and every `SSL_new` so far has succeeded. -/
structure Creating (h : TlsTrace) : Prop where
  pending : completions h = []
  created : SslNewSucceeds h

theorem Creating.snoc (hs : Creating h) {q : TlsCall} {r : q.Reply}
    (hc : completedBy q r = []) (hq : refusedBy q r = false) :
    Creating (h ++ [⟨q, r⟩]) := by
  refine ⟨?_, sslNewSucceeds_snoc.mpr ⟨hs.created, hq⟩⟩
  rw [completions_snoc, hs.pending, hc]
  rfl

/-- How `async_create_tls` ends. -/
def CreateTlsEnd (h : TlsTrace) : Status (OpensslConfigure × TaskEnd) → Prop
  | .calling => True
  | .stuck => False
  | .undefined => False
  | .done (cfg, e) => e = .returned ∧ ∃ ec options c,
      completions h = [.create ec options c] ∧
        ((cfg.opensslCtxPtr = none ∧ reportedErrno h = some ec.value ∧
            SslNewSucceeds h) ∨
          (cfg.opensslCtxPtr ≠ none ∧ reportedErrno h = none ∧ ec.IsZero ∧
            (cfg.opensslPtr ≠ none ↔ SslNewSucceeds h)))

theorem Creating.configured (hs : Creating h) {sslCtx : Option ℕ}
    {q : TlsCall} {r : q.Reply} (hq : TlsCall.Configures sslCtx q) :
    Creating (h ++ [⟨q, r⟩]) := by
  cases hq <;> exact hs.snoc rfl rfl

theorem createTlsChecked_spec (cfg : OpensslConfigure)
    (options : OpensslOptions) (ctx : ClientContext) (sslCtx : Option ℕ)
    (hs : Creating h) :
    (createTlsChecked cfg options ctx sslCtx).Sat ok CreateTlsEnd h := by
  rw [createTlsChecked]
  dsimp only
  split
  · rename_i hnone
    refine Prog.sat_perform_bind.mpr ⟨trivial, fun errno _ => ⟨trivial,
      fun _ _ => ⟨rfl, ⟨errno, .system⟩, options, ctx.moveConstruct, ?_,
        Or.inl ⟨hnone, ?_, ?_⟩⟩⟩⟩
    · rw [completions_snoc, completions_snoc, hs.pending]
      rfl
    · rw [reportedErrno_submit, lastErrno_snoc]
      rfl
    · rw [sslNewSucceeds_snoc, sslNewSucceeds_snoc]
      exact ⟨⟨hs.created, rfl⟩, rfl⟩
  · rename_i hsome
    rw [createTls, if_neg hsome]
    refine Prog.sat_bind.mpr (Prog.sat_perform_bind.mpr ⟨trivial,
      fun ssl _ => ⟨trivial, fun _ _ => ⟨trivial, fun _ _ => ?_⟩⟩⟩)
    refine ⟨trivial, fun _ _ => ⟨rfl, {}, options, ctx.moveConstruct, ?_,
      Or.inr ⟨hsome, ?_, rfl, ?_⟩⟩⟩
    · rw [completions_snoc, completions_snoc, completions_snoc,
        completions_snoc, hs.pending]
      rfl
    · rw [reportedErrno_submit, lastErrno_snoc]
      rfl
    · rw [sslNewSucceeds_snoc, sslNewSucceeds_snoc, sslNewSucceeds_snoc,
        sslNewSucceeds_snoc]
      simp [hs.created]

theorem createTlsTask_spec (cfg : OpensslConfigure) (options : OpensslOptions)
    (ctx : ClientContext) :
    (createTlsTask cfg options ctx).Sat ok CreateTlsEnd [] := by
  have hstart : Creating [] := ⟨rfl, fun e he => by cases he⟩
  exact Prog.sat_bind.mpr (sat_createTlsContext (fun _ h => Creating h)
    trivial (fun _ _ => hstart.snoc rfl rfl) (fun _ _ _ => trivial)
    (fun _ _ _ _ hq hs => hs.configured hq)
    (fun _ _ hs => createTlsChecked_spec cfg options ctx none
      (hs.snoc rfl rfl))
    fun sslCtx _ hs => createTlsChecked_spec cfg options ctx sslCtx hs)

theorem asyncCreateTls_spec (cfg cfg' : OpensslConfigure)
    (options : OpensslOptions) (ctx : ClientContext) :
    ((asyncCreateTls cfg options ctx).2.run fuel cfg').Sat ok CreateTlsEnd
      [] := by
  have hinit : cfg.initClientOpenssl.opensslInit = true := by
    rw [OpensslConfigure.initClientOpenssl]
    split
    · assumption
    · rfl
  rw [asyncCreateTls, if_neg (not_not.mpr hinit)]
  exact createTlsTask_spec cfg' options _

/-! ## Success -/

abbrev TlsOutcome : Type := Status (OpensslConfigure × TaskEnd) × TlsTrace

/-- A run of `async_try_connect_tls`: `cfg` is `M_openssl_configure` at the
call, and `cfg'` when the task runs. -/
def connectTlsRun (o : Oracle TlsCall TlsCall.Reply) (fuel : ℕ)
    (cfg cfg' : OpensslConfigure) (ctx : ClientContext) : TlsOutcome :=
  ((asyncTryConnectTls cfg ctx).run fuel cfg').exec o []

/-- A run of `async_create_tls`. -/
def createTlsRun (o : Oracle TlsCall TlsCall.Reply) (fuel : ℕ)
    (cfg cfg' : OpensslConfigure) (options : OpensslOptions)
    (ctx : ClientContext) : TlsOutcome :=
  ((asyncCreateTls cfg options ctx).2.run fuel cfg').exec o []

/-- A callback of the handshake without an error means that the latest
`SSL_connect` on the object there then is has succeeded. -/
def HandshakeTruthful (run : TlsOutcome) : Prop :=
  ∀ cfg e ec c, run.1 = .done (cfg, e) →
    .connect ec c ∈ completions run.2 → ec.IsZero →
    latestConnect cfg.opensslPtr run.2 = some 1

/-- A callback of the creation without an error means that the context and the
object exist. -/
def CreationTruthful (run : TlsOutcome) : Prop :=
  ∀ cfg e ec options c, run.1 = .done (cfg, e) →
    .create ec options c ∈ completions run.2 → ec.IsZero →
    cfg.opensslCtxPtr ≠ none ∧ cfg.opensslPtr ≠ none

theorem ConnectTlsEnd.truthful_iff
    {fd : ℤ} {run : TlsOutcome}
    (hend : ConnectTlsEnd fd budget fuel run.2 run.1) (hne : run.1 ≠ .calling) :
    HandshakeTruthful run ↔ reportedErrno run.2 ≠ some 0 := by
  obtain ⟨st, h⟩ := run
  have hpending : completions h = [] →
      (HandshakeTruthful (st, h) ↔ reportedErrno h ≠ some 0) := by
    intro hh
    refine iff_of_true (fun cfg e ec c _ hmem => ?_) ?_
    · rw [hh] at hmem
      cases hmem
    · rw [reportedErrno_pending hh]
      nofun
  cases st with
  | calling => exact absurd rfl hne
  | stuck => exact hpending hend.1
  | undefined => exact hpending hend.1
  | done result =>
      obtain ⟨cfg, e⟩ := result
      rcases hend with ⟨-, -, hh⟩ | ⟨-, rfl, ec, c, hcomp, ho⟩
      · exact hpending hh
      · rw [← ho.truthful_iff]
        constructor
        · intro ht
          exact ht cfg _ ec c rfl (by rw [hcomp]; exact List.mem_singleton_self _)
        · intro hgood cfg' e' ec' c' heq hmem hzero
          rw [hcomp] at hmem
          obtain ⟨rfl, rfl⟩ := TlsCompletion.connect.inj
            (List.mem_singleton.mp hmem)
          obtain ⟨rfl, -⟩ := Prod.mk.inj (Status.done.inj heq)
          exact hgood hzero

theorem CreateTlsEnd.truthful_iff
    {run : TlsOutcome}
    (hend : CreateTlsEnd run.2 run.1) (hne : run.1 ≠ .calling) :
    CreationTruthful run ↔
      reportedErrno run.2 ≠ some 0 ∧ SslNewSucceeds run.2 := by
  obtain ⟨st, h⟩ := run
  cases st with
  | calling => exact absurd rfl hne
  | stuck => exact hend.elim
  | undefined => exact hend.elim
  | done result =>
      obtain ⟨cfg, e⟩ := result
      obtain ⟨-, ec, options, c, hcomp, hend⟩ := hend
      have htruthful : CreationTruthful (.done (cfg, e), h) ↔
          (ec.IsZero → cfg.opensslCtxPtr ≠ none ∧ cfg.opensslPtr ≠ none) := by
        constructor
        · intro ht
          exact ht cfg e ec options c rfl
            (by rw [hcomp]; exact List.mem_singleton_self _)
        · intro hgood cfg' e' ec' options' c' heq hmem hzero
          rw [hcomp] at hmem
          obtain ⟨rfl, -⟩ := TlsCompletion.create.inj
            (List.mem_singleton.mp hmem)
          obtain ⟨rfl, -⟩ := Prod.mk.inj (Status.done.inj heq)
          exact hgood hzero
      rw [htruthful]
      rcases hend with ⟨hctx, hreported, hnew⟩ | ⟨hctx, hreported, hzero, hptr⟩
      · simp [hctx, hreported, hnew, ErrorCode.IsZero]
      · simp [hctx, hreported, hzero, ← hptr]

/-- **When a TLS callback without an error is to be believed.** For every
sequence of replies, every retry budget and whatever `M_openssl_configure`
holds when the task runs: the callback of a handshake, exactly if its error
code is not made from an `errno` of 0; the callback of a creation, exactly if
besides no `SSL_new` has failed. -/
theorem tls_truthful_iff (o : Oracle TlsCall TlsCall.Reply) (fuel : ℕ)
    (cfg cfg' : OpensslConfigure) (options : OpensslOptions)
    (ctx : ClientContext) :
    (HandshakeTruthful (connectTlsRun o fuel cfg cfg' ctx) ↔
      reportedErrno (connectTlsRun o fuel cfg cfg' ctx).2 ≠ some 0) ∧
    (CreationTruthful (createTlsRun o fuel cfg cfg' options ctx) ↔
      reportedErrno (createTlsRun o fuel cfg cfg' options ctx).2 ≠ some 0 ∧
        SslNewSucceeds (createTlsRun o fuel cfg cfg' options ctx).2) := by
  have hany : o.Obeys fun _ _ _ => True := fun _ _ => trivial
  refine ⟨?_, ?_⟩
  · exact ((asyncTryConnectTls_spec cfg cfg' ctx).exec hany).truthful_iff
      (Prog.exec_ne_calling _ o [])
  · exact ((asyncCreateTls_spec cfg cfg' options ctx).exec hany).truthful_iff
      (Prog.exec_ne_calling _ o [])

/-- A connection whose handshake wants more data and whose default CA
certificates cannot be loaded, while `errno` is 0. -/
def errnoUnset : Oracle TlsCall TlsCall.Reply := fun h q =>
  match q with
  | .sslCtxSetDefaultVerifyPaths _ => (0 : ℤ)
  | .sslConnect _ => (-1 : ℤ)
  | .sslGetError _ _ => sslErrorWantRead
  | q => willingPeer h q

/-- With a retry budget of 2 the handshake fails three times and is reported as
a success; so is a creation that leaves no context. -/
theorem tls_untruthful :
    let cfg : OpensslConfigure := { opensslPtr := some 2, opensslCtxPtr := some 1 }
    let ctx := { connected with maxRetyCount := 2 }
    let handshake := connectTlsRun errnoUnset 9 cfg cfg ctx
    let creation := createTlsRun errnoUnset 9 .default .default {} ctx
    ((completions handshake.2).map TlsCompletion.ec = [{}] ∧
        latestConnect (some 2) handshake.2 = some (-1)) ∧
      ((completions creation.2).map TlsCompletion.ec = [{}] ∧
        creation.1 = .done (.default, .returned)) ∧
      ¬ ∀ (o : Oracle TlsCall TlsCall.Reply) (fuel : ℕ)
        (cfg cfg' : OpensslConfigure) (options : OpensslOptions)
        (ctx : ClientContext),
        HandshakeTruthful (connectTlsRun o fuel cfg cfg' ctx) ∧
          CreationTruthful (createTlsRun o fuel cfg cfg' options ctx) := by
  refine ⟨by decide +kernel, by decide +kernel, fun hall => ?_⟩
  let cfg : OpensslConfigure := { opensslPtr := some 2, opensslCtxPtr := some 1 }
  let ctx := { connected with maxRetyCount := 2 }
  have h := (hall errnoUnset 9 cfg cfg {} ctx).1 cfg .returned {} ctx
    (by decide +kernel) (by decide +kernel) (by decide)
  exact absurd h (by decide +kernel)

end

end Mtasc
