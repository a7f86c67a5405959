import Mtasc.Client.Connect
import Mtasc.Lib.Events
import Mtasc.Tls.Handshake

/-!
# Failures while connecting

Each operation of the connection phase submits its callback exactly once and
returns, unless something escapes: a resolver that fails throws out of its
constructor, which stands in front of the `try`; `M_tryIpaddrs` throws where a
`socket` fails, outside of any `try`; and the retry helper of the handshake
throws on `SSL_ERROR_SSL`, in a task of the pool. Nor does an answer come where
a connection or a handshake would wait for a descriptor that does not fit into
an `fd_set`.
-/

namespace Mtasc

open Lib

namespace ConnectTrace

@[simp] def unresolvedBy : (q : ConnectCall) → q.Reply → Bool
  | .getaddrinfo _ _ _, addrinfo => addrinfo = none
  | _, _ => false

/-- No `getaddrinfo` fails. -/
def HostResolves (h : ConnectTrace) : Prop :=
  ∀ e ∈ h, unresolvedBy e.1 e.2 = false

@[simp] def unopenedBy : (q : ConnectCall) → q.Reply → Bool
  | .socket _, fd => fd = -1
  | _, _ => false

/-- No `socket` fails. -/
def SocketsOpen (h : ConnectTrace) : Prop :=
  ∀ e ∈ h, unopenedBy e.1 e.2 = false

/-- A connection that is made non-blocking, is refused, and has a descriptor
that does not fit into an `fd_set`. -/
def Unsettable : ConnectTrace → (q : ConnectCall) → q.Reply → Prop
  | h, .connect fd _, result => result < 0 ∧ ¬ FitsFdSet fd ∧
      Latest (fun q _ => q = .setFcntl fd) h
  | _, _, _ => False

/-- The replies on which a connection comes to its end. -/
structure Connectable (h : ConnectTrace) : Prop where
  opened : SocketsOpen h
  settable : ¬ Ever Unsettable h

@[simp] theorem hostResolves_snoc {h : ConnectTrace} {q : ConnectCall}
    {r : q.Reply} :
    HostResolves (h ++ [⟨q, r⟩]) ↔
      HostResolves h ∧ unresolvedBy q r = false := by
  simp only [HostResolves, List.forall_mem_append, List.forall_mem_singleton]

@[simp] theorem socketsOpen_snoc {h : ConnectTrace} {q : ConnectCall}
    {r : q.Reply} :
    SocketsOpen (h ++ [⟨q, r⟩]) ↔ SocketsOpen h ∧ unopenedBy q r = false := by
  simp only [SocketsOpen, List.forall_mem_append, List.forall_mem_singleton]

theorem Connectable.snoc {h : ConnectTrace} {q : ConnectCall} {r : q.Reply}
    (hc : Connectable h) (hopen : unopenedBy q r = false)
    (hset : ¬ Unsettable h q r) : Connectable (h ++ [⟨q, r⟩]) where
  opened := socketsOpen_snoc.mpr ⟨hc.opened, hopen⟩
  settable := by
    rw [ever_snoc]
    exact not_or.mpr ⟨hc.settable, hset⟩

/-- Behind another call than `socket_setFcntl` a `connect` may fail. -/
theorem not_unsettable {h : ConnectTrace} {q : ConnectCall} {r : q.Reply}
    (hq : ∀ fd, q ≠ .setFcntl fd) (q' : ConnectCall) (r' : q'.Reply) :
    ¬ Unsettable (h ++ [⟨q, r⟩]) q' r' := by
  cases q' with
  | connect fd addr =>
      rintro ⟨-, -, hlatest⟩
      exact hq fd (latest_snoc.mp hlatest)
  | _ => exact id

end ConnectTrace

open ConnectTrace

/-- The operation has returned, and has submitted its callback once. -/
def Answered (run : Status CallEnd × ConnectTrace) : Prop :=
  (∃ code, run.1 = .done (.returned code)) ∧ ∃ s, completions run.2 = [s]

/-- The operation and its task have returned, and its callback has been
submitted once. -/
def AnsweredTls (run : TlsOutcome) : Prop :=
  (∃ cfg, run.1 = .done (cfg, .returned)) ∧
    ∃ s, TlsTrace.completions run.2 = [s]

/-- How an operation ends that answers exactly if `good` holds of its replies,
given `bound` iterations. -/
def AnswersIf (good : ConnectTrace → Prop) (bound fuel : ℕ)
    (h : ConnectTrace) : Status CallEnd → Prop
  | .calling => True
  | .stuck => fuel < bound
  | .undefined => ¬ good h
  | .done e => (good h ∧ (∃ code, e = .returned code) ∧
      ∃ s, completions h = [s]) ∨ (¬ good h ∧ e = .threw)

section

variable {ok : ConnectTrace → (q : ConnectCall) → q.Reply → Prop}
variable {good : ConnectTrace → Prop} {bound fuel : ℕ}
variable {ctx : ClientContext} {h : ConnectTrace}

theorem AnswersIf.answered_iff {run : Status CallEnd × ConnectTrace}
    (hend : AnswersIf good bound fuel run.2 run.1) (hne : run.1 ≠ .calling)
    (hfuel : bound ≤ fuel) : Answered run ↔ good run.2 := by
  obtain ⟨st, h⟩ := run
  cases st with
  | calling => exact absurd rfl hne
  | stuck => exact absurd hend (Nat.not_lt.mpr hfuel)
  | undefined =>
      refine iff_of_false ?_ hend
      rintro ⟨⟨code, hcode⟩, -⟩
      cases hcode
  | done e =>
      rcases hend with ⟨hgood, ⟨code, rfl⟩, hs⟩ | ⟨hbad, rfl⟩
      · exact iff_of_true ⟨⟨code, rfl⟩, hs⟩ hgood
      · refine iff_of_false ?_ hbad
        rintro ⟨⟨code, hcode⟩, -⟩
        cases hcode

theorem sat_submitContext (hh : completions h = []) {ec : ErrorCode}
    {code : ℤ} (hgood : good (h ++ [⟨.submit ec ctx.moveConstruct, ()⟩])) :
    (submitContext ec ctx code).Sat ok (AnswersIf good bound fuel) h := by
  refine ⟨trivial, fun _ _ => Or.inl ⟨hgood, ⟨code, rfl⟩,
    (ec, ctx.moveConstruct), ?_⟩⟩
  rw [completions_snoc, hh]
  rfl

/-! ## The resolver -/

theorem hostResolves_nil : HostResolves [] := by
  intro e he
  cases he

theorem resolveFamily_answers (family : ℤ) (host : String)
    (ctx : ClientContext) (fuel : ℕ) :
    (resolveFamily family host ctx).Sat ok (AnswersIf HostResolves 0 fuel)
      [] := by
  rw [resolveFamily]
  refine Prog.sat_perform_bind.mpr ⟨trivial, fun addrinfo _ => ?_⟩
  cases addrinfo with
  | none =>
      refine Or.inr ⟨fun hgood => ?_, rfl⟩
      exact Bool.noConfusion (hostResolves_snoc.mp hgood).2
  | some addrs =>
      have hgood : HostResolves ([] ++
          [⟨.getaddrinfo host ctx.addrsPort family, some addrs⟩]) :=
        hostResolves_snoc.mpr ⟨hostResolves_nil, rfl⟩
      cases addrs with
      | nil =>
          exact sat_submitContext rfl (hostResolves_snoc.mpr ⟨hgood, rfl⟩)
      | cons addr rest =>
          refine Prog.sat_perform_bind.mpr ⟨trivial, fun fd _ => ?_⟩
          have hopen := hostResolves_snoc (q := .socket addr) (r := fd) |>.mpr
            ⟨hgood, rfl⟩
          dsimp only
          split
          · exact sat_submitContext rfl (hostResolves_snoc.mpr ⟨hopen, rfl⟩)
          · exact sat_submitContext rfl (hostResolves_snoc.mpr ⟨hopen, rfl⟩)

theorem asyncResolverDomain_answers (ctx : ClientContext) (timeout : UInt16)
    (enableIpv6 : Bool) (maxRetCount : ℤ) (fuel : ℕ) :
    (asyncResolverDomain ctx timeout enableIpv6 maxRetCount).Sat ok
      (AnswersIf HostResolves 0 fuel) [] := by
  have hinvalid : HostResolves ([] ++
      [⟨.submit (makeErrorCode einval) ctx.moveConstruct, ()⟩]) :=
    hostResolves_snoc.mpr ⟨hostResolves_nil, rfl⟩
  rw [asyncResolverDomain]
  split
  · exact sat_submitContext rfl hinvalid
  · split
    · exact sat_submitContext rfl hinvalid
    · dsimp only
      split
      · exact resolveFamily_answers _ _ _ fuel
      · exact resolveFamily_answers _ _ _ fuel

/-! ## The connection -/

/-- Nothing has been submitted, and nothing has escaped. -/
structure Connecting (h : ConnectTrace) : Prop where
  pending : completions h = []
  connectable : Connectable h

theorem Connecting.snoc (hs : Connecting h) {q : ConnectCall} {r : q.Reply}
    (hc : completedBy q r = []) (hq : unopenedBy q r = false)
    (hset : ¬ Unsettable h q r) : Connecting (h ++ [⟨q, r⟩]) := by
  refine ⟨?_, hs.connectable.snoc hq hset⟩
  rw [completions_snoc, hs.pending, hc]
  rfl

theorem Connecting.submit (hs : Connecting h) (ec : ErrorCode)
    (ctx : ClientContext) (code : ℤ) :
    (submitContext ec ctx code).Sat ok (AnswersIf Connectable bound fuel) h :=
  sat_submitContext hs.pending (hs.connectable.snoc rfl id)

theorem Connecting.errno (hs : Connecting h) (errno : ℤ) :
    Connecting (h ++ [⟨.errno, errno⟩]) := hs.snoc rfl rfl id

theorem Connecting.submitErrno (hs : Connecting h) (ctx : ClientContext)
    (code : ℤ) :
    (do
      let errno ← connectPerform .errno
      submitContext ⟨errno, .system⟩ ctx code : ConnectNet CallEnd).Sat ok
        (AnswersIf Connectable bound fuel) h :=
  Prog.sat_perform_bind.mpr ⟨trivial, fun errno _ =>
    (hs.errno errno).submit _ ctx code⟩

/-- What the retries depend on. -/
structure SameBudget (ctx c : ClientContext) : Prop where
  addrs : c.resovlerAddrs = ctx.resovlerAddrs
  count : c.connectRetyCount = ctx.connectRetyCount
  budget : c.maxRetyCount = ctx.maxRetyCount

/-- How `M_tryIpaddrs` ends. -/
def TriedEnd (ctx : ClientContext) (h : ConnectTrace) :
    Status (Except CallEnd ClientContext) → Prop
  | .calling => True
  | .stuck => False
  | .undefined => False
  | .done (.ok c) => Connecting h ∧ SameBudget ctx c
  | .done (.error e) => ¬ Connectable h ∧ e = .threw

theorem tryIpaddrsFrom_end (addrs : List Addrinfo) (hs : Connecting h) :
    (tryIpaddrsFrom ctx addrs).Sat ok (TriedEnd ctx) h := by
  have hopened : ∀ {h : ConnectTrace} (addr : Addrinfo) {testFd : ℤ} (result : ℤ),
      Connecting h → testFd ≠ -1 →
      Connecting (h ++ [⟨.socket addr, testFd⟩] ++
        [⟨.connect testFd addr, result⟩]) := by
    intro h addr testFd result hs hfd
    have hs₁ := hs.snoc (q := .socket addr) (r := testFd) rfl
      (decide_eq_false hfd) id
    exact hs₁.snoc rfl rfl (not_unsettable (by simp) _ _)
  refine sat_tryIpaddrsFrom (fun _ h => Connecting h)
    ?_ ?_ ?_ ?_ ?_ ?_ ?_ ?_ addrs hs
  · intro _ h _
    trivial
  · intro _ _ h hs _
    exact hs
  · intro addr _ h hs _
    refine ⟨fun hgood => ?_, rfl⟩
    exact Bool.noConfusion (socketsOpen_snoc.mp hgood.opened).2
  · intro _ _ h _ _ _
    trivial
  · intro _ _ h _ _ _ _
    trivial
  · intro addr _ h testFd hs _ hfd
    exact ⟨(hopened addr 0 hs hfd).snoc rfl rfl id, rfl, rfl, rfl⟩
  · intro addr _ h testFd result hs _ hfd _
    exact (hopened addr result hs hfd).snoc rfl rfl id
  · intro h hs
    exact ⟨hs, rfl, rfl, rfl⟩

/-- The limit of `M_retryTcpConnect`. -/
def ClientContext.retryLimit (ctx : ClientContext) : ℤ :=
  if ctx.maxRetyCount ≤ 0 then 10 else ctx.maxRetyCount

/-- The iterations that a connection takes at most. -/
def ClientContext.connectBound (ctx : ClientContext) : ℕ :=
  (ctx.retryLimit - ctx.connectRetyCount).toNat + 1

/-- How `M_retryTcpConnect` ends: never by dereferencing a null pointer. -/
def RetriedEnd (bound fuel : ℕ) (h : ConnectTrace) :
    Status (Except CallEnd ClientContext) → Prop
  | .calling => True
  | .stuck => fuel < bound
  | .undefined => False
  | .done (.ok _) => Connecting h
  | .done (.error _) => False

/-- The invariant of its loop, with `n` iterations left. -/
structure RetryingTcp (count limit : ℤ) (fuel n : ℕ) (c : ClientContext)
    (h : ConnectTrace) : Prop where
  connecting : Connecting h
  addrs : c.resovlerAddrs ≠ []
  budget : c.maxRetyCount = limit
  left : c.connectRetyCount + n = count + fuel
  le : c.connectRetyCount ≤ max limit count

theorem retryTcpConnectStep_end {count limit : ℤ} {n : ℕ} {c : ClientContext}
    (hr : RetryingTcp count limit fuel (n + 1) c h) :
    (retryTcpConnectStep c).Sat ok
      (Prog.andThen (RetriedEnd bound fuel)
        (Prog.afterIter (RetriedEnd bound fuel)
          (RetryingTcp count limit fuel n))) h := by
  obtain ⟨hs, haddrs, rfl, hleft, hle⟩ := hr
  rw [retryTcpConnectStep]
  split
  · rename_i hlt
    refine Prog.sat_perform_bind.mpr ⟨trivial, fun errno _ => ?_⟩
    have hs₁ := hs.errno errno
    split
    · exact hs₁
    · split
      · dsimp only
        cases hc : c.resovlerAddrs with
        | nil => exact absurd hc haddrs
        | cons addr rest =>
            refine Prog.sat_perform_bind.mpr ⟨trivial, fun result _ => ?_⟩
            have hs₂ := hs₁.snoc (q := .connect c.socketfd addr) (r := result)
              rfl rfl (not_unsettable (by simp) _ _)
            split
            · split
              · exact hs₂
              · refine ⟨hs₂, ?_, rfl, by push_cast at hleft ⊢; omega, ?_⟩
                · exact List.cons_ne_nil _ _
                · exact le_max_of_le_left hlt
            · exact hs₂
      · exact hs₁
  · exact hs

theorem retryTcpConnect_end (hs : Connecting h) (haddrs : ctx.resovlerAddrs ≠ [])
    (errnoCopy : ℤ) (fuel : ℕ) :
    (retryTcpConnect fuel ctx errnoCopy).Sat ok
      (RetriedEnd ctx.connectBound fuel) h := by
  have hloop : ∀ c : ClientContext, c.resovlerAddrs = ctx.resovlerAddrs →
      c.connectRetyCount = ctx.connectRetyCount →
      c.maxRetyCount = ctx.retryLimit →
      (Prog.iterate retryTcpConnectStep fuel c).Sat ok
        (RetriedEnd ctx.connectBound fuel) h := by
    intro c hsame hcount hlimit
    refine Prog.sat_iterate (RetryingTcp ctx.connectRetyCount ctx.retryLimit
      fuel) (fun c h hr => ?_) (fun n c h hr => retryTcpConnectStep_end hr) fuel
      c h ⟨hs, hsame ▸ haddrs, hlimit, by rw [hcount], ?_⟩
    · have hleft := hr.left
      have hle := hr.le
      show fuel < ctx.connectBound
      unfold ClientContext.connectBound
      omega
    · rw [hcount]
      exact le_max_right _ _
  rw [retryTcpConnect]
  refine (hloop _ ?_ ?_ ?_).bind (fun _ _ => trivial) (fun _ hst => hst) ?_
    fun _ hst => hst
  · split <;> rfl
  · split <;> rfl
  · unfold ClientContext.retryLimit
    split <;> rfl
  · intro result h hst
    cases result with
    | error e => exact hst.elim
    | ok c => exact hst

theorem connectSelectFailed_answers (hs : Connecting h)
    (haddrs : ctx.resovlerAddrs ≠ []) :
    (connectSelectFailed fuel ctx).Sat ok
      (AnswersIf Connectable ctx.connectBound fuel) h := by
  rw [connectSelectFailed]
  refine Prog.sat_perform_bind.mpr ⟨trivial, fun errno _ => ?_⟩
  have hs₁ := hs.errno errno
  split
  · exact hs₁.submit _ ctx (-1)
  · refine (retryTcpConnect_end hs₁ haddrs errno fuel).bind (fun _ _ => trivial)
      (fun _ hst => hst) ?_ fun _ hst => hst.elim
    intro result h hst
    cases result with
    | error e => exact hst.elim
    | ok c =>
        have hs₂ : Connecting h := hst
        dsimp only
        split
        · exact hs₂.submit _ _ 2
        · exact hs₂.submitErrno _ (-1)

theorem connectResolved_answers (hs : Connecting h)
    (haddrs : ctx.resovlerAddrs ≠ []) :
    (connectResolved fuel ctx).Sat ok
      (AnswersIf Connectable ctx.connectBound fuel) h := by
  rw [connectResolved]
  split
  · rename_i hnil
    exact absurd hnil haddrs
  · rename_i addr rest hcons
    refine Prog.sat_perform_bind.mpr ⟨trivial, fun _ _ => ?_⟩
    have hs₁ := hs.snoc (q := .setFcntl ctx.socketfd) (r := ()) rfl rfl id
    refine Prog.sat_perform_bind.mpr ⟨trivial, fun connectRet _ => ?_⟩
    split
    · rename_i hrefused
      refine sat_fdSet_bind ?_ ?_
      · intro hfits
        have hs₂ := hs₁.snoc (q := .connect ctx.socketfd addr) (r := connectRet)
          rfl rfl fun hunset => hunset.2.1 hfits
        refine Prog.sat_perform_bind.mpr ⟨trivial, fun selectRet _ => ?_⟩
        have hs₃ := hs₂.snoc (q := .select ctx.socketfd ctx.timeout)
          (r := selectRet) rfl rfl id
        split
        · exact connectSelectFailed_answers hs₃ haddrs
        · split
          · exact hs₃.submit _ ctx (-1)
          · exact hs₃.submit _ ctx 1
      · intro hunfit hgood
        refine hgood.settable (ever_snoc.mpr (Or.inr ⟨hrefused, hunfit, ?_⟩))
        exact latest_snoc.mpr rfl
    · rename_i haccepted
      have hs₂ := hs₁.snoc (q := .connect ctx.socketfd addr) (r := connectRet)
        rfl rfl fun hunset => haccepted hunset.1
      exact hs₂.submit _ ctx 1

theorem asyncTryConnectTcp_answers (ctx : ClientContext) (fuel : ℕ) :
    (asyncTryConnectTcp fuel ctx).Sat ok
      (AnswersIf Connectable ctx.connectBound fuel) [] := by
  have hstart : Connecting [] := by
    refine ⟨rfl, ?_, not_ever_nil⟩
    intro e he
    cases he
  rw [asyncTryConnectTcp]
  split
  · exact hstart.submit _ ctx (-1)
  · rename_i hguard
    have haddrs : ctx.resovlerAddrs ≠ [] := fun hnil => hguard (Or.inr hnil)
    split
    · exact hstart.submit _ ctx (-1)
    · rw [tryIpaddrs, if_neg haddrs]
      refine (tryIpaddrsFrom_end _ hstart).bind (fun _ _ => trivial)
        (fun _ hst => hst.elim) ?_ fun _ hst => hst.elim
      intro result h hst
      cases result with
      | error e => exact Or.inr hst
      | ok c =>
          obtain ⟨hs, hsame⟩ := hst
          dsimp only
          split
          · exact hs.submit _ _ (-1)
          · have hbound : c.connectBound = ctx.connectBound := by
              unfold ClientContext.connectBound ClientContext.retryLimit
              rw [hsame.count, hsame.budget]
            rw [← hbound]
            exact connectResolved_answers hs (hsame.addrs ▸ haddrs)

/-! ## All three -/

theorem ConnectTlsEnd.answered_iff {fd budget : ℤ} {run : TlsOutcome}
    (hend : ConnectTlsEnd fd budget fuel run.2 run.1) (hne : run.1 ≠ .calling)
    (hfuel : budget.toNat < fuel) :
    AnsweredTls run ↔ Answerable fd budget run.2 := by
  obtain ⟨st, h⟩ := run
  cases st with
  | calling => exact absurd rfl hne
  | stuck => exact absurd hend.2 (Nat.not_le.mpr hfuel)
  | undefined =>
      refine iff_of_false ?_ fun ha => ha.fits hend.2
      rintro ⟨⟨cfg, hcfg⟩, -⟩
      cases hcfg
  | done result =>
      obtain ⟨cfg, e⟩ := result
      rcases hend with ⟨hthrows, rfl, -⟩ | ⟨ha, rfl, ec, c, hcomp, -⟩
      · refine iff_of_false ?_ fun ha => ha.caught hthrows
        rintro ⟨⟨cfg', hcfg⟩, -⟩
        cases hcfg
      · exact iff_of_true ⟨⟨cfg, rfl⟩, _, hcomp⟩ ha

/-- **When a failure arrives through the callback.** Given the iterations it
needs, each operation returns with exactly one callback submitted: the
resolver, exactly if `getaddrinfo` does not fail; the connection, exactly if no
`socket` fails while addresses are tried and it is not refused on a descriptor
that does not fit into an `fd_set`; the handshake, exactly if its first error is
neither `SSL_ERROR_SSL`, unless there are no retries, nor one to wait for on
such a descriptor. -/
theorem connecting_answered_iff (o : Oracle ConnectCall ConnectCall.Reply)
    (o' : Oracle TlsCall TlsCall.Reply) (ctx : ClientContext)
    (timeout : UInt16) (enableIpv6 : Bool) (maxRetCount : ℤ)
    (cfg cfg' : OpensslConfigure) (more : ℕ) :
    let resolver := (asyncResolverDomain ctx timeout enableIpv6
      maxRetCount).exec o []
    let connection :=
      (asyncTryConnectTcp (ctx.connectBound + more) ctx).exec o []
    let handshake :=
      connectTlsRun o' (ctx.maxRetyCount.toNat + 1 + more) cfg cfg' ctx
    (Answered resolver ↔ HostResolves resolver.2) ∧
      (Answered connection ↔
        SocketsOpen connection.2 ∧ ¬ Ever Unsettable connection.2) ∧
      (AnsweredTls handshake ↔ ¬ ThrowsOn ctx.maxRetyCount handshake.2 ∧
        ¬ WaitsUnset ctx.socketfd handshake.2) := by
  have hany : o.Obeys fun _ _ _ => True := fun _ _ => trivial
  have hany' : o'.Obeys fun _ _ _ => True := fun _ _ => trivial
  intro resolver connection handshake
  refine ⟨?_, ?_, ?_⟩
  · exact ((asyncResolverDomain_answers ctx timeout enableIpv6 maxRetCount
      0).exec hany).answered_iff (Prog.exec_ne_calling _ o []) (le_refl 0)
  · have hanswers : Answered connection ↔ Connectable connection.2 :=
      ((asyncTryConnectTcp_answers ctx _).exec hany).answered_iff
        (Prog.exec_ne_calling _ o []) (Nat.le_add_right _ _)
    rw [hanswers]
    exact ⟨fun hc => ⟨hc.opened, hc.settable⟩, fun hc => ⟨hc.1, hc.2⟩⟩
  · have hanswers : AnsweredTls handshake ↔
        Answerable ctx.socketfd ctx.maxRetyCount handshake.2 :=
      ((asyncTryConnectTls_spec cfg cfg' ctx).exec hany').answered_iff
        (Prog.exec_ne_calling _ o' []) (by omega)
    rw [hanswers]
    exact ⟨fun ha => ⟨ha.caught, ha.fits⟩, fun ha => ⟨ha.1, ha.2⟩⟩

/-- A machine without a name server and without a descriptor left. -/
def exhausted : Oracle ConnectCall ConnectCall.Reply := fun _ q =>
  match q with
  | .getaddrinfo _ _ _ => none
  | .socket _ => (-1 : ℤ)
  | .connect _ _ => (-1 : ℤ)
  | .select _ _ => (-1 : ℤ)
  | .errno => eio
  | .setFcntl _ => ()
  | .setReuseaddr _ => ()
  | .close _ => ()
  | .submit _ _ => ()

/-- A peer whose certificate does not verify. -/
def untrusted : Oracle TlsCall TlsCall.Reply := fun h q =>
  match q with
  | .sslConnect _ => (-1 : ℤ)
  | .sslGetError _ _ => sslErrorSsl
  | q => willingPeer h q

/-- On these each of the three throws, with no callback submitted. -/
theorem connecting_unanswered :
    let ctx := { connected with
      addrsHost := some "localhost", maxRetyCount := 2 }
    let cfg : OpensslConfigure := { opensslPtr := some 2, opensslCtxPtr := some 1 }
    let resolver := (asyncResolverDomain ctx 20 false 2).exec exhausted []
    let connection := (asyncTryConnectTcp 9 ctx).exec exhausted []
    let handshake := connectTlsRun untrusted 9 cfg cfg ctx
    (resolver.1 = .done .threw ∧ completions resolver.2 = []) ∧
      (connection.1 = .done .threw ∧ completions connection.2 = []) ∧
      (handshake.1 = .done (cfg, .threw) ∧
        TlsTrace.completions handshake.2 = []) ∧
      ¬ ∀ (o : Oracle ConnectCall ConnectCall.Reply)
        (o' : Oracle TlsCall TlsCall.Reply) (ctx : ClientContext)
        (timeout : UInt16) (enableIpv6 : Bool) (maxRetCount : ℤ)
        (cfg cfg' : OpensslConfigure), ∃ fuel,
        Answered ((asyncResolverDomain ctx timeout enableIpv6
            maxRetCount).exec o []) ∧
          Answered ((asyncTryConnectTcp fuel ctx).exec o []) ∧
          AnsweredTls (connectTlsRun o' fuel cfg cfg' ctx) := by
  refine ⟨by decide +kernel, by decide +kernel, by decide +kernel,
    fun hall => ?_⟩
  let ctx := { connected with
    addrsHost := some "localhost", maxRetyCount := 2 }
  obtain ⟨fuel, ⟨⟨code, hcode⟩, -⟩, -⟩ := hall exhausted untrusted ctx 20 false 2
    .default .default
  have hthrew : ((asyncResolverDomain ctx 20 false 2).exec exhausted []).1 =
      .done .threw := by decide +kernel
  rw [hthrew] at hcode
  cases hcode

end

end Mtasc
