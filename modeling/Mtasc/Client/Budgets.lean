import Mtasc.Client.Connect
import Mtasc.Client.Lossless
import Mtasc.Client.RetryTls
import Mtasc.Tls.Socket

/-!
# The retry budgets

Five helpers try a call again in a loop: three over TCP, two over TLS. Each
path through an iteration back to the head of its loop has counted, and has
made one attempt at most, so each helper is an instance of
`sat_iterate_budget` with the attempts it has left for its measure. The TCP
helpers replace a budget that is not positive by ten; the TLS helpers make no
attempt with it.

A helper that dereferences a null pointer neither returns nor throws. The
helpers that read do so without a buffer, and the connect without an address;
the TLS read may also wait for a descriptor that does not fit into an `fd_set`.
What they rely on is a condition `p` of the results, and not of the counts.
-/

namespace Mtasc

open Lib

/-! ## Attempts and ends -/

def ConnectCall.isAttempt : ConnectCall → Bool
  | .connect _ _ => true
  | _ => false

def TlsCall.isAttempt : TlsCall → Bool
  | .sslConnect _ => true
  | _ => false

/-- A helper returns a context, or an exception leaves it. -/
def ReturnsOrThrows {ε α : Type} (threw : ε) : Except ε α → Prop
  | .ok _ => True
  | .error e => e = threw

/-- What the results of a helper have to satisfy if `p` holds. -/
def EndsIf {Q : Type} {R : Q → Type} {ε α : Type} (p : Prop) (threw : ε) :
    History Q R → Except ε α → Prop :=
  fun _ r => p → ReturnsOrThrows threw r

/-- What is done to a context that is returned does not matter. -/
theorem EndsIf.map {Q : Type} {R : Q → Type} {ε α β : Type} {p : Prop}
    {threw : ε} {h : History Q R} {r : Except ε α} {f : α → β}
    (hr : EndsIf p threw h r) : EndsIf p threw h (r.map f) := by
  intro hp
  cases r with
  | ok a => trivial
  | error e => exact hr hp

/-- A run with `fuel` iterations of a helper that has `n` attempts: it makes
no more, and with more iterations than that it is not cut off; if `p` holds, it
returns or throws. -/
structure Budgeted {Q : Type} {R : Q → Type} {ε α : Type} (kind : Q → Bool)
    (n fuel : ℕ) (p : Prop) (threw : ε)
    (run : Status (Except ε α) × History Q R) : Prop where
  attempts : callsOf kind run.2 ≤ n
  ends : n < fuel → run.1 ≠ .stuck ∧
    (p → ∃ r, run.1 = .done r ∧ ReturnsOrThrows threw r)

theorem Budgeted.of_sat {Q : Type} {R : Q → Type} {ε α : Type}
    {kind : Q → Bool} {n fuel : ℕ} {p : Prop} {threw : ε}
    {ok : History Q R → (q : Q) → R q → Prop} {o : Oracle Q R}
    {helper : Prog Q R (Except ε α)}
    (hsat : helper.Sat ok (KeepsBudget kind n fuel p (EndsIf p threw)) [])
    (ho : o.Obeys ok) : Budgeted kind n fuel p threw (helper.exec o []) := by
  refine ⟨(hsat.exec ho).calls, fun hfuel => ?_⟩
  obtain ⟨hstuck, hends⟩ := KeepsBudget.ends hsat ho hfuel
  refine ⟨hstuck, fun hp => ?_⟩
  obtain ⟨r, hrun, hr⟩ := hends hp
  exact ⟨r, hrun, hr hp⟩

/-- The buffer of a context is there and in order. -/
def ClientContext.HasBuffer (ctx : ClientContext) : Prop :=
  ∃ b, ctx.clientReadBuffer = some b ∧ b.WellFormed

section

variable {p : Prop} {ctx : ClientContext} {h : Trace} {n m fuel : ℕ}

theorem ClientContext.HasBuffer.of_eq (hs : ctx.HasBuffer) {c : ClientContext}
    (hb : c.clientReadBuffer = ctx.clientReadBuffer) : c.HasBuffer := by
  obtain ⟨b, hsome, hwf⟩ := hs
  exact ⟨b, hb.trans hsome, hwf⟩

theorem ClientContext.HasBuffer.ne_none (hs : ctx.HasBuffer) :
    ctx.clientReadBuffer ≠ none := by
  obtain ⟨b, hsome, -⟩ := hs
  rw [hsome]
  exact Option.some_ne_none b

/-- An append keeps the buffer, or throws. -/
theorem appendTobuffer_cases {data : Bytes} (hbuf : p → ctx.HasBuffer)
    (hlen : p → data.length ≤ maxSize) :
    (∃ b, ctx.appendTobuffer data =
        .ok { ctx with clientReadBuffer := some b } ∧ (p → b.WellFormed)) ∨
      ∃ e, ctx.appendTobuffer data = .error e ∧ (p → e = .threw) := by
  cases happ : ctx.appendTobuffer data with
  | ok c =>
      obtain ⟨b, rfl⟩ := appendTobuffer_fields happ
      refine Or.inl ⟨b, rfl, ?_⟩
      intro hp
      obtain ⟨b', hb', hwf⟩ := hbuf hp
      rcases hwf.appendTobuffer_spec data (hlen hp) with
        ⟨b'', hb'', hdone⟩ | ⟨herr, -⟩
      · rw [appendTobuffer_ok hb' hb''] at happ
        injection happ with hctx
        injection congrArg ClientContext.clientReadBuffer hctx with heq
        exact heq ▸ hdone.wellFormed
      · rw [ClientContext.appendTobuffer, hb'] at happ
        simp only [herr] at happ
        cases happ
  | error e =>
      refine Or.inr ⟨e, rfl, ?_⟩
      intro hp
      obtain ⟨b, hb, hwf⟩ := hbuf hp
      exact appendTobuffer_threw hb hwf (hlen hp) happ

/-! ## `M_retryTcpRead` -/

/-- The next state of a TCP helper that reads. -/
abbrev BufferKept (p : Prop) : ClientContext → Trace → Prop :=
  fun ctx _ => p → ctx.HasBuffer

/-- What an iteration of a TCP helper establishes. -/
abbrev TcpIter (p : Prop) (n fuel m : ℕ) :=
  PaidIter Call.isAttempt n fuel p
    (EndsIf p TaskEnd.threw (R := Call.Reply) (α := ClientContext))
    ClientContext.retriesLeft (BufferKept p) m

theorem retriesLeft_start : ctx.retryStart.retriesLeft =
    ctx.retryBudget.toNat := by
  obtain ⟨hcount, hmax, -⟩ := retryStart_fields ctx
  rw [ClientContext.retriesLeft, hcount, hmax, Int.sub_zero]

theorem ClientContext.HasBuffer.retryStart (hbuf : ctx.HasBuffer) :
    ctx.retryStart.HasBuffer :=
  hbuf.of_eq (retryStart_fields ctx).2.2

/-- The loop of a TCP helper that reads. -/
theorem tcpRetryLoop_keeps {body : ClientContext →
      Prog Call Call.Reply (Iter ClientContext (Except TaskEnd ClientContext))}
    (hstep : ∀ ctx h, (p → ctx.HasBuffer) →
      callsOf Call.isAttempt h + ctx.retriesLeft ≤ n →
        (body ctx).Sat (ReadContractIf p) (TcpIter p n fuel ctx.retriesLeft) h)
    (hbuf : p → ctx.HasBuffer) (hn : ctx.retryBudget.toNat ≤ n) :
    (Prog.iterate body fuel ctx.retryStart).Sat (ReadContractIf p)
      (KeepsBudget Call.isAttempt n fuel p (EndsIf p .threw)) [] := by
  refine sat_iterate_budget ClientContext.retriesLeft (BufferKept p) hstep
    (fun hp => (hbuf hp).retryStart) ?_
  rw [retriesLeft_start, callsOf_nil, Nat.zero_add]
  exact hn

theorem retryTcpReadReceived_pays {r : Option Bytes}
    (hbuf : p → ctx.HasBuffer)
    (hr : p → ∀ data, r = some data → data.length ≤ 1096)
    (hm : ctx.retriesLeft < m)
    (hn : callsOf Call.isAttempt h + ctx.retriesLeft ≤ n) (chacheSize : ℕ) :
    TcpIter p n fuel m h (.done (retryTcpReadReceived chacheSize ctx r)) := by
  have hcalls : callsOf Call.isAttempt h ≤ n := by omega
  rcases r with _ | bytes
  · rw [retryTcpReadReceived]
    split
    · exact .done hcalls fun _ => trivial
    · exact ⟨hbuf, hm, hn⟩
  · rcases bytes with _ | ⟨x, data⟩
    · unfold retryTcpReadReceived
      cases hb : ctx.clientReadBuffer with
      | none =>
          apply KeepsBudget.done hcalls
          intro hp
          exact absurd hb (hbuf hp).ne_none
      | some b =>
          dsimp only
          split
          · exact .done hcalls fun _ => trivial
          · exact .done hcalls fun _ => trivial
    · have hlen : p → (x :: data).length ≤ maxSize := by
        intro hp
        have hle := hr hp _ rfl
        unfold maxSize
        omega
      rcases appendTobuffer_cases hbuf hlen with
        ⟨b, happ, hwf⟩ | ⟨e, happ, hthrew⟩
      · simp only [retryTcpReadReceived, happ]
        split
        · exact ⟨fun hp => ⟨b, rfl, hwf hp⟩, hm, hn⟩
        · split
          · exact .done hcalls fun _ => trivial
          · exact .done hcalls fun _ => trivial
      · simp only [retryTcpReadReceived, happ]
        exact .done hcalls hthrew

theorem retryTcpReadStep_pays (hbuf : p → ctx.HasBuffer)
    (hn : callsOf Call.isAttempt h + ctx.retriesLeft ≤ n) (chacheSize : ℕ) :
    (retryTcpReadStep chacheSize ctx).Sat (ReadContractIf p)
      (TcpIter p n fuel ctx.retriesLeft) h := by
  have hcalls : callsOf Call.isAttempt h ≤ n := by omega
  rw [retryTcpReadStep]
  split
  · next hless =>
    have hcount := retriesLeft_count hless
    refine sat_call_free Call.isAttempt rfl (.calling hcalls)
      fun e _ hcalls₁ => ?_
    split
    · refine sat_call_paid Call.isAttempt rfl (.calling (by omega))
        fun r hr hcalls₂ => ?_
      refine retryTcpReadReceived_pays ?_ (fun hp => hr hp) (by omega)
        (by omega) chacheSize
      intro hp
      exact (hbuf hp).of_eq rfl
    · exact .done (by omega) fun _ => trivial
  · exact .done hcalls fun _ => trivial

theorem retryTcpRead_keeps (hbuf : p → ctx.HasBuffer) (e : ℤ)
    (chacheSize : ℕ) :
    (retryTcpRead fuel ctx e chacheSize).Sat (ReadContractIf p)
      (KeepsBudget Call.isAttempt ctx.retryBudget.toNat fuel p
        (EndsIf p .threw)) [] := by
  have hloop : (Prog.iterate (retryTcpReadStep chacheSize) fuel
      ctx.retryStart).Sat (ReadContractIf p)
      (KeepsBudget Call.isAttempt ctx.retryBudget.toNat fuel p
        (EndsIf p .threw)) [] := by
    refine tcpRetryLoop_keeps ?_ hbuf (Nat.le_refl _)
    intro c h hbuf hn
    exact retryTcpReadStep_pays hbuf hn chacheSize
  rw [retryTcpRead]
  split
  · exact .done (Nat.zero_le _) fun _ => trivial
  · exact sat_map_budget hloop fun _ r hr => EndsIf.map hr

/-! ## `M_retryTcpRead_until` -/

theorem retryTcpReadUntilRead_pays (b : ReadBuffer) (hbuf : p → ctx.HasBuffer)
    (hm : ctx.retriesLeft < m)
    (hn : callsOf Call.isAttempt h + 1 + ctx.retriesLeft ≤ n) :
    (retryTcpReadUntilRead b ctx).Sat (ReadContractIf p)
      (TcpIter p n fuel m) h := by
  rw [retryTcpReadUntilRead]
  refine sat_call_paid Call.isAttempt rfl (.calling (by omega))
    fun r hr hcalls => ?_
  rcases r with _ | bytes
  · dsimp only
    split
    · exact .done (by omega) fun _ => trivial
    · exact ⟨hbuf, hm, by omega⟩
  · rcases bytes with _ | ⟨x, data⟩
    · dsimp only
      split
      · exact .done (by omega) fun _ => trivial
      · exact .done (by omega) fun _ => trivial
    · have hlen : p → (x :: data).length ≤ maxSize := by
        intro hp
        have hle : (x :: data).length ≤ 1086 := hr hp _ rfl
        unfold maxSize
        omega
      rcases appendTobuffer_cases hbuf hlen with
        ⟨b', happ, hwf⟩ | ⟨e, happ, hthrew⟩
      · simp only [happ]
        exact ⟨fun hp => ⟨b', rfl, hwf hp⟩, hm, by rw [hcalls]; exact hn⟩
      · simp only [happ]
        exact .done (by omega) hthrew

theorem retryTcpReadUntilStep_pays (delimiter : Bytes)
    (hbuf : p → ctx.HasBuffer)
    (hn : callsOf Call.isAttempt h + ctx.retriesLeft ≤ n) :
    (retryTcpReadUntilStep delimiter ctx).Sat (ReadContractIf p)
      (TcpIter p n fuel ctx.retriesLeft) h := by
  have hcalls : callsOf Call.isAttempt h ≤ n := by omega
  rw [retryTcpReadUntilStep]
  split
  · next hless =>
    have hcount := retriesLeft_count hless
    refine sat_call_free Call.isAttempt rfl (.calling hcalls)
      fun e _ hcalls₁ => ?_
    split
    · exact .done (by omega) fun _ => trivial
    · split
      · dsimp only
        cases hb : ctx.clientReadBuffer with
        | none =>
            apply KeepsBudget.done (by omega)
            intro hp
            exact absurd hb (hbuf hp).ne_none
        | some b =>
            dsimp only
            split
            · exact .done (by omega) fun _ => trivial
            · rw [← hb]
              refine retryTcpReadUntilRead_pays b ?_ (by omega) (by omega)
              intro hp
              exact (hbuf hp).of_eq rfl
      · exact .done (by omega) fun _ => trivial
  · exact .done hcalls fun _ => trivial

theorem retryTcpReadUntil_keeps (hbuf : p → ctx.HasBuffer) (delimiter : Bytes)
    (e : ℤ) :
    (retryTcpReadUntil fuel ctx delimiter e).Sat (ReadContractIf p)
      (KeepsBudget Call.isAttempt ctx.retryBudget.toNat fuel p
        (EndsIf p .threw)) [] := by
  have hloop : (Prog.iterate (retryTcpReadUntilStep delimiter) fuel
      ctx.retryStart).Sat (ReadContractIf p)
      (KeepsBudget Call.isAttempt ctx.retryBudget.toNat fuel p
        (EndsIf p .threw)) [] := by
    refine tcpRetryLoop_keeps ?_ hbuf (Nat.le_refl _)
    intro c h hbuf hn
    exact retryTcpReadUntilStep_pays delimiter hbuf hn
  rw [retryTcpReadUntil]
  split
  · exact .done (Nat.zero_le _) fun _ => rfl
  · exact sat_map_budget hloop fun _ r hr => EndsIf.map hr

/-! ## `M_ssl_read_until_retry` -/

theorem sslReadUntilRetry_budgeted (ctx : ClientContext)
    (ssl : ClientSslConfigure) (tlsRet : ℤ) (delimiter : Bytes)
    (o : Oracle Call Call.Reply) (fuel : ℕ) :
    Budgeted Call.isAttempt ctx.maxRetyCount.toNat fuel
      (ctx.HasBuffer ∧ ctx.socketfd < fdSetsize ∧ o.Obeys ReadContract) .threw
      ((sslReadUntilRetry fuel ctx ssl tlsRet delimiter).exec o []) := by
  by_cases hvalid : ctx.socketfd < 0 ∨ ssl.opensslPtr = none ∨
      ssl.opensslCtxPtr = none
  · have hrun : (sslReadUntilRetry fuel ctx ssl tlsRet delimiter).exec o [] =
        (.done (.error .threw), []) := by
      rw [sslReadUntilRetry, sslReadUntilRetryBody, if_pos hvalid]
      rfl
    rw [hrun]
    exact ⟨Nat.zero_le _, fun _ => ⟨by simp, fun _ => ⟨_, rfl, rfl⟩⟩⟩
  · obtain ⟨b₀, hb₀⟩ : ∃ b₀, ctx.HasBuffer →
        ctx.clientReadBuffer = some b₀ ∧ b₀.WellFormed := by
      by_cases hbuf : ctx.HasBuffer
      · obtain ⟨b₀, hb₀⟩ := hbuf
        exact ⟨b₀, fun _ => hb₀⟩
      · exact ⟨.valueInit, fun h => absurd h hbuf⟩
    have hstart : SslRetrying (ctx.HasBuffer ∧ ctx.socketfd < fdSetsize ∧
        o.Obeys ReadContract) b₀ ctx [] := .start fun hp => (hb₀ hp.1).1
    have hsat := sslReadUntilRetry_keeps fuel tlsRet delimiter hvalid
      (fun hp => (hb₀ hp.1).2) hstart (Nat.zero_add _).le
    refine Budgeted.of_sat (hsat.mono fun h st hk => hk.mono ?_ ?_)
      (obeys_readContractIf fun hp => hp.2.2)
    · intro hp
      exact ⟨Int.not_lt.mp fun hneg => hvalid (Or.inl hneg), hp.2.1⟩
    · intro r hr hp
      cases r with
      | ok c => trivial
      | error e => exact (hr hp).threw

end

/-! ## `M_retryTcpConnect` -/

section

variable {p : Prop} {ctx : ClientContext} {h : ConnectTrace} {n fuel : ℕ}
variable {ok : ConnectTrace → (q : ConnectCall) → q.Reply → Prop}

/-- What an iteration of `M_retryTcpConnect` establishes: there is still an
address. -/
abbrev ConnectIter (p : Prop) (n fuel m : ℕ) :=
  PaidIter ConnectCall.isAttempt n fuel p
    (EndsIf p CallEnd.threw (R := ConnectCall.Reply) (α := ClientContext))
    ClientContext.retriesLeft (fun ctx _ => p → ctx.resovlerAddrs ≠ []) m

theorem retryTcpConnectStep_pays (haddrs : p → ctx.resovlerAddrs ≠ [])
    (hn : callsOf ConnectCall.isAttempt h + ctx.retriesLeft ≤ n) :
    (retryTcpConnectStep ctx).Sat ok
      (ConnectIter p n fuel ctx.retriesLeft) h := by
  have hcalls : callsOf ConnectCall.isAttempt h ≤ n := by omega
  rw [retryTcpConnectStep]
  split
  · next hless =>
    have hcount := retriesLeft_count hless
    refine sat_call_free ConnectCall.isAttempt rfl (.calling hcalls)
      fun e _ hcalls₁ => ?_
    split
    · exact .done (by omega) fun _ => trivial
    · split
      · dsimp only
        cases hc : ctx.resovlerAddrs with
        | nil =>
            apply KeepsBudget.done (by omega)
            intro hp
            exact absurd hc (haddrs hp)
        | cons addr rest =>
            refine sat_call_paid ConnectCall.isAttempt rfl (.calling (by omega))
              fun result _ hcalls₂ => ?_
            split
            · split
              · exact .done (by omega) fun _ => trivial
              · refine ⟨fun _ => List.cons_ne_nil addr rest, ?_, ?_⟩
                · rw [← hc]
                  omega
                · rw [hcalls₂, ← hc]
                  omega
            · exact .done (by omega) fun _ => trivial
      · exact .done (by omega) fun _ => trivial
  · exact .done hcalls fun _ => trivial

theorem retryTcpConnect_keeps (haddrs : p → ctx.resovlerAddrs ≠ [])
    (hcount : 0 ≤ ctx.connectRetyCount) (e : ℤ) :
    (retryTcpConnect fuel ctx e).Sat ok
      (KeepsBudget ConnectCall.isAttempt ctx.retryBudget.toNat fuel p
        (EndsIf p .threw)) [] := by
  have hloop : ∀ c : ClientContext, c.resovlerAddrs = ctx.resovlerAddrs →
      c.connectRetyCount = ctx.connectRetyCount →
      c.maxRetyCount = ctx.retryBudget →
      (Prog.iterate retryTcpConnectStep fuel c).Sat ok
        (KeepsBudget ConnectCall.isAttempt ctx.retryBudget.toNat fuel p
          (EndsIf p .threw)) [] := by
    intro c hsame hcount' hmax
    refine sat_iterate_budget ClientContext.retriesLeft
      (fun c _ => p → c.resovlerAddrs ≠ [])
      (fun c h haddrs hn => retryTcpConnectStep_pays haddrs hn)
      (hsame ▸ haddrs) ?_
    rw [callsOf_nil, ClientContext.retriesLeft, hcount', hmax]
    omega
  rw [retryTcpConnect]
  refine sat_map_budget (hloop _ ?_ ?_ ?_) fun _ r hr => EndsIf.map hr
  · split <;> rfl
  · split <;> rfl
  · unfold ClientContext.retryBudget
    split <;> rfl

end

/-! ## `M_ssl_handshake_retry` -/

section

variable {cfg : OpensslConfigure} {ctx : ClientContext} {h : TlsTrace}
variable {n m fuel : ℕ} {handshakeErr : ℤ}
variable {ok : TlsTrace → (q : TlsCall) → q.Reply → Prop}

/-- What an iteration of `M_ssl_handshake_retry` establishes. -/
abbrev HandshakeIter (n fuel m : ℕ) :=
  PaidIter TlsCall.isAttempt n fuel True
    (EndsIf True TaskEnd.threw (R := TlsCall.Reply)
      (α := OpensslConfigure × ClientContext))
    (fun s : ClientContext × Option ℕ => s.1.retriesLeft) (fun _ _ => True) m

/-- A new TLS object takes no attempt. -/
theorem createrNewRetryTls_idle {α : Type} {ψ : TlsTrace → Status α → Prop}
    {next : Option ℕ → TlsTrace → Prop} {k : ℕ}
    (hk : callsOf TlsCall.isAttempt h = k)
    (hcalling : ∀ h, callsOf TlsCall.isAttempt h = k → ψ h .calling)
    (hnext : ∀ newTls h, callsOf TlsCall.isAttempt h = k → next newTls h)
    (badTls ctxTls : Option ℕ) (fd : ℤ) (hostname : Option String) :
    (createrNewRetryTls badTls ctxTls fd hostname).Sat ok
      (Prog.andThen ψ next) h := by
  have hother : ∀ (h : TlsTrace) (q : TlsCall) (r : q.Reply),
      q.isAttempt = false → callsOf TlsCall.isAttempt h = k →
      callsOf TlsCall.isAttempt (h ++ [⟨q, r⟩]) = k := by
    intro h q r hq hk
    rw [callsOf_other hq]
    exact hk
  have hk₁ := hother h (.freeSsl badTls) () rfl hk
  refine Prog.sat_perform_bind.mpr ⟨hcalling _ hk, fun _ _ => ?_⟩
  refine Prog.sat_perform_bind.mpr ⟨hcalling _ hk₁, fun newTls _ => ?_⟩
  have hk₂ := hother _ (.sslNew ctxTls) newTls rfl hk₁
  split
  · exact hnext _ _ hk₂
  · have hk₃ := hother _ (.sslSetTlsextHostName newTls hostname) () rfl hk₂
    have hk₄ := hother _ (.sslSetFd newTls fd) () rfl hk₃
    exact ⟨hcalling _ hk₂, fun _ _ => ⟨hcalling _ hk₃, fun _ _ =>
      hnext _ _ hk₄⟩⟩

theorem handshakeRetrySwitch_pays (hm : ctx.retriesLeft < m)
    (hn : callsOf TlsCall.isAttempt h + 1 + ctx.retriesLeft ≤ n)
    (retryTls : Option ℕ) :
    (handshakeRetrySwitch cfg handshakeErr ctx retryTls).Sat ok
      (HandshakeIter n fuel m) h := by
  rw [handshakeRetrySwitch]
  split
  · refine sat_call_free TlsCall.isAttempt rfl (.calling (by omega))
      fun e _ hcalls₁ => ?_
    split
    · refine sat_call_paid TlsCall.isAttempt rfl (.calling (by omega))
        fun ret _ hcalls₂ => ?_
      split
      · split
        · exact .done (by omega) fun _ => trivial
        · refine sat_call_free TlsCall.isAttempt rfl (.calling (by omega))
            fun err _ hcalls₃ => ?_
          refine ⟨trivial, hm, ?_⟩
          rw [hcalls₃, hcalls₂, hcalls₁]
          exact hn
      · exact .done (by omega) fun _ => trivial
    · exact .done (by omega) fun _ => trivial
  · split
    · exact .done (by omega) fun _ => rfl
    · refine ⟨trivial, hm, ?_⟩
      show callsOf TlsCall.isAttempt h + ctx.retriesLeft ≤ n
      omega

theorem handshakeRetryStep_pays {s : ClientContext × Option ℕ}
    (hn : callsOf TlsCall.isAttempt h + s.1.retriesLeft ≤ n)
    (retryCtx : Option ℕ) :
    (handshakeRetryStep cfg handshakeErr retryCtx s).Sat ok
      (HandshakeIter n fuel s.1.retriesLeft) h := by
  obtain ⟨ctx, retryTls⟩ := s
  dsimp only at hn ⊢
  rw [handshakeRetryStep]
  split
  · next hless =>
    have hcount := retriesLeft_count hless
    dsimp only
    split
    · refine sat_call_paid TlsCall.isAttempt rfl (.calling (by omega))
        fun ret _ hcalls => ?_
      split
      · split
        · exact .done (by omega) fun _ => trivial
        · have hpays : callsOf TlsCall.isAttempt
              (h ++ [⟨.sslConnect retryTls, ret⟩]) + { ctx with
                connectRetyCount := ctx.connectRetyCount + 1 }.retriesLeft ≤
              n := by
            omega
          exact ⟨trivial, Nat.lt_of_succ_le hcount.le, hpays⟩
      · exact .done (by omega) fun _ => trivial
    · refine Prog.sat_bind.mpr (createrNewRetryTls_idle rfl
        (fun h hk => .calling (by omega)) (fun newTls h hk => ?_) _ _ _ _)
      exact handshakeRetrySwitch_pays (by omega) (by omega) newTls
  · exact .done (by omega) fun _ => trivial

theorem sslHandshakeRetry_pays (retryTls retryCtx : Option ℕ) :
    (sslHandshakeRetry fuel cfg ctx handshakeErr retryTls retryCtx).Sat ok
      (KeepsBudget TlsCall.isAttempt ctx.maxRetyCount.toNat fuel True
        (EndsIf True .threw)) [] := by
  rw [sslHandshakeRetry]
  split
  · exact .done (Nat.zero_le _) fun _ => rfl
  · refine sat_iterate_budget
      (fun s : ClientContext × Option ℕ => s.1.retriesLeft)
      (fun _ _ => True) ?_ trivial ?_
    · intro s h _ hn
      exact handshakeRetryStep_pays hn retryCtx
    · rw [callsOf_nil, Nat.zero_add, ClientContext.retriesLeft, Int.sub_zero]

end

/-! ## All five -/

/-- **The retry budgets are respected.** Whatever the calls reply, each helper
makes no more attempts than its budget. With more iterations than that it
returns or throws: where it reads, given a buffer to read into and reads that
fit; where it connects, given an address; and where it may wait, given a
descriptor that fits into an `fd_set`. -/
theorem retries_within_budget (ctx : ClientContext)
    (hcount : 0 ≤ ctx.connectRetyCount) (fuel : ℕ) :
    (∀ (o : Oracle Call Call.Reply) (e : ℤ) (chacheSize : ℕ),
      Budgeted Call.isAttempt ctx.retryBudget.toNat fuel
        (ctx.HasBuffer ∧ o.Obeys ReadContract) .threw
        ((retryTcpRead fuel ctx e chacheSize).exec o [])) ∧
    (∀ (o : Oracle Call Call.Reply) (delimiter : Bytes) (e : ℤ),
      Budgeted Call.isAttempt ctx.retryBudget.toNat fuel
        (ctx.HasBuffer ∧ o.Obeys ReadContract) .threw
        ((retryTcpReadUntil fuel ctx delimiter e).exec o [])) ∧
    (∀ (o : Oracle ConnectCall ConnectCall.Reply) (e : ℤ),
      Budgeted ConnectCall.isAttempt ctx.retryBudget.toNat fuel
        (ctx.resovlerAddrs ≠ []) .threw
        ((retryTcpConnect fuel ctx e).exec o [])) ∧
    (∀ (o : Oracle Call Call.Reply) (ssl : ClientSslConfigure) (tlsRet : ℤ)
      (delimiter : Bytes),
      Budgeted Call.isAttempt ctx.maxRetyCount.toNat fuel
        (ctx.HasBuffer ∧ ctx.socketfd < fdSetsize ∧ o.Obeys ReadContract)
        .threw ((sslReadUntilRetry fuel ctx ssl tlsRet delimiter).exec o [])) ∧
    ∀ (o : Oracle TlsCall TlsCall.Reply) (cfg : OpensslConfigure)
      (handshakeErr : ℤ) (retryTls retryCtx : Option ℕ),
      Budgeted TlsCall.isAttempt ctx.maxRetyCount.toNat fuel True .threw
        ((sslHandshakeRetry fuel cfg ctx handshakeErr retryTls retryCtx).exec
          o []) := by
  refine ⟨?_, ?_, ?_, ?_, ?_⟩
  · intro o e chacheSize
    exact Budgeted.of_sat (retryTcpRead_keeps (fun hp => hp.1) e chacheSize)
      (obeys_readContractIf fun hp => hp.2)
  · intro o delimiter e
    exact Budgeted.of_sat
      (retryTcpReadUntil_keeps (fun hp => hp.1) delimiter e)
      (obeys_readContractIf fun hp => hp.2)
  · intro o e
    have hany : o.Obeys fun _ _ _ => True := fun _ _ => trivial
    exact Budgeted.of_sat (retryTcpConnect_keeps id hcount e) hany
  · intro o ssl tlsRet delimiter
    exact sslReadUntilRetry_budgeted ctx ssl tlsRet delimiter o fuel
  · intro o cfg handshakeErr retryTls retryCtx
    have hany : o.Obeys fun _ _ _ => True := fun _ _ => trivial
    exact Budgeted.of_sat (sslHandshakeRetry_pays retryTls retryCtx) hany

/-- The run returns, or an exception leaves it. -/
def ReturnedOrThrew {Q : Type} {R : Q → Type} {ε α : Type} (threw : ε)
    (run : Status (Except ε α) × History Q R) : Prop :=
  ∃ r, run.1 = .done r ∧ ReturnsOrThrows threw r

/-- A budget of two, a buffer, an address, and a line that arrives byte by
byte. -/
theorem retries_within_budget_two :
    let tcp := (retryTcpRead 3 twoRetries eagain 7).exec
      (silentStream [[65], [66], [67]] eagain) []
    let line := (retryTcpReadUntil 3 twoRetries [10] eagain).exec
      (dripStream [65, 66, 67]) []
    let tls := (sslReadUntilRetry 3 twoRetries ⟨some 2, some 1⟩ (-1) [10]).exec
      (dripStream [65, 66, 67]) []
    (callsOf Call.isAttempt tcp.2 ≤ 2 ∧ ReturnedOrThrew .threw tcp) ∧
      (callsOf Call.isAttempt line.2 ≤ 2 ∧ ReturnedOrThrew .threw line) ∧
      (∀ (o : Oracle ConnectCall ConnectCall.Reply) (e : ℤ),
        let connect := (retryTcpConnect 3 twoRetries e).exec o []
        callsOf ConnectCall.isAttempt connect.2 ≤ 2 ∧
          ReturnedOrThrew .threw connect) ∧
      (callsOf Call.isAttempt tls.2 ≤ 2 ∧ ReturnedOrThrew .threw tls) ∧
      ∀ (o : Oracle TlsCall TlsCall.Reply) (cfg : OpensslConfigure)
        (handshakeErr : ℤ) (retryTls retryCtx : Option ℕ),
        let handshake := (sslHandshakeRetry 3 cfg twoRetries handshakeErr
          retryTls retryCtx).exec o []
        callsOf TlsCall.isAttempt handshake.2 ≤ 2 ∧
          ReturnedOrThrew .threw handshake := by
  have hbuf : twoRetries.HasBuffer :=
    ⟨.filled [], rfl, ReadBuffer.filled_wellFormed (by decide)⟩
  obtain ⟨htcp, huntil, hconnect, htls, hhandshake⟩ :=
    retries_within_budget twoRetries (by decide) 3
  have htcp := htcp (silentStream [[65], [66], [67]] eagain) eagain 7
  have huntil := huntil (dripStream [65, 66, 67]) [10] eagain
  have htls := htls (dripStream [65, 66, 67]) ⟨some 2, some 1⟩ (-1) [10]
  refine ⟨⟨htcp.attempts, (htcp.ends (by decide)).2 ⟨hbuf, ?_⟩⟩,
    ⟨huntil.attempts, (huntil.ends (by decide)).2 ⟨hbuf, dripStream_reads _⟩⟩,
    fun o e => ⟨(hconnect o e).attempts, ?_⟩,
    ⟨htls.attempts, (htls.ends (by decide)).2
      ⟨hbuf, by decide, dripStream_reads _⟩⟩,
    fun o cfg handshakeErr retryTls retryCtx =>
      ⟨(hhandshake o cfg handshakeErr retryTls retryCtx).attempts, ?_⟩⟩
  · exact silentStream_reads _ _
  · exact ((hconnect o e).ends (by decide)).2 (List.cons_ne_nil _ _)
  · exact ((hhandshake o cfg handshakeErr retryTls retryCtx).ends
      (by decide)).2 trivial

def refusing : Oracle ConnectCall ConnectCall.Reply := fun _ q =>
  match q with
  | .getaddrinfo _ _ _ => none
  | .socket _ => (3 : ℤ)
  | .connect _ _ => (-1 : ℤ)
  | .select _ _ => (1 : ℤ)
  | .errno => eagain
  | .setFcntl _ => ()
  | .setReuseaddr _ => ()
  | .close _ => ()
  | .submit _ _ => ()

/-- Contexts of which a helper returns nothing: one without a buffer, one
without an address, and one whose descriptor does not fit into an `fd_set`. -/
theorem retries_undefined :
    (∀ fuel, ¬ ReturnedOrThrew .threw ((retryTcpRead fuel connected eagain
        7).exec (silentStream [[65]] eagain) [])) ∧
      (∀ fuel, ¬ ReturnedOrThrew .threw ((retryTcpConnect fuel
        { connected with resovlerAddrs := [] } eagain).exec refusing [])) ∧
      (∀ fuel, ¬ ReturnedOrThrew .threw ((sslReadUntilRetry fuel
        { twoRetries with socketfd := 1024 } ⟨some 2, some 1⟩ (-1) [10]).exec
          (dripStream [65]) [])) ∧
      ¬ ∀ ctx : ClientContext, 0 ≤ ctx.connectRetyCount →
        ∀ (o : Oracle Call Call.Reply) (e : ℤ) (chacheSize : ℕ),
          o.Obeys ReadContract → ∃ fuel, ReturnedOrThrew .threw
            ((retryTcpRead fuel ctx e chacheSize).exec o []) := by
  have hread : ∀ fuel, ¬ ReturnedOrThrew .threw ((retryTcpRead fuel connected
      eagain 7).exec (silentStream [[65]] eagain) []) := by
    rintro (_ | fuel) ⟨r, hrun, hr⟩
    · cases hrun
    · have hundefined : ((retryTcpRead (fuel + 1) connected eagain 7).exec
          (silentStream [[65]] eagain) []).1 =
            .done (.error .undefined) := rfl
      rw [hundefined] at hrun
      cases hrun
      cases hr
  refine ⟨hread, ?_, ?_, ?_⟩
  · rintro (_ | fuel) ⟨r, hrun, hr⟩
    · cases hrun
    · have hundefined : ((retryTcpConnect (fuel + 1)
          { connected with resovlerAddrs := [] } eagain).exec refusing []).1 =
            .done (.error .undefined) := rfl
      rw [hundefined] at hrun
      cases hrun
      cases hr
  · rintro fuel ⟨r, hrun, -⟩
    have hundefined : ((sslReadUntilRetry fuel
        { twoRetries with socketfd := 1024 } ⟨some 2, some 1⟩ (-1) [10]).exec
          (dripStream [65]) []).1 = .undefined := rfl
    rw [hundefined] at hrun
    cases hrun
  · intro hall
    obtain ⟨fuel, hends⟩ := hall connected (by decide)
      (silentStream [[65]] eagain) eagain 7 (silentStream_reads _ _)
    exact hread fuel hends

end Mtasc
