import Mtasc.Client.Attempts
import Mtasc.Client.Descriptors
import Mtasc.Client.Read

/-!
# What an earlier operation leaves in the context

The context is handed from operation to operation, with the outcome and the
count of the latest retry in it. Two contexts that differ in these alone are
given to each of the helpers: what comes out depends on them for the two of
the connection.
-/

namespace Mtasc

open Lib ConnectTrace

/-- The context as another operation might have left it. -/
def ClientContext.leftover (ctx : ClientContext) (success : Bool) (count : ℤ) :
    ClientContext :=
  { ctx with isRetrySuccess := success, connectRetyCount := count }

/-- The same context but for `M_is_retry_success`: what two runs of a helper
have once it has reset the count. -/
def SameButFlag (c d : ClientContext) : Prop :=
  ∃ success, d = { c with isRetrySuccess := success }

theorem leftover_restart (ctx : ClientContext) (success : Bool) (count : ℤ) :
    SameButFlag { ctx with connectRetyCount := 0 }
      { ctx.leftover success count with connectRetyCount := 0 } :=
  ⟨success, rfl⟩

theorem leftover_retryStart (ctx : ClientContext) (success : Bool)
    (count : ℤ) :
    SameButFlag ctx.retryStart (ctx.leftover success count).retryStart := by
  rw [ClientContext.retryStart, ClientContext.retryStart]
  by_cases hmax : ctx.maxRetyCount ≤ 0
  · rw [if_pos hmax]
    exact ⟨success, if_pos hmax⟩
  · rw [if_neg hmax]
    exact ⟨success, if_neg hmax⟩

theorem appendTobuffer_flag (ctx : ClientContext) (success : Bool)
    (data : Bytes) :
    { ctx with isRetrySuccess := success }.appendTobuffer data =
      (ctx.appendTobuffer data).map
        fun c => { c with isRetrySuccess := success } := by
  unfold ClientContext.appendTobuffer
  dsimp only
  cases ctx.clientReadBuffer with
  | none => rfl
  | some b =>
      dsimp only
      cases b.appendTobuffer data with
      | ok b' => rfl
      | error e => cases e <;> rfl

/-! ## What is seen of a result -/

def SameSuccess {ε : Type} (r r' : Except ε ClientContext) : Prop :=
  succeeded r = succeeded r'

/-- `fall` is related to `fall` alone, and `return` to `return` alone. -/
inductive Flow.Related {σ ρ : Type} (T : σ → σ → Prop) (S : ρ → ρ → Prop) :
    Flow σ ρ → Flow σ ρ → Prop
  | fall {s t : σ} (h : T s t) : Related T S (.fall s) (.fall t)
  | return {r r' : ρ} (h : S r r') : Related T S (.return r) (.return r')

/-- `SameButFlag` beside another variable of a loop. -/
def SameState {α : Type} (s t : ClientContext × α) : Prop :=
  SameButFlag s.1 t.1 ∧ s.2 = t.2

theorem SameSuccess.moved {ε : Type} {r r' : Except ε ClientContext}
    (h : SameSuccess r r') :
    SameSuccess (r.map ClientContext.moveConstruct)
      (r'.map ClientContext.moveConstruct) := by
  have hmoved : ∀ r : Except ε ClientContext,
      succeeded (r.map ClientContext.moveConstruct) = succeeded r := by
    intro r
    cases r <;> rfl
  rw [SameSuccess, hmoved, hmoved]
  exact h

section

variable {fuel : ℕ} {c d : ClientContext}

/-! ## `M_retryTcpRead` -/

theorem retryTcpReadReceived_related (chacheSize : ℕ) (c : ClientContext)
    (success : Bool) (data : Option Bytes) :
    Iter.Related SameButFlag SameSuccess
      (retryTcpReadReceived chacheSize c data)
      (retryTcpReadReceived chacheSize { c with isRetrySuccess := success }
        data) := by
  unfold retryTcpReadReceived
  cases data with
  | none =>
      exact rel_ite (fun _ => .done rfl) fun _ => .next ⟨success, rfl⟩
  | some bytes =>
      cases bytes with
      | nil =>
          dsimp only
          cases c.clientReadBuffer with
          | none => exact .done rfl
          | some b => exact rel_ite (fun _ => .done rfl) fun _ => .done rfl
      | cons byte rest =>
          dsimp only
          rw [appendTobuffer_flag c success]
          cases c.appendTobuffer (byte :: rest) with
          | error e => exact .done rfl
          | ok c =>
              refine rel_ite (fun _ => .next ⟨success, rfl⟩) fun _ => ?_
              exact rel_ite (fun _ => .done rfl) fun _ => .done rfl

theorem retryTcpReadStep_lockstep (chacheSize : ℕ) (h : SameButFlag c d) :
    Prog.Lockstep (Iter.Related SameButFlag SameSuccess)
      (retryTcpReadStep chacheSize c) (retryTcpReadStep chacheSize d) := by
  obtain ⟨success, rfl⟩ := h
  rw [retryTcpReadStep, retryTcpReadStep]
  refine .ite (fun _ => .perform fun errnoCopy => .ite (fun _ => ?_) fun _ => ?_)
    fun _ => ?_
  · refine .perform fun readRet => .pure ?_
    exact retryTcpReadReceived_related chacheSize _ success readRet
  · exact .pure (.done rfl)
  · exact .pure (.done rfl)

theorem retryTcpRead_lockstep (ctx : ClientContext) (success : Bool)
    (count errnoCopy : ℤ) (chacheSize : ℕ) :
    Prog.Lockstep SameSuccess (retryTcpRead fuel ctx errnoCopy chacheSize)
      (retryTcpRead fuel (ctx.leftover success count) errnoCopy
        chacheSize) := by
  rw [retryTcpRead, retryTcpRead]
  refine .ite (fun _ => .pure rfl) fun _ => ?_
  refine .bind (.iterate (fun _ _ => retryTcpReadStep_lockstep chacheSize) fuel
    (leftover_retryStart ctx success count)) fun r r' h => ?_
  exact .pure h.moved

/-! ## `M_retryTcpRead_until` -/

theorem retryTcpReadUntilRead_lockstep (b : ReadBuffer) (c : ClientContext)
    (success : Bool) :
    Prog.Lockstep (Iter.Related SameButFlag SameSuccess)
      (retryTcpReadUntilRead b c)
      (retryTcpReadUntilRead b { c with isRetrySuccess := success }) := by
  refine .perform fun data => ?_
  cases data with
  | none =>
      exact .ite (fun _ => .pure (.done rfl)) fun _ =>
        .pure (.next ⟨success, rfl⟩)
  | some bytes =>
      cases bytes with
      | nil =>
          exact .ite (fun _ => .pure (.done rfl)) fun _ => .pure (.done rfl)
      | cons byte rest =>
          dsimp only
          rw [appendTobuffer_flag c success]
          cases c.appendTobuffer (byte :: rest) with
          | error e => exact .pure (.done rfl)
          | ok c => exact .pure (.next ⟨success, rfl⟩)

theorem retryTcpReadUntilStep_lockstep (delimiter : Bytes)
    (h : SameButFlag c d) :
    Prog.Lockstep (Iter.Related SameButFlag SameSuccess)
      (retryTcpReadUntilStep delimiter c)
      (retryTcpReadUntilStep delimiter d) := by
  obtain ⟨success, rfl⟩ := h
  rw [retryTcpReadUntilStep, retryTcpReadUntilStep]
  refine .ite (fun _ => .perform fun errnoCopy => ?_) fun _ => .pure (.done rfl)
  refine .ite (fun _ => .pure (.done rfl)) fun _ => ?_
  refine .ite (fun _ => ?_) fun _ => .pure (.done rfl)
  dsimp only
  cases c.clientReadBuffer with
  | none => exact .pure (.done rfl)
  | some b =>
      refine .ite (fun _ => .pure (.done rfl)) fun _ => ?_
      exact retryTcpReadUntilRead_lockstep b _ success

theorem retryTcpReadUntil_lockstep (ctx : ClientContext) (success : Bool)
    (count : ℤ) (delimiter : Bytes) (errnoCopy : ℤ) :
    Prog.Lockstep SameSuccess (retryTcpReadUntil fuel ctx delimiter errnoCopy)
      (retryTcpReadUntil fuel (ctx.leftover success count) delimiter
        errnoCopy) := by
  rw [retryTcpReadUntil, retryTcpReadUntil]
  refine .ite (fun _ => .pure rfl) fun _ => ?_
  refine .bind (.iterate (fun _ _ => retryTcpReadUntilStep_lockstep delimiter)
    fuel (leftover_retryStart ctx success count)) fun r r' h => ?_
  exact .pure h.moved

/-! ## `M_ssl_read_until_retry` -/

theorem sslReadUntilRetryRead_lockstep (c : ClientContext) (success : Bool) :
    Prog.Lockstep (Iter.Related SameButFlag (Flow.Related SameButFlag SameSuccess))
      (sslReadUntilRetryRead c)
      (sslReadUntilRetryRead { c with isRetrySuccess := success }) := by
  refine .perform fun data => ?_
  cases data with
  | none =>
      refine .perform fun newTlsErr => .ite (fun _ => ?_) fun _ => ?_
      · exact .ite (fun _ => .pure (.next ⟨success, rfl⟩)) fun _ =>
          .pure (.done (.return rfl))
      · exact .ite (fun _ => .pure (.done (.return rfl))) fun _ =>
          .pure (.done (.fall ⟨success, rfl⟩))
  | some bytes =>
      cases bytes with
      | nil => exact .pure (.done (.return rfl))
      | cons byte rest =>
          dsimp only
          rw [appendTobuffer_flag c success]
          cases c.appendTobuffer (byte :: rest) with
          | error e => exact .pure (.done (.return rfl))
          | ok c =>
              exact .ite (fun _ => .pure (.next ⟨success, rfl⟩)) fun _ =>
                .pure (.next ⟨success, rfl⟩)

theorem sslReadUntilRetryStep_lockstep (delimiter : Bytes)
    (h : SameButFlag c d) :
    Prog.Lockstep (Iter.Related SameButFlag (Flow.Related SameButFlag SameSuccess))
      (sslReadUntilRetryStep delimiter c)
      (sslReadUntilRetryStep delimiter d) := by
  obtain ⟨success, rfl⟩ := h
  rw [sslReadUntilRetryStep, sslReadUntilRetryStep]
  refine .ite (fun _ => ?_) fun _ => .pure (.done (.fall ⟨success, rfl⟩))
  refine .ite (fun _ => .pure (.done (.return rfl))) fun _ => ?_
  dsimp only
  cases c.clientReadBuffer with
  | none => exact .pure (.done (.return rfl))
  | some b =>
      refine .ite (fun _ => .pure (.done (.return rfl))) fun _ => ?_
      exact sslReadUntilRetryRead_lockstep _ success

theorem sslReadUntilRetryLoop_lockstep (fuel : ℕ) (delimiter : Bytes)
    (h : SameButFlag c d) :
    Prog.Lockstep SameSuccess (sslReadUntilRetryLoop fuel c delimiter)
      (sslReadUntilRetryLoop fuel d delimiter) := by
  refine .bind (.iterate (fun _ _ => sslReadUntilRetryStep_lockstep delimiter)
    fuel h) fun flow flow' hflow => ?_
  cases hflow with
  -- the flags may differ here, and what follows the loop clears both
  | fall _ => exact .pure rfl
  | «return» hr => exact .pure hr

theorem sslReadUntilRetryBody_lockstep (ctx : ClientContext) (success : Bool)
    (count : ℤ) (ssl : ClientSslConfigure) (tlsRet : ℤ) (delimiter : Bytes) :
    Prog.Lockstep SameSuccess
      (sslReadUntilRetryBody fuel ctx ssl tlsRet delimiter)
      (sslReadUntilRetryBody fuel (ctx.leftover success count) ssl tlsRet
        delimiter) := by
  have hloop := sslReadUntilRetryLoop_lockstep fuel delimiter
    (leftover_restart ctx success count)
  refine .ite (fun _ => .pure rfl) fun _ => .perform fun tlsReadErr => ?_
  refine .ite (fun _ => hloop) fun _ => .ite (fun _ => ?_) fun _ => .pure rfl
  refine .bind (.refl (fun _ => rfl) _) fun _ _ _ => ?_
  refine .perform fun waitSocketEvent => ?_
  exact .ite (fun _ => .pure rfl) fun _ => hloop

theorem sslReadUntilRetry_lockstep (ctx : ClientContext) (success : Bool)
    (count : ℤ) (ssl : ClientSslConfigure) (tlsRet : ℤ) (delimiter : Bytes) :
    Prog.Lockstep SameSuccess (sslReadUntilRetry fuel ctx ssl tlsRet delimiter)
      (sslReadUntilRetry fuel (ctx.leftover success count) ssl tlsRet
        delimiter) :=
  (sslReadUntilRetryBody_lockstep ctx success count ssl tlsRet delimiter).bind
    fun _ _ h => .pure h.moved

/-! ## `M_retryTcpwrite` -/

/-- The flags of two contexts are the same. -/
def SameFlag (c d : ClientContext) : Prop :=
  c.isRetrySuccess = d.isRetrySuccess

theorem retryTcpwriteInner_lockstep (strfullLen : ℕ)
    {s t : ClientContext × ℕ} (h : SameState s t) :
    Prog.Lockstep (Iter.Related SameState (Flow.Related SameState SameFlag))
      (retryTcpwriteInner strfullLen s) (retryTcpwriteInner strfullLen t) := by
  obtain ⟨c, totalWrite⟩ := s
  obtain ⟨_, _⟩ := t
  obtain ⟨⟨success, rfl⟩, rfl⟩ := h
  refine .ite (fun _ => .perform fun ret => ?_) fun _ =>
    .pure (.done (.fall ⟨⟨success, rfl⟩, rfl⟩))
  refine .ite (fun _ => ?_) fun _ => ?_
  · exact .ite (fun _ => .pure (.done (.return rfl))) fun _ =>
      .pure (.next ⟨⟨success, rfl⟩, rfl⟩)
  · exact .ite (fun _ => .pure (.done (.return rfl))) fun _ =>
      .pure (.next ⟨⟨success, rfl⟩, rfl⟩)

theorem retryTcpwriteOuter_lockstep (strfullLen : ℕ)
    {s t : ClientContext × ℕ} (h : SameState s t) :
    Prog.Lockstep (Iter.Related SameState (Flow.Related SameState SameFlag))
      (retryTcpwriteOuter fuel strfullLen s)
      (retryTcpwriteOuter fuel strfullLen t) := by
  obtain ⟨c, totalWrite⟩ := s
  obtain ⟨_, _⟩ := t
  obtain ⟨⟨success, rfl⟩, rfl⟩ := h
  refine .ite (fun _ => ?_) fun _ =>
    .pure (.done (.fall ⟨⟨success, rfl⟩, rfl⟩))
  refine .bind (.iterate (fun _ _ => retryTcpwriteInner_lockstep strfullLen)
    fuel ⟨⟨success, rfl⟩, rfl⟩) fun flow flow' hflow => ?_
  cases hflow with
  | fall hs => exact .pure (.next hs)
  | «return» hr => exact .pure (.done (.return hr))

theorem retryTcpwrite_lockstep (ctx : ClientContext) (success : Bool)
    (count : ℤ) (totalWrite strfullLen : ℕ) (errnoCopy : ℤ) :
    Prog.Lockstep SameFlag
      (retryTcpwrite fuel ctx totalWrite strfullLen errnoCopy)
      (retryTcpwrite fuel (ctx.leftover success count) totalWrite strfullLen
        errnoCopy) := by
  refine .ite (fun _ => .pure rfl) fun _ => .ite (fun _ => ?_) fun _ => .pure rfl
  refine .bind (.iterate (fun _ _ => retryTcpwriteOuter_lockstep strfullLen)
    fuel ⟨leftover_restart ctx success count, rfl⟩) fun flow flow' hflow => ?_
  cases hflow with
  | «return» hr => exact .pure hr
  | @fall s t hs =>
      -- each of the three ends behind the loop sets the flag
      obtain ⟨c, totalWrite⟩ := s
      obtain ⟨_, _⟩ := t
      obtain ⟨⟨success, rfl⟩, rfl⟩ := hs
      refine .ite (fun _ => .pure rfl) fun _ => ?_
      exact .ite (fun _ => .pure rfl) fun _ => .pure rfl

/-! ## `M_ssl_write_retry` -/

theorem sslWriteRetryInner_lockstep (retryTls : Option ℕ) (strfullLen : ℕ)
    {s t : ClientContext × ℕ} (h : SameState s t) :
    Prog.Lockstep (Iter.Related SameState SameFlag)
      (sslWriteRetryInner retryTls strfullLen s)
      (sslWriteRetryInner retryTls strfullLen t) := by
  obtain ⟨c, writeToalData⟩ := s
  obtain ⟨_, _⟩ := t
  obtain ⟨⟨success, rfl⟩, rfl⟩ := h
  refine .ite (fun _ => .perform fun retryWriteRet => ?_) fun _ =>
    .pure (.done rfl)
  refine .ite (fun _ => ?_) fun _ => .ite (fun _ => .pure (.done rfl)) fun _ => ?_
  · exact .ite (fun _ => .pure (.done rfl)) fun _ =>
      .pure (.next ⟨⟨success, rfl⟩, rfl⟩)
  · exact .ite (fun _ => .pure (.done rfl)) fun _ =>
      .pure (.next ⟨⟨success, rfl⟩, rfl⟩)

/-- One exit of it leaves the flag as it is. No error leads there, since the
last alternative of its condition is a constant. -/
theorem sslWriteRetry_lockstep (ctx : ClientContext) (success : Bool)
    (count : ℤ) (retryTls retryCtx : Option ℕ) (tlsRet : ℤ)
    (strfullLen writeToalData : ℕ) :
    Prog.Lockstep SameSuccess
      (sslWriteRetry fuel ctx retryTls retryCtx tlsRet strfullLen writeToalData)
      (sslWriteRetry fuel (ctx.leftover success count) retryTls retryCtx tlsRet
        strfullLen writeToalData) := by
  refine .ite (fun _ => .pure rfl) fun _ => ?_
  refine .ite (fun _ => .perform fun writeErr => ?_) fun _ => .pure rfl
  refine .ite (fun _ => .perform fun errno => ?_) fun hother => ?_
  · refine .ite (fun _ => .pure rfl) fun _ => ?_
    refine .bind (.refl (fun _ => rfl) _) fun _ _ _ => ?_
    refine .perform fun waitRet => .ite (fun _ => .pure rfl) fun _ => ?_
    refine .bind (.iterate
      (fun _ _ => sslWriteRetryInner_lockstep retryTls strfullLen) fuel
      ⟨⟨success, rfl⟩, rfl⟩) fun c d h => ?_
    exact .pure (congrArg Except.ok h)
  · exact absurd (Or.inr (Or.inr (by decide))) hother

/-! ## `M_ssl_handshake_retry` -/

/-- `M_is_retry_success` of what `M_ssl_handshake_retry` returns. -/
def handshakeSucceeded : HandshakeResult → Except TaskEnd Bool :=
  Except.map fun result => result.2.isRetrySuccess

def SameHandshake (r r' : HandshakeResult) : Prop :=
  handshakeSucceeded r = handshakeSucceeded r'

theorem handshakeRetrySwitch_lockstep (cfg : OpensslConfigure)
    (handshakeErr : ℤ) (c : ClientContext) (success : Bool)
    (retryTls : Option ℕ) :
    Prog.Lockstep (Iter.Related SameState SameHandshake)
      (handshakeRetrySwitch cfg handshakeErr c retryTls)
      (handshakeRetrySwitch cfg handshakeErr
        { c with isRetrySuccess := success } retryTls) := by
  have hnext : Iter.Related SameState SameHandshake (.next (c, retryTls))
      (.next ({ c with isRetrySuccess := success }, retryTls)) :=
    .next ⟨⟨success, rfl⟩, rfl⟩
  refine .ite (fun _ => .perform fun errno => ?_) fun _ =>
    .ite (fun _ => .pure (.done rfl)) fun _ => .pure hnext
  refine .ite (fun _ => .perform fun retryRet => ?_) fun _ => .pure (.done rfl)
  refine .ite (fun _ => ?_) fun _ => .pure (.done rfl)
  exact .ite (fun _ => .pure (.done rfl)) fun _ =>
    .perform fun _ => .pure hnext

theorem handshakeRetryStep_lockstep (cfg : OpensslConfigure)
    (handshakeErr : ℤ) (retryCtx : Option ℕ)
    {s t : ClientContext × Option ℕ} (h : SameState s t) :
    Prog.Lockstep (Iter.Related SameState SameHandshake)
      (handshakeRetryStep cfg handshakeErr retryCtx s)
      (handshakeRetryStep cfg handshakeErr retryCtx t) := by
  obtain ⟨c, retryTls⟩ := s
  obtain ⟨_, _⟩ := t
  obtain ⟨⟨success, rfl⟩, rfl⟩ := h
  refine .ite (fun _ => .ite (fun _ => .perform fun retry => ?_) fun _ => ?_)
    fun _ => .pure (.done rfl)
  · refine .ite (fun _ => ?_) fun _ => .pure (.done rfl)
    exact .ite (fun _ => .pure (.done rfl)) fun _ =>
      .pure (.next ⟨⟨success, rfl⟩, rfl⟩)
  · -- the new object does not depend on the context
    refine .bind (.refl (fun _ => rfl) _) fun tls tls' htls => ?_
    obtain rfl : tls = tls' := htls
    exact handshakeRetrySwitch_lockstep cfg handshakeErr _ success tls

theorem sslHandshakeRetry_lockstep (ctx : ClientContext) (success : Bool)
    (count : ℤ) (cfg : OpensslConfigure) (handshakeErr : ℤ)
    (retryTls retryCtx : Option ℕ) :
    Prog.Lockstep SameHandshake
      (sslHandshakeRetry fuel cfg ctx handshakeErr retryTls retryCtx)
      (sslHandshakeRetry fuel cfg (ctx.leftover success count) handshakeErr
        retryTls retryCtx) :=
  .ite (fun _ => .pure rfl) fun _ =>
    .iterate (fun _ _ => handshakeRetryStep_lockstep cfg handshakeErr retryCtx)
      fuel ⟨leftover_restart ctx success count, rfl⟩

/-! ## `M_tryIpaddrs` -/

/-- The context as another operation might have left it, with its mark for the
addresses. -/
def ClientContext.leftoverMarked (ctx : ClientContext) (success : Bool)
    (count : ℤ) (invalid : Bool) : ClientContext :=
  { ctx.leftover success count with thisAddrInvalid := invalid }

/-- `M_this_addr_invalid` and `M_socketfd` of what `M_tryIpaddrs` returns. -/
def selected : Except CallEnd ClientContext → Except CallEnd (Bool × ℤ) :=
  Except.map fun c => (c.thisAddrInvalid, c.socketfd)

def SameFd (r r' : Except CallEnd ClientContext) : Prop :=
  r.map ClientContext.socketfd = r'.map ClientContext.socketfd

theorem tryIpaddrsFrom_lockstep (ctx : ClientContext) (success : Bool)
    (count : ℤ) (invalid : Bool) (addrs : List Addrinfo) :
    Prog.Lockstep SameFd (tryIpaddrsFrom ctx addrs)
      (tryIpaddrsFrom (ctx.leftoverMarked success count invalid) addrs) := by
  induction addrs with
  | nil => exact .pure rfl
  | cons addr rest ih =>
      refine .ite (fun _ => ih) fun _ => .perform fun testFd => ?_
      refine .ite (fun _ => .pure rfl) fun _ => .perform fun result => ?_
      -- an address that accepts leaves the mark, which is not looked at
      refine .ite (fun _ => ?_) fun _ => ?_
      · exact .perform fun _ => .pure rfl
      · exact .perform fun _ => ih

theorem tryIpaddrs_lockstep (ctx : ClientContext) (success : Bool) (count : ℤ)
    (invalid : Bool) :
    Prog.Lockstep SameFd (tryIpaddrs ctx)
      (tryIpaddrs (ctx.leftoverMarked success count invalid)) :=
  .ite (fun _ => .pure rfl) fun _ =>
    tryIpaddrsFrom_lockstep ctx success count invalid ctx.resovlerAddrs

/-- How `M_tryIpaddrs` ends: the mark is set if no address accepts, and left as
it is if one does. -/
def MarkEnd (invalid : Bool) (h : ConnectTrace) :
    Status (Except CallEnd ClientContext) → Prop
  | .calling => True
  | .stuck => False
  | .undefined => False
  | .done (.error _) => NoneAccepts h
  | .done (.ok c) => NoneAccepts h ∧ c.thisAddrInvalid = true ∨
      ¬ NoneAccepts h ∧ c.thisAddrInvalid = invalid

theorem tryIpaddrsFrom_marks
    {ok : ConnectTrace → (q : ConnectCall) → q.Reply → Prop}
    (ctx : ClientContext) (addrs : List Addrinfo) {h : ConnectTrace}
    (hh : NoneAccepts h) :
    (tryIpaddrsFrom ctx addrs).Sat ok (MarkEnd ctx.thisAddrInvalid) h := by
  refine sat_tryIpaddrsFrom (fun _ h => NoneAccepts h)
    ?_ ?_ ?_ ?_ ?_ ?_ ?_ ?_ addrs hh
  · intro _ h _
    trivial
  · intro _ _ h hh _
    exact hh
  · intro addr _ h hh _
    exact noneAccepts_snoc.mpr ⟨hh, rfl⟩
  · intro _ _ h _ _ _
    trivial
  · intro _ _ h _ _ _ _
    trivial
  · intro addr _ h testFd _ _ _
    refine Or.inr ⟨fun hnone => ?_, rfl⟩
    exact Bool.noConfusion (noneAccepts_snoc.mp (noneAccepts_snoc.mp hnone).1).2
  · intro addr _ h testFd result hh _ _ hresult
    rw [noneAccepts_snoc, noneAccepts_snoc, noneAccepts_snoc]
    exact ⟨⟨⟨hh, rfl⟩, decide_eq_false hresult⟩, rfl⟩
  · intro h hh
    exact Or.inl ⟨hh, rfl⟩

theorem tryIpaddrs_marks
    {ok : ConnectTrace → (q : ConnectCall) → q.Reply → Prop}
    (ctx : ClientContext) :
    (tryIpaddrs ctx).Sat ok (MarkEnd ctx.thisAddrInvalid) [] := by
  rw [tryIpaddrs]
  split
  · exact noneAccepts_nil
  · exact tryIpaddrsFrom_marks ctx _ noneAccepts_nil

/-- What the results of two runs with the same calls show. -/
theorem MarkEnd.same_iff {h : ConnectTrace} {invalid invalid' : Bool}
    {r r' : Except CallEnd ClientContext} (hr : MarkEnd invalid h (.done r))
    (hr' : MarkEnd invalid' h (.done r')) (hfd : SameFd r r') :
    selected r = selected r' ↔ invalid = invalid' ∨ NoneAccepts h := by
  cases r with
  | error e =>
      cases r' with
      | error e' =>
          have he : e = e' := Except.error.inj hfd
          exact iff_of_true (congrArg Except.error he) (Or.inr hr)
      | ok c' => cases hfd
  | ok c =>
      cases r' with
      | error e' => cases hfd
      | ok c' =>
          have hmarks : selected (.ok c) = selected (.ok c') ↔
              c.thisAddrInvalid = c'.thisAddrInvalid := by
            constructor
            · intro hsame
              exact (Prod.mk.inj (Except.ok.inj hsame)).1
            · intro hmark
              exact congrArg Except.ok (Prod.ext hmark (Except.ok.inj hfd))
          rw [hmarks]
          rcases hr with ⟨hnone, hc⟩ | ⟨haccepts, hc⟩
          · rcases hr' with ⟨-, hc'⟩ | ⟨haccepts, -⟩
            · exact iff_of_true (hc.trans hc'.symm) (Or.inr hnone)
            · exact absurd hnone haccepts
          · rcases hr' with ⟨hnone, -⟩ | ⟨-, hc'⟩
            · exact absurd hnone haccepts
            · rw [hc, hc', or_iff_left haccepts]

theorem tryIpaddrs_alike_iff (o : Oracle ConnectCall ConnectCall.Reply)
    (ctx : ClientContext) (success : Bool) (count : ℤ) (invalid : Bool) :
    Prog.Alike selected o (tryIpaddrs ctx)
        (tryIpaddrs (ctx.leftoverMarked success count invalid)) ↔
      ctx.thisAddrInvalid = invalid ∨
        NoneAccepts ((tryIpaddrs ctx).exec o []).2 := by
  have hany : o.Obeys fun _ _ _ => True := fun _ _ => trivial
  rcases (tryIpaddrs_marks ctx).exec_ends hany with
    ⟨h, -, hstuck⟩ | ⟨h, -, hundefined⟩ | ⟨r, h, hrun, hmark⟩
  · exact hstuck.elim
  · exact hundefined.elim
  rcases (tryIpaddrs_marks (ctx.leftoverMarked success count
    invalid)).exec_ends hany with
    ⟨h', -, hstuck⟩ | ⟨h', -, hundefined⟩ | ⟨r', h', hrun', hmark'⟩
  · exact hstuck.elim
  · exact hundefined.elim
  obtain ⟨hst, hcalls⟩ :=
    (tryIpaddrs_lockstep ctx success count invalid).exec (o := o) (h := [])
  rw [hrun, hrun'] at hst hcalls
  obtain rfl : h = h' := hcalls
  cases hst with
  | done hfd =>
      rw [Prog.Alike, Prog.observe, Prog.observe, hrun, hrun']
      refine Iff.trans ?_ (hmark.same_iff hmark' hfd)
      constructor
      · intro hsame
        exact Status.done.inj (Prod.mk.inj hsame).1
      · intro hsame
        exact Prod.ext (congrArg Status.done hsame) rfl

/-! ## `M_retryTcpConnect` -/

theorem retryTcpConnect_alike_iff (o : Oracle ConnectCall ConnectCall.Reply)
    {ctx : ClientContext} {addr : Addrinfo} {rest : List Addrinfo}
    (haddrs : ctx.resovlerAddrs = addr :: rest) (success : Bool) (count : ℤ)
    (hfuel : ctx.connectBound ≤ fuel)
    (hfuel' : (ctx.leftover success count).connectBound ≤ fuel)
    (errnoCopy : ℤ) :
    let k := ctx.attemptsLeft
    let l := (ctx.leftover success count).attemptsLeft
    Prog.Alike succeeded o (retryTcpConnect fuel ctx errnoCopy)
        (retryTcpConnect fuel (ctx.leftover success count) errnoCopy) ↔
      (attempts o ctx.socketfd addr (min k l) []).1 = .connected ∨
        ctx.isRetrySuccess = success ∧
          ((attempts o ctx.socketfd addr (min k l) []).1 = .unset ∨ k = l) := by
  intro k l
  have hobserve := retryTcpConnect_observe (o := o) haddrs hfuel errnoCopy []
  have hobserve' := retryTcpConnect_observe (o := o)
    (c := ctx.leftover success count) haddrs hfuel' errnoCopy []
  rw [← attempts_same_iff, Prog.Alike, hobserve, hobserve']
  constructor
  · intro hsame
    obtain ⟨hflag, hcalls⟩ := Prod.mk.inj hsame
    exact ⟨Except.ok.inj (Status.done.inj hflag), hcalls⟩
  · rintro ⟨hflag, hcalls⟩
    exact Prod.ext (congrArg (fun b => Status.done (Except.ok b)) hflag) hcalls

/-- **What a leftover changes.** For every sequence of replies, two contexts
that differ in the outcome and the count of an earlier retry alone: the helpers
that reset both make the same calls and report the same. `M_retryTcpConnect`
does exactly if an attempt connects within the smaller of the two allowances,
or the flags are the same and so are the allowances, or an `errno` of 0 ends
the attempts within both. `M_tryIpaddrs` returns the same mark and descriptor
exactly if it finds the same mark or no address accepts. -/
theorem leftover_alike_iff (fuel : ℕ) (ctx : ClientContext) (success : Bool)
    (count : ℤ) (net : Oracle Call Call.Reply)
    (tls : Oracle TlsCall TlsCall.Reply)
    (conn : Oracle ConnectCall ConnectCall.Reply) :
    let left := ctx.leftover success count
    (∀ errnoCopy chacheSize, Prog.Alike succeeded net
      (retryTcpRead fuel ctx errnoCopy chacheSize)
      (retryTcpRead fuel left errnoCopy chacheSize)) ∧
    (∀ delimiter errnoCopy, Prog.Alike succeeded net
      (retryTcpReadUntil fuel ctx delimiter errnoCopy)
      (retryTcpReadUntil fuel left delimiter errnoCopy)) ∧
    (∀ totalWrite strfullLen errnoCopy,
      Prog.Alike ClientContext.isRetrySuccess net
        (retryTcpwrite fuel ctx totalWrite strfullLen errnoCopy)
        (retryTcpwrite fuel left totalWrite strfullLen errnoCopy)) ∧
    (∀ ssl tlsRet delimiter, Prog.Alike succeeded net
      (sslReadUntilRetry fuel ctx ssl tlsRet delimiter)
      (sslReadUntilRetry fuel left ssl tlsRet delimiter)) ∧
    (∀ retryTls retryCtx tlsRet strfullLen writeToalData,
      Prog.Alike succeeded tls
        (sslWriteRetry fuel ctx retryTls retryCtx tlsRet strfullLen
          writeToalData)
        (sslWriteRetry fuel left retryTls retryCtx tlsRet strfullLen
          writeToalData)) ∧
    (∀ cfg handshakeErr retryTls retryCtx,
      Prog.Alike handshakeSucceeded tls
        (sslHandshakeRetry fuel cfg ctx handshakeErr retryTls retryCtx)
        (sslHandshakeRetry fuel cfg left handshakeErr retryTls retryCtx)) ∧
    (∀ addr rest errnoCopy, ctx.resovlerAddrs = addr :: rest →
      ctx.connectBound ≤ fuel → left.connectBound ≤ fuel →
      let first := (attempts conn ctx.socketfd addr
        (min ctx.attemptsLeft left.attemptsLeft) []).1
      (Prog.Alike succeeded conn (retryTcpConnect fuel ctx errnoCopy)
          (retryTcpConnect fuel left errnoCopy) ↔
        first = .connected ∨ ctx.isRetrySuccess = success ∧
          (first = .unset ∨ ctx.attemptsLeft = left.attemptsLeft))) ∧
    ∀ invalid, Prog.Alike selected conn (tryIpaddrs ctx)
        (tryIpaddrs (ctx.leftoverMarked success count invalid)) ↔
      ctx.thisAddrInvalid = invalid ∨
        NoneAccepts ((tryIpaddrs ctx).exec conn []).2 := by
  intro left
  refine ⟨?_, ?_, ?_, ?_, ?_, ?_, ?_, ?_⟩
  · intro errnoCopy chacheSize
    exact (retryTcpRead_lockstep ctx success count errnoCopy chacheSize).alike
  · intro delimiter errnoCopy
    exact (retryTcpReadUntil_lockstep ctx success count delimiter
      errnoCopy).alike
  · intro totalWrite strfullLen errnoCopy
    exact (retryTcpwrite_lockstep ctx success count totalWrite strfullLen
      errnoCopy).alike
  · intro ssl tlsRet delimiter
    exact (sslReadUntilRetry_lockstep ctx success count ssl tlsRet
      delimiter).alike
  · intro retryTls retryCtx tlsRet strfullLen writeToalData
    exact (sslWriteRetry_lockstep ctx success count retryTls retryCtx tlsRet
      strfullLen writeToalData).alike
  · intro cfg handshakeErr retryTls retryCtx
    exact (sslHandshakeRetry_lockstep ctx success count cfg handshakeErr
      retryTls retryCtx).alike
  · intro addr rest errnoCopy haddrs hfuel hfuel'
    exact retryTcpConnect_alike_iff conn haddrs success count hfuel hfuel'
      errnoCopy
  · intro invalid
    exact tryIpaddrs_alike_iff conn ctx success count invalid

/-- With an address that accepts, the allowances of 3 and of 1 come to the
same, whatever the flag. -/
theorem leftover_alike_accepted :
    let ctx := { connected with resovlerAddrs := [⟨2, 2⟩], maxRetyCount := 3 }
    Prog.Alike succeeded acceptsSecond (retryTcpConnect 9 ctx econnrefused)
      (retryTcpConnect 9 (ctx.leftover true 2) econnrefused) := by
  intro ctx
  obtain ⟨-, -, -, -, -, -, hconnect, -⟩ :=
    leftover_alike_iff 9 ctx true 2 halfWrites willingPeer acceptsSecond
  have hiff := hconnect ⟨2, 2⟩ [] econnrefused rfl (by decide) (by decide)
  exact hiff.mpr (Or.inl (by decide))

/-- On a host that refuses every connection the helper reports the success of
an operation before it. On one that accepts, the mark of an operation before it
stays in the context beside the new descriptor. -/
theorem leftover_remembered :
    let refused := { connected with maxRetyCount := 2 }
    (((retryTcpConnect 9 refused econnrefused).observe succeeded acceptsSecond
        []).1 = .done (.ok false) ∧
      ((retryTcpConnect 9 (refused.leftover true 0) econnrefused).observe
        succeeded acceptsSecond []).1 = .done (.ok true)) ∧
    (((tryIpaddrs hostedResolved).observe selected acceptsSecond []).1 =
        .done (.ok (false, 6)) ∧
      ((tryIpaddrs (hostedResolved.leftoverMarked false 0 true)).observe
        selected acceptsSecond []).1 = .done (.ok (true, 6))) ∧
    (¬ ∀ (conn : Oracle ConnectCall ConnectCall.Reply) (fuel : ℕ)
      (ctx : ClientContext) (success : Bool) (count errnoCopy : ℤ),
      ctx.resovlerAddrs ≠ [] → ctx.connectBound ≤ fuel →
      (ctx.leftover success count).connectBound ≤ fuel →
      Prog.Alike succeeded conn (retryTcpConnect fuel ctx errnoCopy)
        (retryTcpConnect fuel (ctx.leftover success count) errnoCopy)) ∧
    ¬ ∀ (conn : Oracle ConnectCall ConnectCall.Reply) (ctx : ClientContext)
      (success : Bool) (count : ℤ) (invalid : Bool),
      Prog.Alike selected conn (tryIpaddrs ctx)
        (tryIpaddrs (ctx.leftoverMarked success count invalid)) := by
  intro refused
  refine ⟨⟨by decide +kernel, by decide +kernel⟩,
    ⟨by decide +kernel, by decide +kernel⟩, fun hall => ?_, fun hall => ?_⟩
  · have hsame := hall acceptsSecond 9 refused true 0 econnrefused (by decide)
      (by decide) (by decide)
    have hflag : Status.done (Except.ok false) = .done (.ok true) :=
      (congrArg Prod.fst hsame : _)
    cases hflag
  · have hsame := hall acceptsSecond hostedResolved false 0 true
    have hmark : Status.done (Except.ok (false, (6 : ℤ))) = .done (.ok (true, 6)) :=
      (congrArg Prod.fst hsame : _)
    cases hmark

end

end Mtasc
