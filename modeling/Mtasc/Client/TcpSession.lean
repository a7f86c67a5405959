import Mtasc.Client.Lossless
import Mtasc.Client.Selection
import Mtasc.Client.WriteCount
import Mtasc.Lib.Calls

/-!
# A session over TCP

The operations in the order of use: resolve, connect, write, read up to a
delimiter. Each is called by the callback of the one before it, with the context
that the callback got, unless it got an error. At every moment of a session the
bytes go over the descriptor that has been connected, in the order request,
response.
-/

namespace Mtasc

open Lib ConnectTrace

/-! ## Sessions -/

/-- What the user passes, and what answers the calls of each phase. -/
structure TcpSession where
  host : ClientContext
  timeout : UInt16
  enableIpv6 : Bool
  maxRetCount : ℤ
  message : Bytes
  delimiter : Bytes
  fuel : ℕ
  network : Oracle ConnectCall ConnectCall.Reply
  writes : Oracle Call Call.Reply
  reads : Oracle Call Call.Reply

namespace TcpSession

/-- The family that is asked for. -/
def family (s : TcpSession) : ℤ := if s.enableIpv6 then afInet6 else afInet

def resolve (s : TcpSession) : ConnectTrace :=
  resolving s.network s.host s.timeout s.enableIpv6 s.maxRetCount

def connect (s : TcpSession) (ctx : ClientContext) : ConnectTrace :=
  connecting s.network s.fuel ctx s.resolve

def write (s : TcpSession) (ctx : ClientContext) : Trace :=
  ((asyncWrite s.fuel ctx s.message).exec s.writes []).2

def read (s : TcpSession) (ctx : ClientContext) : Trace :=
  ((asyncReadUntil s.fuel ctx s.delimiter).exec s.reads []).2

/-- `async_resolver_domain` has brought `ctx` without an error. -/
def Resolves (s : TcpSession) (ec : ErrorCode) (ctx : ClientContext) : Prop :=
  completions s.resolve = [(ec, ctx)] ∧ ec.IsZero

/-- And `async_try_connect_tcp`, called with it, `ctx'`. -/
def Connects (s : TcpSession) (ctx ctx' : ClientContext) : Prop :=
  ∃ ec ec', s.Resolves ec ctx ∧
    completions (s.connect ctx) = [(ec, ctx), (ec', ctx')] ∧ ec'.IsZero

/-- And `async_write`, called with `ctx'`, `ctx''`. -/
def Writes (s : TcpSession) (ctx' ctx'' : ClientContext) : Prop :=
  ∃ ec n, .write ec n ctx'' ∈ Trace.completions (s.write ctx') ∧ ec.IsZero

/-- The calls up to a moment: those of resolving and connecting, and those of
writing and reading. -/
inductive Moment (s : TcpSession) : ConnectTrace → Trace → Prop
  | resolving {h : ConnectTrace} (hh : h <+: s.resolve) : Moment s h []
  | connecting {ec : ErrorCode} {ctx : ClientContext} {h : ConnectTrace}
      (hresolves : s.Resolves ec ctx) (hh : h <+: s.connect ctx) : Moment s h []
  | writing {ctx ctx' : ClientContext} {h : Trace}
      (hconnects : s.Connects ctx ctx') (hh : h <+: s.write ctx') :
      Moment s (s.connect ctx) h
  | reading {ctx ctx' ctx'' : ClientContext} {h : Trace}
      (hconnects : s.Connects ctx ctx') (hwrites : s.Writes ctx' ctx'')
      (hh : h <+: s.read ctx'') :
      Moment s (s.connect ctx) (s.write ctx' ++ h)

end TcpSession

/-! ## What is safe -/

/-- The call names the descriptor `fd` if it names one, and a context that it
hands over has it. -/
def OnDescriptor (fd : ℤ) : Call → Prop
  | .select fd' _ => fd' = fd
  | .recv fd' _ => fd' = fd
  | .read fd' _ => fd' = fd
  | .write fd' _ => fd' = fd
  | .submit (.write _ _ ctx) => ctx.socketfd = fd
  | .submit (.read _ _ _ ctx) => ctx.socketfd = fd
  | _ => True

/-- The calls of a write; none of them reads. -/
def WritesOn (fd : ℤ) : Call → Prop
  | .write fd' _ => fd' = fd
  | .errno => True
  | .submit (.write _ _ ctx) => ctx.socketfd = fd
  | _ => False

/-- The calls of a read; none of them writes. -/
def ReadsOn (fd : ℤ) : Call → Prop
  | .select fd' _ => fd' = fd
  | .recv fd' _ => fd' = fd
  | .read fd' _ => fd' = fd
  | .errno => True
  | .submit (.read _ _ _ ctx) => ctx.socketfd = fd
  | _ => False

section

variable {fd : ℤ} {ctx : ClientContext} {fuel : ℕ} {message delimiter : Bytes}

/-! ## The calls of a write -/

theorem retryTcpwriteInner_calls (hfd : ctx.socketfd = fd) (full total : ℕ) :
    (Prog.iterate (retryTcpwriteInner full) fuel (ctx, total)).Calls
      (WritesOn fd) fun
        | .return c => c.socketfd = fd
        | .fall s => s.1.socketfd = fd := by
  refine Prog.calls_iterate (fun s => s.1.socketfd = fd) ?_ fuel _ hfd
  rintro ⟨c, total⟩ hc
  rw [retryTcpwriteInner]
  split
  · refine Prog.calls_perform_bind.mpr ⟨hc, fun r => ?_⟩
    dsimp only
    split
    · split
      · exact hc
      · exact hc
    · split
      · exact hc
      · exact hc
  · exact hc

theorem retryTcpwrite_calls (hfd : ctx.socketfd = fd) (total full : ℕ)
    (e : ℤ) :
    (retryTcpwrite fuel ctx total full e).Calls (WritesOn fd)
      fun c => c.socketfd = fd := by
  rw [retryTcpwrite]
  split
  · exact hfd
  · split
    · dsimp only
      have houter : (Prog.iterate (retryTcpwriteOuter fuel full) fuel
          ({ ctx with connectRetyCount := 0 }, total)).Calls (WritesOn fd) fun
            | .return c => c.socketfd = fd
            | .fall s => s.1.socketfd = fd := by
        refine Prog.calls_iterate (fun s => s.1.socketfd = fd) ?_ fuel _ hfd
        rintro ⟨c, total⟩ hc
        rw [retryTcpwriteOuter]
        split
        · have hinner : (Prog.iterate (retryTcpwriteInner full) fuel
              ({ c with connectRetyCount := c.connectRetyCount + 1 },
                total)).Calls (WritesOn fd) fun
                | .return c => c.socketfd = fd
                | .fall s => s.1.socketfd = fd :=
            retryTcpwriteInner_calls (by exact hc) full total
          refine hinner.bind fun flow hflow => ?_
          cases flow with
          | «return» c => exact hflow
          | fall s => exact hflow
        · exact hc
      refine houter.bind fun flow hflow => ?_
      cases flow with
      | «return» c => exact hflow
      | fall s =>
          obtain ⟨c, total⟩ := s
          dsimp only
          split
          · exact hflow
          · split
            · exact hflow
            · exact hflow
    · exact hfd

theorem submitWrite_calls (hfd : ctx.socketfd = fd) (ec : ErrorCode) (n : ℕ) :
    (submitWrite ec n ctx).Calls (WritesOn fd) fun _ => True :=
  ⟨hfd, fun _ => trivial⟩

theorem asyncWriteStep_calls {s : ClientContext × ℤ × ℤ}
    (hs : s.1.socketfd = fd) :
    (asyncWriteStep fuel s).Calls (WritesOn fd)
      (Prog.iterPost (fun
        | .return _ => True
        | .fall s => s.1.socketfd = fd) fun s => s.1.socketfd = fd) := by
  obtain ⟨c, written, total⟩ := s
  rw [asyncWriteStep]
  split
  · refine Prog.calls_perform_bind.mpr ⟨hs, fun r => ?_⟩
    dsimp only
    split
    · refine Prog.calls_perform_bind.mpr ⟨trivial, fun e => ?_⟩
      refine (retryTcpwrite_calls (by exact hs) _ _ e).bind fun c hc => ?_
      split
      · split
        · exact (submitWrite_calls hc _ _).bind fun _ _ => trivial
        · exact (submitWrite_calls hc _ _).bind fun _ _ => trivial
      · exact (submitWrite_calls hc _ _).bind fun _ _ => trivial
    · split
      · exact hs
      · exact hs
  · exact hs

/-- A write keeps to the descriptor of its context, and does not read. -/
theorem asyncWrite_calls (hfd : ctx.socketfd = fd) :
    (asyncWrite fuel ctx message).Calls (WritesOn fd) fun _ => True := by
  rw [asyncWrite]
  split
  · exact (submitWrite_calls hfd _ _).bind fun _ _ => trivial
  · dsimp only
    rw [asyncWriteTask]
    refine (Prog.calls_iterate (fun s => s.1.socketfd = fd)
      (fun _ hs => asyncWriteStep_calls hs) fuel _ (by exact hfd)).bind
        fun flow hflow => ?_
    cases flow with
    | «return» e => trivial
    | fall s =>
        dsimp only
        split
        · exact (submitWrite_calls hflow _ _).bind fun _ _ => trivial
        · exact (submitWrite_calls hflow _ _).bind fun _ _ => trivial

/-! ## The calls of a read -/

theorem submitRead_calls {c : ClientContext} (hfd : c.socketfd = fd)
    (ec : ErrorCode) (n : ℕ) :
    (submitRead ec n c).Calls (ReadsOn fd) fun _ => True :=
  ⟨hfd, fun _ => trivial⟩

theorem submitReadable_calls {c : ClientContext} (hfd : c.socketfd = fd)
    (ec : ErrorCode) :
    (submitReadable ec c).Calls (ReadsOn fd) fun _ => True := by
  rw [submitReadable]
  split
  · trivial
  · exact (submitRead_calls hfd _ _).bind fun _ _ => trivial

theorem appendTobuffer_socketfd {c c' : ClientContext} {data : Bytes}
    (h : c.appendTobuffer data = .ok c') : c'.socketfd = c.socketfd := by
  rw [ClientContext.appendTobuffer] at h
  split at h
  · cases h
  · split at h
    · cases h
      rfl
    · cases h
    · cases h

/-- The helper for a failed read. -/
theorem retryTcpReadUntil_calls (hfd : ctx.socketfd = fd) (e : ℤ) :
    (retryTcpReadUntil fuel ctx delimiter e).Calls (ReadsOn fd) fun
      | .ok c => c.socketfd = fd
      | .error _ => True := by
  rw [retryTcpReadUntil]
  split
  · trivial
  · have hloop : (Prog.iterate (retryTcpReadUntilStep delimiter) fuel
        ctx.retryStart).Calls (ReadsOn fd) fun
          | .ok c => c.socketfd = fd
          | .error _ => True := by
      refine Prog.calls_iterate (fun c => c.socketfd = fd) ?_ fuel _ ?_
      · intro c hc
        rw [retryTcpReadUntilStep]
        split
        · refine Prog.calls_perform_bind.mpr ⟨trivial, fun e => ?_⟩
          split
          · exact hc
          · split
            · dsimp only
              split
              · trivial
              · split
                · exact hc
                · rw [retryTcpReadUntilRead]
                  refine Prog.calls_perform_bind.mpr ⟨hc, fun data => ?_⟩
                  split
                  · split
                    · exact hc
                    · exact hc
                  · split
                    · exact hc
                    · exact hc
                  · split
                    · trivial
                    · next happ =>
                      exact (appendTobuffer_socketfd happ).trans hc
            · exact hc
        · exact hc
      · rw [ClientContext.retryStart]
        split
        · exact hfd
        · exact hfd
    refine hloop.bind fun result hresult => ?_
    cases result with
    | error e => trivial
    | ok c => exact hresult

/-- What an iteration of the read loop leaves. -/
abbrev KeepsOn (fd : ℤ) : Iter (ReadState × ClientContext) TaskEnd → Prop :=
  Prog.iterPost (fun _ => True) fun s => s.2.socketfd = fd

theorem readUntilError_calls (hfd : ctx.socketfd = fd) :
    (readUntilError fuel delimiter ctx).Calls (ReadsOn fd) (KeepsOn fd) := by
  rw [readUntilError]
  refine Prog.calls_perform_bind.mpr ⟨trivial, fun e => ?_⟩
  refine (retryTcpReadUntil_calls hfd e).bind fun result hresult => ?_
  cases result with
  | error e => trivial
  | ok c =>
      have hc : (ctx.moveAssign c).socketfd = fd := hresult
      dsimp only
      split
      · exact (submitReadable_calls hc _).bind fun _ _ => trivial
      · refine Prog.calls_perform_bind.mpr ⟨trivial, fun e => ?_⟩
        exact (submitRead_calls hc _ _).bind fun _ _ => trivial

theorem readUntilReading_calls (hfd : ctx.socketfd = fd) :
    (readUntilReading fuel delimiter ctx).Calls (ReadsOn fd) (KeepsOn fd) := by
  rw [readUntilReading]
  refine Prog.calls_perform_bind.mpr ⟨hfd, fun r => ?_⟩
  split
  · exact hfd
  · refine Prog.calls_perform_bind.mpr ⟨hfd, fun data => ?_⟩
    split
    · exact hfd
    · exact hfd
    · split
      · trivial
      · next happ =>
        exact readUntilError_calls ((appendTobuffer_socketfd happ).trans hfd)

/-- A read keeps to the descriptor of its context, and does not write. -/
theorem asyncReadUntil_calls (hfd : ctx.socketfd = fd) :
    (asyncReadUntil fuel ctx delimiter).Calls (ReadsOn fd) fun _ => True := by
  rw [asyncReadUntil]
  refine Prog.calls_iterate (fun s => s.2.socketfd = fd) ?_ fuel _ hfd
  rintro ⟨state, c⟩ hc
  cases state with
  | verify =>
      rw [readUntilStep, readUntilVerify]
      split
      · trivial
      · split
        · exact hc
        · exact readUntilReading_calls hc
  | reading => exact readUntilReading_calls hc
  | error => exact readUntilError_calls hc
  | close =>
      rw [readUntilStep, readUntilClose]
      split
      · trivial
      · split
        · exact (submitRead_calls hc _ _).bind fun _ _ => trivial
        · exact (submitRead_calls hc _ _).bind fun _ _ => trivial
  | found => exact (submitReadable_calls hc _).bind fun _ _ => trivial

/-! ## The calls behind an address that has accepted -/

/-- What is called once an address has accepted: nothing is opened or closed,
and what is delivered has the descriptor. -/
def AcceptedOn (fd : ℤ) : ConnectCall → Prop
  | .socket _ => False
  | .close _ => False
  | .submit _ ctx => ctx.socketfd = fd
  | _ => True

theorem fdSet_calls {Q : Type} {R : Q → Type} (P : Q → Prop) (fd : ℤ) :
    (fdSet fd : Prog Q R Unit).Calls P fun _ => True := by
  rw [fdSet]
  split
  · trivial
  · trivial

theorem submitContext_calls (hfd : ctx.socketfd = fd) (ec : ErrorCode)
    (code : ℤ) :
    (submitContext ec ctx code).Calls (AcceptedOn fd) fun _ => True :=
  ⟨hfd, fun _ => trivial⟩

theorem retryTcpConnect_calls (hfd : ctx.socketfd = fd) (e : ℤ) :
    (retryTcpConnect fuel ctx e).Calls (AcceptedOn fd) fun
      | .ok c => c.socketfd = fd
      | .error _ => True := by
  rw [retryTcpConnect]
  have hloop : ∀ c : ClientContext, c.socketfd = fd →
      (Prog.iterate retryTcpConnectStep fuel c).Calls (AcceptedOn fd) fun
        | .ok c => c.socketfd = fd
        | .error _ => True := by
    refine Prog.calls_iterate (fun c : ClientContext => c.socketfd = fd) ?_ fuel
    intro c hc
    rw [retryTcpConnectStep]
    split
    · refine Prog.calls_perform_bind.mpr ⟨trivial, fun e => ?_⟩
      split
      · exact hc
      · split
        · dsimp only
          split
          · trivial
          · refine Prog.calls_perform_bind.mpr ⟨trivial, fun r => ?_⟩
            split
            · split
              · exact hc
              · exact hc
            · exact hc
        · exact hc
    · exact hc
  refine (hloop _ ?_).bind fun result hresult => ?_
  · split
    · exact hfd
    · exact hfd
  · cases result with
    | error e => trivial
    | ok c => exact hresult

theorem connectResolved_calls (hfd : ctx.socketfd = fd) :
    (connectResolved fuel ctx).Calls (AcceptedOn fd) fun _ => True := by
  rw [connectResolved]
  split
  · trivial
  · refine Prog.calls_perform_bind.mpr ⟨trivial, fun _ => ?_⟩
    refine Prog.calls_perform_bind.mpr ⟨trivial, fun r => ?_⟩
    split
    · refine (fdSet_calls _ _).bind fun _ _ => ?_
      refine Prog.calls_perform_bind.mpr ⟨trivial, fun w => ?_⟩
      split
      · rw [connectSelectFailed]
        refine Prog.calls_perform_bind.mpr ⟨trivial, fun e => ?_⟩
        split
        · exact submitContext_calls hfd _ _
        · refine (retryTcpConnect_calls hfd e).bind fun result hresult => ?_
          cases result with
          | error e => trivial
          | ok c =>
              have hc : (ctx.moveAssign c).socketfd = fd := hresult
              dsimp only
              split
              · exact submitContext_calls hc _ _
              · exact Prog.calls_perform_bind.mpr
                  ⟨trivial, fun _ => submitContext_calls hc _ _⟩
      · split
        · exact submitContext_calls hfd _ _
        · exact submitContext_calls hfd _ _
    · exact submitContext_calls hfd _ _

/-! ## What a connection without an error is -/

variable {ok : ConnectTrace → (q : ConnectCall) → q.Reply → Prop}
variable {first : ErrorCode × ClientContext} {h : ConnectTrace}

/-- An entry of the list has accepted on `fd`, which is open. -/
structure Accepted (addrs : List Addrinfo) (family fd : ℤ) (h : ConnectTrace) :
    Prop where
  connect : ∃ addr ∈ addrs, addr.aiFamily = family ∧
    ⟨.socket addr, fd⟩ ∈ h ∧ ⟨.connect fd addr, (0 : ℤ)⟩ ∈ h
  live : fd ∈ (descriptors h).live
  valid : fd ≠ -1

/-- What holds at every moment of a connection after the callback `first`. -/
def Succeeds (first : ErrorCode × ClientContext) (ctx : ClientContext)
    (h : ConnectTrace) : Prop :=
  ∀ s, completions h = [first, s] → s.1.IsZero →
    Accepted ctx.resovlerAddrs ctx.family s.2.socketfd h

/-- What holds from the moment an address has accepted. -/
structure Behind (first : ErrorCode × ClientContext) (ctx : ClientContext)
    (fd : ℤ) (h : ConnectTrace) : Prop where
  accepted : Accepted ctx.resovlerAddrs ctx.family fd h
  delivered : ∃ rest, completions h = first :: rest ∧
    ∀ s ∈ rest, s.2.socketfd = fd

theorem Behind.succeeds (hb : Behind first ctx fd h) : Succeeds first ctx h := by
  intro s hs _
  obtain ⟨rest, hrest, hall⟩ := hb.delivered
  rw [hs] at hrest
  obtain ⟨-, rfl⟩ := List.cons.inj hrest
  rw [hall s List.mem_cons_self]
  exact hb.accepted

theorem succeeds_pending (hh : completions h = [first]) :
    Succeeds first ctx h := by
  intro s hs
  rw [hh] at hs
  cases hs

theorem Accepted.snoc {addrs : List Addrinfo} {family : ℤ}
    (ha : Accepted addrs family fd h) {q : ConnectCall} {r : q.Reply}
    (hq : usedBy q r = []) : Accepted addrs family fd (h ++ [⟨q, r⟩]) := by
  obtain ⟨addr, haddr, hfamily, hsocket, hconnect⟩ := ha.connect
  refine ⟨⟨addr, haddr, hfamily, List.mem_append_left _ hsocket,
    List.mem_append_left _ hconnect⟩, ?_, ha.valid⟩
  rw [descriptors_snoc, hq]
  exact ha.live

/-- One call behind the acceptance. -/
theorem Behind.call (hb : Behind first ctx fd h) {q : ConnectCall} {r : q.Reply}
    (hq : AcceptedOn fd q) : Behind first ctx fd (h ++ [⟨q, r⟩]) := by
  have hused : usedBy q r = [] := by
    cases q with
    | socket addr => exact hq.elim
    | close fd => exact hq.elim
    | _ => rfl
  have hdone : ∀ s ∈ completedBy q r, s.2.socketfd = fd := by
    cases q with
    | submit ec c =>
        intro s hs
        rw [List.mem_singleton.mp hs]
        exact hq
    | _ =>
        intro s hs
        cases hs
  obtain ⟨rest, hrest, hall⟩ := hb.delivered
  refine ⟨hb.accepted.snoc hused, rest ++ completedBy q r, ?_, ?_⟩
  · rw [completions_snoc, hrest]
    rfl
  · exact List.forall_mem_append.mpr ⟨hall, hdone⟩

theorem submitContext_succeeds (hh : completions h = [first])
    {ec : ErrorCode} (hec : ¬ ec.IsZero) (c : ClientContext) (code : ℤ) :
    (submitContext ec c code).Sat ok (fun h _ => Succeeds first ctx h) h := by
  refine ⟨succeeds_pending hh, fun _ _ s hs hzero => ?_⟩
  rw [completions_snoc, hh] at hs
  obtain ⟨-, hs⟩ := List.cons.inj hs
  obtain ⟨rfl, -⟩ := List.cons.inj hs
  exact absurd hzero hec

/-- How `M_tryIpaddrs` ends. -/
def TriedAddrs (first : ErrorCode × ClientContext) (ctx : ClientContext)
    (h : ConnectTrace) : Status (Except CallEnd ClientContext) → Prop
  | .done (.ok c) =>
      c.thisAddrInvalid = true ∧ completions h = [first] ∨
        completions h = [first] ∧ Behind first ctx c.socketfd h
  | _ => Succeeds first ctx h

theorem tryIpaddrs_succeeds (hh : completions h = [first]) :
    (tryIpaddrs ctx).Sat ok (TriedAddrs first ctx) h := by
  rw [tryIpaddrs]
  split
  · exact succeeds_pending hh
  · have hmore : ∀ {h : ConnectTrace} {q : ConnectCall} {r : q.Reply},
        completions h = [first] → completedBy q r = [] →
          completions (h ++ [⟨q, r⟩]) = [first] := by
      intro h q r hh hq
      rw [completions_snoc, hh, hq]
      rfl
    refine sat_tryIpaddrsFrom (fun addrs h => completions h = [first] ∧
      addrs ⊆ ctx.resovlerAddrs) ?_ ?_ ?_ ?_ ?_ ?_ ?_ ?_ _
      ⟨hh, List.Subset.refl _⟩
    · rintro addrs h ⟨hh, -⟩
      exact succeeds_pending hh
    · rintro addr rest h ⟨hh, hsub⟩ -
      exact ⟨hh, (List.cons_subset.mp hsub).2⟩
    · rintro addr rest h ⟨hh, -⟩ -
      exact succeeds_pending (hmore hh rfl)
    · rintro addr rest h testFd ⟨hh, -⟩ -
      exact succeeds_pending (hmore hh rfl)
    · rintro addr rest h testFd result ⟨hh, -⟩ -
      exact succeeds_pending (hmore (hmore hh rfl) rfl)
    · -- this entry accepts
      rintro addr rest h testFd ⟨hh, hsub⟩ hskips hfd
      have hdone := hmore (hmore (hmore hh (q := .socket addr) (r := testFd)
        rfl) (q := .connect testFd addr) (r := (0 : ℤ)) rfl)
        (q := .setReuseaddr testFd) (r := ()) rfl
      refine Or.inr ⟨hdone, ⟨⟨addr, hsub List.mem_cons_self, ?_, ?_, ?_⟩, ?_,
        hfd⟩, [], hdone, by simp⟩
      · by_contra hfamily
        exact hskips (skips_iff.mpr hfamily)
      · simp
      · simp
      · rw [descriptors_snoc, descriptors_snoc, descriptors_snoc, usedBy,
          if_neg hfd]
        exact List.mem_cons_self
    · rintro addr rest h testFd result ⟨hh, hsub⟩ - - -
      exact ⟨hmore (hmore (hmore hh rfl) rfl) rfl,
        (List.cons_subset.mp hsub).2⟩
    · rintro h ⟨hh, -⟩
      exact Or.inl ⟨rfl, hh⟩

theorem asyncTryConnectTcp_succeeds (hh : completions h = [first]) :
    (asyncTryConnectTcp fuel ctx).Sat ok (fun h _ => Succeeds first ctx h) h := by
  rw [asyncTryConnectTcp]
  split
  · exact submitContext_succeeds hh (makeErrorCode_ne_zero (by decide)) _ _
  · split
    · exact submitContext_succeeds hh (makeErrorCode_ne_zero (by decide)) _ _
    · refine (tryIpaddrs_succeeds hh).bind (fun _ hst => hst) (fun _ hst => hst)
        fun result h hst => ?_
      cases result with
      | error e => exact hst
      | ok c =>
          dsimp only
          split
          · have hpending : completions h = [first] := by
              rcases hst with ⟨-, hh⟩ | ⟨hh, -⟩
              · exact hh
              · exact hh
            exact submitContext_succeeds hpending
              (makeErrorCode_ne_zero (by decide)) _ _
          · next hvalid =>
            obtain ⟨-, hb⟩ := hst.resolve_left fun hst => hvalid hst.1
            refine ((connectResolved_calls rfl).sat
              (fun _ _ _ hb hq => hb.call hq) hb).mono fun _ _ hb => ?_
            exact hb.succeeds

/-! ## What a resolver without an error is -/

/-- The list of the context is what `getaddrinfo` has returned for the host,
the port and the family. -/
structure LookedUp (host : ClientContext) (enableIpv6 : Bool)
    (ctx : ClientContext) (h : ConnectTrace) : Prop where
  lookup : ∃ name, host.addrsHost = some name ∧
    ⟨.getaddrinfo name host.addrsPort
      (if enableIpv6 then afInet6 else afInet), some ctx.resovlerAddrs⟩ ∈ h
  family : ctx.isEnableIpV6 = enableIpv6

def Looks (host : ClientContext) (enableIpv6 : Bool) (h : ConnectTrace) :
    Prop :=
  ∀ ec c, completions h = [(ec, c)] → ec.IsZero → LookedUp host enableIpv6 c h

theorem looks_pending {host : ClientContext} {enableIpv6 : Bool}
    (hh : completions h = []) : Looks host enableIpv6 h := by
  intro ec c hcomp
  rw [hh] at hcomp
  cases hcomp

theorem submitContext_looks {host : ClientContext} {enableIpv6 : Bool}
    {ec : ErrorCode} (hec : ¬ ec.IsZero) (hh : completions h = [])
    (c : ClientContext) (code : ℤ) :
    (submitContext ec c code).Sat ok (fun h _ => Looks host enableIpv6 h) h := by
  refine ⟨looks_pending hh, fun _ _ ec' c' hcomp hzero => ?_⟩
  rw [completions_snoc, hh] at hcomp
  obtain ⟨rfl, -⟩ := Prod.mk.inj (List.cons.inj hcomp).1
  exact absurd hzero hec

theorem resolveFamily_looks {host : ClientContext} {name : String}
    (hname : host.addrsHost = some name)
    (hport : ctx.addrsPort = host.addrsPort) {enableIpv6 : Bool}
    (hipv6 : ctx.isEnableIpV6 = enableIpv6) {family : ℤ}
    (hfamily : family = if enableIpv6 then afInet6 else afInet) :
    (resolveFamily family name ctx).Sat ok
      (fun h _ => Looks host enableIpv6 h) [] := by
  rw [resolveFamily, hport, hfamily]
  refine Prog.sat_perform_bind.mpr ⟨looks_pending rfl, fun addrinfo _ => ?_⟩
  cases addrinfo with
  | none => exact looks_pending rfl
  | some addrs =>
      cases addrs with
      | nil => exact submitContext_looks (makeErrorCode_ne_zero (by decide)) rfl _ _
      | cons addr rest =>
          refine Prog.sat_perform_bind.mpr ⟨looks_pending rfl, fun fd _ => ?_⟩
          dsimp only
          split
          · exact submitContext_looks (makeErrorCode_ne_zero (by decide)) rfl
              _ _
          · refine ⟨looks_pending rfl, fun _ _ ec c hcomp _ => ?_⟩
            obtain ⟨-, rfl⟩ := Prod.mk.inj (List.cons.inj hcomp).1
            exact ⟨⟨name, hname, List.mem_cons_self⟩, hipv6⟩

theorem asyncResolverDomain_looks (host : ClientContext) (timeout : UInt16)
    (enableIpv6 : Bool) (maxRetCount : ℤ) :
    (asyncResolverDomain host timeout enableIpv6 maxRetCount).Sat ok
      (fun h _ => Looks host enableIpv6 h) [] := by
  rw [asyncResolverDomain]
  split
  · exact submitContext_looks (makeErrorCode_ne_zero (by decide)) rfl _ _
  · next name hname =>
    split
    · exact submitContext_looks (makeErrorCode_ne_zero (by decide)) rfl _ _
    · dsimp only
      split
      · next hipv6 =>
        exact resolveFamily_looks hname (by rfl) (by rfl) (if_pos hipv6).symm
      · next hipv4 =>
        exact resolveFamily_looks hname (by rfl) (by rfl) (if_neg hipv4).symm

end

/-! ## Safety -/

/-- `socket` returns `-1` or a descriptor that is not negative. -/
def SocketContract : (q : ConnectCall) → q.Reply → Prop
  | .socket _, fd => fd = -1 ∨ 0 ≤ fd
  | _, _ => True

namespace TcpSession

/-- What is safe about the calls up to a moment. -/
structure Safe (s : TcpSession) (h : ConnectTrace) (io : Trace) : Prop where
  /-- All I/O is on one open descriptor, on which an address has accepted that
  was looked up for the host, the port and the family. -/
  connected : io ≠ [] → ∃ name addrs fd, s.host.addrsHost = some name ∧
    ⟨.getaddrinfo name s.host.addrsPort s.family, some addrs⟩ ∈ h ∧
    Accepted addrs s.family fd h ∧ ∀ e ∈ io, OnDescriptor fd e.1
  /-- What is sent is the beginning of the message's text. -/
  sent : Trace.sent io <+: cString s.message
  /-- Nothing is received before all of it has been sent. -/
  order : Trace.received io ≠ [] → Trace.sent io = cString s.message
  /-- A callback for the read gets exactly what has been received. -/
  delivered : ∀ ec n b c, .read ec n b c ∈ Trace.completions io →
    b.map ReadBuffer.readable = some (Trace.received io)

variable {s : TcpSession} {ctx ctx' ctx'' : ClientContext}
variable {h : ConnectTrace} {io : Trace}

/-- The session has a connection. -/
theorem Connects.accepted (hc : s.Connects ctx ctx')
    (hnetwork : s.network.Obeys fun _ => SocketContract) :
    ∃ name addrs, s.host.addrsHost = some name ∧
      ⟨.getaddrinfo name s.host.addrsPort s.family, some addrs⟩ ∈
        s.connect ctx ∧
      Accepted addrs s.family ctx'.socketfd (s.connect ctx) ∧
      0 ≤ ctx'.socketfd := by
  obtain ⟨ec, ec', ⟨hresolved, hzero⟩, hconnected, hzero'⟩ := hc
  have hany : s.network.Obeys fun _ _ _ => True := fun _ _ => trivial
  have hlooked : LookedUp s.host s.enableIpv6 ctx s.resolve :=
    (asyncResolverDomain_looks s.host s.timeout s.enableIpv6
      s.maxRetCount).exec hany ec ctx hresolved hzero
  obtain ⟨name, hname, hlookup⟩ := hlooked.lookup
  have hfamily : ctx.family = s.family := by
    rw [ClientContext.family, hlooked.family, family]
  have haccepted : Accepted ctx.resovlerAddrs s.family ctx'.socketfd
      (s.connect ctx) := by
    rw [← hfamily]
    exact (asyncTryConnectTcp_succeeds hresolved).exec hany (ec', ctx')
      hconnected hzero'
  have hgrows : s.resolve <+: s.connect ctx := Prog.exec_extends _ _
  refine ⟨name, ctx.resovlerAddrs, hname, hgrows.subset hlookup, haccepted, ?_⟩
  -- the descriptor is one that `socket` has returned
  obtain ⟨addr, -, -, hsocket, -⟩ := haccepted.connect
  have hreplies : ∀ e ∈ s.connect ctx, SocketContract e.1 e.2 :=
    Prog.exec_replies hnetwork _
      (Prog.exec_replies hnetwork _ fun _ he => absurd he List.not_mem_nil)
  exact (hreplies _ hsocket).resolve_left haccepted.valid

/-- The calls of the writing. -/
theorem write_calls (s : TcpSession) (hh : io <+: s.write ctx) :
    ∀ e ∈ io, WritesOn ctx.socketfd e.1 :=
  (asyncWrite_calls rfl).exec hh

/-- The calls of the reading. -/
theorem read_calls (s : TcpSession) (hh : io <+: s.read ctx) :
    ∀ e ∈ io, ReadsOn ctx.socketfd e.1 :=
  (asyncReadUntil_calls rfl).exec hh

/-- The write hands the descriptor on. -/
theorem Writes.socketfd (hw : s.Writes ctx' ctx'') :
    ctx''.socketfd = ctx'.socketfd := by
  obtain ⟨ec, n, hmem, -⟩ := hw
  obtain ⟨⟨q, r⟩, he, hdone⟩ := List.mem_flatMap.mp hmem
  have hcall := write_calls s List.prefix_rfl _ he
  cases q with
  | submit c =>
      obtain rfl := List.mem_singleton.mp hdone
      exact hcall
  | _ => cases hdone

/-! ## What the calls of each phase do -/

theorem onDescriptor_of_writes {fd : ℤ} {q : Call} (hq : WritesOn fd q) :
    OnDescriptor fd q := by
  cases q with
  | submit c =>
      cases c with
      | write ec n c => exact hq
      | read ec n b c => exact hq.elim
  | write fd' data => exact hq
  | errno => trivial
  | select fd' timeout => exact hq.elim
  | recv fd' size => exact hq.elim
  | read fd' size => exact hq.elim
  | sslRead size => exact hq.elim
  | sslGetError ret => exact hq.elim
  | pastVector size => exact hq.elim

theorem onDescriptor_of_reads {fd : ℤ} {q : Call} (hq : ReadsOn fd q) :
    OnDescriptor fd q := by
  cases q with
  | submit c =>
      cases c with
      | write ec n c => exact hq.elim
      | read ec n b c => exact hq
  | select fd' timeout => exact hq
  | recv fd' size => exact hq
  | read fd' size => exact hq
  | errno => trivial
  | write fd' data => exact hq.elim
  | sslRead size => exact hq.elim
  | sslGetError ret => exact hq.elim
  | pastVector size => exact hq.elim

/-- A write receives nothing, and has no callback for a read. -/
theorem received_of_writes {fd : ℤ} (hio : ∀ e ∈ io, WritesOn fd e.1) :
    Trace.received io = [] ∧
      ∀ ec n b c, .read ec n b c ∉ Trace.completions io := by
  constructor
  · refine List.flatMap_eq_nil_iff.mpr fun ⟨q, r⟩ he => ?_
    have hq := hio _ he
    cases q with
    | recv fd' size => exact hq.elim
    | read fd' size => exact hq.elim
    | sslRead size => exact hq.elim
    | _ => rfl
  · intro ec n b c hmem
    obtain ⟨⟨q, r⟩, he, hdone⟩ := List.mem_flatMap.mp hmem
    have hq := hio _ he
    cases q with
    | submit c =>
        obtain rfl := List.mem_singleton.mp hdone
        exact hq
    | _ => cases hdone

/-- A read sends nothing. -/
theorem sent_of_reads {fd : ℤ} (hio : ∀ e ∈ io, ReadsOn fd e.1) :
    Trace.sent io = [] := by
  refine List.flatMap_eq_nil_iff.mpr fun ⟨q, r⟩ he => ?_
  have hq := hio _ he
  cases q with
  | write fd' data => exact hq.elim
  | _ => rfl

/-- What a callback for the read gets, at every moment. -/
theorem read_delivers (hfd : 0 ≤ ctx.socketfd)
    (hreads : s.reads.Obeys ReadContract) (hh : io <+: s.read ctx)
    {ec : ErrorCode} {n : ℕ} {b : Option ReadBuffer} {c : ClientContext}
    (hmem : .read ec n b c ∈ Trace.completions io) :
    b.map ReadBuffer.readable = some (Trace.received io) := by
  have hsat : (asyncReadUntil s.fuel ctx s.delimiter).Sat ReadContract
      (fun h _ => ∀ ec n b c, .read ec n b c ∈ Trace.completions h →
        b.map ReadBuffer.readable = some (Trace.received h)) [] := by
    refine (asyncReadUntil_end hfd s.delimiter s.fuel).mono
      fun h st hst ec n b c hmem => ?_
    have hnone : Trace.completions h ≠ [] := List.ne_nil_of_mem hmem
    cases st with
    | calling => exact absurd hst hnone
    | stuck => exact absurd hst hnone
    | undefined => exact absurd hst hnone
    | done e =>
        cases e with
        | threw => exact absurd hst.completions hnone
        | undefined => exact absurd hst.completions hnone
        | returned =>
            obtain ⟨h', ec', n', b', c', rfl, hpending, hread⟩ := hst
            rw [Trace.completions_snoc, hpending] at hmem
            obtain ⟨-, -, rfl, -⟩ : ec = ec' ∧ n = n' ∧ b = some b' ∧ c = c' := by
              simpa using hmem
            have hbytes := hread ReadBuffer.valueInit_wellFormed
            rw [Option.map_some, hbytes]
            simp
            rfl
  exact hsat.moments hreads List.nil_prefix hh ec n b c hmem

/-- Before a session writes there is no I/O. -/
theorem Safe.quiet (s : TcpSession) (h : ConnectTrace) : s.Safe h [] where
  connected := fun hne => absurd rfl hne
  sent := List.nil_prefix
  order := fun hne => absurd rfl hne
  delivered := by
    intro ec n b c hmem
    cases hmem

/-- `GET` to the second address of a host, and the answer in two pieces. -/
def exchange : TcpSession where
  host := hosted
  timeout := 20
  enableIpv6 := false
  maxRetCount := 3
  message := [71, 69, 84]
  delimiter := [13, 10]
  fuel := 9
  network := acceptsSecond
  writes := halfWrites
  reads := silentStream [[79, 75], [13, 10]] eagain

/-- The context of the connection. -/
def exchangeConnected : ClientContext := { hostedResolved with socketfd := 9 }

/-- The context the write hands on. -/
def exchangeWritten : ClientContext :=
  { exchangeConnected with
    clientMessage := [71, 69, 84]
    clientMessageLength := 3 }

end TcpSession

end Mtasc
