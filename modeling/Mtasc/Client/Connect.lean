import Mtasc.Client.Context

/-!
# `async_resolver_domain` and `async_try_connect_tcp`

The connection phase. Both operations run on the thread that calls them; what
they post is only the callback. The socket type and the protocol of a
resolver's entry, which are those of the hints for each of them, are left out.
-/

namespace Mtasc

open Lib

abbrev einval : ℤ := 22
abbrev eaddrnotavail : ℤ := 99
abbrev enetunreach : ℤ := 101
abbrev econnrefused : ℤ := 111
abbrev ehostunreach : ℤ := 113

abbrev afInet : ℤ := 2
abbrev afInet6 : ℤ := 10

/-! ## Calls -/

inductive ConnectCall where
  | getaddrinfo (host : String) (port : ℕ) (family : ℤ)
  | socket (addr : Addrinfo)
  | connect (fd : ℤ) (addr : Addrinfo)
  /-- With the `fd_set` of the one descriptor, that `fdSet` has set. -/
  | select (fd timeout : ℤ)
  | errno
  /-- `socket_setFcntl`: the descriptor is made non-blocking. -/
  | setFcntl (fd : ℤ)
  | setReuseaddr (fd : ℤ)
  | close (fd : ℤ)
  | submit (ec : ErrorCode) (ctx : ClientContext)
deriving DecidableEq

/-- The results. That of `getaddrinfo` is `none` for an error and the list
otherwise. -/
@[reducible] def ConnectCall.Reply : ConnectCall → Type
  | .getaddrinfo _ _ _ => Option (List Addrinfo)
  | .socket _ => ℤ
  | .connect _ _ => ℤ
  | .select _ _ => ℤ
  | .errno => ℤ
  | .setFcntl _ => Unit
  | .setReuseaddr _ => Unit
  | .close _ => Unit
  | .submit _ _ => Unit

abbrev ConnectNet : Type → Type := Prog ConnectCall ConnectCall.Reply

abbrev ConnectTrace : Type := History ConnectCall ConnectCall.Reply

abbrev connectPerform (q : ConnectCall) : ConnectNet q.Reply := Prog.perform q

/-- How a call ends: it returns a status code, an exception leaves it, or it
dereferences a null pointer. -/
inductive CallEnd where
  | returned (code : ℤ)
  | threw
  | undefined
deriving DecidableEq, Repr

namespace ConnectTrace

@[simp] def completedBy :
    (q : ConnectCall) → q.Reply → List (ErrorCode × ClientContext)
  | .submit ec ctx, _ => [(ec, ctx)]
  | _, _ => []

def completions (h : ConnectTrace) : List (ErrorCode × ClientContext) :=
  h.flatMap fun e => completedBy e.1 e.2

@[simp] theorem completions_snoc {h : ConnectTrace} {q : ConnectCall}
    {r : q.Reply} :
    completions (h ++ [⟨q, r⟩]) = completions h ++ completedBy q r := by
  simp [completions]

end ConnectTrace

/-- Submitting a callback and returning a status code. -/
def submitContext (ec : ErrorCode) (ctx : ClientContext) (code : ℤ) :
    ConnectNet CallEnd := do
  connectPerform (.submit ec ctx.moveConstruct)
  return .returned code

/-! ## The resolver -/

/-- `getResolverResult` of the resolvers. -/
def getResolverResult (addrinfo : List Addrinfo) :
    Except Unit (List Addrinfo) :=
  if addrinfo = [] then .error () else .ok addrinfo

/-- The resolving of one family. The constructor of the resolver throws where
`getaddrinfo` fails, and stands in front of the `try`. -/
def resolveFamily (family : ℤ) (host : String) (ctx : ClientContext) :
    ConnectNet CallEnd := do
  match ← connectPerform (.getaddrinfo host ctx.addrsPort family) with
  | none => return .threw
  | some addrinfo =>
    match getResolverResult addrinfo with
    | .error _ => submitContext (makeErrorCode eio) ctx (-1)
    | .ok [] =>
      let errno ← connectPerform .errno
      submitContext ⟨errno, .system⟩ ctx (-1)
    | .ok (addr :: rest) =>
      let fd ← connectPerform (.socket addr)
      let ctx := { ctx with socketfd := fd }
      if ctx.socketfd = -1 then
        submitContext (makeErrorCode ebadf) ctx (-1)
      else
        submitContext {} { ctx with resovlerAddrs := addr :: rest } 1

/-- `async_resolver_domain`. -/
def asyncResolverDomain (ctx : ClientContext) (timeout : UInt16)
    (enableIpv6 : Bool) (maxRetCount : ℤ) : ConnectNet CallEnd :=
  match ctx.addrsHost with
  | none => submitContext (makeErrorCode einval) ctx (-1)
  | some host =>
    if ctx.addrsPort = 0 then
      submitContext (makeErrorCode einval) ctx (-1)
    else
      let ctx := { ctx with
        timeout := timeout.toNat
        isEnableIpV6 := enableIpv6
        maxRetyCount := maxRetCount }
      if enableIpv6 then
        resolveFamily afInet6 host ctx
      else
        resolveFamily afInet host ctx

/-! ## The connection -/

/-- The entry is not of the family asked for. -/
def ClientContext.skips (ctx : ClientContext) (addr : Addrinfo) : Bool :=
  if ctx.isEnableIpV6 then addr.aiFamily ≠ afInet6
  else addr.aiFamily ≠ afInet

/-- The `for` of `M_tryIpaddrs`. -/
def tryIpaddrsFrom (ctx : ClientContext) :
    List Addrinfo → ConnectNet (Except CallEnd ClientContext)
  | [] => return .ok { ctx with thisAddrInvalid := true }
  | addr :: rest =>
    if ctx.skips addr then
      tryIpaddrsFrom ctx rest
    else do
      let testFd ← connectPerform (.socket addr)
      if testFd = -1 then
        return .error .threw
      else
        let connected ← connectPerform (.connect testFd addr)
        if connected = 0 then
          connectPerform (.setReuseaddr testFd)
          return .ok { ctx with socketfd := testFd }
        else
          connectPerform (.close testFd)
          tryIpaddrsFrom ctx rest

/-- `M_tryIpaddrs`. The context is passed by reference: what is returned is
also what the caller's context has become. -/
def tryIpaddrs (ctx : ClientContext) :
    ConnectNet (Except CallEnd ClientContext) :=
  if ctx.resovlerAddrs = [] then
    return .error .threw
  else
    tryIpaddrsFrom ctx ctx.resovlerAddrs

/-- **The rule for the loop of `M_tryIpaddrs`.** `J` holds in front of the
entries that are left, when no candidate before them has accepted. -/
theorem sat_tryIpaddrsFrom
    {ok : ConnectTrace → (q : ConnectCall) → q.Reply → Prop}
    {φ : ConnectTrace → Status (Except CallEnd ClientContext) → Prop}
    {ctx : ClientContext} (J : List Addrinfo → ConnectTrace → Prop)
    (hcalling : ∀ addrs h, J addrs h → φ h .calling)
    (hskip : ∀ addr rest h, J (addr :: rest) h → ctx.skips addr = true →
      J rest h)
    (hthrew : ∀ addr rest h, J (addr :: rest) h → ok h (.socket addr) (-1 : ℤ) →
      φ (h ++ [⟨.socket addr, (-1 : ℤ)⟩]) (.done (.error .threw)))
    (hopen : ∀ addr rest h (testFd : ℤ), J (addr :: rest) h → testFd ≠ -1 →
      φ (h ++ [⟨.socket addr, testFd⟩]) .calling)
    (hconnect : ∀ addr rest h (testFd result : ℤ), J (addr :: rest) h →
      testFd ≠ -1 → φ (h ++ [⟨.socket addr, testFd⟩] ++
        [⟨.connect testFd addr, result⟩]) .calling)
    (haccept : ∀ addr rest h (testFd : ℤ), J (addr :: rest) h →
      ctx.skips addr ≠ true → testFd ≠ -1 →
      φ (h ++ [⟨.socket addr, testFd⟩] ++ [⟨.connect testFd addr, (0 : ℤ)⟩] ++
          [⟨.setReuseaddr testFd, ()⟩])
        (.done (.ok { ctx with socketfd := testFd })))
    (hrefuse : ∀ addr rest h (testFd result : ℤ), J (addr :: rest) h →
      ctx.skips addr ≠ true → testFd ≠ -1 → result ≠ 0 →
      J rest (h ++ [⟨.socket addr, testFd⟩] ++
        [⟨.connect testFd addr, result⟩] ++ [⟨.close testFd, ()⟩]))
    (hend : ∀ h, J [] h →
      φ h (.done (.ok { ctx with thisAddrInvalid := true })))
    (addrs : List Addrinfo) {h : ConnectTrace} (hJ : J addrs h) :
    (tryIpaddrsFrom ctx addrs).Sat ok φ h := by
  induction addrs generalizing h with
  | nil => exact hend h hJ
  | cons addr rest ih =>
      rw [tryIpaddrsFrom]
      split
      · rename_i hskips
        exact ih (hskip addr rest h hJ hskips)
      · rename_i hskips
        refine Prog.sat_perform_bind.mpr ⟨hcalling _ h hJ, fun testFd hok => ?_⟩
        split
        · rename_i hfd
          obtain rfl : testFd = -1 := hfd
          exact hthrew addr rest h hJ hok
        · rename_i hfd
          refine Prog.sat_perform_bind.mpr
            ⟨hopen addr rest h testFd hJ hfd, fun result _ => ?_⟩
          have hmid := hconnect addr rest h testFd result hJ hfd
          split
          · rename_i hresult
            obtain rfl : result = 0 := hresult
            exact ⟨hmid, fun _ _ => haccept addr rest h testFd hJ hskips hfd⟩
          · rename_i hresult
            exact ⟨hmid, fun _ _ =>
              ih (hrefuse addr rest h testFd result hJ hskips hfd hresult)⟩

/-- The `while` of `M_retryTcpConnect`. -/
def retryTcpConnectStep (ctx : ClientContext) :
    ConnectNet (Iter ClientContext (Except CallEnd ClientContext)) :=
  if ctx.connectRetyCount < ctx.maxRetyCount then do
    let errnoCopy ← connectPerform .errno
    if errnoCopy = 106 then
      return .done (.ok { ctx with isRetrySuccess := true })
    else if errnoCopy = eagain ∨ errnoCopy = eintr ∨ errnoCopy = etimedout ∨
        errnoCopy ≠ 0 ∧ ctx.maxRetyCount > ctx.connectRetyCount then
      let ctx := { ctx with connectRetyCount := ctx.connectRetyCount + 1 }
      match ctx.resovlerAddrs with
      | [] => return .done (.error .undefined)
      | addr :: _ =>
        let retryResult ← connectPerform (.connect ctx.socketfd addr)
        if retryResult < 0 then
          if ctx.maxRetyCount = ctx.connectRetyCount then
            return .done (.ok ctx)
          else
            return .next ctx
        else
          return .done (.ok { ctx with isRetrySuccess := true })
    else
      return .done (.ok ctx)
  else
    return .done (.ok ctx)

/-- `M_retryTcpConnect`. The context is passed and returned by value. -/
def retryTcpConnect (fuel : ℕ) (ctx : ClientContext) (_errnoCopy : ℤ) :
    ConnectNet (Except CallEnd ClientContext) := do
  let ctx := if ctx.maxRetyCount ≤ 0 then { ctx with maxRetyCount := 10 }
    else ctx
  let result ← Prog.iterate retryTcpConnectStep fuel ctx
  return result.map ClientContext.moveConstruct

/-- `async_try_connect_tcp` after a failed `select`. -/
def connectSelectFailed (fuel : ℕ) (ctx : ClientContext) :
    ConnectNet CallEnd := do
  let errnoCopy ← connectPerform .errno
  if errnoCopy = econnrefused ∨ errnoCopy = enetunreach ∨
      errnoCopy = ehostunreach then
    submitContext (makeErrorCode etimedout) ctx (-1)
  else
    match ← retryTcpConnect fuel ctx errnoCopy with
    | .error e => return e
    | .ok retryCtx =>
      let ctx := ctx.moveAssign retryCtx
      if ctx.isRetrySuccess then
        submitContext {} ctx 2
      else
        let errno ← connectPerform .errno
        submitContext ⟨errno, .system⟩ ctx (-1)

/-- `async_try_connect_tcp` with a descriptor that `M_tryIpaddrs` has set. -/
def connectResolved (fuel : ℕ) (ctx : ClientContext) : ConnectNet CallEnd :=
  match ctx.resovlerAddrs with
  | [] => return .undefined
  | addr :: _ => do
    connectPerform (.setFcntl ctx.socketfd)
    let connectRet ← connectPerform (.connect ctx.socketfd addr)
    if connectRet < 0 then
      fdSet ctx.socketfd
      let selectRet ← connectPerform (.select ctx.socketfd ctx.timeout)
      if selectRet < 0 then
        connectSelectFailed fuel ctx
      else if selectRet = 0 then
        submitContext (makeErrorCode econnreset) ctx (-1)
      else
        submitContext {} ctx 1
    else
      submitContext {} ctx 1

/-- `async_try_connect_tcp`. -/
def asyncTryConnectTcp (fuel : ℕ) (ctx : ClientContext) :
    ConnectNet CallEnd :=
  if ctx.addrsHost = none ∨ ctx.resovlerAddrs = [] then
    submitContext (makeErrorCode ebadf) ctx (-1)
  else if ctx.socketfd = -1 then
    submitContext (makeErrorCode ebadf) ctx (-1)
  else do
    match ← tryIpaddrs ctx with
    | .error e => return e
    | .ok tryContext =>
      if tryContext.thisAddrInvalid then
        submitContext (makeErrorCode eaddrnotavail)
          (tryContext.moveAssign tryContext) (-1)
      else
        connectResolved fuel tryContext

end Mtasc
