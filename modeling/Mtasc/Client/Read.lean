import Mtasc.Client.ReadUntil

/-!
# `async_read`

The read of at least so many bytes, with its helper for a failed `recv`.
-/

namespace Mtasc

open Lib

/-- The rest of an iteration of `M_retryTcpRead` after the `recv`. The two
conditions that are always met are those of the source. -/
def retryTcpReadReceived (chacheSize : ℕ) (ctx : ClientContext) :
    Option Bytes → Iter ClientContext (Except TaskEnd ClientContext)
  | none =>
    if ctx.maxRetyCount ≥ ctx.connectRetyCount then
      .done (.ok { ctx with isRetrySuccess := false })
    else
      .next ctx
  | some [] =>
    match ctx.clientReadBuffer with
    | none => .done (.error .undefined)
    | some b =>
      if b.readableBytes ≥ 0 then
        .done (.ok { ctx with isRetrySuccess := true })
      else
        .done (.ok { ctx with isRetrySuccess := false })
  | some data =>
    match ctx.appendTobuffer data with
    | .error e => .done (.error e)
    | .ok ctx =>
      if data.length < chacheSize ∧
          ctx.maxRetyCount > ctx.connectRetyCount then
        .next ctx
      else if data.length ≥ chacheSize ∨ data.length < chacheSize then
        .done (.ok { ctx with isRetrySuccess := true })
      else
        .done (.ok { ctx with isRetrySuccess := false })

/-- The `while` of `M_retryTcpRead`. An exception is an `error`. -/
def retryTcpReadStep (chacheSize : ℕ) (ctx : ClientContext) :
    Net (Iter ClientContext (Except TaskEnd ClientContext)) :=
  if ctx.connectRetyCount < ctx.maxRetyCount then do
    let errnoCopy ← perform .errno
    if errnoCopy = eagain ∨ errnoCopy = eintr then
      let readRet ← perform (.recv ctx.socketfd 1096)
      let ctx := { ctx with connectRetyCount := ctx.connectRetyCount + 1 }
      return retryTcpReadReceived chacheSize ctx readRet
    else
      return .done (.ok { ctx with isRetrySuccess := false })
  else
    return .done (.ok { ctx with isRetrySuccess := false })

/-- `M_retryTcpRead`. The context is passed and returned by value. -/
def retryTcpRead (fuel : ℕ) (ctx : ClientContext) (errnoCopy : ℤ)
    (chacheSize : ℕ) : Net (Except TaskEnd ClientContext) :=
  if errnoCopy = 106 then
    return .ok { ctx with isRetrySuccess := true }.moveConstruct
  else do
    let result ← Prog.iterate (retryTcpReadStep chacheSize) fuel ctx.retryStart
    return result.map ClientContext.moveConstruct

inductive BasicReadState where
  | reading
  | close
  | error
  | verify
  | done
deriving DecidableEq

/-- What an iteration of the loop does: its `switch` is left by `break`, or
the task ends. -/
abbrev BasicReadStep : Type :=
  Net (Iter (BasicReadState × ClientContext) TaskEnd)

/-- `case READING`. -/
def readReading (ctx : ClientContext) : BasicReadStep := do
  let wiatRet ← perform (.select ctx.socketfd ctx.timeout)
  if wiatRet < 0 then
    return .next (.error, ctx)
  else
    match ← perform (.recv ctx.socketfd 4096) with
    | none => return .next (.error, ctx)
    | some [] => return .next (.close, ctx)
    | some data =>
      match ctx.appendTobuffer data with
      | .error e => return .done e
      | .ok ctx => return .next (.verify, ctx)

/-- `case CLOSE`. -/
def readClose (ctx : ClientContext) : BasicReadStep :=
  match ctx.clientReadBuffer with
  | none => return .done .undefined
  | some b => do
    if b.readableBytes > 0 then
      let _ ← submitRead {} b.readableBytes ctx
      return .done .returned
    else
      let _ ← submitRead {} 0 ctx
      return .done .returned

/-- `case VERIFY`. -/
def readVerify (chacheSize : ℕ) (ctx : ClientContext) : BasicReadStep :=
  match ctx.clientReadBuffer with
  | none => return .done .undefined
  | some b =>
    if b.readableBytes ≥ chacheSize then
      return .next (.done, ctx)
    else
      return .next (.reading, ctx)

/-- `case ERROR`. The helper works on a copy of the context, which shares the
buffer. -/
def readError (fuel chacheSize : ℕ) (ctx : ClientContext) :
    BasicReadStep := do
  let errno ← perform .errno
  if errno = 106 then
    let _ ← submitRead {} 0 ctx
    return .done .returned
  else
    let errno ← perform .errno
    match ← retryTcpRead fuel ctx errno chacheSize with
    | .error e => return .done e
    | .ok retryRead =>
      if retryRead.isRetrySuccess then
        let e ← submitReadable {} (ctx.moveAssign retryRead)
        return .done e
      else
        let errno ← perform .errno
        let _ ← submitRead ⟨errno, .system⟩ 0
          { ctx with clientReadBuffer := retryRead.clientReadBuffer }
        return .done .returned

/-- The loop of the task. -/
def readStep (fuel chacheSize : ℕ) :
    BasicReadState × ClientContext → BasicReadStep
  | (.reading, ctx) => readReading ctx
  | (.close, ctx) => readClose ctx
  | (.verify, ctx) => readVerify chacheSize ctx
  | (.error, ctx) => readError fuel chacheSize ctx
  | (.done, ctx) => do
    let e ← submitReadable {} ctx
    return .done e

/-- `async_read`, with the task it posts. -/
def asyncRead (fuel : ℕ) (buffer : Option ReadBuffer) (ctx : ClientContext)
    (chacheSize : ℕ) : Net TaskEnd :=
  let ctx := { ctx with clientReadBuffer := buffer }
  let chacheSize := if chacheSize ≤ 0 then 4096 else chacheSize
  Prog.iterate (readStep fuel chacheSize) fuel (.reading, ctx.moveConstruct)

end Mtasc
