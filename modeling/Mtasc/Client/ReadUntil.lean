import Mtasc.Buffer.Queue
import Mtasc.Client.Context

/-!
# `async_read_until`

The read up to a delimiter, with its helper for a failed `recv`.
-/

namespace Mtasc

open Lib

/-! ## The code -/

/-- The rest of an iteration of `M_retryTcpRead_until` where the scan of the
buffer `b` has not found the delimiter. -/
def retryTcpReadUntilRead (b : ReadBuffer) (ctx : ClientContext) :
    Net (Iter ClientContext (Except TaskEnd ClientContext)) := do
  match ← perform (.read ctx.socketfd 1086) with
  | none =>
    if ctx.connectRetyCount ≥ ctx.maxRetyCount then
      return .done (.ok { ctx with isRetrySuccess := false })
    else
      return .next ctx
  | some [] =>
    if b.readableBytes ≠ 0 then
      return .done (.ok { ctx with isRetrySuccess := true })
    else
      return .done (.ok { ctx with isRetrySuccess := false })
  | some data =>
    match ctx.appendTobuffer data with
    | .error e => return .done (.error e)
    | .ok ctx => return .next ctx

/-- The `while` of `M_retryTcpRead_until`. An exception is an `error`. -/
def retryTcpReadUntilStep (delimiter : Bytes) (ctx : ClientContext) :
    Net (Iter ClientContext (Except TaskEnd ClientContext)) :=
  if ctx.connectRetyCount < ctx.maxRetyCount then do
    let errnoCopy ← perform .errno
    if errnoCopy = 106 then
      return .done (.ok { ctx with isRetrySuccess := true })
    else if errnoCopy = eagain ∨ errnoCopy = eintr then
      let ctx := { ctx with connectRetyCount := ctx.connectRetyCount + 1 }
      match ctx.clientReadBuffer with
      | none => return .done (.error .undefined)
      | some b =>
        if b.findDelimiter delimiter then
          return .done (.ok { ctx with isRetrySuccess := true })
        else
          retryTcpReadUntilRead b ctx
    else
      return .done (.ok { ctx with isRetrySuccess := false })
  else
    return .done (.ok { ctx with isRetrySuccess := false })

/-- The default of the retry budget, and the retry count cleared. -/
def ClientContext.retryStart (ctx : ClientContext) : ClientContext :=
  if ctx.maxRetyCount ≤ 0 then
    { ctx with maxRetyCount := 10, connectRetyCount := 0 }
  else
    { ctx with connectRetyCount := 0 }

/-- `M_retryTcpRead_until`. The context is passed and returned by value. -/
def retryTcpReadUntil (fuel : ℕ) (ctx : ClientContext) (delimiter : Bytes)
    (_errnoCopy : ℤ) : Net (Except TaskEnd ClientContext) :=
  if ctx.socketfd < 0 then
    return .error .threw
  else do
    let result ← Prog.iterate (retryTcpReadUntilStep delimiter) fuel
      ctx.retryStart
    return result.map ClientContext.moveConstruct

inductive ReadState where
  | verify
  | reading
  | found
  | error
  | close
deriving DecidableEq

/-- What an iteration of a read loop does: its `switch` is left by `break` or
`continue`, or the task ends. -/
abbrev ReadStep : Type := Net (Iter (ReadState × ClientContext) TaskEnd)

/-- `case ERROR`. -/
def readUntilError (fuel : ℕ) (delimiter : Bytes) (ctx : ClientContext) :
    ReadStep := do
  let errno ← perform .errno
  match ← retryTcpReadUntil fuel ctx delimiter errno with
  | .error e => return .done e
  | .ok retryResult =>
    let ctx := ctx.moveAssign retryResult
    if retryResult.isRetrySuccess then
      let e ← submitReadable {} ctx
      return .done e
    else
      let errno ← perform .errno
      let _ ← submitRead ⟨errno, .system⟩ 0 ctx
      return .done .returned

/-- `case READING`. It has no `break` after a `recv` that has delivered bytes
and falls into `case ERROR`. -/
def readUntilReading (fuel : ℕ) (delimiter : Bytes) (ctx : ClientContext) :
    ReadStep := do
  let wiatRet ← perform (.select ctx.socketfd ctx.timeout)
  if wiatRet < 0 then
    return .next (.error, ctx)
  else
    match ← perform (.recv ctx.socketfd 4096) with
    | none => return .next (.error, ctx)
    | some [] => return .next (.close, ctx)
    | some data =>
      match ctx.appendTobuffer data with
      | .error e => return .done e
      | .ok ctx => readUntilError fuel delimiter ctx

/-- `case VERIFY`, which falls into `case READING`. -/
def readUntilVerify (fuel : ℕ) (delimiter : Bytes) (ctx : ClientContext) :
    ReadStep :=
  match ctx.clientReadBuffer with
  | none => return .done .undefined
  | some b =>
    if b.findDelimiter delimiter then
      return .next (.found, ctx)
    else
      readUntilReading fuel delimiter ctx

/-- `case CLOSE`. -/
def readUntilClose (ctx : ClientContext) : ReadStep :=
  match ctx.clientReadBuffer with
  | none => return .done .undefined
  | some b => do
    if b.readableBytes > 0 then
      let _ ← submitRead {} b.readableBytes ctx
      return .done .returned
    else
      let _ ← submitRead {} 0 ctx
      return .done .returned

/-- The loop of the task; behind it the callback is submitted. -/
def readUntilStep (fuel : ℕ) (delimiter : Bytes) :
    ReadState × ClientContext → ReadStep
  | (.verify, ctx) => readUntilVerify fuel delimiter ctx
  | (.reading, ctx) => readUntilReading fuel delimiter ctx
  | (.error, ctx) => readUntilError fuel delimiter ctx
  | (.close, ctx) => readUntilClose ctx
  | (.found, ctx) => do
    let e ← submitReadable {} ctx
    return .done e

/-- `async_read_until`, with the task it posts. -/
def asyncReadUntil (fuel : ℕ) (ctx : ClientContext) (delimiter : Bytes) :
    Net TaskEnd :=
  let ctx := { ctx with clientReadBuffer := some ReadBuffer.valueInit }
  Prog.iterate (readUntilStep fuel delimiter) fuel
    (.verify, ctx.moveConstruct)

end Mtasc
