import Mtasc.Buffer.ReadBuffer
import Mtasc.Lib.Interact

/-!
# The client's context and its calls

`client_context` is what one operation of the client hands to the next. An
operation is a program over `Call`: the system calls, the calls into OpenSSL,
the reads of `errno`, and `asyncTaskvoid` with a user's callback. The task an
operation posts is run on by the operation itself; which thread runs it, and
when, is the matter of the pool. `SLEEP` is left out.
-/

namespace Mtasc

open Lib

/-! ## Error codes -/

inductive ErrorCategory where
  | system
  | generic
deriving DecidableEq, Repr

/-- `std::error_code`. -/
structure ErrorCode where
  value : ℤ := 0
  category : ErrorCategory := .system
deriving DecidableEq, Repr

/-- `std::make_error_code`. -/
def makeErrorCode (errc : ℤ) : ErrorCode := ⟨errc, .generic⟩

/-- `ec.operator bool()` is false. -/
def ErrorCode.IsZero (ec : ErrorCode) : Prop := ec.value = 0

instance (ec : ErrorCode) : Decidable ec.IsZero :=
  inferInstanceAs (Decidable (ec.value = 0))

theorem makeErrorCode_ne_zero {errc : ℤ} (h : errc ≠ 0) :
    ¬ (makeErrorCode errc).IsZero := h

/-- `errno` on Linux; `EWOULDBLOCK` is `EAGAIN`. -/
abbrev eintr : ℤ := 4
abbrev eio : ℤ := 5
abbrev ebadf : ℤ := 9
abbrev eagain : ℤ := 11
abbrev enomem : ℤ := 12
abbrev efault : ℤ := 14
abbrev econnreset : ℤ := 104
abbrev enobufs : ℤ := 105
abbrev eisconn : ℤ := 106
abbrev etimedout : ℤ := 110

/-! ## `client_context` -/

/-- One entry of a resolver's list. -/
structure Addrinfo where
  aiFamily : ℤ
  aiAddr : ℕ
deriving DecidableEq, Repr

/-- The list `M_resovler_addrs` points to is empty for a null pointer, and
`clientReadBuffer` is `none` for a null `shared_ptr`. -/
structure ClientContext where
  addrsHost : Option String := none
  addrsPort : ℕ := 80
  resovlerAddrs : List Addrinfo
  clientMessage : Bytes := []
  clientMessageLength : ℤ := 0
  socketfd : ℤ
  timeout : ℤ := 20
  isEnableIpV6 : Bool := false
  thisAddrInvalid : Bool := false
  connectRetyCount : ℤ := 0
  maxRetyCount : ℤ := 0
  clientRetryWriteBytes : ℕ := 0
  clientWriteBytes : ℕ := 0
  isRetrySuccess : Bool := false
  clientReadBuffer : Option ReadBuffer := none
deriving DecidableEq, Repr

/-- A context as a connect leaves it, with everything else at its default. -/
def connected : ClientContext :=
  { resovlerAddrs := [⟨2, 1⟩], socketfd := 4 }

namespace ClientContext

/-- The move constructor. It does not name `M_connect_rety_count`, which gets
its default, and takes `M_timeout` through a `uint16_t`. -/
def moveConstruct (other : ClientContext) : ClientContext :=
  { other with timeout := other.timeout % 65536, connectRetyCount := 0 }

/-- The move assignment. `M_connect_rety_count` of the target stays. -/
def moveAssign (ctx other : ClientContext) : ClientContext :=
  { other with
    timeout := other.timeout % 65536
    connectRetyCount := ctx.connectRetyCount }

/-- What is left of a context that has been moved from. -/
def movedFrom (ctx : ClientContext) : ClientContext :=
  { ctx with clientMessage := [], clientReadBuffer := none }

end ClientContext

/-! ## Calls -/

/-- A user's callback with the arguments it is submitted with. -/
inductive Completion where
  | write (ec : ErrorCode) (bytes : ℕ) (ctx : ClientContext)
  | read (ec : ErrorCode) (bytes : ℕ) (buffer : Option ReadBuffer)
      (ctx : ClientContext)
deriving DecidableEq

def Completion.ec : Completion → ErrorCode
  | .write ec _ _ => ec
  | .read ec _ _ _ => ec

def Completion.bytes : Completion → ℕ
  | .write _ bytes _ => bytes
  | .read _ bytes _ _ => bytes

inductive Call where
  /-- With the `fd_set` of the one descriptor. Over TLS `fdSet` stands in front
  of it; `async_read` and `async_read_until` are taken to have one that fits. -/
  | select (fd timeout : ℤ)
  | recv (fd : ℤ) (size : ℕ)
  | read (fd : ℤ) (size : ℕ)
  | write (fd : ℤ) (data : Bytes)
  | errno
  | sslRead (size : ℕ)
  | sslGetError (ret : ℤ)
  /-- The memory behind the vector of a `readBuffer`, of which `memcmp` reads
  up to `size` bytes. -/
  | pastVector (size : ℕ)
  | submit (s : Completion)
deriving DecidableEq

/-- The results. Those of the reads are the bytes read, `none` for `-1`. -/
@[reducible] def Call.Reply : Call → Type
  | .select _ _ => ℤ
  | .recv _ _ => Option Bytes
  | .read _ _ => Option Bytes
  | .write _ _ => ℤ
  | .errno => ℤ
  | .sslRead _ => Option Bytes
  | .sslGetError _ => ℤ
  | .pastVector _ => Bytes
  | .submit _ => Unit

abbrev Net : Type → Type := Prog Call Call.Reply

abbrev Trace : Type := History Call Call.Reply

abbrev perform (q : Call) : Net q.Reply := Prog.perform q

/-- `FD_SETSIZE`, the descriptors that an `fd_set` has room for. -/
abbrev fdSetsize : ℤ := 1024

def FitsFdSet (fd : ℤ) : Prop := 0 ≤ fd ∧ fd < fdSetsize

instance (fd : ℤ) : Decidable (FitsFdSet fd) :=
  inferInstanceAs (Decidable (0 ≤ fd ∧ fd < fdSetsize))

/-- `FD_SET`. Of a descriptor that does not fit it writes behind the set. -/
def fdSet {Q : Type} {R : Q → Type} (fd : ℤ) : Prog Q R Unit :=
  if FitsFdSet fd then return () else .undefined

section

variable {Q : Type} {R : Q → Type} {α : Type} {fd : ℤ}

theorem sat_fdSet_bind {ok : History Q R → (q : Q) → R q → Prop}
    {φ : History Q R → Status α → Prop} {f : Unit → Prog Q R α}
    {h : History Q R} (hfits : FitsFdSet fd → (f ()).Sat ok φ h)
    (hundefined : ¬ FitsFdSet fd → φ h .undefined) :
    (fdSet fd >>= f).Sat ok φ h := by
  rw [fdSet]
  split
  · next hfd => exact hfits hfd
  · next hfd => exact hundefined hfd

end

/-- How a task ends: it returns, an exception leaves it, or it does what the
language leaves undefined. -/
inductive TaskEnd where
  | returned
  | threw
  | undefined
deriving DecidableEq, Repr

/-- A part of a function falls through to what follows it, or returns from the
function. -/
inductive Flow (σ ρ : Type) where
  | fall (s : σ)
  | return (r : ρ)

namespace Trace

variable {h : Trace}

@[simp] def completedBy : (q : Call) → q.Reply → List Completion
  | .submit s, _ => [s]
  | _, _ => []

def completions (h : Trace) : List Completion :=
  h.flatMap fun e => completedBy e.1 e.2

/-- Of a `write` the first as many bytes as it returns. -/
@[simp] def sentBy : (q : Call) → q.Reply → Bytes
  | .write _ data, k => data.take (Int.toNat k)
  | _, _ => []

def sent (h : Trace) : Bytes := h.flatMap fun e => sentBy e.1 e.2

@[simp] def receivedBy : (q : Call) → q.Reply → Bytes
  | .recv _ _, bs => bs.getD []
  | .read _ _, bs => bs.getD []
  | .sslRead _, bs => bs.getD []
  | _, _ => []

def received (h : Trace) : Bytes := h.flatMap fun e => receivedBy e.1 e.2

@[simp] theorem completions_snoc {q : Call} {r : q.Reply} :
    completions (h ++ [⟨q, r⟩]) = completions h ++ completedBy q r := by
  simp [completions]

@[simp] theorem sent_snoc {q : Call} {r : q.Reply} :
    sent (h ++ [⟨q, r⟩]) = sent h ++ sentBy q r := by
  simp [sent]

@[simp] theorem received_snoc {q : Call} {r : q.Reply} :
    received (h ++ [⟨q, r⟩]) = received h ++ receivedBy q r := by
  simp [received]

end Trace

/-! ## The read buffer of a context -/

/-- `appendTobuffer` on the buffer of the context. -/
def ClientContext.appendTobuffer (ctx : ClientContext) (data : Bytes) :
    Except TaskEnd ClientContext :=
  match ctx.clientReadBuffer with
  | none => .error .undefined
  | some b =>
      match b.appendTobuffer data with
      | .ok b' => .ok { ctx with clientReadBuffer := some b' }
      | .error .lengthError => .error .threw
      | .error .outOfBounds => .error .undefined

/-- `memcmp` of the delimiter with the memory at offset `i`. -/
def memcmpEq (mem : Bytes) (i : ℕ) (delimiter : Bytes) : Bool :=
  slice mem i (i + delimiter.length) == delimiter

/-- The scans for the delimiter. Their index is an `int`: from `2 ^ 31` on it
is negative, and the loop ends. -/
def scan (readableBytes : ℕ) (delimiter : Bytes) (hit : ℕ → Bool) : Bool :=
  (List.range (min (readableBytes + 1 - delimiter.length) 2147483648)).any hit

/-- The scan of the readable bytes. -/
def ReadBuffer.findDelimiter (b : ReadBuffer) (delimiter : Bytes) : Bool :=
  scan b.readableBytes delimiter fun i => memcmpEq b.peekData i delimiter

/-- Submitting a callback for a read: the buffer is moved out of the context
first, and then the context. -/
def submitRead (ec : ErrorCode) (bytes : ℕ) (ctx : ClientContext) :
    Net ClientContext := do
  let rest := { ctx with clientReadBuffer := none }
  perform (.submit (.read ec bytes ctx.clientReadBuffer rest.moveConstruct))
  return rest.movedFrom

/-- Submitting a callback with the number of readable bytes. -/
def submitReadable (ec : ErrorCode) (ctx : ClientContext) : Net TaskEnd :=
  match ctx.clientReadBuffer with
  | none => return .undefined
  | some b => do
      let _ ← submitRead ec b.readableBytes ctx
      return .returned

theorem sat_submitRead {ok : Trace → (q : Call) → q.Reply → Prop}
    {φ : Trace → Status ClientContext → Prop} {h : Trace} {ec : ErrorCode}
    {bytes : ℕ} {ctx : ClientContext} (hcalling : φ h .calling)
    (hdone : φ (h ++ [⟨.submit (.read ec bytes ctx.clientReadBuffer
      { ctx with clientReadBuffer := none }.moveConstruct), ()⟩])
      (.done { ctx with clientReadBuffer := none }.movedFrom)) :
    (submitRead ec bytes ctx).Sat ok φ h :=
  ⟨hcalling, fun _ _ => hdone⟩

theorem sat_submitReadable {ok : Trace → (q : Call) → q.Reply → Prop}
    {φ : Trace → Status TaskEnd → Prop} {h : Trace} {ec : ErrorCode}
    {ctx : ClientContext} {b : ReadBuffer} (hb : ctx.clientReadBuffer = some b)
    (hcalling : φ h .calling)
    (hdone : φ (h ++ [⟨.submit (.read ec b.readableBytes (some b)
      { ctx with clientReadBuffer := none }.moveConstruct), ()⟩])
      (.done .returned)) :
    (submitReadable ec ctx).Sat ok φ h := by
  rw [submitReadable, hb]
  refine Prog.sat_bind.mpr (sat_submitRead hcalling ?_)
  rw [hb]
  exact hdone

/-- Submitting a callback for a write. -/
def submitWrite (ec : ErrorCode) (bytes : ℕ) (ctx : ClientContext) : Net Unit :=
  perform (.submit (.write ec bytes ctx.moveConstruct))

end Mtasc
