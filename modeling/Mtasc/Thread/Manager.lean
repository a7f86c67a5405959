import Mtasc.Lib.Threads
import Mtasc.Lib.Word

/-!
# `ThreadManager`

The thread pool, one step for each lock, unlock, wait, notification, and each
access to `M_tasks`, `M_stop` and the counter. `Event` are the operations on
the shared state, `Pc` the places in the code of a worker, of a thread that
submits, and of the caller of `waitAllthread`; `Pc.next` is the code.

`pushed`, `popped`, `ran` and `terminated` are history: no operation but
`join` reads them. A task is its identity; what its body does while it runs,
any number of submissions, is left to the run.
-/

namespace Mtasc

open Lib

/-! ## Threads and locks -/

inductive Tid (n m : ℕ) where
  | worker (i : Fin n)
  /-- A thread outside the pool that submits. -/
  | client (j : Fin m)
  /-- The thread that calls `waitAllthread`. -/
  | closer
deriving DecidableEq, Fintype

inductive Mutex where
  | tasksMutex
  | countMutex
deriving DecidableEq

/-- The two submission functions. -/
inductive Path where
  | asyncTaskvoid
  | asyncTaskret
deriving DecidableEq

/-- The mutex a submission locks. In `asyncTaskvoid` the lock is called
`_tasksLock` too, but what it locks is `*M_countMutex_`. -/
def Path.mutex : Path → Mutex
  | .asyncTaskvoid => .countMutex
  | .asyncTaskret => .tasksMutex

/-! ## The shared state -/

structure Shared (τ : Type) (n m : ℕ) where
  tasks : List τ := []
  threadRurinngCount : ℤ := 0
  owner : Mutex → Option (Tid n m) := fun _ => none
  /-- The threads blocked in `M_cv`. -/
  waiters : Finset (Tid n m) := ∅
  stop : Bool := false
  pushed : List τ := []
  popped : List τ := []
  ran : List τ := []
  terminated : Finset (Tid n m) := ∅

/-- An operation of a thread on the shared state, with its result. -/
inductive Event (τ : Type) (n m : ℕ) where
  | lock (x : Mutex)
  | unlock (x : Mutex)
  /-- `M_tasks.empty()` gives `b`. -/
  | tasksEmpty (b : Bool)
  /-- Moving task `x` out of `front()`. -/
  | front (x : τ)
  /-- `pop_front()` of the element `x` was moved out of. -/
  | popFront (x : τ)
  /-- `front()` or `pop_front()` of an empty deque. -/
  | underflow
  | pushBack (x : τ)
  | loadStop (b : Bool)
  | storeStop
  /-- The test `count > 0` gives `b`. -/
  | countPositive (b : Bool)
  /-- The test `count == 0` gives `b`. -/
  | countZero (b : Bool)
  | increment
  | decrement
  /-- `notify_one`; it wakes one waiting thread if there is one. -/
  | notifyOne (woken : Option (Tid n m))
  | notifyAll
  /-- Releasing the mutex and joining the wait set, atomically. -/
  | block (x : Mutex)
  /-- Leaving the wait after a notification, without one, by the clock. -/
  | woken
  | spurious
  | timeout
  /-- The user calls a submission function. -/
  | call (path : Path) (x : τ)
  /-- Task `x` returns. -/
  | finish (x : τ)
  /-- The function of the thread returns. -/
  | terminate
  | join (t : Tid n m)

section

variable {τ : Type} [DecidableEq τ] {n m : ℕ}

def Shared.setOwner (g : Shared τ n m) (x : Mutex) (o : Option (Tid n m)) :
    Shared τ n m :=
  { g with owner := Function.update g.owner x o }

/-- Whether the operation can happen now, with the result it carries. -/
def Event.enabled (t : Tid n m) (g : Shared τ n m) : Event τ n m → Bool
  | .lock x => decide (g.owner x = none)
  | .tasksEmpty b => g.tasks.isEmpty == b
  | .front x => decide (g.tasks.head? = some x)
  | .popFront _ => !g.tasks.isEmpty
  | .underflow => g.tasks.isEmpty
  | .loadStop b => g.stop == b
  | .countPositive b => decide (0 < g.threadRurinngCount) == b
  | .countZero b => decide (g.threadRurinngCount = 0) == b
  | .notifyOne none => decide (g.waiters = ∅)
  | .notifyOne (some u) => decide (u ∈ g.waiters)
  | .woken => decide (t ∉ g.waiters)
  | .join u => decide (u ∈ g.terminated)
  | _ => true

/-- The shared state after an operation of thread `t`. -/
def Event.effect (t : Tid n m) (g : Shared τ n m) : Event τ n m → Shared τ n m
  | .lock x => g.setOwner x (some t)
  | .unlock x => g.setOwner x none
  | .popFront x => { g with tasks := g.tasks.tail, popped := g.popped ++ [x] }
  | .pushBack x =>
      { g with tasks := g.tasks ++ [x], pushed := g.pushed ++ [x] }
  | .storeStop => { g with stop := true }
  | .increment =>
      { g with threadRurinngCount := wrapInt (g.threadRurinngCount + 1) }
  | .decrement =>
      { g with threadRurinngCount := wrapInt (g.threadRurinngCount - 1) }
  | .notifyOne (some u) => { g with waiters := g.waiters.erase u }
  | .notifyAll => { g with waiters := ∅ }
  | .block x => { g.setOwner x none with waiters := insert t g.waiters }
  | .spurious => { g with waiters := g.waiters.erase t }
  | .timeout => { g with waiters := g.waiters.erase t }
  | .finish x => { g with ran := g.ran ++ [x] }
  | .terminate => { g with terminated := insert t g.terminated }
  | _ => g

end

/-! ## The code -/

/-- The places in `asyncTaskvoid` and `asyncTaskret`. -/
inductive Stage where
  | lock
  | push
  | increment
  | unlock
  | notify
deriving DecidableEq

structure Submission (τ : Type) where
  path : Path
  task : τ
  stage : Stage

inductive Pc (τ : Type) where
  -- the worker: `M_cv->wait` with its predicate
  | lockTasks
  | predEmpty
  | predStop
  | block
  | waiting
  | relock
  -- the two tests behind the wait
  | exitEmpty
  | exitStop
  | unlockBreak
  | leaving
  | left
  | contEmpty
  | unlockContinue
  -- taking a task and running it
  | front
  | popFront (x : τ)
  | unlockTask (x : τ)
  | running (x : τ)
  | runningSubmit (x : τ) (s : Submission τ)
  -- the accounting block
  | lockCount
  | guard
  | decrement
  | postCount
  | postEmpty
  | notifyAll
  | unlockCount
  -- a thread outside the pool
  | idle
  | submit (s : Submission τ)
  -- `waitAllthread`; the flag says that `wait_for` has timed out
  | storeStop
  | stopNotify
  | waitLock
  | waitCount (last : Bool)
  | waitEmpty (last : Bool)
  | waitBlock
  | waitWaiting
  | waitRelock (last : Bool)
  | waitUnlock
  | joining (k : ℕ)
  -- `front` or `pop_front` of an empty deque
  | undefined

section

variable {τ : Type} [DecidableEq τ] {n m : ℕ}

/-- One operation of a submission; the result `some none` is its return. -/
def Submission.next (s : Submission τ) :
    Event τ n m → Option (Option (Submission τ))
  | .lock x =>
      if s.stage = .lock ∧ x = s.path.mutex then
        some (some { s with stage := .push }) else none
  | .pushBack x =>
      if s.stage = .push ∧ x = s.task then
        some (some { s with stage := .increment }) else none
  | .increment =>
      if s.stage = .increment then
        some (some { s with stage := .unlock }) else none
  | .unlock x =>
      if s.stage = .unlock ∧ x = s.path.mutex then
        some (some { s with stage := .notify }) else none
  | .notifyOne _ => if s.stage = .notify then some none else none
  | _ => none

/-- The code of the threads: from which place which operation leads where. -/
def Pc.next : Pc τ → Event τ n m → Option (Pc τ)
  | .lockTasks, .lock .tasksMutex => some .predEmpty
  | .predEmpty, .tasksEmpty true => some .predStop
  | .predEmpty, .tasksEmpty false => some .exitEmpty
  | .predStop, .loadStop true => some .exitEmpty
  | .predStop, .loadStop false => some .block
  | .block, .block .tasksMutex => some .waiting
  | .waiting, .woken => some .relock
  | .waiting, .spurious => some .relock
  | .relock, .lock .tasksMutex => some .predEmpty
  | .exitEmpty, .tasksEmpty true => some .exitStop
  | .exitEmpty, .tasksEmpty false => some .contEmpty
  | .exitStop, .loadStop true => some .unlockBreak
  | .exitStop, .loadStop false => some .contEmpty
  | .unlockBreak, .unlock .tasksMutex => some .leaving
  | .leaving, .terminate => some .left
  | .contEmpty, .tasksEmpty true => some .unlockContinue
  | .contEmpty, .tasksEmpty false => some .front
  | .unlockContinue, .unlock .tasksMutex => some .lockTasks
  | .front, .front x => some (.popFront x)
  | .front, .underflow => some .undefined
  | .popFront x, .popFront y => if y = x then some (.unlockTask x) else none
  | .popFront _, .underflow => some .undefined
  | .unlockTask x, .unlock .tasksMutex => some (.running x)
  | .running x, .call path y => some (.runningSubmit x ⟨path, y, .lock⟩)
  | .running x, .finish y => if y = x then some .lockCount else none
  | .runningSubmit x s, e => (s.next e).map (·.elim (.running x) (.runningSubmit x))
  | .lockCount, .lock .countMutex => some .guard
  | .guard, .countPositive true => some .decrement
  | .guard, .countPositive false => some .postCount
  | .decrement, .decrement => some .postCount
  | .postCount, .countZero true => some .postEmpty
  | .postCount, .countZero false => some .unlockCount
  | .postEmpty, .tasksEmpty true => some .notifyAll
  | .postEmpty, .tasksEmpty false => some .unlockCount
  | .notifyAll, .notifyAll => some .unlockCount
  | .unlockCount, .unlock .countMutex => some .lockTasks
  | .idle, .call path y => some (.submit ⟨path, y, .lock⟩)
  | .submit s, e => (s.next e).map (·.elim .idle .submit)
  | .storeStop, .storeStop => some .stopNotify
  | .stopNotify, .notifyAll => some .waitLock
  | .waitLock, .lock .countMutex => some (.waitCount false)
  | .waitCount last, .countZero true => some (.waitEmpty last)
  | .waitCount false, .countZero false => some .waitBlock
  | .waitCount true, .countZero false => some .waitUnlock
  | .waitEmpty _, .tasksEmpty true => some .waitUnlock
  | .waitEmpty false, .tasksEmpty false => some .waitBlock
  | .waitEmpty true, .tasksEmpty false => some .waitUnlock
  | .waitBlock, .block .countMutex => some .waitWaiting
  | .waitWaiting, .woken => some (.waitRelock false)
  | .waitWaiting, .spurious => some (.waitRelock false)
  | .waitWaiting, .timeout => some (.waitRelock true)
  | .waitRelock last, .lock .countMutex => some (.waitCount last)
  | .waitUnlock, .unlock .countMutex => some (.joining 0)
  | .joining k, .join (.worker i) =>
      if i.val = k then some (.joining (k + 1)) else none
  | _, _ => none

/-- A step of thread `t` of the pool. -/
def poolStep (t : Tid n m) (g : Shared τ n m) (pc : Pc τ) (e : Event τ n m) :
    Option (Shared τ n m × Pc τ) :=
  match pc.next e with
  | some pc' => if e.enabled t g then some (e.effect t g, pc') else none
  | none => none

abbrev Pool (τ : Type) (n m : ℕ) : Type := Config (Tid n m) (Shared τ n m) (Pc τ)

/-- A pool of `n` workers behind its constructor, with `m` threads that may
submit and one that may call `waitAllthread`. -/
def Pool.init (τ : Type) (n m : ℕ) : Pool τ n m where
  shared := {}
  loc
    | .worker _ => .lockTasks
    | .client _ => .idle
    | .closer => .storeStop

/-- What a run may be asked of each of its steps. -/
abbrev Pool.StepRule (τ : Type) (n m : ℕ) : Type :=
  Pool τ n m → Tid n m → Event τ n m → Pool τ n m → Prop

/-- The states of the runs from the start all of whose steps satisfy `ok`. -/
abbrev Pool.Reachable (ok : Pool.StepRule τ n m) (c : Pool τ n m) : Prop :=
  Reach poolStep ok (Pool.init τ n m) c

/-- Any interleaving. -/
def Pool.anyStep : Pool.StepRule τ n m := fun _ _ _ _ => True

end

end Mtasc
