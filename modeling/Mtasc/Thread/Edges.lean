import Mtasc.Thread.Manager

/-!
# The steps of the pool, inverted

`Edge` names the rows of `Pc.next`; `poolStep_edge` takes a step of the pool
apart into a row of the code and an operation on the shared state. Invariants
are proved by cases on the row.
-/

namespace Mtasc

open Lib

variable {τ : Type} {n m : ℕ}

/-- The rows of `Submission.next`; `none` is the return. -/
inductive SubmissionEdge (path : Path) (x : τ) :
    Stage → Event τ n m → Option Stage → Prop where
  | lock : SubmissionEdge path x .lock (.lock path.mutex) (some .push)
  | push : SubmissionEdge path x .push (.pushBack x) (some .increment)
  | increment : SubmissionEdge path x .increment .increment (some .unlock)
  | unlock : SubmissionEdge path x .unlock (.unlock path.mutex) (some .notify)
  | notify (woken : Option (Tid n m)) :
      SubmissionEdge path x .notify (.notifyOne woken) none

/-- The rows of `Pc.next`. -/
inductive Edge : Pc τ → Event τ n m → Pc τ → Prop where
  | lockTasks : Edge .lockTasks (.lock .tasksMutex) .predEmpty
  | predEmpty : Edge .predEmpty (.tasksEmpty true) .predStop
  | predFilled : Edge .predEmpty (.tasksEmpty false) .exitEmpty
  | predStopped : Edge .predStop (.loadStop true) .exitEmpty
  | predFalse : Edge .predStop (.loadStop false) .block
  | block : Edge .block (.block .tasksMutex) .waiting
  | woken : Edge .waiting .woken .relock
  | spurious : Edge .waiting .spurious .relock
  | relock : Edge .relock (.lock .tasksMutex) .predEmpty
  | exitEmpty : Edge .exitEmpty (.tasksEmpty true) .exitStop
  | exitFilled : Edge .exitEmpty (.tasksEmpty false) .contEmpty
  | exitStopped : Edge .exitStop (.loadStop true) .unlockBreak
  | exitFalse : Edge .exitStop (.loadStop false) .contEmpty
  | unlockBreak : Edge .unlockBreak (.unlock .tasksMutex) .leaving
  | leaving : Edge .leaving .terminate .left
  | contEmpty : Edge .contEmpty (.tasksEmpty true) .unlockContinue
  | contFilled : Edge .contEmpty (.tasksEmpty false) .front
  | unlockContinue : Edge .unlockContinue (.unlock .tasksMutex) .lockTasks
  | front (x : τ) : Edge .front (.front x) (.popFront x)
  | frontUndefined : Edge .front .underflow .undefined
  | popFront (x : τ) : Edge (.popFront x) (.popFront x) (.unlockTask x)
  | popUndefined (x : τ) : Edge (.popFront x) .underflow .undefined
  | unlockTask (x : τ) : Edge (.unlockTask x) (.unlock .tasksMutex) (.running x)
  | taskCall (x : τ) (path : Path) (y : τ) :
      Edge (.running x) (.call path y) (.runningSubmit x ⟨path, y, .lock⟩)
  | finish (x : τ) : Edge (.running x) (.finish x) .lockCount
  | taskSubmit (x y : τ) (path : Path) {stage stage' : Stage}
      {e : Event τ n m} (h : SubmissionEdge path y stage e (some stage')) :
      Edge (.runningSubmit x ⟨path, y, stage⟩) e
        (.runningSubmit x ⟨path, y, stage'⟩)
  | taskReturn (x y : τ) (path : Path) {stage : Stage} {e : Event τ n m}
      (h : SubmissionEdge path y stage e none) :
      Edge (.runningSubmit x ⟨path, y, stage⟩) e (.running x)
  | lockCount : Edge .lockCount (.lock .countMutex) .guard
  | guardHolds : Edge .guard (.countPositive true) .decrement
  | guardFails : Edge .guard (.countPositive false) .postCount
  | decrement : Edge .decrement .decrement .postCount
  | postZero : Edge .postCount (.countZero true) .postEmpty
  | postNonzero : Edge .postCount (.countZero false) .unlockCount
  | postEmpty : Edge .postEmpty (.tasksEmpty true) .notifyAll
  | postFilled : Edge .postEmpty (.tasksEmpty false) .unlockCount
  | notifyAll : Edge .notifyAll .notifyAll .unlockCount
  | unlockCount : Edge .unlockCount (.unlock .countMutex) .lockTasks
  | call (path : Path) (y : τ) :
      Edge .idle (.call path y) (.submit ⟨path, y, .lock⟩)
  | submit (y : τ) (path : Path) {stage stage' : Stage} {e : Event τ n m}
      (h : SubmissionEdge path y stage e (some stage')) :
      Edge (.submit ⟨path, y, stage⟩) e (.submit ⟨path, y, stage'⟩)
  | return (y : τ) (path : Path) {stage : Stage} {e : Event τ n m}
      (h : SubmissionEdge path y stage e none) :
      Edge (.submit ⟨path, y, stage⟩) e .idle
  | storeStop : Edge .storeStop .storeStop .stopNotify
  | stopNotify : Edge .stopNotify .notifyAll .waitLock
  | waitLock : Edge .waitLock (.lock .countMutex) (.waitCount false)
  | waitZero (last : Bool) :
      Edge (.waitCount last) (.countZero true) (.waitEmpty last)
  | waitNonzero : Edge (.waitCount false) (.countZero false) .waitBlock
  | lastNonzero : Edge (.waitCount true) (.countZero false) .waitUnlock
  | waitEmpty (last : Bool) :
      Edge (.waitEmpty last) (.tasksEmpty true) .waitUnlock
  | waitFilled : Edge (.waitEmpty false) (.tasksEmpty false) .waitBlock
  | lastFilled : Edge (.waitEmpty true) (.tasksEmpty false) .waitUnlock
  | waitBlock : Edge .waitBlock (.block .countMutex) .waitWaiting
  | waitWoken : Edge .waitWaiting .woken (.waitRelock false)
  | waitSpurious : Edge .waitWaiting .spurious (.waitRelock false)
  | waitTimeout : Edge .waitWaiting .timeout (.waitRelock true)
  | waitRelock (last : Bool) :
      Edge (.waitRelock last) (.lock .countMutex) (.waitCount last)
  | waitUnlock : Edge .waitUnlock (.unlock .countMutex) (.joining 0)
  | join (i : Fin n) :
      Edge (.joining i.val) (.join (.worker i)) (.joining (i.val + 1))

/-! ## Events that are tested -/

deriving instance DecidableEq for Submission, Pc, Event

/-- A submission made by the program, inside a task or outside the pool. -/
def Event.isCall : Event τ n m → Bool
  | .call _ _ => true
  | _ => false

theorem Event.isCall_iff (e : Event τ n m) :
    e.isCall = true ↔ ∃ path x, e = .call path x := by
  cases e with
  | call path x => exact ⟨fun _ => ⟨path, x, rfl⟩, fun _ => rfl⟩
  | _ =>
      refine ⟨fun h => absurd h Bool.false_ne_true, ?_⟩
      rintro ⟨path, x, h⟩
      cases h

instance (e : Event τ n m) : Decidable (∃ path x, e = .call path x) :=
  decidable_of_iff _ e.isCall_iff

def Event.isNotifyOne : Event τ n m → Bool
  | .notifyOne _ => true
  | _ => false

theorem Event.isNotifyOne_iff (e : Event τ n m) :
    e.isNotifyOne = true ↔ ∃ w, e = .notifyOne w := by
  cases e with
  | notifyOne w => exact ⟨fun _ => ⟨w, rfl⟩, fun _ => rfl⟩
  | _ =>
      refine ⟨fun h => absurd h Bool.false_ne_true, ?_⟩
      rintro ⟨w, h⟩
      cases h

instance (e : Event τ n m) : Decidable (∃ w, e = .notifyOne w) :=
  decidable_of_iff _ e.isNotifyOne_iff

/-! ## Taking a step apart -/

variable [DecidableEq τ]

theorem Submission.next_edge {path : Path} {x : τ} {stage : Stage}
    {e : Event τ n m} {o : Option (Submission τ)}
    (h : Submission.next ⟨path, x, stage⟩ e = some o) :
    (o = none ∧ SubmissionEdge path x stage e none) ∨
    ∃ stage', o = some ⟨path, x, stage'⟩ ∧
      SubmissionEdge path x stage e (some stage') := by
  unfold Submission.next at h
  split at h
  · split at h
    · next hs =>
      obtain ⟨rfl, rfl⟩ := hs
      cases h
      exact Or.inr ⟨_, rfl, .lock⟩
    · cases h
  · split at h
    · next hs =>
      obtain ⟨rfl, rfl⟩ := hs
      cases h
      exact Or.inr ⟨_, rfl, .push⟩
    · cases h
  · split at h
    · next hs =>
      obtain rfl := hs
      cases h
      exact Or.inr ⟨_, rfl, .increment⟩
    · cases h
  · split at h
    · next hs =>
      obtain ⟨rfl, rfl⟩ := hs
      cases h
      exact Or.inr ⟨_, rfl, .unlock⟩
    · cases h
  · split at h
    · next hs =>
      obtain rfl := hs
      cases h
      exact Or.inl ⟨rfl, .notify _⟩
    · cases h
  · cases h

theorem Pc.next_edge {pc pc' : Pc τ} {e : Event τ n m}
    (h : pc.next e = some pc') : Edge pc e pc' := by
  unfold Pc.next at h
  split at h
  case h_26 x s =>
    obtain ⟨o, ho, rfl⟩ := Option.map_eq_some_iff.mp h
    rcases Submission.next_edge ho with ⟨rfl, hs⟩ | ⟨_, rfl, hs⟩
    · exact .taskReturn _ _ _ hs
    · exact .taskSubmit _ _ _ hs
  case h_38 s =>
    obtain ⟨o, ho, rfl⟩ := Option.map_eq_some_iff.mp h
    rcases Submission.next_edge ho with ⟨rfl, hs⟩ | ⟨_, rfl, hs⟩
    · exact .return _ _ hs
    · exact .submit _ _ hs
  case h_55 => cases h
  all_goals
    first
    | cases h
      constructor
    | split at h
      · next heq =>
        cases h
        subst heq
        constructor
      · cases h

/-- **What a step can do**: a row of the code and its operation. -/
theorem poolStep_edge {t : Tid n m} {g g' : Shared τ n m} {pc pc' : Pc τ}
    {e : Event τ n m} (h : poolStep t g pc e = some (g', pc')) :
    Edge pc e pc' ∧ e.enabled t g = true ∧ g' = e.effect t g := by
  unfold poolStep at h
  split at h
  · next hnext =>
    split at h
    · next henabled =>
      cases h
      exact ⟨Pc.next_edge hnext, henabled, rfl⟩
    · cases h
  · cases h

/-! ## Runs -/

/-- The worker of a pool that has one. -/
abbrev onlyWorker : Tid 1 1 := .worker ⟨0, Nat.one_pos⟩

/-- The thread outside it. -/
abbrev onlyClient : Tid 1 1 := .client ⟨0, Nat.one_pos⟩

theorem SubmissionEdge.next {path : Path} {x : τ} {stage : Stage}
    {e : Event τ n m} {o : Option Stage} (h : SubmissionEdge path x stage e o) :
    Submission.next ⟨path, x, stage⟩ e = some (o.map fun s => ⟨path, x, s⟩) := by
  cases h <;> simp [Submission.next]

theorem Edge.next {pc pc' : Pc τ} {e : Event τ n m} (h : Edge pc e pc') :
    pc.next e = some pc' := by
  cases h with
  | taskSubmit _ _ _ h => simp [Pc.next, h.next]
  | taskReturn _ _ _ h => simp [Pc.next, h.next]
  | submit _ _ h => simp [Pc.next, h.next]
  | «return» _ _ h => simp [Pc.next, h.next]
  | popFront x => simp [Pc.next]
  | finish x => simp [Pc.next]
  | join i => simp [Pc.next]
  | _ => rfl

section Run

variable {ok : Pool.StepRule τ n m} {g : Shared τ n m}
variable {loc : Tid n m → Pc τ} {t : Tid n m}

/-- A step of a stretch in which only thread `t` moves. -/
theorem Pool.thread_step {pc pc' : Pc τ} {e : Event τ n m}
    (h : Reachable ok ⟨g, Function.update loc t pc⟩)
    (hok : ∀ g pc e c', ok ⟨g, Function.update loc t pc⟩ t e c')
    (hedge : Edge pc e pc') (henabled : e.enabled t g = true) :
    Reachable ok ⟨e.effect t g, Function.update loc t pc'⟩ := by
  refine Reach.move (i := t) (a := e) h (hok _ _ _ _) ?_
  simp [Lib.move, poolStep, hedge.next, henabled]

def Shared.submitted (g : Shared τ n m) (x : τ) : Shared τ n m :=
  { g with
    tasks := g.tasks ++ [x]
    pushed := g.pushed ++ [x]
    threadRurinngCount := wrapInt (g.threadRurinngCount + 1) }

/-- A submission that nobody interrupts. -/
theorem Pool.submit_run (h : Reachable ok ⟨g, loc⟩)
    (hok : ∀ g pc e c', ok ⟨g, Function.update loc t pc⟩ t e c')
    (hidle : loc t = .idle) (hfree : ∀ x, g.owner x = none)
    (hwait : g.waiters = ∅) (path : Path) (x : τ) :
    Reachable ok ⟨g.submitted x, loc⟩ := by
  have hself : Function.update loc t .idle = loc := by
    rw [← hidle, Function.update_eq_self]
  rw [← hself] at h ⊢
  have h := Pool.thread_step h hok (.call path x) rfl
  have h := Pool.thread_step h hok (.submit x path .lock)
    (decide_eq_true (hfree _))
  have h := Pool.thread_step h hok (.submit x path .push) rfl
  have h := Pool.thread_step h hok (.submit x path .increment) rfl
  have h := Pool.thread_step h hok (.submit x path .unlock) rfl
  have h := Pool.thread_step h hok (.return x path (.notify none))
    (decide_eq_true hwait)
  have howner : Function.update (Function.update g.owner path.mutex (some t))
      path.mutex none = g.owner := by
    rw [Function.update_idem, ← hfree path.mutex, Function.update_eq_self]
  simp only [Event.effect, Shared.setOwner, howner] at h
  exact h

/-- The start with `k` submissions made, none of them taken. -/
def Pool.filled (n m : ℕ) (x : τ) (k : ℕ) : Shared τ n m :=
  { tasks := List.replicate k x
    pushed := List.replicate k x
    threadRurinngCount := wrapInt k }

omit [DecidableEq τ] in
theorem Pool.filled_count (x : τ) (k : ℕ) :
    (Pool.filled n m x k).threadRurinngCount = wrapInt k := rfl

/-- A thread outside the pool can fill the queue before any worker starts. -/
theorem Pool.filled_run (x : τ) (j : Fin m)
    (hok : ∀ g pc e c', ok ⟨g, Function.update (Pool.init τ n m).loc
      (.client j) pc⟩ (.client j) e c') (k : ℕ) :
    Reachable ok ⟨Pool.filled n m x k, (Pool.init τ n m).loc⟩ := by
  induction k with
  | zero =>
      have hzero : Pool.filled n m x 0 = {} := by
        simp [Pool.filled, wrapInt]
      rw [hzero]
      exact .start
  | succ k ih =>
      have hnext := Pool.submit_run ih hok rfl (fun _ => rfl) rfl
        .asyncTaskvoid x
      have heq : (Pool.filled n m x k).submitted x = Pool.filled n m x (k + 1) := by
        have hwrap : wrapInt (wrapInt k + 1) = wrapInt ((k + 1 : ℕ) : ℤ) := by
          simp [wrapInt]
        simp only [Pool.filled, Shared.submitted, hwrap, List.replicate_succ']
      rwa [heq] at hnext

end Run

end Mtasc
