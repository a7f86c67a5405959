import Mtasc.Thread.Edges

/-!
# Who holds which mutex

The places in the code between taking a mutex and giving it back, and the
invariant that the owner of a mutex is the thread at such a place. Everything
the pool's correctness takes from mutual exclusion is `Pool.exclusive`.
-/

namespace Mtasc

open Lib

variable {τ : Type} {n m : ℕ}

/-- The places of a submission inside its critical section. -/
def Stage.locked : Stage → Bool
  | .push | .increment | .unlock => true
  | .lock | .notify => false

def Submission.holds (s : Submission τ) (x : Mutex) : Bool :=
  s.stage.locked && decide (s.path.mutex = x)

def Pc.holds : Pc τ → Mutex → Bool
  | .predEmpty, .tasksMutex => true
  | .predStop, .tasksMutex => true
  | .block, .tasksMutex => true
  | .exitEmpty, .tasksMutex => true
  | .exitStop, .tasksMutex => true
  | .unlockBreak, .tasksMutex => true
  | .contEmpty, .tasksMutex => true
  | .unlockContinue, .tasksMutex => true
  | .front, .tasksMutex => true
  | .popFront _, .tasksMutex => true
  | .unlockTask _, .tasksMutex => true
  | .undefined, .tasksMutex => true
  | .guard, .countMutex => true
  | .decrement, .countMutex => true
  | .postCount, .countMutex => true
  | .postEmpty, .countMutex => true
  | .notifyAll, .countMutex => true
  | .unlockCount, .countMutex => true
  | .waitCount _, .countMutex => true
  | .waitEmpty _, .countMutex => true
  | .waitBlock, .countMutex => true
  | .waitUnlock, .countMutex => true
  | .submit s, x => s.holds x
  | .runningSubmit _ s, x => s.holds x
  | _, _ => false

/-! ## What an operation does to a mutex -/

/-- The mutex an operation gives back. -/
def Event.released : Event τ n m → Option Mutex
  | .unlock x => some x
  | .block x => some x
  | _ => none

/-- Whether `x` is held behind an operation, given whether it was before. -/
def Event.heldAfter (x : Mutex) (held : Bool) : Event τ n m → Bool
  | .lock y => decide (y = x) || held
  | .unlock y => decide (y ≠ x) && held
  | .block y => decide (y ≠ x) && held
  | _ => held

theorem SubmissionEdge.holds {path : Path} {y : τ} {stage : Stage}
    {e : Event τ n m} {o : Option Stage} (h : SubmissionEdge path y stage e o)
    (x : Mutex) : (o.elim false fun s => Submission.holds ⟨path, y, s⟩ x) =
      e.heldAfter x (Submission.holds ⟨path, y, stage⟩ x) := by
  cases h <;> cases path <;> cases x <;> rfl

theorem Edge.holds {pc pc' : Pc τ} {e : Event τ n m} (h : Edge pc e pc')
    (x : Mutex) : pc'.holds x = e.heldAfter x (pc.holds x) := by
  cases h with
  | taskSubmit _ _ _ h => exact h.holds x
  | taskReturn _ _ _ h => exact h.holds x
  | submit _ _ h => exact h.holds x
  | «return» _ _ h => exact h.holds x
  | _ => cases x <;> rfl

theorem SubmissionEdge.holds_released {path : Path} {y : τ} {stage : Stage}
    {e : Event τ n m} {o : Option Stage} (h : SubmissionEdge path y stage e o)
    {x : Mutex} (he : e.released = some x) :
    Submission.holds ⟨path, y, stage⟩ x = true := by
  cases h with
  | unlock =>
      cases he
      cases path <;> rfl
  | _ => cases he

/-- A mutex is given back by who holds it. -/
theorem Edge.holds_released {pc pc' : Pc τ} {e : Event τ n m}
    (h : Edge pc e pc') {x : Mutex} (he : e.released = some x) :
    pc.holds x = true := by
  cases h with
  | taskSubmit _ _ _ h => exact h.holds_released he
  | taskReturn _ _ _ h => exact h.holds_released he
  | submit _ _ h => exact h.holds_released he
  | «return» _ _ h => exact h.holds_released he
  | _ => cases he <;> rfl

/-! ## Mutual exclusion -/

variable [DecidableEq τ]

theorem Event.lockStep {t : Tid n m} {g : Shared τ n m} {e : Event τ n m}
    (h : e.enabled t g = true) (x : Mutex) {held : Bool}
    (hreleased : e.released = some x → held = true) :
    LockStep t (g.owner x) (held = true) ((e.effect t g).owner x)
      (e.heldAfter x held = true) := by
  have hrelease : ∀ y : Mutex, e.released = some y →
      LockStep t (g.owner x) (held = true) (Function.update g.owner y none x)
        ((decide (y ≠ x) && held) = true) := by
    intro y he
    by_cases hy : y = x
    · subst hy
      rw [Function.update_self]
      exact .release (hreleased he) (by simp)
    · rw [Function.update_of_ne (Ne.symm hy)]
      exact .keep (by simp [hy])
  cases e with
  | lock y =>
      show LockStep t (g.owner x) _ (Function.update g.owner y (some t) x)
        ((decide (y = x) || held) = true)
      by_cases hy : y = x
      · subst hy
        rw [of_decide_eq_true h, Function.update_self]
        exact .acquire (by simp)
      · rw [Function.update_of_ne (Ne.symm hy)]
        exact .keep (by simp [hy])
  | unlock y => exact hrelease y rfl
  | block y => exact hrelease y rfl
  | notifyOne u => cases u <;> exact .keep Iff.rfl
  | _ => exact .keep Iff.rfl

theorem poolStep_lock (x : Mutex) (t : Tid n m) (g : Shared τ n m) (pc : Pc τ)
    (e : Event τ n m) (g' : Shared τ n m) (pc' : Pc τ)
    (h : poolStep t g pc e = some (g', pc')) :
    LockStep t (g.owner x) (pc.holds x = true) (g'.owner x)
      (pc'.holds x = true) := by
  obtain ⟨hedge, henabled, rfl⟩ := poolStep_edge h
  rw [hedge.holds x]
  exact Event.lockStep henabled x hedge.holds_released

/-- The owner of a mutex is the thread inside the critical section. -/
theorem Pool.owner_iff {ok : Pool.StepRule τ n m} {c : Pool τ n m}
    (h : Pool.Reachable ok c) (x : Mutex) (t : Tid n m) :
    c.shared.owner x = some t ↔ (c.loc t).holds x = true :=
  Reach.lock (fun pc => pc.holds x = true) rfl
    (fun i => by cases i <;> cases x <;> simp [Pool.init, Pc.holds])
    (poolStep_lock x) h t

/-- **Mutual exclusion.** -/
theorem Pool.exclusive {ok : Pool.StepRule τ n m} {c : Pool τ n m}
    (h : Pool.Reachable ok c) {x : Mutex} {t u : Tid n m}
    (ht : (c.loc t).holds x = true) (hu : (c.loc u).holds x = true) :
    t = u := by
  have ho := (Pool.owner_iff h x t).mpr ht
  rw [(Pool.owner_iff h x u).mpr hu] at ho
  exact (Option.some.inj ho).symm

end Mtasc
