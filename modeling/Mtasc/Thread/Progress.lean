import Mtasc.Thread.Termination

/-!
# Where the pool comes to rest

A thread can wait for a mutex, in the condition variable, in `join`, or for its
caller; everywhere else its next operation is possible. Nobody takes a mutex
while it holds one, so a thread that waits for a mutex waits for one that can
go on, and a pool in which nobody can go on hangs in the condition variable if
it hangs at all. Where no notification is lost it does not hang: every task has
been run, and a closing call that has begun has joined all workers.
-/

namespace Mtasc

open Lib

variable {τ : Type} {n m : ℕ}

/-- What comes from outside the pool: a submission, the closing call, and a
wait that ends without a notification. -/
def Event.outside : Event τ n m → Bool
  | .call _ _ => true
  | .storeStop => true
  | .spurious => true
  | .timeout => true
  | _ => false

/-! ## Where a thread can wait -/

def Submission.waits (g : Shared τ n m) (s : Submission τ) : Prop :=
  s.stage = .lock ∧ g.owner s.path.mutex ≠ none

/-- The places at which thread `t` has to wait. -/
def Pc.waits (t : Tid n m) (g : Shared τ n m) : Pc τ → Prop
  | .lockTasks => g.owner .tasksMutex ≠ none
  | .relock => g.owner .tasksMutex ≠ none
  | .lockCount => g.owner .countMutex ≠ none
  | .waitLock => g.owner .countMutex ≠ none
  | .waitRelock _ => g.owner .countMutex ≠ none
  | .submit s => s.waits g
  | .runningSubmit _ s => s.waits g
  | .waiting => t ∈ g.waiters
  | .waitWaiting => t ∈ g.waiters
  | .joining k => ∀ i : Fin n, i.val = k → .worker i ∉ g.terminated
  | .idle => True
  | .storeStop => True
  | .left => True
  | .undefined => True
  | _ => False

/-- A row of the code that thread `t` can take by itself. -/
def Pc.Goes [DecidableEq τ] (t : Tid n m) (g : Shared τ n m) (pc : Pc τ) : Prop :=
  ∃ (e : Event τ n m) (pc' : Pc τ), Edge pc e pc' ∧ e.enabled t g = true ∧
    e.outside = false

section

variable [DecidableEq τ] {t : Tid n m} {g : Shared τ n m}

theorem SubmissionEdge.goes (path : Path) (x : τ) (stage : Stage) :
    Submission.waits g ⟨path, x, stage⟩ ∨
      ∃ (e : Event τ n m) (o : Option Stage), SubmissionEdge path x stage e o ∧
        e.enabled t g = true ∧ e.outside = false := by
  cases stage with
  | lock =>
      by_cases hfree : g.owner path.mutex = none
      · exact Or.inr ⟨_, _, .lock, decide_eq_true hfree, rfl⟩
      · exact Or.inl ⟨rfl, hfree⟩
  | push => exact Or.inr ⟨_, _, .push, rfl, rfl⟩
  | increment => exact Or.inr ⟨_, _, .increment, rfl, rfl⟩
  | unlock => exact Or.inr ⟨_, _, .unlock, rfl, rfl⟩
  | notify =>
      rcases g.waiters.eq_empty_or_nonempty with hempty | ⟨u, hu⟩
      · exact Or.inr ⟨_, _, .notify none, decide_eq_true hempty, rfl⟩
      · exact Or.inr ⟨_, _, .notify (some u), decide_eq_true hu, rfl⟩

/-- **A thread waits at one of these places, or it can go on.** -/
theorem Pc.waits_or_goes (pc : Pc τ) : pc.waits t g ∨ pc.Goes t g := by
  have hlock : ∀ (x : Mutex) (pc' : Pc τ), Edge pc (.lock x : Event τ n m) pc' →
      g.owner x ≠ none ∨ pc.Goes t g := by
    intro x pc' hedge
    by_cases hfree : g.owner x = none
    · exact Or.inr ⟨_, _, hedge, decide_eq_true hfree, rfl⟩
    · exact Or.inl hfree
  have htasks : ∀ pc₁ pc₂ : Pc τ,
      Edge pc (.tasksEmpty true : Event τ n m) pc₁ →
      Edge pc (.tasksEmpty false : Event τ n m) pc₂ → pc.Goes t g := by
    intro pc₁ pc₂ h₁ h₂
    cases hb : g.tasks.isEmpty with
    | true => exact ⟨_, _, h₁, beq_iff_eq.mpr hb, rfl⟩
    | false => exact ⟨_, _, h₂, beq_iff_eq.mpr hb, rfl⟩
  have hstop : ∀ pc₁ pc₂ : Pc τ, Edge pc (.loadStop true : Event τ n m) pc₁ →
      Edge pc (.loadStop false : Event τ n m) pc₂ → pc.Goes t g := by
    intro pc₁ pc₂ h₁ h₂
    cases hb : g.stop with
    | true => exact ⟨_, _, h₁, beq_iff_eq.mpr hb, rfl⟩
    | false => exact ⟨_, _, h₂, beq_iff_eq.mpr hb, rfl⟩
  have hzero : ∀ pc₁ pc₂ : Pc τ, Edge pc (.countZero true : Event τ n m) pc₁ →
      Edge pc (.countZero false : Event τ n m) pc₂ → pc.Goes t g := by
    intro pc₁ pc₂ h₁ h₂
    cases hb : decide (g.threadRurinngCount = 0) with
    | true => exact ⟨_, _, h₁, beq_iff_eq.mpr hb, rfl⟩
    | false => exact ⟨_, _, h₂, beq_iff_eq.mpr hb, rfl⟩
  have hwoken : ∀ pc' : Pc τ, Edge pc (.woken : Event τ n m) pc' →
      t ∈ g.waiters ∨ pc.Goes t g := by
    intro pc' hedge
    by_cases hmem : t ∈ g.waiters
    · exact Or.inl hmem
    · exact Or.inr ⟨_, _, hedge, decide_eq_true hmem, rfl⟩
  cases pc with
  | lockTasks => exact hlock _ _ .lockTasks
  | predEmpty => exact Or.inr (htasks _ _ .predEmpty .predFilled)
  | predStop => exact Or.inr (hstop _ _ .predStopped .predFalse)
  | block => exact Or.inr ⟨_, _, .block, rfl, rfl⟩
  | waiting => exact hwoken _ .woken
  | relock => exact hlock _ _ .relock
  | exitEmpty => exact Or.inr (htasks _ _ .exitEmpty .exitFilled)
  | exitStop => exact Or.inr (hstop _ _ .exitStopped .exitFalse)
  | unlockBreak => exact Or.inr ⟨_, _, .unlockBreak, rfl, rfl⟩
  | leaving => exact Or.inr ⟨_, _, .leaving, rfl, rfl⟩
  | contEmpty => exact Or.inr (htasks _ _ .contEmpty .contFilled)
  | unlockContinue => exact Or.inr ⟨_, _, .unlockContinue, rfl, rfl⟩
  | front =>
      right
      cases hb : g.tasks with
      | nil =>
          refine ⟨_, _, .frontUndefined, ?_, rfl⟩
          simp [Event.enabled, hb]
      | cons x rest =>
          refine ⟨_, _, .front x, ?_, rfl⟩
          simp [Event.enabled, hb]
  | popFront x =>
      right
      cases hb : g.tasks with
      | nil =>
          refine ⟨_, _, .popUndefined x, ?_, rfl⟩
          simp [Event.enabled, hb]
      | cons y rest =>
          refine ⟨_, _, .popFront x, ?_, rfl⟩
          simp [Event.enabled, hb]
  | unlockTask x => exact Or.inr ⟨_, _, .unlockTask x, rfl, rfl⟩
  | running x => exact Or.inr ⟨_, _, .finish x, rfl, rfl⟩
  | runningSubmit x s =>
      rcases SubmissionEdge.goes (t := t) (g := g) s.path s.task s.stage with
        hwait | ⟨e, o, hedge, henabled, hout⟩
      · exact Or.inl hwait
      · cases o with
        | none => exact Or.inr ⟨_, _, .taskReturn _ _ _ hedge, henabled, hout⟩
        | some stage' =>
            exact Or.inr ⟨_, _, .taskSubmit _ _ _ hedge, henabled, hout⟩
  | lockCount => exact hlock _ _ .lockCount
  | guard =>
      right
      cases hb : decide (0 < g.threadRurinngCount) with
      | true => exact ⟨_, _, .guardHolds, beq_iff_eq.mpr hb, rfl⟩
      | false => exact ⟨_, _, .guardFails, beq_iff_eq.mpr hb, rfl⟩
  | decrement => exact Or.inr ⟨_, _, .decrement, rfl, rfl⟩
  | postCount => exact Or.inr (hzero _ _ .postZero .postNonzero)
  | postEmpty => exact Or.inr (htasks _ _ .postEmpty .postFilled)
  | notifyAll => exact Or.inr ⟨_, _, .notifyAll, rfl, rfl⟩
  | unlockCount => exact Or.inr ⟨_, _, .unlockCount, rfl, rfl⟩
  | submit s =>
      rcases SubmissionEdge.goes (t := t) (g := g) s.path s.task s.stage with
        hwait | ⟨e, o, hedge, henabled, hout⟩
      · exact Or.inl hwait
      · cases o with
        | none => exact Or.inr ⟨_, _, .return _ _ hedge, henabled, hout⟩
        | some stage' =>
            exact Or.inr ⟨_, _, .submit _ _ hedge, henabled, hout⟩
  | stopNotify => exact Or.inr ⟨_, _, .stopNotify, rfl, rfl⟩
  | waitLock => exact hlock _ _ .waitLock
  | waitCount last =>
      cases last with
      | false => exact Or.inr (hzero _ _ (.waitZero false) .waitNonzero)
      | true => exact Or.inr (hzero _ _ (.waitZero true) .lastNonzero)
  | waitEmpty last =>
      cases last with
      | false => exact Or.inr (htasks _ _ (.waitEmpty false) .waitFilled)
      | true => exact Or.inr (htasks _ _ (.waitEmpty true) .lastFilled)
  | waitBlock => exact Or.inr ⟨_, _, .waitBlock, rfl, rfl⟩
  | waitWaiting => exact hwoken _ .waitWoken
  | waitRelock last => exact hlock _ _ (.waitRelock last)
  | waitUnlock => exact Or.inr ⟨_, _, .waitUnlock, rfl, rfl⟩
  | joining k =>
      by_cases hjoin : ∃ i : Fin n, i.val = k ∧ .worker i ∈ g.terminated
      · obtain ⟨i, rfl, hi⟩ := hjoin
        exact Or.inr ⟨_, _, .join i, decide_eq_true hi, rfl⟩
      · exact Or.inl fun i hi hmem => hjoin ⟨i, hi, hmem⟩
  | idle => exact Or.inl trivial
  | storeStop => exact Or.inl trivial
  | left => exact Or.inl trivial
  | undefined => exact Or.inl trivial

end

/-- Nobody waits with a mutex in hand. -/
theorem Pc.holds_of_waits {t : Tid n m} {g : Shared τ n m} {pc : Pc τ}
    (h : pc.waits t g) (hpc : pc ≠ .undefined) (x : Mutex) :
    pc.holds x = false := by
  have hsub : ∀ s : Submission τ, s.waits g → s.holds x = false := by
    rintro ⟨path, y, stage⟩ ⟨rfl, -⟩
    rfl
  cases pc with
  | submit s => exact hsub s h
  | runningSubmit _ s => exact hsub s h
  | undefined => exact absurd rfl hpc
  | _ => first | exact h.elim | cases x <;> rfl

/-! ## Who has returned, and who has been joined -/

theorem Edge.to_left {pc : Pc τ} {e : Event τ n m} (h : Edge pc e .left) :
    e = .terminate := by
  cases h
  rfl

theorem Edge.to_joining {pc : Pc τ} {e : Event τ n m} {k : ℕ}
    (h : Edge pc e (.joining k)) : k ≤ n := by
  cases h with
  | waitUnlock => exact Nat.zero_le n
  | join i => exact i.isLt

theorem Edge.terminate_left {pc pc' : Pc τ}
    (h : Edge pc (.terminate : Event τ n m) pc') : pc' = .left := by
  cases h with
  | leaving => rfl
  | taskSubmit _ _ _ h => cases h
  | taskReturn _ _ _ h => cases h
  | submit _ _ h => cases h
  | «return» _ _ h => cases h

theorem Edge.from_waitWaiting {pc' : Pc τ} {e : Event τ n m}
    (h : Edge .waitWaiting e pc') : e = .woken ∨ e = .spurious ∨ e = .timeout := by
  cases h with
  | waitWoken => exact Or.inl rfl
  | waitSpurious => exact Or.inr (Or.inl rfl)
  | waitTimeout => exact Or.inr (Or.inr rfl)

theorem Edge.from_joining {pc' : Pc τ} {e : Event τ n m} {k : ℕ}
    (h : Edge (.joining k) e pc') : ∃ i : Fin n, i.val = k ∧ e = .join (.worker i) := by
  cases h with
  | join i => exact ⟨i, rfl, rfl⟩

theorem Event.mem_effect_terminated {t u : Tid n m} {g : Shared τ n m}
    {e : Event τ n m} (h : u ∈ (e.effect t g).terminated) :
    u ∈ g.terminated ∨ (u = t ∧ e = .terminate) := by
  cases e with
  | terminate =>
      rcases Finset.mem_insert.mp h with rfl | hmem
      · exact Or.inr ⟨rfl, rfl⟩
      · exact Or.inl hmem
  | notifyOne w => cases w <;> exact Or.inl h
  | _ => exact Or.inl h

theorem Event.terminated_mono {t u : Tid n m} {g : Shared τ n m}
    (e : Event τ n m) (h : u ∈ g.terminated) :
    u ∈ (e.effect t g).terminated := by
  cases e with
  | terminate => exact Finset.mem_insert_of_mem h
  | notifyOne w => cases w <;> exact h
  | _ => exact h

section

variable [DecidableEq τ] {ok : Pool.StepRule τ n m} {c : Pool τ n m}

theorem Pool.left_terminated (h : Reachable ok c) {t : Tid n m}
    (hpc : c.loc t = .left) : t ∈ c.shared.terminated := by
  refine Reach.forall_thread
    (P := fun t g pc => pc = .left → t ∈ g.terminated)
    (fun t ht => by cases t <;> cases ht) ?_ ?_ h t hpc
  · intro c t e g pc' _ _ hstep hpc'
    obtain ⟨hedge, -, rfl⟩ := poolStep_edge hstep
    subst hpc'
    obtain rfl := hedge.to_left
    exact Finset.mem_insert_self _ _
  · intro c t e g pc' u _ hP _ hstep hpc
    obtain ⟨-, -, rfl⟩ := poolStep_edge hstep
    exact e.terminated_mono (hP u hpc)

/-- Who has returned stays where it is. -/
theorem Pool.terminated_left (h : Reachable ok c) {t : Tid n m}
    (ht : t ∈ c.shared.terminated) : c.loc t = .left := by
  refine Reach.forall_thread
    (P := fun t g pc => t ∈ g.terminated → pc = .left)
    (fun t ht => absurd ht (Finset.notMem_empty t)) ?_ ?_ h t ht
  · intro c t e g pc' _ hP hstep ht
    obtain ⟨hedge, -, rfl⟩ := poolStep_edge hstep
    rcases Event.mem_effect_terminated ht with hold | ⟨-, rfl⟩
    · rw [hP t hold] at hedge
      cases hedge
    · exact hedge.terminate_left
  · intro c t e g pc' u _ hP hu hstep hmem
    obtain ⟨-, -, rfl⟩ := poolStep_edge hstep
    rcases Event.mem_effect_terminated hmem with hold | ⟨heq, -⟩
    · exact hP u hold
    · exact absurd heq hu

theorem Pool.joining_le (h : Reachable ok c) {t : Tid n m} {k : ℕ}
    (hpc : c.loc t = .joining k) : k ≤ n := by
  refine Reach.forall_thread
    (P := fun _ _ pc => ∀ k, pc = .joining k → k ≤ n)
    (fun t k ht => by cases t <;> cases ht) ?_ ?_ h t k hpc
  · intro c t e g pc' _ _ hstep k hpc'
    obtain ⟨hedge, -, -⟩ := poolStep_edge hstep
    subst hpc'
    exact hedge.to_joining
  · intro c t e g pc' u _ hP _ _
    exact hP u

end

/-! ## At rest -/

section

variable [DecidableEq τ]

/-- No thread can take a step by itself. -/
def Pool.Stuck (c : Pool τ n m) : Prop :=
  ∀ t e, e.outside = false → poolStep t c.shared (c.loc t) e = none

theorem Pool.Stuck.waits {c : Pool τ n m} (hstuck : c.Stuck) (t : Tid n m) :
    (c.loc t).waits t c.shared := by
  rcases (c.loc t).waits_or_goes (t := t) (g := c.shared) with
    hwait | ⟨e, pc', hedge, henabled, hout⟩
  · exact hwait
  · have hnone := hstuck t e hout
    simp [poolStep, hedge.next, henabled] at hnone

/-- Where the threads of a pool are in which nobody can go on. -/
structure Pool.AtRest (c : Pool τ n m) : Prop where
  free : ∀ x, c.shared.owner x = none
  client : ∀ j, c.loc (.client j) = .idle
  worker : ∀ i, (c.loc (.worker i) = .waiting ∧ .worker i ∈ c.shared.waiters) ∨
    c.loc (.worker i) = .left
  closer : c.loc .closer = .storeStop ∨
    (c.loc .closer = .waitWaiting ∧ .closer ∈ c.shared.waiters) ∨
    (∃ i : Fin n, c.loc .closer = .joining i.val ∧
      c.loc (.worker i) = .waiting ∧ .worker i ∈ c.shared.waiters) ∨
    c.loc .closer = .joining n

section

variable {ok : Pool.StepRule τ n m} {c : Pool τ n m}

/-- Where only waiting threads are, the mutexes are free. -/
theorem Pool.owner_free (h : Reachable ok c) {x : Mutex}
    (hwait : ∀ t, (c.loc t).waits t c.shared ∨ (c.loc t).holds x = false) :
    c.shared.owner x = none := by
  by_contra howned
  obtain ⟨t, ht⟩ := Option.ne_none_iff_exists'.mp howned
  have hholds := (Pool.owner_iff h x t).mp ht
  rcases hwait t with hwait | hfree
  · rw [Pc.holds_of_waits hwait (Pool.never_undefined h t) x] at hholds
    cases hholds
  · rw [hfree] at hholds
    cases hholds

theorem Pool.worker_rest (h : Reachable ok c)
    (hfree : ∀ x, c.shared.owner x = none) {i : Fin n}
    (hwait : (c.loc (.worker i)).waits (.worker i) c.shared) :
    (c.loc (.worker i) = .waiting ∧ .worker i ∈ c.shared.waiters) ∨
      c.loc (.worker i) = .left := by
  have hrole := Pool.role h (.worker i)
  have hdefined := Pool.never_undefined h (.worker i)
  generalize c.loc (.worker i) = pc at hwait hrole hdefined ⊢
  cases pc with
  | waiting => exact Or.inl ⟨rfl, hwait⟩
  | left => exact Or.inr rfl
  | undefined => exact absurd rfl hdefined
  | lockTasks => exact absurd (hfree _) hwait
  | relock => exact absurd (hfree _) hwait
  | lockCount => exact absurd (hfree _) hwait
  | runningSubmit _ s => exact absurd (hfree _) hwait.2
  | _ => first | exact hwait.elim | cases hrole

theorem Pool.client_rest (h : Reachable ok c)
    (hfree : ∀ x, c.shared.owner x = none) {j : Fin m}
    (hwait : (c.loc (.client j)).waits (.client j) c.shared) :
    c.loc (.client j) = .idle := by
  have hrole := Pool.role h (.client j)
  generalize c.loc (.client j) = pc at hwait hrole ⊢
  cases pc with
  | idle => rfl
  | submit s => exact absurd (hfree _) hwait.2
  | _ => cases hrole

end

theorem Pool.Stuck.at_rest {ok : StepRule τ n m} {c : Pool τ n m}
    (h : Reachable ok c) (hstuck : c.Stuck) : c.AtRest := by
  have hfree : ∀ x, c.shared.owner x = none :=
    fun x => Pool.owner_free h fun t => Or.inl (hstuck.waits t)
  have hworker := fun i => Pool.worker_rest h hfree (hstuck.waits (.worker i))
  refine ⟨hfree, fun j => Pool.client_rest h hfree (hstuck.waits _), hworker, ?_⟩
  have hwait := hstuck.waits .closer
  have hrole := Pool.role h .closer
  have hle := fun k => Pool.joining_le (k := k) h (t := .closer)
  generalize c.loc .closer = pc at hwait hrole hle ⊢
  cases pc with
  | storeStop => exact Or.inl rfl
  | waitWaiting => exact Or.inr (Or.inl ⟨rfl, hwait⟩)
  | waitLock => exact absurd (hfree _) hwait
  | waitRelock _ => exact absurd (hfree _) hwait
  | joining k =>
      right
      right
      rcases Nat.eq_or_lt_of_le (hle k rfl) with rfl | hlt
      · exact Or.inr rfl
      · left
        refine ⟨⟨k, hlt⟩, rfl, ?_⟩
        rcases hworker ⟨k, hlt⟩ with hsleep | hleft
        · exact hsleep
        · exact absurd (Pool.left_terminated h hleft) (hwait ⟨k, hlt⟩ rfl)
  | _ => first | exact hwait.elim | cases hrole

theorem Pool.AtRest.stuck {ok : StepRule τ n m} {c : Pool τ n m}
    (h : Reachable ok c) (hrest : c.AtRest) : c.Stuck := by
  intro t e hout
  cases hstep : poolStep t c.shared (c.loc t) e with
  | none => rfl
  | some r =>
      obtain ⟨g', pc'⟩ := r
      obtain ⟨hedge, henabled, -⟩ := poolStep_edge hstep
      cases t with
      | worker i =>
          rcases hrest.worker i with ⟨hpc, hmem⟩ | hpc
          · rw [hpc] at hedge
            cases hedge with
            | woken => exact absurd hmem (of_decide_eq_true henabled)
            | spurious => cases hout
          · rw [hpc] at hedge
            cases hedge
      | client j =>
          rw [hrest.client j] at hedge
          obtain ⟨path, x, rfl⟩ := hedge.from_idle
          cases hout
      | closer =>
          rcases hrest.closer with hpc | ⟨hpc, hmem⟩ | ⟨i, hpc, hsleep, -⟩ | hpc
          · rw [hpc] at hedge
            cases hedge
            cases hout
          · rw [hpc] at hedge
            rcases hedge.from_waitWaiting with rfl | rfl | rfl
            · exact absurd hmem (of_decide_eq_true henabled)
            · cases hout
            · cases hout
          · rw [hpc] at hedge
            obtain ⟨k, hk, rfl⟩ := hedge.from_joining
            obtain rfl : k = i := Fin.ext hk
            rw [Pool.terminated_left h (of_decide_eq_true henabled)] at hsleep
            cases hsleep
          · rw [hpc] at hedge
            obtain ⟨k, hk, -⟩ := hedge.from_joining
            exact absurd hk (Nat.ne_of_lt k.isLt)

/-- **A pool that hangs, hangs in the condition variable.** No thread can go
on in exactly the states in which no mutex is taken, no submission is under
way, every worker sleeps or has left, and the closing call has not begun, or
sleeps, or joins a worker that sleeps, or has joined all. -/
theorem Pool.stuck_iff {c : Pool τ n m} (h : Reachable anyStep c) :
    c.Stuck ↔ c.AtRest :=
  ⟨Pool.Stuck.at_rest h, Pool.AtRest.stuck h⟩

/-- A submission whose notification is lost: nobody can go on, and the task
stays queued. -/
theorem Pool.stuck_iff_lost : ∃ c : Pool Unit 1 1,
    c.shared.tasks = [()] ∧ c.Stuck := by
  have hreach : ∀ c, runSteps poolStep anyStep (Pool.init Unit 1 1) lostTaskRun
      = some c → Reachable anyStep c := fun _ h => Reach.runSteps .start h
  refine ⟨_, rfl, (Pool.stuck_iff (hreach _ rfl)).mpr ⟨?_, ?_, ?_, Or.inl rfl⟩⟩
  · intro x
    cases x <;> rfl
  · intro j
    rw [Fin.fin_one_eq_zero j]
    rfl
  · intro i
    rw [Fin.fin_one_eq_zero i]
    exact Or.inl ⟨rfl, by decide⟩

end

/-! ## What the closing call still waits for -/

/-- Between the accounting of a worker and the notification it owes. -/
def Pc.settling : Pc τ → Bool
  | .postCount => true
  | .postEmpty => true
  | .notifyAll => true
  | _ => false

/-- Only the accounting of a worker takes a task off the pending ones. -/
theorem Edge.pending [DecidableEq τ] {pc pc' : Pc τ} {e : Event τ n m}
    {t : Tid n m} {g : Shared τ n m} (h : Edge pc e pc')
    (henabled : e.enabled t g = true) : pc' = .postCount ∨
      g.tasks.length + pc.inFlight.toNat ≤
        (e.effect t g).tasks.length + pc'.inFlight.toNat := by
  cases h with
  | decrement => exact Or.inl rfl
  | guardFails => exact Or.inl rfl
  | popFront x =>
      right
      have hne : g.tasks ≠ [] := by simpa [Event.enabled] using henabled
      have hpos := List.length_pos_iff.mpr hne
      simp only [Event.effect, List.length_tail, Pc.inFlight, Bool.toNat_false,
        Bool.toNat_true]
      omega
  | taskSubmit x y path h =>
      right
      cases h with
      | push =>
          simp only [Event.effect, List.length_append, Pc.inFlight]
          omega
      | _ => exact Nat.le_refl _
  | taskReturn x y path h =>
      right
      cases h with
      | notify u => cases u <;> exact Nat.le_refl _
  | submit y path h =>
      right
      cases h with
      | push =>
          simp only [Event.effect, List.length_append, Pc.inFlight]
          omega
      | _ => exact Nat.le_refl _
  | «return» y path h =>
      right
      cases h with
      | notify u => cases u <;> exact Nat.le_refl _
  | _ => exact Or.inr (Nat.le_refl _)

theorem Edge.to_postCount {pc : Pc τ} {e : Event τ n m}
    (h : Edge pc e .postCount) : pc.holds .countMutex = true := by
  cases h <;> rfl

theorem Edge.to_waitBlock {pc : Pc τ} {e : Event τ n m}
    (h : Edge pc e .waitBlock) : e = .countZero false ∨ e = .tasksEmpty false := by
  cases h with
  | waitNonzero => exact Or.inl rfl
  | waitFilled => exact Or.inr rfl

/-- A worker owes its notification until it makes it, or until it has seen
that tasks are pending. -/
theorem Edge.settling {pc pc' : Pc τ} {e : Event τ n m} (h : Edge pc e pc')
    (hpc : pc.settling = true) : pc'.settling = true ∨ e = .notifyAll ∨
      e = .countZero false ∨ e = .tasksEmpty false := by
  cases h with
  | postZero => exact Or.inl rfl
  | postNonzero => exact Or.inr (Or.inr (Or.inl rfl))
  | postEmpty => exact Or.inl rfl
  | postFilled => exact Or.inr (Or.inr (Or.inr rfl))
  | notifyAll => exact Or.inr (Or.inl rfl)
  | _ => cases hpc

theorem Edge.to_closer_block {pc pc' : Pc τ} {x : Mutex}
    (h : Edge pc (.block x : Event τ n m) pc') (hrole : pc.role = .closer) :
    pc = .waitBlock := by
  cases h with
  | block => cases hrole
  | waitBlock => rfl
  | taskSubmit _ _ _ h => cases h
  | taskReturn _ _ _ h => cases h
  | submit _ _ h => cases h
  | «return» _ _ h => cases h

/-- While the closing call is about to sleep or sleeps, something that will
wake it is under way. -/
structure Pool.Owed (c : Pool τ n m) : Prop where
  block : c.loc .closer = .waitBlock → 0 < c.pending
  wait : .closer ∈ c.shared.waiters →
    0 < c.pending ∨ ∃ t, (c.loc t).settling = true

section

variable [DecidableEq τ] {ok : Pool.StepRule τ n m}

theorem Pool.pending_step {c : Pool τ n m} {t : Tid n m} {e : Event τ n m}
    {pc' : Pc τ} (hedge : Edge (c.loc t) e pc')
    (henabled : e.enabled t c.shared = true) : pc' = .postCount ∨
      c.pending ≤ Pool.pending
        ⟨e.effect t c.shared, Function.update c.loc t pc'⟩ := by
  rcases hedge.pending henabled with hpost | hle
  · exact Or.inl hpost
  · right
    have hsum := sum_update (fun pc => (Pc.inFlight pc).toNat) c.loc t pc'
    unfold Pool.pending Pool.inFlight
    dsimp only
    omega

/-- Who has seen the counter above zero or the queue filled has seen a pending
task. -/
theorem Pool.Accounts.pending_pos {c : Pool τ n m} (hacc : c.Accounts)
    {t : Tid n m} {e : Event τ n m} (henabled : e.enabled t c.shared = true)
    (he : e = .countZero false ∨ e = .tasksEmpty false) : 0 < c.pending := by
  rcases he with rfl | rfl
  · have hne : c.shared.threadRurinngCount ≠ 0 := by
      simpa [Event.enabled] using henabled
    have hcount := hacc.count_add_pushing
    have hnonneg := hacc.nonneg
    omega
  · have hne : c.shared.tasks ≠ [] := by
      intro hempty
      simp [Event.enabled, hempty] at henabled
    have hpos := List.length_pos_iff.mpr hne
    unfold Pool.pending
    omega

theorem Pool.owed {c : Pool τ n m}
    (hok : ∀ c t e c', ok c t e c' → withinInt c t e c')
    (h : Reachable ok c) : c.Owed := by
  refine Reach.invariant (I := Pool.Owed) ?_ ?_ h
  · exact ⟨fun hpc => (by cases hpc), fun hmem => absurd hmem (Finset.notMem_empty _)⟩
  · intro c t e g pc' hc hI _ hstep
    obtain ⟨hedge, henabled, rfl⟩ := poolStep_edge hstep
    have hacc : Pool.Accounts c := Pool.accounts hok hc
    have hpending := Pool.pending_step hedge henabled
    by_cases ht : t = .closer
    · subst ht
      have hrole := Pool.role hc .closer
      refine ⟨fun hpc' => ?_, fun hmem => Or.inl ?_⟩
      · simp only [Function.update_self] at hpc'
        subst hpc'
        have hle := hpending.resolve_left fun hpost => by cases hpost
        have hpos := hacc.pending_pos henabled hedge.to_waitBlock
        exact Nat.lt_of_lt_of_le hpos hle
      · rcases Event.mem_effect_waiters hmem with hold | ⟨-, x, rfl⟩
        · -- a sleeping thread only moves by leaving the wait set
          have hpc : c.loc .closer = .waitWaiting := by
            have hasleep := Pool.asleep hc hold
            generalize c.loc .closer = pc at hasleep hrole
            cases pc with
            | waiting => cases hrole
            | waitWaiting => rfl
            | _ => cases hasleep
          rw [hpc] at hedge
          rcases hedge.from_waitWaiting with rfl | rfl | rfl
          · exact absurd hold (of_decide_eq_true henabled)
          · exact absurd rfl (Finset.ne_of_mem_erase hmem)
          · exact absurd rfl (Finset.ne_of_mem_erase hmem)
        · have hpc := hedge.to_closer_block hrole
          have hpos := hI.block hpc
          rw [hpc] at hedge
          cases hedge
          have hle := hpending.resolve_left fun hpost => by cases hpost
          exact Nat.lt_of_lt_of_le hpos hle
    · refine ⟨fun hpc => ?_, fun hmem => ?_⟩
      · simp only [Function.update_of_ne (Ne.symm ht)] at hpc
        have hpos := hI.block hpc
        rcases hpending with rfl | hle
        · -- the accounting needs the mutex that the closing call holds
          exact absurd (Pool.exclusive hc (x := .countMutex) hedge.to_postCount
            (by rw [hpc]; rfl)) ht
        · exact Nat.lt_of_lt_of_le hpos hle
      · have hold : .closer ∈ c.shared.waiters := by
          rcases Event.mem_effect_waiters hmem with hold | ⟨heq, -⟩
          · exact hold
          · exact absurd heq.symm ht
        have hkeep : 0 < Pool.pending c → 0 < Pool.pending
            ⟨e.effect t c.shared, Function.update c.loc t pc'⟩ ∨
            ∃ u, (Function.update c.loc t pc' u).settling = true := by
          intro hpos
          rcases hpending with rfl | hle
          · exact Or.inr ⟨t, by rw [Function.update_self]; rfl⟩
          · exact Or.inl (Nat.lt_of_lt_of_le hpos hle)
        rcases hI.wait hold with hpos | ⟨u, hu⟩
        · exact hkeep hpos
        · by_cases hut : u = t
          · subst hut
            rcases hedge.settling hu with hstill | rfl | hseen
            · exact Or.inr ⟨u, by simpa using hstill⟩
            · exact absurd hmem (Finset.notMem_empty _)
            · exact hkeep (hacc.pending_pos henabled hseen)
          · exact Or.inr ⟨u, by simpa [hut] using hu⟩

end

/-! ## Where no wake-up is lost -/

namespace Pool

/-- The runs in which no notification falls between a worker's predicate and
its wait, the outside submissions have returned before the closing call, and
the pending tasks stay inside `int`. -/
def orderly : StepRule τ n m := fun c t e c' =>
  notifiesAwake c t e c' ∧ closedBySubmitters c t e c' ∧ withinInt c t e c'

/-- Nothing is left to do. -/
structure Finished (c : Pool τ n m) : Prop where
  tasks : c.shared.tasks = []
  ran : c.shared.ran.Perm c.shared.pushed
  count : c.shared.threadRurinngCount = 0
  /-- The workers sleep, or they have left and the closing call has joined
  them all. -/
  threads : (c.loc .closer = .storeStop ∧
      ∀ i, c.loc (.worker i) = .waiting ∧ .worker i ∈ c.shared.waiters) ∨
    (c.loc .closer = .joining n ∧ ∀ i, c.loc (.worker i) = .left)

end Pool

/-- Nobody carries a task, and nobody's count is outstanding. -/
theorem Pool.AtRest.quiet {c : Pool τ n m} (hrest : c.AtRest) (t : Tid n m) :
    (c.loc t).carried = 0 ∧ (c.loc t).inFlight = false ∧ (c.loc t).lead = 0 ∧
      (c.loc t).settling = false ∧ (c.loc t).notifying = false := by
  have hquiet : ∀ pc : Pc τ, pc = .idle ∨ pc = .waiting ∨ pc = .left ∨
      pc = .storeStop ∨ pc = .waitWaiting ∨ (∃ k, pc = .joining k) →
      pc.carried = 0 ∧ pc.inFlight = false ∧ pc.lead = 0 ∧
        pc.settling = false ∧ pc.notifying = false := by
    rintro pc (rfl | rfl | rfl | rfl | rfl | ⟨k, rfl⟩) <;>
      exact ⟨rfl, rfl, rfl, rfl, rfl⟩
  apply hquiet
  cases t with
  | worker i =>
      rcases hrest.worker i with ⟨hpc, -⟩ | hpc
      · exact Or.inr (Or.inl hpc)
      · exact Or.inr (Or.inr (Or.inl hpc))
  | client j => exact Or.inl (hrest.client j)
  | closer =>
      rcases hrest.closer with hpc | ⟨hpc, -⟩ | ⟨i, hpc, -⟩ | hpc
      · exact Or.inr (Or.inr (Or.inr (Or.inl hpc)))
      · exact Or.inr (Or.inr (Or.inr (Or.inr (Or.inl hpc))))
      · exact Or.inr (Or.inr (Or.inr (Or.inr (Or.inr ⟨_, hpc⟩))))
      · exact Or.inr (Or.inr (Or.inr (Or.inr (Or.inr ⟨_, hpc⟩))))

section

variable [DecidableEq τ] {c : Pool τ n m}

/-- Where the queue is empty and nobody carries a task, what was pushed has
returned. -/
theorem Pool.ran_of_quiet {ok : StepRule τ n m} (h : Reachable ok c)
    (hempty : c.shared.tasks = []) (hcarried : ∀ t, (c.loc t).carried = 0) :
    c.shared.ran.Perm c.shared.pushed := by
  have hpopped := Pool.popped_eq h
  have hpushed := Pool.pushed_eq h
  rw [hempty, List.append_nil] at hpushed
  rw [Finset.sum_eq_zero fun t _ => hcarried t, add_zero,
    Multiset.coe_eq_coe] at hpopped
  rw [hpushed]
  exact hpopped.symm

/-- A closing call does not sleep for ever. -/
theorem Pool.closer_awake (hn : 0 < n) (h : Reachable orderly c)
    (hrest : c.AtRest) (hissued : (c.loc .closer).beforeNotifyAll = false) :
    c.loc .closer = .joining n ∧ ∀ i, c.loc (.worker i) = .left := by
  have hawake : Reachable notifiesAwake c := h.mono fun _ _ _ _ hok => hok.1
  have hleft : ∀ i, c.loc (.worker i) = .left := by
    intro i
    rcases hrest.worker i with ⟨-, hmem⟩ | hleft
    · exact absurd hmem (Pool.stopped_awake hawake hissued i).1
    · exact hleft
  refine ⟨?_, hleft⟩
  rcases hrest.closer with hpc | ⟨-, hmem⟩ | ⟨i, -, hpc, -⟩ | hpc
  · rw [hpc] at hissued
    cases hissued
  · -- all workers have left, so nothing is pending and nothing is owed
    have hempty := Pool.left_tasks hn (fun _ _ _ _ hok => hok.2.1) h
      fun i => by rw [hleft i]; rfl
    rcases (Pool.owed (fun _ _ _ _ hok => hok.2.2) h).wait hmem with
      hpos | ⟨t, ht⟩
    · have hflight : c.inFlight = 0 := by
        refine Finset.sum_eq_zero fun t _ => ?_
        rw [(hrest.quiet t).2.1]
        rfl
      unfold Pool.pending at hpos
      rw [hempty, hflight] at hpos
      cases hpos
    · rw [(hrest.quiet t).2.2.2.1] at ht
      cases ht
  · rw [hleft i] at hpc
    cases hpc
  · exact hpc

/-- **A pool at rest is finished.** In every run in which no wake-up can be
lost, a state in which no thread can go on has an empty queue, every submitted
task has been run once, and a closing call that has begun has joined all
workers. -/
theorem Pool.finished {c : Pool τ n m} (hn : 0 < n) (h : Reachable orderly c)
    (hstuck : c.Stuck) : c.Finished := by
  have hrest := hstuck.at_rest h
  have hawake : Reachable notifiesAwake c := h.mono fun _ _ _ _ hok => hok.1
  have hthreads : (c.loc .closer = .storeStop ∧
      ∀ i, c.loc (.worker i) = .waiting ∧ .worker i ∈ c.shared.waiters) ∨
      (c.loc .closer = .joining n ∧ ∀ i, c.loc (.worker i) = .left) := by
    rcases Pool.clients_idle (fun _ _ _ _ hok => hok.2.1) h with
      ⟨hpc, hopen⟩ | ⟨hpc, -⟩
    · refine Or.inl ⟨hpc, fun i => ?_⟩
      rcases hrest.worker i with hsleep | hleft
      · exact hsleep
      · -- nobody leaves before the closing call
        have hstop := (Pool.mayLeave h (.worker i)).stop
          (by rw [hleft]; rfl)
        rw [hopen] at hstop
        cases hstop
    · refine Or.inr (Pool.closer_awake hn h hrest ?_)
      rcases hrest.closer with hopen | ⟨hpc, -⟩ | ⟨i, hpc, -⟩ | hpc
      · exact absurd hopen hpc
      · rw [hpc]; rfl
      · rw [hpc]; rfl
      · rw [hpc]; rfl
  have hempty : c.shared.tasks = [] := by
    by_contra hne
    rcases hthreads with ⟨-, hsleep⟩ | ⟨-, hleft⟩
    · obtain ⟨i, hup, -⟩ := Pool.alert hn hawake hne fun t => (hrest.quiet t).2.2.2.2
      exact hup (hsleep i).2
    · exact hne (Pool.left_tasks hn (fun _ _ _ _ hok => hok.2.1) h
        fun i => by rw [hleft i]; rfl)
  refine ⟨hempty, ?_, ?_, hthreads⟩
  · exact Pool.ran_of_quiet h hempty fun t => (hrest.quiet t).1
  · have hbalance := (Pool.accounts (fun _ _ _ _ hok => hok.2.2) h).balance
    rw [Finset.sum_eq_zero fun t _ => (hrest.quiet t).2.2.1, hempty] at hbalance
    exact hbalance

end

instance (c c' : Pool τ n m) [DecidableEq τ] (t : Tid n m) (e : Event τ n m) :
    Decidable (Pool.orderly c t e c') :=
  inferInstanceAs (Decidable (Pool.notifiesAwake c t e c' ∧
    Pool.closedBySubmitters c t e c' ∧ Pool.withinInt c t e c'))

/-- One task, and a closing call that finds it done. -/
def closedRun : List (Tid 1 1 × Event Unit 1 1) :=
  servedRun () ++ [(.closer, .storeStop), (.closer, .notifyAll),
    (.closer, .lock .countMutex), (.closer, .countZero true),
    (.closer, .tasksEmpty true), (.closer, .unlock .countMutex)] ++
  leavingRun ++ [(.closer, .join onlyWorker)]

theorem Pool.finished_closed : ∃ c : Pool Unit 1 1,
    c.shared.ran = [()] ∧ c.loc .closer = .joining 1 ∧ c.Finished := by
  have hrun : (runSteps poolStep orderly (Pool.init Unit 1 1) closedRun).any
      (fun c => decide (c.shared.owner .tasksMutex = none) &&
        decide (c.shared.owner .countMutex = none) &&
        decide (c.loc (.client 0) = .idle) &&
        decide (c.loc (.worker 0) = .left) &&
        decide (c.loc .closer = .joining 1) &&
        decide (c.shared.ran = [()])) = true := by
    decide +kernel
  obtain ⟨c, hreach, hend⟩ := Reach.run_any .start hrun
  simp only [Bool.and_eq_true, decide_eq_true_eq] at hend
  obtain ⟨⟨⟨⟨⟨htasks, hcount⟩, hclient⟩, hworker⟩, hcloser⟩, hran⟩ := hend
  have hrest : Pool.AtRest c := by
    refine ⟨fun x => ?_, fun j => ?_, fun i => ?_, ?_⟩
    · cases x
      · exact htasks
      · exact hcount
    · rw [Fin.fin_one_eq_zero j]
      exact hclient
    · rw [Fin.fin_one_eq_zero i]
      exact Or.inr hworker
    · exact Or.inr (Or.inr (Or.inr hcloser))
  exact ⟨c, hran, hcloser,
    Pool.finished Nat.one_pos hreach (hrest.stuck hreach)⟩

end Mtasc
