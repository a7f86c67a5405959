import Mtasc.Thread.Wakeup

/-!
# The pool comes to rest

How many steps a run of the pool can have. Each place in the code has a price,
the number of steps to the next place where its thread waits; a queued task and
a sleeping thread have one too, which whoever pushes or notifies has paid. So
every step uses something up, and only a submission from outside, a wake-up
without a notification and the clock bring anything new.

Two rows would break the account: the way from `exitStop` back to the queue and
the `continue` of the worker. Neither is ever taken: the predicate has let the
worker through, and meanwhile it holds the mutex.
-/

namespace Mtasc

open Lib

variable {τ : Type} {n m : ℕ}

/-! ## The branch that is never taken -/

theorem Edge.to_contEmpty {pc : Pc τ} {e : Event τ n m}
    (h : Edge pc e .contEmpty) : e = .tasksEmpty false ∨
      (pc = .exitStop ∧ e = .loadStop false) := by
  cases h with
  | exitFilled => exact Or.inl rfl
  | exitFalse => exact Or.inr ⟨rfl, rfl⟩

theorem Edge.to_unlockContinue {pc : Pc τ} {e : Event τ n m}
    (h : Edge pc e .unlockContinue) :
    pc = .contEmpty ∧ e = .tasksEmpty true := by
  cases h
  exact ⟨rfl, rfl⟩

section

variable [DecidableEq τ]

/-- Who has come to the last test of the queue has seen `M_stop` set. -/
theorem Pool.exitStop_stopped {ok : StepRule τ n m} {c : Pool τ n m}
    (h : Reachable ok c) {t : Tid n m} (hpc : c.loc t = .exitStop) :
    c.shared.stop = true := by
  have hmay := Pool.mayLeave h t
  rw [hpc] at hmay
  exact hmay

/-- At the test of the `continue` the queue is not empty. -/
theorem Pool.contEmpty_filled {ok : StepRule τ n m} {c : Pool τ n m}
    (h : Reachable ok c) {t : Tid n m} (hpc : c.loc t = .contEmpty) :
    c.shared.tasks ≠ [] := by
  refine Reach.forall_thread
    (P := fun _ g pc => pc = .contEmpty → g.tasks ≠ [])
    (fun t ht => by cases t <;> cases ht) ?_ ?_ h t hpc
  · intro c t e g pc' hc _ hstep hpc'
    obtain ⟨hedge, henabled, rfl⟩ := poolStep_edge hstep
    subst hpc'
    rcases hedge.to_contEmpty with rfl | ⟨hexit, rfl⟩
    · intro hempty
      have htasks : c.shared.tasks = [] := hempty
      simp [Event.enabled, htasks] at henabled
    · have hstop := Pool.exitStop_stopped hc hexit
      simp [Event.enabled, hstop] at henabled
  · intro c t e g pc' u hc hP hu hstep hpc
    obtain ⟨hedge, -, rfl⟩ := poolStep_edge hstep
    rcases Event.effect_tasks t c.shared e with heq | ⟨x, -, heq⟩ | ⟨x, rfl, -⟩
    · rw [heq]
      exact hP u hpc
    · rw [heq]
      simp
    · -- a pop needs the mutex that the worker holds
      exact absurd (Pool.exclusive hc (x := .tasksMutex) (by rw [hpc]; rfl)
        hedge.popFront_holds.2) hu

/-- **The `continue` of the worker loop is dead code.** -/
theorem Pool.never_continue {ok : StepRule τ n m} {c : Pool τ n m}
    (h : Reachable ok c) (t : Tid n m) : c.loc t ≠ .unlockContinue := by
  refine Reach.forall_thread (P := fun _ _ pc => pc ≠ .unlockContinue)
    (fun t ht => by cases t <;> cases ht) ?_ ?_ h t
  · intro c t e g pc' hc _ hstep hpc'
    obtain ⟨hedge, henabled, -⟩ := poolStep_edge hstep
    subst hpc'
    obtain ⟨hpc, rfl⟩ := hedge.to_unlockContinue
    exact Pool.contEmpty_filled hc hpc
      (List.isEmpty_iff.mp (beq_iff_eq.mp henabled))
  · intro c t e g pc' u _ hP _ _
    exact hP u

end

/-! ## Prices -/

/-- What a queued task costs: a round of the worker that takes it, with a
`notify_all` that wakes everybody. -/
def taskCost (n : ℕ) : ℤ := 8 * (n + 1) + 16

def Stage.cost (n : ℕ) : Stage → ℤ
  | .lock => taskCost n + 13
  | .push => taskCost n + 12
  | .increment => 11
  | .unlock => 10
  | .notify => 9

/-- The price of a place. A thread in the wait set gets the price of a wake-up
back. -/
def Pc.cost (n : ℕ) : Pc τ → ℤ
  | .lockTasks => 7
  | .predEmpty => 6
  | .predStop => 5
  | .block => 1
  | .waiting => 8
  | .relock => 7
  | .exitEmpty => 4
  | .exitStop => 3
  | .unlockBreak => 2
  | .leaving => 1
  | .left => 0
  | .contEmpty => 3
  | .unlockContinue => 8
  | .front => 2
  | .popFront _ => 1
  | .unlockTask _ => 8 * (n + 1) + 16
  | .running _ => 8 * (n + 1) + 15
  | .runningSubmit _ s => 8 * (n + 1) + 15 + s.stage.cost n
  | .lockCount => 8 * (n + 1) + 14
  | .guard => 8 * (n + 1) + 13
  | .decrement => 8 * (n + 1) + 12
  | .postCount => 8 * (n + 1) + 11
  | .postEmpty => 8 * (n + 1) + 10
  | .notifyAll => 8 * (n + 1) + 9
  | .unlockCount => 8
  | .idle => 0
  | .submit s => s.stage.cost n
  | .storeStop => 8 * (n + 1) + n + 7
  | .stopNotify => 8 * (n + 1) + n + 6
  | .waitLock => n + 5
  | .waitCount _ => n + 4
  | .waitEmpty _ => n + 3
  | .waitBlock => n + 2
  | .waitWaiting => n + 9
  | .waitRelock _ => n + 5
  | .waitUnlock => n + 1
  | .joining k => (n - k : ℕ)
  | .undefined => 0

/-- What a step brings from outside. -/
def Event.gain : Event τ n m → ℤ
  | .call _ _ => 8 * n + 38
  | .spurious => 8
  | .timeout => 8
  | _ => 0

/-- What an operation adds to the price of the queue. -/
def Event.queueChange : Event τ n m → ℤ
  | .pushBack _ => taskCost n
  | .popFront _ => -taskCost n
  | _ => 0

/-- How many threads an operation can take out of the wait set. -/
def Event.wakes : Event τ n m → ℤ
  | .notifyAll => n + 1
  | .notifyOne _ => 1
  | .spurious => 1
  | .timeout => 1
  | .block _ => -1
  | _ => 0

theorem SubmissionEdge.cost {path : Path} {x : τ} {stage : Stage}
    {e : Event τ n m} {o : Option Stage} (h : SubmissionEdge path x stage e o) :
    o.elim 0 (Stage.cost n) + e.queueChange + 8 * e.wakes + 1 ≤
      stage.cost n + e.gain := by
  cases h <;>
    simp only [Option.elim, Stage.cost, Event.queueChange, Event.wakes,
      Event.gain] <;> omega

/-- **Every row pays for what it does**, unless it is one that is never
taken. -/
theorem Edge.cost {pc pc' : Pc τ} {e : Event τ n m} (h : Edge pc e pc')
    (hexit : pc = .exitStop → e ≠ .loadStop false)
    (hcont : pc = .contEmpty → e ≠ .tasksEmpty true) :
    pc'.cost n + e.queueChange + 8 * e.wakes + 1 ≤ pc.cost n + e.gain := by
  cases h with
  | exitFalse => exact absurd rfl (hexit rfl)
  | contEmpty => exact absurd rfl (hcont rfl)
  | taskSubmit x y path h =>
      have hcost := h.cost
      simp only [Option.elim] at hcost
      simp only [Pc.cost]
      omega
  | taskReturn x y path h =>
      have hcost := h.cost
      simp only [Option.elim] at hcost
      simp only [Pc.cost]
      omega
  | submit y path h => exact h.cost
  | «return» y path h => exact h.cost
  | join i =>
      have hi := i.isLt
      simp only [Pc.cost, Event.queueChange, Event.wakes, Event.gain]
      omega
  | _ =>
      simp only [Pc.cost, Stage.cost, taskCost, Event.queueChange, Event.wakes,
        Event.gain]
      omega

theorem Stage.cost_nonneg (stage : Stage) : 0 ≤ stage.cost n := by
  cases stage <;> simp only [Stage.cost, taskCost] <;> omega

theorem Pc.cost_nonneg (pc : Pc τ) : 0 ≤ pc.cost n := by
  cases pc with
  | submit s => exact s.stage.cost_nonneg
  | runningSubmit x s =>
      have hstage := s.stage.cost_nonneg (n := n)
      simp only [Pc.cost]
      omega
  | _ =>
      simp only [Pc.cost]
      omega

theorem Pc.cost_asleep {pc : Pc τ} (h : pc.asleep = true) :
    8 ≤ pc.cost n := by
  cases pc with
  | waiting => exact Int.le_refl 8
  | waitWaiting =>
      simp only [Pc.cost]
      omega
  | _ => cases h

/-! ## The account -/

theorem Event.effect_queue [DecidableEq τ] {t : Tid n m} {g : Shared τ n m} {e : Event τ n m}
    (h : e.enabled t g = true) :
    taskCost n * (e.effect t g).tasks.length =
      taskCost n * g.tasks.length + e.queueChange := by
  cases e with
  | pushBack x =>
      simp only [Event.effect, Event.queueChange, List.length_append,
        List.length_singleton, Nat.cast_succ]
      ring
  | popFront x =>
      have hne : g.tasks ≠ [] := by simpa [Event.enabled] using h
      obtain ⟨y, rest, htasks⟩ := List.exists_cons_of_ne_nil hne
      simp only [Event.effect, Event.queueChange, htasks, List.tail_cons,
        List.length_cons, Nat.cast_succ]
      ring
  | notifyOne u => cases u <;> exact (Int.add_zero _).symm
  | _ => exact (Int.add_zero _).symm

theorem Event.effect_waiters {t : Tid n m} {g : Shared τ n m}
    {e : Event τ n m} (hall : g.waiters.card ≤ n + 1)
    (hout : ∀ x, e = .block x → t ∉ g.waiters) :
    (g.waiters.card : ℤ) ≤ (e.effect t g).waiters.card + e.wakes := by
  cases e with
  | block x =>
      simp only [Event.effect, Event.wakes,
        Finset.card_insert_of_notMem (hout x rfl)]
      omega
  | notifyAll =>
      simp only [Event.effect, Event.wakes, Finset.card_empty]
      omega
  | notifyOne u =>
      cases u with
      | none =>
          simp only [Event.effect, Event.wakes]
          omega
      | some u =>
          have hcard := Finset.pred_card_le_card_erase (s := g.waiters) (a := u)
          simp only [Event.effect, Event.wakes]
          omega
  | spurious =>
      have hcard := Finset.pred_card_le_card_erase (s := g.waiters) (a := t)
      simp only [Event.effect, Event.wakes]
      omega
  | timeout =>
      have hcard := Finset.pred_card_le_card_erase (s := g.waiters) (a := t)
      simp only [Event.effect, Event.wakes]
      omega
  | _ => exact Int.le_of_eq (Int.add_zero _).symm

/-- A wait that ends without a notification. -/
def Event.isWakeup : Event τ n m → Bool
  | .spurious => true
  | .timeout => true
  | _ => false

theorem Event.sum_gain (acts : List (Tid n m × Event τ n m)) :
    (acts.map fun x => x.2.gain).sum =
      (8 * n + 38) * acts.countP (fun x => x.2.isCall) +
        8 * acts.countP (fun x => x.2.isWakeup) := by
  induction acts with
  | nil => rfl
  | cons x acts ih =>
      obtain ⟨t, e⟩ := x
      rw [List.map_cons, List.sum_cons, ih, List.countP_cons, List.countP_cons]
      cases e with
      | call path y =>
          simp only [Event.gain, Event.isCall, Event.isWakeup, if_true,
            Bool.false_eq_true, if_false]
          push_cast
          ring
      | spurious =>
          simp only [Event.gain, Event.isCall, Event.isWakeup, if_true,
            Bool.false_eq_true, if_false]
          push_cast
          ring
      | timeout =>
          simp only [Event.gain, Event.isCall, Event.isWakeup, if_true,
            Bool.false_eq_true, if_false]
          push_cast
          ring
      | _ =>
          simp only [Event.gain, Event.isCall, Event.isWakeup,
            Bool.false_eq_true, if_false, Nat.add_zero]
          ring

/-- What the pool has left to use up. -/
def Pool.credit (c : Pool τ n m) : ℤ :=
  taskCost n * c.shared.tasks.length + ∑ t, (c.loc t).cost n -
    8 * c.shared.waiters.card

/-- A sum over the threads, by their roles. -/
theorem sum_tid (f : Tid n m → ℤ) :
    ∑ t, f t = (∑ i, f (.worker i)) + (∑ j, f (.client j)) + f .closer := by
  have hbijective : Function.Bijective
      (Sum.elim Tid.worker (Sum.elim Tid.client fun _ : Unit => Tid.closer) :
        Fin n ⊕ Fin m ⊕ Unit → Tid n m) := by
    constructor
    · rintro (i | j | u) (i' | j' | u') heq <;> cases heq <;> rfl
    · intro t
      cases t with
      | worker i => exact ⟨.inl i, rfl⟩
      | client j => exact ⟨.inr (.inl j), rfl⟩
      | closer => exact ⟨.inr (.inr ()), rfl⟩
  rw [← Fintype.sum_bijective _ hbijective _ f fun _ => rfl]
  simp only [Fintype.sum_sum_type, Fintype.sum_unique, Sum.elim_inl,
    Sum.elim_inr, add_assoc]

theorem Pool.credit_init : (Pool.init τ n m).credit = 16 * n + 15 := by
  unfold Pool.credit
  rw [sum_tid]
  simp only [Pool.init, Pc.cost, Finset.sum_const, Finset.card_univ,
    Fintype.card_fin, nsmul_eq_mul, List.length_nil, Finset.card_empty]
  push_cast
  ring

section

variable [DecidableEq τ] {ok : Pool.StepRule τ n m} {c : Pool τ n m}

/-- Only the workers and the closing thread are ever in the wait set. -/
theorem Pool.card_waiters_le (h : Reachable ok c) : c.shared.waiters.card ≤ n + 1 := by
  have hsub : c.shared.waiters ⊆
      insert .closer (Finset.univ.image (Tid.worker (n := n) (m := m))) := by
    intro t ht
    cases t with
    | worker i => simp
    | closer => simp
    | client j =>
        have hrole := Pool.role h (.client j)
        rcases Pc.asleep_role (Pool.asleep h ht) with hr | hr
        · rw [hrole] at hr
          cases hr
        · rw [hrole] at hr
          cases hr
  calc c.shared.waiters.card
      ≤ (insert .closer (Finset.univ.image (Tid.worker (n := n) (m := m)))).card :=
        Finset.card_le_card hsub
    _ ≤ (Finset.univ.image (Tid.worker (n := n) (m := m))).card + 1 :=
        Finset.card_insert_le _ _
    _ ≤ n + 1 := by
        have himage := Finset.card_image_le (s := Finset.univ)
          (f := Tid.worker (n := n) (m := m))
        rw [Finset.card_univ, Fintype.card_fin] at himage
        omega

/-- Who is on its way into the wait set is not in it. -/
theorem Pool.block_awake (h : Reachable ok c) {t : Tid n m} {x : Mutex} {pc' : Pc τ}
    (hedge : Edge (c.loc t) (.block x : Event τ n m) pc') :
    t ∉ c.shared.waiters := by
  intro hmem
  have hasleep := Pool.asleep h hmem
  generalize c.loc t = pc at hedge hasleep
  cases hedge with
  | taskSubmit _ _ _ h => cases h
  | taskReturn _ _ _ h => cases h
  | submit _ _ h => cases h
  | «return» _ _ h => cases h
  | _ => cases hasleep

theorem Pool.credit_nonneg (h : Reachable ok c) : 0 ≤ c.credit := by
  have hsleep : 8 * (c.shared.waiters.card : ℤ) ≤ ∑ t, (c.loc t).cost n :=
    calc 8 * (c.shared.waiters.card : ℤ)
        = ∑ _t ∈ c.shared.waiters, (8 : ℤ) := by
          rw [Finset.sum_const, nsmul_eq_mul, mul_comm]
      _ ≤ ∑ t ∈ c.shared.waiters, (c.loc t).cost n :=
          Finset.sum_le_sum fun t ht => Pc.cost_asleep (Pool.asleep h ht)
      _ ≤ ∑ t, (c.loc t).cost n :=
          Finset.sum_le_univ_sum_of_nonneg fun t => Pc.cost_nonneg _
  have hqueue : 0 ≤ taskCost n * (c.shared.tasks.length : ℤ) := by
    unfold taskCost
    positivity
  unfold Pool.credit
  omega

/-- Every step uses up some of it. -/
theorem Pool.credit_step {t : Tid n m} {e : Event τ n m} {g : Shared τ n m} {pc' : Pc τ} (h : Reachable ok c)
    (hstep : poolStep t c.shared (c.loc t) e = some (g, pc')) :
    Pool.credit ⟨g, Function.update c.loc t pc'⟩ + 1 ≤ c.credit + e.gain := by
  obtain ⟨hedge, henabled, rfl⟩ := poolStep_edge hstep
  have hcost := hedge.cost (n := n)
    (by
      rintro hpc rfl
      have hstop := Pool.exitStop_stopped h hpc
      simp [Event.enabled, hstop] at henabled)
    (by
      rintro hpc rfl
      exact Pool.contEmpty_filled h hpc
        (List.isEmpty_iff.mp (beq_iff_eq.mp henabled)))
  have hqueue := Event.effect_queue henabled
  have hwait := Event.effect_waiters (t := t) (e := e) (Pool.card_waiters_le h)
    (by
      rintro x rfl
      exact Pool.block_awake h hedge)
  have hsum := sum_update (Pc.cost n) c.loc t pc'
  unfold Pool.credit
  dsimp only
  omega

end

instance [DecidableEq τ] (c : Pool τ n m) (t : Tid n m) (e : Event τ n m)
    (c' : Pool τ n m) : Decidable (Pool.anyStep c t e c') :=
  inferInstanceAs (Decidable True)

/-- **The pool comes to rest.** However the threads interleave, a run is no
longer than a constant for the pool and for each submission and each wake-up
without a notification: the threads neither spin nor wake each other for ever. -/
theorem Pool.run_bounded [DecidableEq τ] (acts : List (Tid n m × Event τ n m)) (c : Pool τ n m)
    (h : runSteps poolStep Pool.anyStep (Pool.init τ n m) acts = some c) :
    acts.length ≤ 16 * n + 15 +
      (8 * n + 38) * acts.countP (fun x => x.2.isCall) +
      8 * acts.countP (fun x => x.2.isWakeup) := by
  have hlength := runSteps_potential Pool.credit Event.gain
    (fun c t e g pc' hc hstep => Pool.credit_step hc hstep) .start h
  have hrest := Pool.credit_nonneg (Reach.runSteps .start h)
  rw [Pool.credit_init, Event.sum_gain] at hlength
  zify
  omega

/-- A submission whose notification is lost: ten steps. -/
theorem Pool.run_bounded_lost : lostTaskRun.length ≤ 16 * 1 + 15 +
    (8 * 1 + 38) * lostTaskRun.countP (fun x => x.2.isCall) +
    8 * lostTaskRun.countP (fun x => x.2.isWakeup) :=
  Pool.run_bounded lostTaskRun _ rfl

/-! ## A run -/

/-- A task is submitted, taken and run. -/
def servedRun (x : τ) : List (Tid 1 1 × Event τ 1 1) :=
  [(onlyClient, .call .asyncTaskvoid x), (onlyClient, .lock .countMutex),
    (onlyClient, .pushBack x), (onlyClient, .increment),
    (onlyClient, .unlock .countMutex), (onlyClient, .notifyOne none),
    (onlyWorker, .lock .tasksMutex), (onlyWorker, .tasksEmpty false),
    (onlyWorker, .tasksEmpty false), (onlyWorker, .tasksEmpty false),
    (onlyWorker, .front x), (onlyWorker, .popFront x),
    (onlyWorker, .unlock .tasksMutex), (onlyWorker, .finish x),
    (onlyWorker, .lock .countMutex), (onlyWorker, .countPositive true),
    (onlyWorker, .decrement), (onlyWorker, .countZero true),
    (onlyWorker, .tasksEmpty true), (onlyWorker, .notifyAll),
    (onlyWorker, .unlock .countMutex)]

/-- The worker leaves. -/
def leavingRun : List (Tid 1 1 × Event τ 1 1) :=
  [(onlyWorker, .lock .tasksMutex), (onlyWorker, .tasksEmpty true),
    (onlyWorker, .loadStop true), (onlyWorker, .tasksEmpty true),
    (onlyWorker, .loadStop true), (onlyWorker, .unlock .tasksMutex),
    (onlyWorker, .terminate)]

end Mtasc
