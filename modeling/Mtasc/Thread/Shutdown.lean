import Mtasc.Thread.Accounting

/-!
# Shutdown drains the pool

Workers leave one by one while others may still run tasks that submit further
ones. What carries the proof is that a worker decides to leave only in front of
an empty queue with `M_stop` set, and that a later push can only come from a
task, whose worker has not decided: `Pool.undecided` says that a queue that is
not empty always has such a worker.
-/

namespace Mtasc

open Lib

variable {τ : Type} {n m : ℕ}

/-! ## Roles -/

inductive Role where
  | worker
  | client
  | closer
deriving DecidableEq

def Tid.role : Tid n m → Role
  | .worker _ => .worker
  | .client _ => .client
  | .closer => .closer

def Pc.role : Pc τ → Role
  | .idle => .client
  | .submit _ => .client
  | .storeStop => .closer
  | .stopNotify => .closer
  | .waitLock => .closer
  | .waitCount _ => .closer
  | .waitEmpty _ => .closer
  | .waitBlock => .closer
  | .waitWaiting => .closer
  | .waitRelock _ => .closer
  | .waitUnlock => .closer
  | .joining _ => .closer
  | _ => .worker

theorem Edge.role {pc pc' : Pc τ} {e : Event τ n m} (h : Edge pc e pc') :
    pc'.role = pc.role := by
  cases h <;> rfl

/-! ## Deciding to leave -/

/-- From the test that ends the loop on. -/
def Pc.decided : Pc τ → Bool
  | .exitStop => true
  | .unlockBreak => true
  | .leaving => true
  | .left => true
  | _ => false

/-- Outside the loop. -/
def Pc.hasLeft : Pc τ → Bool
  | .leaving => true
  | .left => true
  | _ => false

/-- What a worker that may leave knows. -/
def Pc.MayLeave (tasks : List τ) (stop : Bool) : Pc τ → Prop
  | .exitEmpty => tasks ≠ [] ∨ stop = true
  | .exitStop => stop = true
  | .unlockBreak => stop = true
  | .leaving => stop = true
  | .left => stop = true
  | _ => True

theorem Pc.MayLeave.stop {tasks : List τ} {stop : Bool} {pc : Pc τ}
    (h : pc.MayLeave tasks stop) (hpc : pc.decided = true) : stop = true := by
  cases pc with
  | exitStop => exact h
  | unlockBreak => exact h
  | leaving => exact h
  | left => exact h
  | _ => cases hpc

theorem Pc.MayLeave.pushBack {tasks : List τ} {stop : Bool} {pc : Pc τ}
    (h : pc.MayLeave tasks stop) (x : τ) :
    pc.MayLeave (tasks ++ [x]) stop := by
  cases pc with
  | exitEmpty => exact Or.inl (by simp)
  | _ => exact h

theorem Pc.MayLeave.storeStop {tasks : List τ} {stop : Bool} {pc : Pc τ}
    (h : pc.MayLeave tasks stop) : pc.MayLeave tasks true := by
  cases pc with
  | exitEmpty => exact Or.inr rfl
  | exitStop => rfl
  | unlockBreak => rfl
  | leaving => rfl
  | left => rfl
  | _ => trivial

theorem Pc.MayLeave.otherTasks {tasks : List τ} {stop : Bool} {pc : Pc τ}
    (h : pc.MayLeave tasks stop) (hpc : pc ≠ .exitEmpty) (tasks' : List τ) :
    pc.MayLeave tasks' stop := by
  cases pc with
  | exitEmpty => exact absurd rfl hpc
  | _ => exact h

theorem Edge.mayLeave [DecidableEq τ] {pc pc' : Pc τ} {e : Event τ n m}
    {t : Tid n m} {g : Shared τ n m} (h : Edge pc e pc')
    (henabled : e.enabled t g = true) (hbefore : pc.MayLeave g.tasks g.stop) :
    pc'.MayLeave (e.effect t g).tasks (e.effect t g).stop := by
  cases h with
  | predFilled =>
      refine Or.inl fun hempty => ?_
      simp [Event.enabled, show g.tasks = [] from hempty] at henabled
  | predStopped => exact Or.inr (beq_iff_eq.mp henabled)
  | exitEmpty =>
      -- the queue is empty, so what let the predicate through is `M_stop`
      have hempty : g.tasks = [] := List.isEmpty_iff.mp (beq_iff_eq.mp henabled)
      have hor : g.tasks ≠ [] ∨ g.stop = true := hbefore
      exact hor.resolve_left fun hne => hne hempty
  | exitStopped => exact beq_iff_eq.mp henabled
  | unlockBreak => exact hbefore
  | leaving => exact hbefore
  | _ => trivial

theorem Event.effect_stop (t : Tid n m) (g : Shared τ n m) (e : Event τ n m) :
    (e.effect t g).stop = g.stop ∨
      (e = .storeStop ∧ (e.effect t g).stop = true) := by
  cases e with
  | storeStop => exact Or.inr ⟨rfl, rfl⟩
  | notifyOne u => cases u <;> exact Or.inl rfl
  | _ => exact Or.inl rfl

theorem Edge.storeStop_eq {pc pc' : Pc τ}
    (h : Edge pc (.storeStop : Event τ n m) pc') : pc = .storeStop := by
  cases h with
  | storeStop => rfl
  | taskSubmit _ _ _ h => cases h
  | taskReturn _ _ _ h => cases h
  | submit _ _ h => cases h
  | «return» _ _ h => cases h

theorem Edge.ne_storeStop {pc pc' : Pc τ} {e : Event τ n m}
    (h : Edge pc e pc') : pc' ≠ .storeStop := by
  cases h <;> nofun

theorem Edge.from_idle {pc' : Pc τ} {e : Event τ n m} (h : Edge .idle e pc') :
    ∃ path x, e = .call path x := by
  cases h
  exact ⟨_, _, rfl⟩

/-- Only a task or a thread outside the pool pushes. -/
theorem Edge.pushBack_spec {pc pc' : Pc τ} {x : τ}
    (h : Edge pc (.pushBack x : Event τ n m) pc') :
    pc'.decided = false ∧ pc.role ≠ .closer := by
  cases h <;> exact ⟨rfl, nofun⟩

/-- A worker decides to leave in front of an empty queue. -/
theorem Edge.decides {pc pc' : Pc τ} {e : Event τ n m} (h : Edge pc e pc')
    (hpc : pc.decided = false) (hpc' : pc'.decided = true) :
    e = .tasksEmpty true := by
  cases h with
  | exitEmpty => rfl
  | exitStopped => cases hpc
  | unlockBreak => cases hpc
  | leaving => cases hpc
  | _ => cases hpc'

/-! ## Runs with a closing call -/

section

variable [DecidableEq τ]

theorem Pool.role {ok : StepRule τ n m} {c : Pool τ n m} (h : Reachable ok c)
    (t : Tid n m) : (c.loc t).role = t.role := by
  refine Reach.forall_thread (P := fun t _ pc => Pc.role pc = t.role)
    (fun t => by cases t <;> rfl) ?_ ?_ h t
  · intro c t e g pc' _ hP hstep
    obtain ⟨hedge, -, -⟩ := poolStep_edge hstep
    rw [hedge.role]
    exact hP t
  · intro c t e g pc' u _ hP _ _
    exact hP u

theorem Pool.mayLeave {ok : StepRule τ n m} {c : Pool τ n m}
    (h : Reachable ok c) (t : Tid n m) :
    (c.loc t).MayLeave c.shared.tasks c.shared.stop := by
  refine Reach.forall_thread
    (P := fun _ g pc => Pc.MayLeave g.tasks g.stop pc)
    (fun t => by cases t <;> trivial) ?_ ?_ h t
  · intro c t e g pc' _ hP hstep
    obtain ⟨hedge, henabled, rfl⟩ := poolStep_edge hstep
    exact hedge.mayLeave henabled (hP t)
  · intro c t e g pc' u hc hP hu hstep
    obtain ⟨hedge, -, rfl⟩ := poolStep_edge hstep
    have htasks : (c.loc u).MayLeave (e.effect t c.shared).tasks c.shared.stop := by
      rcases Event.effect_tasks t c.shared e with heq | ⟨x, -, heq⟩ | ⟨x, rfl, -⟩
      · rw [heq]
        exact hP u
      · rw [heq]
        exact (hP u).pushBack x
      · refine (hP u).otherTasks (fun hpc => ?_) _
        exact hu (Pool.exclusive hc (x := .tasksMutex) (by rw [hpc]; rfl)
          hedge.popFront_holds.2)
    rcases Event.effect_stop t c.shared e with heq | ⟨-, heq⟩
    · rw [heq]
      exact htasks
    · rw [heq]
      exact htasks.storeStop

/-- Outside submissions start before `waitAllthread` is called, and have
returned by then. -/
def Pool.closedBySubmitters : StepRule τ n m := fun c t e _ =>
  (t.role = .client → (∃ path x, e = .call path x) → c.loc .closer = .storeStop) ∧
  (t = .closer → e = .storeStop → ∀ j, c.loc (.client j) = .idle)

instance (c c' : Pool τ n m) (t : Tid n m) (e : Event τ n m) :
    Decidable (Pool.closedBySubmitters c t e c') :=
  inferInstanceAs (Decidable ((t.role = .client →
      (∃ path x, e = .call path x) → c.loc .closer = .storeStop) ∧
    (t = .closer → e = .storeStop → ∀ j, c.loc (.client j) = .idle)))

/-- Once `waitAllthread` has been called, no thread outside submits. -/
theorem Pool.clients_idle {ok : StepRule τ n m} {c : Pool τ n m}
    (hok : ∀ c t e c', ok c t e c' → closedBySubmitters c t e c')
    (h : Reachable ok c) :
    (c.loc .closer = .storeStop ∧ c.shared.stop = false) ∨
      (c.loc .closer ≠ .storeStop ∧ ∀ j, c.loc (.client j) = .idle) := by
  refine Reach.invariant (I := fun c : Pool τ n m =>
    (c.loc .closer = .storeStop ∧ c.shared.stop = false) ∨
      (c.loc .closer ≠ .storeStop ∧ ∀ j, c.loc (.client j) = .idle))
    (Or.inl ⟨rfl, rfl⟩) ?_ h
  intro c t e g pc' hc hI hstepok hstep
  obtain ⟨hedge, -, rfl⟩ := poolStep_edge hstep
  obtain ⟨hcall, hclose⟩ := hok _ _ _ _ hstepok
  have hrole := Pool.role hc t
  have hstop : t ≠ .closer → (e.effect t c.shared).stop = c.shared.stop := by
    intro ht
    rcases Event.effect_stop t c.shared e with heq | ⟨rfl, -⟩
    · exact heq
    · rw [hedge.storeStop_eq] at hrole
      cases t with
      | closer => exact absurd rfl ht
      | _ => cases hrole
  cases t with
  | worker i =>
      rw [hstop nofun]
      simpa using hI
  | client j =>
      rw [hstop nofun]
      rcases hI with hopen | ⟨hclosed, hidle⟩
      · left
        simpa using hopen
      · rw [hidle j] at hedge
        exact absurd (hcall rfl hedge.from_idle) hclosed
  | closer =>
      right
      refine ⟨by simpa using hedge.ne_storeStop, fun j => ?_⟩
      show c.loc (.client j) = .idle
      rcases hI with ⟨hopen, -⟩ | ⟨-, hidle⟩
      · rw [hopen] at hedge
        cases hedge
        exact hclose rfl rfl j
      · exact hidle j

/-- The worker that is responsible for a queue that is not empty. -/
theorem Pool.undecided {ok : StepRule τ n m} {c : Pool τ n m} (hn : 0 < n)
    (hok : ∀ c t e c', ok c t e c' → closedBySubmitters c t e c')
    (h : Reachable ok c) (hne : c.shared.tasks ≠ []) :
    ∃ i, (c.loc (.worker i)).decided = false := by
  refine Reach.invariant (I := fun c : Pool τ n m => c.shared.tasks ≠ [] →
    ∃ i, (c.loc (.worker i)).decided = false) (fun h => absurd rfl h) ?_ h hne
  intro c t e g pc' hc hI _ hstep hne'
  obtain ⟨hedge, henabled, rfl⟩ := poolStep_edge hstep
  have hrole := Pool.role hc t
  simp only at hne' ⊢
  by_cases hpush : ∃ x, e = .pushBack x
  · obtain ⟨x, rfl⟩ := hpush
    obtain ⟨hpc', hnot⟩ := hedge.pushBack_spec
    cases t with
    | worker i =>
        -- a task submits: its worker is running
        refine ⟨i, ?_⟩
        rwa [Function.update_self]
    | client j =>
        -- a thread outside submits: nobody decides before the closing call
        refine ⟨⟨0, hn⟩, ?_⟩
        rw [Function.update_of_ne (by nofun)]
        have hstop : c.shared.stop = false := by
          rcases Pool.clients_idle hok hc with ⟨-, hstop⟩ | ⟨-, hidle⟩
          · exact hstop
          · rw [hidle j] at hedge
            obtain ⟨_, _, hcall⟩ := hedge.from_idle
            cases hcall
        cases hdecided : (c.loc (.worker ⟨0, hn⟩)).decided with
        | false => rfl
        | true =>
            rw [(Pool.mayLeave hc _).stop hdecided] at hstop
            cases hstop
    | closer => exact absurd hrole hnot
  · have hold : c.shared.tasks ≠ [] := by
      rcases Event.effect_tasks t c.shared e with heq | ⟨x, rfl, -⟩ | ⟨x, -, heq⟩
      · rwa [heq] at hne'
      · exact absurd ⟨x, rfl⟩ hpush
      · intro hempty
        rw [heq, hempty] at hne'
        exact hne' rfl
    obtain ⟨i, hi⟩ := hI hold
    refine ⟨i, ?_⟩
    by_cases hti : Tid.worker i = t
    · subst hti
      rw [Function.update_self]
      cases hdecided : pc'.decided with
      | false => rfl
      | true =>
          obtain rfl := hedge.decides hi hdecided
          have hempty := List.isEmpty_iff.mp (beq_iff_eq.mp henabled)
          exact absurd hempty hold
    · rw [Function.update_of_ne hti]
      exact hi

end

/-! ## What is being run -/

/-- The task a worker has popped and that has not returned. -/
def Pc.carried : Pc τ → Multiset τ
  | .unlockTask x => {x}
  | .running x => {x}
  | .runningSubmit x _ => {x}
  | _ => 0

theorem Edge.carried {pc pc' : Pc τ} {e : Event τ n m} (t : Tid n m)
    (g : Shared τ n m) (h : Edge pc e pc') :
    ((e.effect t g).popped : Multiset τ) + g.ran + pc.carried =
      (g.popped : Multiset τ) + (e.effect t g).ran + pc'.carried := by
  cases h with
  | taskSubmit _ _ _ h => cases h <;> rfl
  | taskReturn _ _ _ h =>
      cases h with
      | notify u => cases u <;> rfl
  | submit _ _ h => cases h <;> rfl
  | «return» _ _ h =>
      cases h with
      | notify u => cases u <;> rfl
  | popFront x =>
      show ((g.popped ++ [x] : List τ) : Multiset τ) + g.ran + 0 =
        (g.popped : Multiset τ) + g.ran + {x}
      rw [← Multiset.coe_add, Multiset.coe_singleton]
      ac_rfl
  | finish x =>
      show (g.popped : Multiset τ) + g.ran + {x} =
        (g.popped : Multiset τ) + ((g.ran ++ [x] : List τ) : Multiset τ) + 0
      rw [← Multiset.coe_add, Multiset.coe_singleton]
      ac_rfl
  | _ => rfl

theorem Pc.carried_of_role {pc : Pc τ} (h : pc.role ≠ .worker) :
    pc.carried = 0 := by
  cases pc <;> first | rfl | exact absurd rfl h

theorem Pc.carried_of_hasLeft {pc : Pc τ} (h : pc.hasLeft = true) :
    pc.carried = 0 := by
  cases pc <;> first | rfl | exact nomatch h

theorem Pc.lead_of_hasLeft {pc : Pc τ} (h : pc.hasLeft = true) :
    pc.lead = 0 := by
  cases pc <;> first | rfl | exact nomatch h

theorem Pc.lead_of_closer {pc : Pc τ} (h : pc.role = .closer) :
    pc.lead = 0 := by
  cases pc <;> first | rfl | exact nomatch h

theorem Pc.decided_of_hasLeft {pc : Pc τ} (h : pc.hasLeft = true) :
    pc.decided = true := by
  cases pc <;> first | rfl | exact nomatch h

variable [DecidableEq τ]

/-- What has been popped has returned or is being run. -/
theorem Pool.popped_eq {ok : StepRule τ n m} {c : Pool τ n m}
    (h : Reachable ok c) : (c.shared.popped : Multiset τ) =
      c.shared.ran + ∑ t, (c.loc t).carried := by
  refine Reach.sum (fun g => (g.popped : Multiset τ))
    (fun g => (g.ran : Multiset τ)) Pc.carried ?_ ?_ h
  · rw [Finset.sum_eq_zero fun t _ => by cases t <;> rfl]
    rfl
  · intro c t e g pc' _ _ _ hstep
    obtain ⟨hedge, -, rfl⟩ := poolStep_edge hstep
    exact hedge.carried t c.shared

section Left

variable {ok : Pool.StepRule τ n m} {c : Pool τ n m}

theorem Pool.left_tasks (hn : 0 < n)
    (hok : ∀ c t e c', ok c t e c' → closedBySubmitters c t e c')
    (h : Reachable ok c)
    (hleft : ∀ i, (c.loc (.worker i)).hasLeft = true) : c.shared.tasks = [] := by
  by_contra hne
  obtain ⟨i, hi⟩ := Pool.undecided hn hok h hne
  rw [Pc.decided_of_hasLeft (hleft i)] at hi
  cases hi

theorem Pool.left_ran (hn : 0 < n)
    (hok : ∀ c t e c', ok c t e c' → closedBySubmitters c t e c')
    (h : Reachable ok c)
    (hleft : ∀ i, (c.loc (.worker i)).hasLeft = true) :
    c.shared.ran.Perm c.shared.pushed := by
  have hsum : ∑ t, (c.loc t).carried = 0 := by
    refine Finset.sum_eq_zero fun t _ => ?_
    have hrole := Pool.role h t
    cases t with
    | worker i => exact Pc.carried_of_hasLeft (hleft i)
    | client j => exact Pc.carried_of_role (by rw [hrole]; nofun)
    | closer => exact Pc.carried_of_role (by rw [hrole]; nofun)
  have hpopped := Pool.popped_eq h
  have hpushed := Pool.pushed_eq h
  rw [Pool.left_tasks hn hok h hleft, List.append_nil] at hpushed
  rw [hsum, add_zero, Multiset.coe_eq_coe] at hpopped
  rw [hpushed]
  exact hpopped.symm

theorem Pool.left_count (hn : 0 < n)
    (hok : ∀ c t e c', ok c t e c' → closedBySubmitters c t e c')
    (hint : ∀ c t e c', ok c t e c' → withinInt c t e c') (h : Reachable ok c)
    (hleft : ∀ i, (c.loc (.worker i)).hasLeft = true) :
    c.shared.threadRurinngCount = 0 := by
  have hstop := (Pool.mayLeave h (.worker ⟨0, hn⟩)).stop
    (Pc.decided_of_hasLeft (hleft _))
  have hidle : ∀ j, c.loc (.client j) = .idle := by
    rcases Pool.clients_idle hok h with ⟨-, hopen⟩ | ⟨-, hidle⟩
    · rw [hstop] at hopen
      cases hopen
    · exact hidle
  have hsum : ∑ t, (c.loc t).lead = 0 := by
    refine Finset.sum_eq_zero fun t _ => ?_
    cases t with
    | worker i => exact Pc.lead_of_hasLeft (hleft i)
    | client j =>
        rw [hidle j]
        rfl
    | closer => exact Pc.lead_of_closer (Pool.role h .closer)
  rw [(Pool.accounts hint h).balance, hsum, Pool.left_tasks hn hok h hleft]
  rfl

end Left

/-- **Shutdown drains the pool.** When all workers have left their loop, the
queue is empty and what was submitted has been run, each task once; and the
counter is zero if the pending tasks stayed inside `int`. -/
theorem Pool.shutdown_drains {c : Pool τ n m} (hn : 0 < n)
    (h : Reachable closedBySubmitters c)
    (hleft : ∀ i, (c.loc (.worker i)).hasLeft = true) :
    c.shared.tasks = [] ∧ c.shared.ran.Perm c.shared.pushed ∧
    (Reachable (fun c t e c' =>
        closedBySubmitters c t e c' ∧ withinInt c t e c') c →
      c.shared.threadRurinngCount = 0) := by
  refine ⟨Pool.left_tasks hn (fun _ _ _ _ => id) h hleft,
    Pool.left_ran hn (fun _ _ _ _ => id) h hleft, fun hint => ?_⟩
  exact Pool.left_count hn (fun _ _ _ _ hok => hok.1)
    (fun _ _ _ _ hok => hok.2) hint hleft

/-! ## A run past the range of the counter -/

section Run

variable {ok : Pool.StepRule τ n m} {g : Shared τ n m}
variable {loc : Tid n m → Pc τ} {t : Tid n m}

/-- A worker takes and runs a task while the counter is negative: it skips the
decrement. -/
theorem Pool.work_run {x : τ} {rest : List τ}
    (h : Reachable ok ⟨{ g with tasks := x :: rest }, loc⟩)
    (hok : ∀ g pc e c', ok ⟨g, Function.update loc t pc⟩ t e c')
    (hpc : loc t = .lockTasks) (hfree : ∀ x, g.owner x = none)
    (hneg : g.threadRurinngCount < 0) :
    Reachable ok ⟨{ g with
      tasks := rest, popped := g.popped ++ [x], ran := g.ran ++ [x] }, loc⟩ := by
  have hself : Function.update loc t .lockTasks = loc := by
    rw [← hpc, Function.update_eq_self]
  have hguard : decide (0 < g.threadRurinngCount) = false :=
    decide_eq_false (by omega)
  have hzero : decide (g.threadRurinngCount = 0) = false :=
    decide_eq_false (by omega)
  have howner : ∀ y o, Function.update (Function.update g.owner y o) y none =
      g.owner := by
    intro y o
    rw [Function.update_idem, ← hfree y, Function.update_eq_self]
  rw [← hself] at h ⊢
  have h := Pool.thread_step h hok .lockTasks (decide_eq_true (hfree _))
  have h := Pool.thread_step h hok .predFilled rfl
  have h := Pool.thread_step h hok .exitFilled rfl
  have h := Pool.thread_step h hok .contFilled rfl
  have h := Pool.thread_step h hok (.front x) (decide_eq_true rfl)
  have h := Pool.thread_step h hok (.popFront x) rfl
  have h := Pool.thread_step h hok (.unlockTask x) rfl
  have h := Pool.thread_step h hok (.finish x) rfl
  simp only [Event.effect, Shared.setOwner, howner] at h
  have h := Pool.thread_step h hok .lockCount (decide_eq_true (hfree _))
  have h := Pool.thread_step h hok .guardFails (beq_iff_eq.mpr hguard)
  have h := Pool.thread_step h hok .postNonzero (beq_iff_eq.mpr hzero)
  have h := Pool.thread_step h hok .unlockCount rfl
  simp only [Event.effect, Shared.setOwner, howner] at h
  exact h

/-- A worker empties the queue while the counter is negative. -/
theorem Pool.drain_run (hok : ∀ g pc e c', ok ⟨g, Function.update loc t pc⟩ t e c')
    (hpc : loc t = .lockTasks) (hfree : ∀ x, g.owner x = none)
    (hneg : g.threadRurinngCount < 0) : ∀ (tasks popped ran : List τ),
    Reachable ok ⟨{ g with tasks := tasks, popped := popped, ran := ran }, loc⟩ →
    ∃ popped' ran',
      Reachable ok ⟨{ g with tasks := [], popped := popped', ran := ran' }, loc⟩
  | [], popped, ran, h => ⟨popped, ran, h⟩
  | _ :: rest, popped, ran, h =>
      Pool.drain_run hok hpc hfree hneg rest _ _
        (Pool.work_run (g := { g with popped := popped, ran := ran })
          h hok hpc hfree hneg)

/-- A worker leaves: the queue is empty and `M_stop` is set. -/
theorem Pool.leave_run (h : Reachable ok ⟨g, loc⟩)
    (hok : ∀ g pc e c', ok ⟨g, Function.update loc t pc⟩ t e c')
    (hpc : loc t = .lockTasks) (hfree : ∀ x, g.owner x = none)
    (htasks : g.tasks = []) (hstop : g.stop = true) :
    Reachable ok ⟨g, Function.update loc t .leaving⟩ := by
  have hself : Function.update loc t .lockTasks = loc := by
    rw [← hpc, Function.update_eq_self]
  have hempty : g.tasks.isEmpty = true := List.isEmpty_iff.mpr htasks
  have howner : ∀ y o, Function.update (Function.update g.owner y o) y none =
      g.owner := by
    intro y o
    rw [Function.update_idem, ← hfree y, Function.update_eq_self]
  rw [← hself] at h
  have h := Pool.thread_step h hok .lockTasks (decide_eq_true (hfree _))
  have h := Pool.thread_step h hok .predEmpty (beq_iff_eq.mpr hempty)
  have h := Pool.thread_step h hok .predStopped (beq_iff_eq.mpr hstop)
  have h := Pool.thread_step h hok .exitEmpty (beq_iff_eq.mpr hempty)
  have h := Pool.thread_step h hok .exitStopped (beq_iff_eq.mpr hstop)
  have h := Pool.thread_step h hok .unlockBreak rfl
  simp only [Event.effect, Shared.setOwner, howner] at h
  exact h

/-- The closing call, with no thread inside the pool's functions. -/
theorem Pool.close_run (h : Reachable closedBySubmitters
      ⟨g, (Pool.init τ n m).loc⟩) :
    Reachable closedBySubmitters ⟨{ g with stop := true },
      Function.update (Pool.init τ n m).loc .closer .stopNotify⟩ := by
  have hself : Function.update (Pool.init τ n m).loc .closer .storeStop =
      (Pool.init τ n m).loc := Function.update_eq_self _ _
  rw [← hself] at h
  exact Pool.thread_step h (fun _ _ _ _ => ⟨nofun, fun _ _ _ => rfl⟩)
    .storeStop rfl

end Run

/-- A task is submitted from outside, and the pool is closed while it runs. -/
def closingRun (parent : τ) : List (Tid 1 1 × Event τ 1 1) :=
  [(onlyClient, .call .asyncTaskret parent), (onlyClient, .lock .tasksMutex),
    (onlyClient, .pushBack parent), (onlyClient, .increment),
    (onlyClient, .unlock .tasksMutex), (onlyClient, .notifyOne none),
    (onlyWorker, .lock .tasksMutex), (onlyWorker, .tasksEmpty false),
    (onlyWorker, .tasksEmpty false), (onlyWorker, .tasksEmpty false),
    (onlyWorker, .front parent), (onlyWorker, .popFront parent),
    (onlyWorker, .unlock .tasksMutex), (.closer, .storeStop)]

/-- The task submits another one, which is run before the worker leaves. -/
def drainingRun (parent child : τ) : List (Tid 1 1 × Event τ 1 1) :=
  [(onlyWorker, .call .asyncTaskvoid child), (onlyWorker, .lock .countMutex),
    (onlyWorker, .pushBack child), (onlyWorker, .increment),
    (onlyWorker, .unlock .countMutex), (onlyWorker, .notifyOne none),
    (onlyWorker, .finish parent), (onlyWorker, .lock .countMutex),
    (onlyWorker, .countPositive true), (onlyWorker, .decrement),
    (onlyWorker, .countZero false), (onlyWorker, .unlock .countMutex),
    (onlyWorker, .lock .tasksMutex), (onlyWorker, .tasksEmpty false),
    (onlyWorker, .tasksEmpty false), (onlyWorker, .tasksEmpty false),
    (onlyWorker, .front child), (onlyWorker, .popFront child),
    (onlyWorker, .unlock .tasksMutex), (onlyWorker, .finish child),
    (onlyWorker, .lock .countMutex), (onlyWorker, .countPositive true),
    (onlyWorker, .decrement), (onlyWorker, .countZero true),
    (onlyWorker, .tasksEmpty true), (onlyWorker, .notifyAll),
    (onlyWorker, .unlock .countMutex), (onlyWorker, .lock .tasksMutex),
    (onlyWorker, .tasksEmpty true), (onlyWorker, .loadStop true),
    (onlyWorker, .tasksEmpty true), (onlyWorker, .loadStop true),
    (onlyWorker, .unlock .tasksMutex)]

/-- A task that submits another one after `M_stop` has been set. -/
theorem Pool.shutdown_drains_parent : ∃ c₁ c : Pool Bool 1 1,
    (Reachable closedBySubmitters c₁ ∧ c₁.shared.stop = true ∧
      c₁.shared.pushed = [true]) ∧
    (Reach poolStep closedBySubmitters c₁ c ∧
      (∀ i, (c.loc (.worker i)).hasLeft = true) ∧
      c.shared.pushed = [true, false]) ∧
    c.shared.tasks = [] ∧ c.shared.ran.Perm c.shared.pushed ∧
    c.shared.threadRurinngCount = 0 := by
  let rule : StepRule Bool 1 1 := fun c t e c' =>
    closedBySubmitters c t e c' ∧ withinInt c t e c'
  have hclosing : (runSteps poolStep rule (Pool.init Bool 1 1)
      (closingRun true)).any (fun c₁ => c₁.shared.stop &&
        decide (c₁.shared.pushed = [true]) &&
        (runSteps poolStep rule c₁ (drainingRun true false)).any fun c =>
          (c.loc onlyWorker).hasLeft &&
            decide (c.shared.pushed = [true, false])) = true := by
    decide +kernel
  obtain ⟨c₁, hc₁, hmid⟩ := Reach.run_any .start hclosing
  simp only [Bool.and_eq_true, decide_eq_true_eq] at hmid
  obtain ⟨⟨hstop, hpushed⟩, hdraining⟩ := hmid
  obtain ⟨c, hrun, hend⟩ := (Option.any_eq_true _ _).mp hdraining
  simp only [Bool.and_eq_true, decide_eq_true_eq] at hend
  obtain ⟨hleft, hboth⟩ := hend
  have hleft : ∀ i, (c.loc (.worker i)).hasLeft = true := by
    intro i
    rw [Fin.fin_one_eq_zero i]
    exact hleft
  have hc : Reachable rule c := hc₁.runSteps hrun
  have hclosed : ∀ {s c : Pool Bool 1 1}, Reach poolStep rule s c →
      Reach poolStep closedBySubmitters s c :=
    fun h => h.mono fun _ _ _ _ hok => hok.1
  obtain ⟨hempty, hran, hcount⟩ :=
    Pool.shutdown_drains Nat.one_pos (hclosed hc) hleft
  exact ⟨c₁, c, ⟨hclosed hc₁, hstop, hpushed⟩,
    ⟨hclosed (Reach.start.runSteps hrun), hleft, hboth⟩,
    hempty, hran, hcount hc⟩

/-- One worker and `2 ^ 31` tasks queued before the closing call: the worker
runs them all, never counts one off, and leaves with the counter negative. -/
theorem Pool.shutdown_overflow : ∃ c : Pool Unit 1 1,
    Reachable closedBySubmitters c ∧
    (∀ i, (c.loc (.worker i)).hasLeft = true) ∧
    c.shared.threadRurinngCount ≠ 0 := by
  obtain ⟨k, hk⟩ : ∃ k : ℕ, k = 2 ^ 31 := ⟨_, rfl⟩
  have hcount : wrapInt (k : ℤ) = -2 ^ 31 := by
    rw [hk]
    decide +kernel
  have hneg : wrapInt (k : ℤ) < 0 := by
    rw [hcount]
    omega
  have hfilled : Reachable closedBySubmitters
      ⟨Pool.filled 1 1 () k, (Pool.init Unit 1 1).loc⟩ :=
    Pool.filled_run () 0 (fun _ _ _ _ => ⟨fun _ _ => rfl, nofun⟩) k
  have hstopped := Pool.close_run hfilled
  have hworker : ∀ (loc : Tid 1 1 → Pc Unit) (g : Shared Unit 1 1)
      (pc : Pc Unit) (e : Event Unit 1 1) (c' : Pool Unit 1 1),
      closedBySubmitters ⟨g, Function.update loc (.worker 0) pc⟩
        (.worker 0) e c' := fun _ _ _ _ _ => ⟨nofun, nofun⟩
  obtain ⟨popped, ran, hdrained⟩ := Pool.drain_run (t := .worker 0)
    (g := { Pool.filled 1 1 () k with stop := true }) (hworker _) rfl
    (fun _ => rfl) hneg (List.replicate k ()) [] [] hstopped
  have hleft := Pool.leave_run (t := .worker 0) hdrained (hworker _) rfl
    (fun _ => rfl) rfl rfl
  refine ⟨_, hleft, fun i => ?_, Int.ne_of_lt hneg⟩
  rw [Fin.fin_one_eq_zero i]
  rfl

end Mtasc
