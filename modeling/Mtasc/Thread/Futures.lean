import Mtasc.Thread.Spawn

/-!
# How tasks end

`asyncTaskvoid` queues the function itself, and neither the loop of the worker
nor its thread has a handler: an exception ends the program. What
`asyncTaskret` queues calls a `packaged_task`, which puts the value or the
exception into the future. A `packaged_task` that is called once more throws,
outside of the function it wraps. Every submission makes a task of its own.

No `packaged_task` is called twice, so that nothing but an exception of a task
of `asyncTaskvoid` ends the program. When all workers have left, every future is
ready, each with what its own task has come to.
-/

namespace Mtasc

open Lib

variable {τ ε ρ : Type} {n m : ℕ}

/-! ## The pool with futures -/

structure FutureShared (τ ε ρ : Type) (n m : ℕ) where
  pool : Shared τ n m := {}
  /-- The calls of the two submission functions. -/
  called : List (Path × τ) := []
  /-- The futures that are ready, with what they hold. -/
  ready : List (τ × Except ε ρ) := []
  /-- `std::terminate` has been called. -/
  terminated : Bool := false

namespace FutureShared

/-- The tasks that have been submitted. -/
def submitted (g : FutureShared τ ε ρ n m) : List τ := g.called.map Prod.snd

/-- A task of `asyncTaskvoid` that has ended by an exception. -/
def Failed (outcome : τ → Except ε ρ) (g : FutureShared τ ε ρ n m) (x : τ) :
    Prop :=
  (Path.asyncTaskvoid, x) ∈ g.called ∧ ∃ e, outcome x = .error e

end FutureShared

section

variable [DecidableEq τ]

/-- What else an operation does. -/
def FutureShared.behind (outcome : τ → Except ε ρ)
    (g : FutureShared τ ε ρ n m) : Event τ n m → Option (FutureShared τ ε ρ n m)
  | .call path y =>
      if y ∈ g.submitted then none
      else some { g with called := g.called ++ [(path, y)] }
  | .finish x =>
      if (Path.asyncTaskret, x) ∈ g.called then
        if x ∈ g.ready.map Prod.fst then some { g with terminated := true }
        else some { g with ready := g.ready ++ [(x, outcome x)] }
      else
        match outcome x with
        | .ok _ => some g
        | .error _ => some { g with terminated := true }
  | _ => some g

/-- A step of the pool, as long as the program has not ended. -/
def futureStep (outcome : τ → Except ε ρ) (t : Tid n m)
    (g : FutureShared τ ε ρ n m) (pc : Pc τ) (e : Event τ n m) :
    Option (FutureShared τ ε ρ n m × Pc τ) :=
  if g.terminated then none
  else
    (poolStep t g.pool pc e).bind fun r =>
      (g.behind outcome e).map fun g => ({ g with pool := r.1 }, r.2)

abbrev FuturePool (τ ε ρ : Type) (n m : ℕ) : Type :=
  Config (Tid n m) (FutureShared τ ε ρ n m) (Pc τ)

namespace FuturePool

def init (τ ε ρ : Type) (n m : ℕ) : FuturePool τ ε ρ n m where
  shared := {}
  loc := (Pool.init τ n m).loc

/-- The pool itself. -/
def pool (c : FuturePool τ ε ρ n m) : Pool τ n m := ⟨c.shared.pool, c.loc⟩

/-- The states of the runs whose steps satisfy `ok`. -/
abbrev Reachable (outcome : τ → Except ε ρ) (ok : Pool.StepRule τ n m)
    (c : FuturePool τ ε ρ n m) : Prop :=
  Reach (futureStep outcome) (fun c t e c' => ok (pool c) t e (pool c'))
    (FuturePool.init τ ε ρ n m) c

end FuturePool

variable {outcome : τ → Except ε ρ} {ok : Pool.StepRule τ n m}
variable {c : FuturePool τ ε ρ n m}

/-- **What a step does**: the pool moves on, and what is behind an operation
happens. -/
theorem futureStep_eq_some {t : Tid n m} {g g' : FutureShared τ ε ρ n m}
    {pc pc' : Pc τ} {e : Event τ n m}
    (h : futureStep outcome t g pc e = some (g', pc')) :
    g.terminated = false ∧ poolStep t g.pool pc e = some (g'.pool, pc') ∧
      ∃ g₁, g.behind outcome e = some g₁ ∧ g' = { g₁ with pool := g'.pool } := by
  unfold futureStep at h
  split at h
  · cases h
  · next hrunning =>
    obtain ⟨r, hstep, hrest⟩ := Option.bind_eq_some_iff.mp h
    obtain ⟨g₁, hbehind, heq⟩ := Option.map_eq_some_iff.mp hrest
    cases heq
    exact ⟨Bool.not_eq_true _ ▸ hrunning, hstep, g₁, hbehind, rfl⟩

/-- **A pool with futures is a pool.** -/
theorem FuturePool.pool_reachable (h : Reachable outcome ok c) :
    Pool.Reachable ok c.pool := by
  refine Reach.simulate FuturePool.pool ?_ h
  intro c t e g pc _ hok hstep
  obtain ⟨-, hpool, -⟩ := futureStep_eq_some hstep
  refine Or.inr ⟨e, hok, ?_⟩
  rw [Lib.move, show (FuturePool.pool c).shared = c.shared.pool from rfl,
    show (FuturePool.pool c).loc = c.loc from rfl, hpool]
  rfl

/-- Only a submission is called. -/
theorem FutureShared.behind_called {g g₁ : FutureShared τ ε ρ n m}
    {e : Event τ n m} (h : g.behind outcome e = some g₁) :
    (∃ path y, e = .call path y ∧ y ∉ g.submitted ∧
        g₁.called = g.called ++ [(path, y)]) ∨
      (∀ path y, e ≠ .call path y) ∧ g₁.called = g.called := by
  cases e with
  | call path y =>
      rw [behind] at h
      split at h
      · cases h
      · next hnew =>
        cases h
        exact Or.inl ⟨path, y, rfl, hnew, rfl⟩
  | finish x =>
      refine Or.inr ⟨fun _ _ heq => (by cases heq), ?_⟩
      rw [behind] at h
      split at h
      · split at h <;> cases h <;> rfl
      · split at h <;> cases h <;> rfl
  | _ =>
      cases h
      exact Or.inr ⟨fun _ _ heq => (by cases heq), rfl⟩

/-! ## The balance of submissions -/

theorem FuturePool.submitted_nodup (h : Reachable outcome ok c) :
    c.shared.submitted.Nodup := by
  refine Reach.invariant
    (I := fun c : FuturePool τ ε ρ n m => c.shared.submitted.Nodup) ?_ ?_ h
  · exact List.nodup_nil
  intro c t e g pc _ hnodup _ hstep
  obtain ⟨-, -, g₁, hbehind, heq⟩ := futureStep_eq_some hstep
  rw [heq]
  rcases FutureShared.behind_called hbehind with
    ⟨path, y, -, hnew, hcalled⟩ | ⟨-, hcalled⟩
  · show (g₁.called.map Prod.snd).Nodup
    rw [hcalled, List.map_append]
    exact hnodup.append (List.nodup_singleton y) (by
      rintro x hx hy
      obtain rfl : x = y := List.mem_singleton.mp hy
      exact hnew hx)
  · show (g₁.called.map Prod.snd).Nodup
    rw [hcalled]
    exact hnodup

omit [DecidableEq τ] in
/-- Between the call of a submission and its push a thread has the task. -/
theorem Edge.calling {pc pc' : Pc τ} {e : Event τ n m} (t : Tid n m)
    (g : Shared τ n m) (h : Edge pc e pc') :
    (∃ path y, e = .call path y ∧ pc.calling = 0 ∧ pc'.calling = {y}) ∨
      (∀ path y, e ≠ .call path y) ∧
        (g.pushed : Multiset τ) + pc.calling =
          ((e.effect t g).pushed : Multiset τ) + pc'.calling := by
  have hsubmit : ∀ {path : Path} {y : τ} {stage : Stage} {o : Option Stage},
      SubmissionEdge path y stage e o → ∀ path' y', e ≠ .call path' y' := by
    intro path y stage o h path' y' heq
    subst heq
    cases h
  cases h with
  | taskCall x path y => exact Or.inl ⟨path, y, rfl, rfl, rfl⟩
  | call path y => exact Or.inl ⟨path, y, rfl, rfl, rfl⟩
  | taskSubmit x y path h => exact Or.inr ⟨hsubmit h, h.calling t g⟩
  | taskReturn x y path h => exact Or.inr ⟨hsubmit h, h.calling t g⟩
  | submit y path h => exact Or.inr ⟨hsubmit h, h.calling t g⟩
  | «return» y path h => exact Or.inr ⟨hsubmit h, h.calling t g⟩
  | _ => exact Or.inr ⟨fun _ _ heq => (by cases heq), rfl⟩

/-- **The balance**: what has been submitted has been pushed, or a thread is
about to. -/
theorem FuturePool.submitted_eq (h : Reachable outcome ok c) :
    (c.shared.submitted : Multiset τ) =
      (c.shared.pool.pushed : Multiset τ) + ∑ t, (c.loc t).calling := by
  refine Reach.sum (fun g : FutureShared τ ε ρ n m => (g.submitted : Multiset τ))
    (fun g : FutureShared τ ε ρ n m => (g.pool.pushed : Multiset τ))
    Pc.calling ?_ ?_ h
  · rw [Finset.sum_eq_zero fun t _ => by cases t <;> rfl]
    rfl
  · intro c t e g pc _ _ _ hstep
    obtain ⟨-, hpool, g₁, hbehind, heq⟩ := futureStep_eq_some hstep
    obtain ⟨hedge, -, heffect⟩ := poolStep_edge hpool
    have hsubmitted : g.submitted = g₁.called.map Prod.snd := by rw [heq]; rfl
    rw [hsubmitted, heffect]
    rcases hedge.calling t c.shared.pool with
      ⟨path, y, rfl, hbefore, hafter⟩ | ⟨hne, hbalance⟩
    · rcases FutureShared.behind_called hbehind with
        ⟨path', y', hcall, -, hcalled⟩ | ⟨hne, -⟩
      · cases hcall
        rw [hcalled, List.map_append, ← Multiset.coe_add, hbefore, hafter]
        show ((c.shared.submitted : List τ) : Multiset τ) + {y} +
            (c.shared.pool.pushed : Multiset τ) + 0 =
          (c.shared.submitted : Multiset τ) + (c.shared.pool.pushed) + {y}
        rw [add_zero]
        ac_rfl
      · exact absurd rfl (hne path y)
    · rcases FutureShared.behind_called hbehind with
        ⟨path, y, hcall, -⟩ | ⟨-, hcalled⟩
      · exact absurd hcall (hne path y)
      · rw [hcalled, add_assoc, add_assoc, hbalance]
        rfl

/-- No task has been popped twice, and none that was not submitted. -/
theorem FuturePool.popped_le (h : Reachable outcome ok c) :
    (c.shared.pool.popped : Multiset τ) ≤ c.shared.submitted := by
  have hpushed := Pool.pushed_eq (FuturePool.pool_reachable h)
  calc (c.shared.pool.popped : Multiset τ)
      ≤ (c.shared.pool.pushed : Multiset τ) := by
        rw [show c.shared.pool.pushed = _ from hpushed, ← Multiset.coe_add]
        exact Multiset.le_add_right _ _
    _ ≤ c.shared.submitted := by
        rw [FuturePool.submitted_eq h]
        exact Multiset.le_add_right _ _

theorem FuturePool.popped_nodup (h : Reachable outcome ok c) :
    (c.shared.pool.popped : Multiset τ).Nodup :=
  Multiset.nodup_of_le (FuturePool.popped_le h)
    (Multiset.coe_nodup.mpr (FuturePool.submitted_nodup h))

theorem FuturePool.ran_submitted (h : Reachable outcome ok c) {x : τ}
    (hx : x ∈ c.shared.pool.ran) : x ∈ c.shared.submitted := by
  have hpopped := Pool.popped_eq (FuturePool.pool_reachable h)
  refine Multiset.mem_coe.mp (Multiset.mem_of_le (FuturePool.popped_le h) ?_)
  rw [show (c.shared.pool.popped : Multiset τ) = _ from hpopped]
  exact Multiset.mem_add.mpr (Or.inl (Multiset.mem_coe.mpr hx))

/-- A task that is being run has not been run before. -/
theorem FuturePool.running_not_ran (h : Reachable outcome ok c) {t : Tid n m}
    {x : τ} (hpc : c.loc t = .running x) :
    x ∉ c.shared.pool.ran ∧ x ∈ c.shared.submitted := by
  have hpopped : (c.shared.pool.popped : Multiset τ) =
      c.shared.pool.ran + ∑ t, (c.loc t).carried :=
    Pool.popped_eq (FuturePool.pool_reachable h)
  have hcarried : x ∈ ∑ t, (c.loc t).carried := by
    refine Multiset.mem_of_le
      (Finset.single_le_sum (f := fun t => (c.loc t).carried)
        (fun _ _ => Multiset.zero_le _) (Finset.mem_univ t)) ?_
    rw [hpc]
    exact Multiset.mem_singleton_self x
  constructor
  · intro hran
    have hnodup := FuturePool.popped_nodup h
    rw [hpopped] at hnodup
    exact Multiset.disjoint_left.mp (Multiset.nodup_add.mp hnodup).2.2
      (Multiset.mem_coe.mpr hran) hcarried
  · refine Multiset.mem_coe.mp (Multiset.mem_of_le (FuturePool.popped_le h) ?_)
    rw [hpopped]
    exact Multiset.mem_add.mpr (Or.inr hcarried)

/-! ## The futures -/

/-- A task has been submitted by one of the functions, and by one only. -/
theorem FuturePool.path_unique (h : Reachable outcome ok c) {p q : Path}
    {x : τ} (hp : (p, x) ∈ c.shared.called) (hq : (q, x) ∈ c.shared.called) :
    p = q := by
  have hinj := List.inj_on_of_nodup_map (FuturePool.submitted_nodup h) hp hq rfl
  exact (Prod.mk.inj hinj).1

/-- The futures of a trace: those of the tasks of `asyncTaskret` that have
run. -/
def FutureShared.due (outcome : τ → Except ε ρ) (g : FutureShared τ ε ρ n m) :
    List (τ × Except ε ρ) :=
  (g.pool.ran.filter fun x => (Path.asyncTaskret, x) ∈ g.called).map
    fun x => (x, outcome x)

/-- The invariant of a run. -/
structure FuturePool.Kept (outcome : τ → Except ε ρ)
    (c : FuturePool τ ε ρ n m) : Prop where
  ready : c.shared.ready = c.shared.due outcome
  terminated : c.shared.terminated = true ↔
    ∃ x ∈ c.shared.pool.ran, c.shared.Failed outcome x
  /-- The thread that has ended the program is behind its task. -/
  thrown : c.shared.terminated = true → ∃ t, c.loc t = .lockCount

omit [DecidableEq τ] in
/-- A submission says nothing of the tasks that have run. -/
theorem FutureShared.called_append {g : FutureShared τ ε ρ n m} {path p : Path}
    {x y : τ} (hy : y ∉ g.submitted) (hx : x ∈ g.submitted) :
    (p, x) ∈ g.called ++ [(path, y)] ↔ (p, x) ∈ g.called := by
  rw [List.mem_append, List.mem_singleton, or_iff_left]
  intro heq
  cases heq
  exact hy hx

section

variable {g g' : FutureShared τ ε ρ n m} {x : τ}

/-- What is due behind one more task. -/
theorem FutureShared.due_snoc (hran : g'.pool.ran = g.pool.ran ++ [x])
    (hcalled : g'.called = g.called) : g'.due outcome = g.due outcome ++
      if (Path.asyncTaskret, x) ∈ g.called then [(x, outcome x)] else [] := by
  rw [due, due, hran, hcalled, List.filter_append, List.map_append,
    List.filter_singleton]
  by_cases hret : (Path.asyncTaskret, x) ∈ g.called
  · rw [decide_eq_true hret, if_pos hret]
    rfl
  · rw [decide_eq_false hret, if_neg hret]
    rfl

omit [DecidableEq τ] in
theorem FutureShared.failed_snoc (hran : g'.pool.ran = g.pool.ran ++ [x])
    (hcalled : g'.called = g.called) :
    (∃ y ∈ g'.pool.ran, g'.Failed outcome y) ↔
      (∃ y ∈ g.pool.ran, g.Failed outcome y) ∨ g.Failed outcome x := by
  have hsame : ∀ y, g'.Failed outcome y ↔ g.Failed outcome y := fun y => by
    rw [Failed, Failed, hcalled]
  rw [hran]
  simp only [hsame, List.mem_append, List.mem_singleton, or_and_right,
    exists_or, exists_eq_left]

end

namespace FuturePool

variable {t : Tid n m} {x : τ} {g : FutureShared τ ε ρ n m}
variable {loc : Tid n m → Pc τ}

/-- A step behind which nothing has been run. -/
theorem Kept.quiet (hkept : Kept outcome c)
    (hrunning : c.shared.terminated = false)
    (hran : g.pool.ran = c.shared.pool.ran)
    (hready : g.ready = c.shared.ready) (hterminated : g.terminated = false)
    (hcalled : ∀ p, ∀ x ∈ c.shared.pool.ran,
      ((p, x) ∈ g.called ↔ (p, x) ∈ c.shared.called)) :
    Kept outcome ⟨g, loc⟩ := by
  refine ⟨?_, ?_, fun hend => ?_⟩
  · show g.ready = g.due outcome
    rw [hready, hkept.ready, FutureShared.due, FutureShared.due, hran]
    refine congrArg _ (List.filter_congr fun x hx => ?_)
    rw [decide_eq_decide, hcalled _ x hx]
  · show g.terminated = true ↔ ∃ x ∈ g.pool.ran, g.Failed outcome x
    rw [hterminated, hran, ← hrunning, hkept.terminated]
    refine exists_congr fun x => and_congr_right fun hx => ?_
    rw [FutureShared.Failed, FutureShared.Failed, hcalled _ x hx]
  · rw [show g.terminated = true from hend] at hterminated
    cases hterminated

/-- A step behind which one more task has been run. -/
theorem Kept.ran (hkept : Kept outcome c)
    (hrunning : c.shared.terminated = false)
    (hran : g.pool.ran = c.shared.pool.ran ++ [x])
    (hcalled : g.called = c.shared.called)
    (hready : g.ready = c.shared.ready ++
      if (Path.asyncTaskret, x) ∈ c.shared.called then [(x, outcome x)] else [])
    (hterminated : g.terminated = true ↔ c.shared.Failed outcome x)
    (hthread : ∃ t, loc t = .lockCount) : Kept outcome ⟨g, loc⟩ := by
  have hnone : ¬ ∃ x ∈ c.shared.pool.ran, c.shared.Failed outcome x := by
    rw [← hkept.terminated, hrunning]
    exact Bool.false_ne_true
  refine ⟨?_, ?_, fun _ => hthread⟩
  · show g.ready = g.due outcome
    rw [FutureShared.due_snoc hran hcalled, hready, hkept.ready]
  · show g.terminated = true ↔ ∃ x ∈ g.pool.ran, g.Failed outcome x
    rw [FutureShared.failed_snoc hran hcalled, or_iff_right hnone]
    exact hterminated

/-- A task ends. -/
theorem Kept.finish (h : Reachable outcome ok c) (hkept : Kept outcome c)
    (hrunning : c.shared.terminated = false) (hpc : c.loc t = .running x)
    (hbehind : c.shared.behind outcome (.finish x) = some g)
    {pool : Shared τ n m} (hran : pool.ran = c.shared.pool.ran ++ [x]) :
    Kept outcome
      ⟨{ g with pool := pool }, Function.update c.loc t .lockCount⟩ := by
  obtain ⟨hnew, hsubmitted⟩ := FuturePool.running_not_ran h hpc
  have hthread : ∃ u, (Function.update c.loc t .lockCount) u = .lockCount :=
    ⟨t, Function.update_self t _ _⟩
  have hstill : ¬ c.shared.terminated = true := by
    rw [hrunning]
    exact Bool.false_ne_true
  rw [FutureShared.behind] at hbehind
  split at hbehind
  · next hret =>
    -- its future is not ready yet, and nothing is thrown
    have hunready : x ∉ c.shared.ready.map Prod.fst := by
      rw [hkept.ready, FutureShared.due, List.map_map]
      intro hmem
      obtain ⟨y, hy, rfl⟩ := List.mem_map.mp hmem
      exact hnew (List.mem_filter.mp hy).1
    have hcaught : ¬ c.shared.Failed outcome x := by
      rintro ⟨hvoid, -⟩
      cases FuturePool.path_unique h hret hvoid
    rw [if_neg hunready] at hbehind
    cases hbehind
    exact hkept.ran hrunning hran rfl (by rw [if_pos hret])
      (iff_of_false hstill hcaught) hthread
  · next hret =>
    have hvoid : (Path.asyncTaskvoid, x) ∈ c.shared.called := by
      obtain ⟨⟨p, y⟩, hmem, rfl⟩ := List.mem_map.mp hsubmitted
      cases p with
      | asyncTaskvoid => exact hmem
      | asyncTaskret => exact absurd hmem hret
    have hready : c.shared.ready = c.shared.ready ++
        if (Path.asyncTaskret, x) ∈ c.shared.called then [(x, outcome x)]
        else [] := by
      rw [if_neg hret, List.append_nil]
    split at hbehind
    · next r hx =>
      have hreturned : ¬ c.shared.Failed outcome x := by
        rintro ⟨-, error, herror⟩
        rw [hx] at herror
        cases herror
      cases hbehind
      exact hkept.ran hrunning hran rfl hready
        (iff_of_false hstill hreturned) hthread
    · next error hx =>
      cases hbehind
      exact hkept.ran hrunning hran rfl hready
        (iff_of_true rfl ⟨hvoid, error, hx⟩) hthread

/-- **What a step keeps.** -/
theorem kept_step {e : Event τ n m} {pc : Pc τ} (h : Reachable outcome ok c)
    (hkept : Kept outcome c)
    (hstep : futureStep outcome t c.shared (c.loc t) e = some (g, pc)) :
    Kept outcome ⟨g, Function.update c.loc t pc⟩ := by
  obtain ⟨hrunning, hpool, g₁, hbehind, heq⟩ := futureStep_eq_some hstep
  obtain ⟨hedge, -, heffect⟩ := poolStep_edge hpool
  generalize g.pool = pool at heq heffect
  subst heq
  have hother : g₁ = c.shared → pool.ran = c.shared.pool.ran →
      Kept outcome ⟨{ g₁ with pool := pool }, Function.update c.loc t pc⟩ := by
    rintro rfl hran
    exact hkept.quiet hrunning hran rfl hrunning fun _ _ _ => Iff.rfl
  cases e with
  | call path y =>
      rw [FutureShared.behind] at hbehind
      split at hbehind
      · cases hbehind
      · next hnew =>
        cases hbehind
        refine hkept.quiet hrunning ?_ rfl hrunning fun p x hx => ?_
        · rw [heffect]
          rfl
        · exact FutureShared.called_append hnew (FuturePool.ran_submitted h hx)
  | finish x =>
      obtain ⟨hpc, rfl⟩ : c.loc t = .running x ∧ pc = .lockCount := by
        generalize hloc : c.loc t = before at hedge
        cases hedge with
        | finish => exact ⟨rfl, rfl⟩
        | taskSubmit _ _ _ h => cases h
        | taskReturn _ _ _ h => cases h
        | submit _ _ h => cases h
        | «return» _ _ h => cases h
      refine hkept.finish h hrunning hpc hbehind ?_
      rw [heffect]
      rfl
  | notifyOne u =>
      refine hother (Option.some.inj hbehind).symm ?_
      rw [heffect]
      cases u <;> rfl
  | _ =>
      refine hother (Option.some.inj hbehind).symm ?_
      rw [heffect]
      rfl

end FuturePool

theorem FuturePool.kept (h : Reachable outcome ok c) : Kept outcome c := by
  refine Reach.invariant (I := Kept outcome) ?_ ?_ h
  · refine ⟨rfl, iff_of_false Bool.false_ne_true ?_, fun hend => by cases hend⟩
    rintro ⟨x, hx, -⟩
    cases hx
  · intro c t e g pc hc hkept _ hstep
    exact FuturePool.kept_step hc hkept hstep

/-- **What ends the program**: an exception of a task of `asyncTaskvoid`, and
nothing else. -/
theorem FuturePool.terminated_iff (h : Reachable outcome ok c) :
    c.shared.terminated = true ↔
      ∃ x ∈ c.shared.pool.ran, c.shared.Failed outcome x :=
  (FuturePool.kept h).terminated

/-- **Every future is ready.** When all workers have left, the program has not
been ended, and the futures are those of the tasks of `asyncTaskret`, each once
and with what its task has come to. -/
theorem FuturePool.futures_ready (hn : 0 < n)
    (h : Reachable outcome Pool.closedBySubmitters c)
    (hleft : ∀ i, (c.loc (.worker i)).hasLeft = true) :
    c.shared.terminated = false ∧
      (c.shared.ready : Multiset (τ × Except ε ρ)) =
        ((c.shared.called.filter fun p => p.1 = Path.asyncTaskret).map
          fun p => (p.2, outcome p.2) : List (τ × Except ε ρ)) := by
  have hpool := FuturePool.pool_reachable h
  have hkept := FuturePool.kept h
  constructor
  · rw [← Bool.not_eq_true]
    intro hend
    obtain ⟨t, ht⟩ := hkept.thrown hend
    have hrole : (c.loc t).role = t.role := Pool.role hpool t
    rw [ht] at hrole
    cases t with
    | worker i =>
        have hi := hleft i
        rw [ht] at hi
        cases hi
    | client j => cases hrole
    | closer => cases hrole
  · -- all that has been submitted has been run
    have hran : (c.shared.pool.ran : Multiset τ) = c.shared.submitted := by
      have hperm : c.shared.pool.ran.Perm c.shared.pool.pushed :=
        Pool.left_ran hn (fun _ _ _ _ => id) hpool hleft
      have hcalling : ∑ t, (c.loc t).calling = 0 :=
        Finset.sum_eq_zero fun t _ =>
          (Pool.left_clear hn (fun _ _ _ _ => id) hpool hleft t).2
      rw [FuturePool.submitted_eq h, hcalling, add_zero]
      exact Multiset.coe_eq_coe.mpr hperm
    have hpath : c.shared.called.filter
        (fun p => (Path.asyncTaskret, p.2) ∈ c.shared.called) =
          c.shared.called.filter fun p => p.1 = Path.asyncTaskret := by
      refine List.filter_congr fun p hp => decide_eq_decide.mpr ?_
      constructor
      · intro hret
        exact FuturePool.path_unique h hp hret
      · rintro hret
        rw [← hret]
        exact hp
    rw [hkept.ready, FutureShared.due, ← Multiset.map_coe, ← Multiset.filter_coe,
      hran, Multiset.filter_coe, Multiset.map_coe, FutureShared.submitted,
      List.filter_map, List.map_map]
    exact congrArg (fun l : List (Path × τ) => (l.map fun p =>
      (p.2, outcome p.2) : Multiset (τ × Except ε ρ))) hpath

end

/-! ## Runs -/

/-- A task that throws, and another one. -/
def throwingOutcome : Bool → Except ℕ ℕ
  | true => .error 7
  | false => .ok 3

/-- The first task is given to `asyncTaskvoid`: the program has ended. -/
theorem FuturePool.terminated_iff_thrown : ∃ c : FuturePool Bool ℕ ℕ 1 1,
    c.shared.terminated = true ∧ c.shared.called = [(.asyncTaskvoid, true)] ∧
    (c.shared.terminated = true ↔
      ∃ x ∈ c.shared.pool.ran, c.shared.Failed throwingOutcome x) := by
  have hrun : (runSteps (futureStep throwingOutcome)
      (fun c t e c' => Pool.closedBySubmitters (pool c) t e (pool c'))
      (FuturePool.init Bool ℕ ℕ 1 1) ((servedRun true).take 14)).any (fun c =>
        c.shared.terminated &&
          decide (c.shared.called = [(.asyncTaskvoid, true)])) = true := by
    decide +kernel
  obtain ⟨c, hreach, hend⟩ := Reach.run_any .start hrun
  rw [Bool.and_eq_true, decide_eq_true_eq] at hend
  exact ⟨c, hend.1, hend.2,
    FuturePool.terminated_iff hreach⟩

/-- It is given to `asyncTaskret` and submits the other one to
`asyncTaskvoid`. -/
theorem FuturePool.futures_ready_thrown : ∃ c : FuturePool Bool ℕ ℕ 1 1,
    c.shared.ready = [(true, .error 7)] ∧ c.shared.terminated = false ∧
      (c.shared.ready : Multiset (Bool × Except ℕ ℕ)) =
        ((c.shared.called.filter fun p => p.1 = Path.asyncTaskret).map
          fun p => (p.2, throwingOutcome p.2) : List (Bool × Except ℕ ℕ)) := by
  have hrun : (runSteps (futureStep throwingOutcome)
      (fun c t e c' => Pool.closedBySubmitters (pool c) t e (pool c'))
      (FuturePool.init Bool ℕ ℕ 1 1) (parentRun true false)).any (fun c =>
        (c.loc (.worker 0)).hasLeft &&
          decide (c.shared.ready = [(true, .error 7)])) = true := by
    decide +kernel
  obtain ⟨c, hreach, hend⟩ := Reach.run_any .start hrun
  rw [Bool.and_eq_true, decide_eq_true_eq] at hend
  refine ⟨c, hend.2, FuturePool.futures_ready Nat.one_pos
    hreach fun i => ?_⟩
  rw [Fin.fin_one_eq_zero i]
  exact hend.1

end Mtasc
