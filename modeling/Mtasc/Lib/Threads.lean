import Mathlib

/-!
# Threads over a shared state

A configuration is a shared state and a local state for each thread. A step
belongs to one thread: it reads and writes the shared state and its own local
state. `Reach step ok start` are the configurations that runs from `start` get
to when each of their steps satisfies `ok`.

The rules below are the inductions a proof about such a system needs: for an
arbitrary invariant, for a property of each thread, for a lock, and for a sum
over the threads.
-/

namespace Mtasc.Lib

structure Config (ι G L : Type*) where
  shared : G
  loc : ι → L

section Threads

variable {ι G L A : Type*} [DecidableEq ι]

/-- Thread `i` takes a step; `a` resolves what it leaves open. -/
def move (step : ι → G → L → A → Option (G × L)) (c : Config ι G L) (i : ι)
    (a : A) : Option (Config ι G L) :=
  (step i c.shared (c.loc i) a).map fun r => ⟨r.1, Function.update c.loc i r.2⟩

inductive Reach (step : ι → G → L → A → Option (G × L))
    (ok : Config ι G L → ι → A → Config ι G L → Prop)
    (start : Config ι G L) : Config ι G L → Prop where
  | start : Reach step ok start start
  | move {c c' : Config ι G L} {i : ι} {a : A} (hc : Reach step ok start c)
      (hok : ok c i a c') (hmove : move step c i a = some c') :
      Reach step ok start c'

variable {step : ι → G → L → A → Option (G × L)}
variable {ok ok' : Config ι G L → ι → A → Config ι G L → Prop}
variable {start c c' : Config ι G L}

theorem move_eq_some {i : ι} {a : A} (h : move step c i a = some c') :
    ∃ g l, step i c.shared (c.loc i) a = some (g, l) ∧
      c' = ⟨g, Function.update c.loc i l⟩ := by
  obtain ⟨⟨g, l⟩, hstep, rfl⟩ := Option.map_eq_some_iff.mp h
  exact ⟨g, l, hstep, rfl⟩

/-- A rule may use that what it judges is a step. -/
theorem Reach.mono_step (himp : ∀ c i a c', Lib.move step c i a = some c' →
      ok c i a c' → ok' c i a c')
    (h : Reach step ok start c) : Reach step ok' start c := by
  induction h with
  | start => exact .start
  | move _ hok hmove ih => exact .move ih (himp _ _ _ _ hmove hok) hmove

theorem Reach.mono (himp : ∀ c i a c', ok c i a c' → ok' c i a c')
    (h : Reach step ok start c) : Reach step ok' start c :=
  h.mono_step fun c i a c' _ => himp c i a c'

/-- **The invariant rule.** A step may use that its source is reachable. -/
theorem Reach.invariant {I : Config ι G L → Prop} (h0 : I start)
    (hstep : ∀ c i a g l, Reach step ok start c → I c →
      ok c i a ⟨g, Function.update c.loc i l⟩ →
      step i c.shared (c.loc i) a = some (g, l) →
      I ⟨g, Function.update c.loc i l⟩)
    (h : Reach step ok start c) : I c := by
  induction h with
  | start => exact h0
  | move hc hok hmove ih =>
      obtain ⟨g, l, hl, rfl⟩ := move_eq_some hmove
      exact hstep _ _ _ g l hc ih hok hl

/-- **The rule for a property of each thread**: the thread that steps
establishes it, and the others do not lose it. -/
theorem Reach.forall_thread {P : ι → G → L → Prop}
    (h0 : ∀ i, P i start.shared (start.loc i))
    (hown : ∀ c i a g l, Reach step ok start c →
      (∀ k, P k c.shared (c.loc k)) →
      step i c.shared (c.loc i) a = some (g, l) → P i g l)
    (hother : ∀ c i a g l j, Reach step ok start c →
      (∀ k, P k c.shared (c.loc k)) → j ≠ i →
      step i c.shared (c.loc i) a = some (g, l) → P j g (c.loc j))
    (h : Reach step ok start c) : ∀ i, P i c.shared (c.loc i) := by
  refine Reach.invariant (I := fun c => ∀ i, P i c.shared (c.loc i)) h0 ?_ h
  intro c i a g l hc hP _ hl j
  simp only
  by_cases hj : j = i
  · subst hj
    rw [Function.update_self]
    exact hown c j a g l hc hP hl
  · rw [Function.update_of_ne hj]
    exact hother c i a g l j hc hP hj hl

/-- **The rule for a simulation**: where `f` takes each step to a step of the
same thread or to none, it takes reachable configurations to reachable ones. -/
theorem Reach.simulate {G' L' A' : Type*}
    {step' : ι → G' → L' → A' → Option (G' × L')}
    {ok' : Config ι G' L' → ι → A' → Config ι G' L' → Prop}
    (f : Config ι G L → Config ι G' L')
    (hstep : ∀ c i a g l, Reach step ok start c →
      ok c i a ⟨g, Function.update c.loc i l⟩ →
      step i c.shared (c.loc i) a = some (g, l) →
      f ⟨g, Function.update c.loc i l⟩ = f c ∨
      ∃ a', ok' (f c) i a' (f ⟨g, Function.update c.loc i l⟩) ∧
        Lib.move step' (f c) i a' = some (f ⟨g, Function.update c.loc i l⟩))
    (h : Reach step ok start c) : Reach step' ok' (f start) (f c) := by
  refine Reach.invariant (I := fun c => Reach step' ok' (f start) (f c))
    .start ?_ h
  intro c i a g l hc hI hok hl
  rcases hstep c i a g l hc hok hl with heq | ⟨a', hok', hmove⟩
  · rw [heq]
    exact hI
  · exact .move hI hok' hmove

/-! ## Locks -/

/-- What a step of thread `i` may do to a lock with owner `o`, given whether
its local state is inside the critical section before and after. -/
inductive LockStep (i : ι) : Option ι → Prop → Option ι → Prop → Prop where
  | keep {o : Option ι} {h h' : Prop} (hiff : h ↔ h') : LockStep i o h o h'
  | acquire {h h' : Prop} (hin : h') : LockStep i none h (some i) h'
  | release {o : Option ι} {h h' : Prop} (hin : h) (hout : ¬ h') :
      LockStep i o h none h'

/-- **The rule for a lock**: its owner is the thread inside the section. -/
theorem Reach.lock {owner : G → Option ι} (holds : L → Prop)
    (hfree : owner start.shared = none) (hout : ∀ i, ¬ holds (start.loc i))
    (hstep : ∀ i g l a g' l', step i g l a = some (g', l') →
      LockStep i (owner g) (holds l) (owner g') (holds l'))
    (h : Reach step ok start c) (i : ι) :
    owner c.shared = some i ↔ holds (c.loc i) := by
  refine Reach.invariant
    (I := fun c => ∀ i, owner c.shared = some i ↔ holds (c.loc i)) ?_ ?_ h i
  · intro i
    simp [hfree, hout i]
  · intro c i a g l _ hI _ hl j
    have hlock := hstep i c.shared (c.loc i) a g l hl
    have hi := hI i
    have hj := hI j
    by_cases hji : j = i
    · subst hji
      simp only [Function.update_self]
      generalize owner c.shared = o at *
      generalize holds (c.loc j) = p at *
      generalize hg : owner g = o' at *
      generalize holds l = p' at *
      cases hlock with
      | keep hiff => exact hi.trans hiff
      | acquire hin => simp [hin]
      | release _ hout => simp [hout]
    · simp only [Function.update_of_ne hji]
      generalize owner c.shared = o at *
      generalize holds (c.loc i) = p at *
      generalize owner g = o' at *
      generalize holds l = p' at *
      cases hlock with
      | keep _ => exact hj
      | acquire _ =>
          have hne : ¬ holds (c.loc j) := fun hh => by
            have := hj.mpr hh
            cases this
          simp [hne, Ne.symm hji]
      | release hin _ =>
          have ho := hi.mpr hin
          have hne : ¬ holds (c.loc j) := fun hh => by
            have := hj.mpr hh
            rw [ho] at this
            exact hji (Option.some.inj this).symm
          simp [hne]

/-! ## Sums over the threads -/

theorem sum_update [Fintype ι] {M : Type*} [AddCommMonoid M] (f : L → M)
    (loc : ι → L) (i : ι) (l : L) :
    (∑ k, f (Function.update loc i l k)) + f (loc i) =
      (∑ k, f (loc k)) + f l := by
  have hrest : ∑ k ∈ Finset.univ.erase i, f (Function.update loc i l k) =
      ∑ k ∈ Finset.univ.erase i, f (loc k) :=
    Finset.sum_congr rfl fun k hk => by
      rw [Function.update_of_ne (Finset.ne_of_mem_erase hk)]
  have hafter := Finset.add_sum_erase Finset.univ
    (fun k => f (Function.update loc i l k)) (Finset.mem_univ i)
  have hbefore := Finset.add_sum_erase Finset.univ
    (fun k => f (loc k)) (Finset.mem_univ i)
  simp only [Function.update_self] at hafter
  rw [← hafter, ← hbefore, hrest]
  ac_rfl

/-- **The rule for a sum**: a balance between two measures of the shared state
and what the threads contribute holds when each step moves both sides alike. -/
theorem Reach.sum [Fintype ι] {M : Type*} [AddCancelCommMonoid M]
    (lhs rhs : G → M) (f : L → M)
    (h0 : lhs start.shared = rhs start.shared + ∑ k, f (start.loc k))
    (hstep : ∀ c i a g l, Reach step ok start c →
      lhs c.shared = rhs c.shared + ∑ k, f (c.loc k) →
      ok c i a ⟨g, Function.update c.loc i l⟩ →
      step i c.shared (c.loc i) a = some (g, l) →
      lhs g + rhs c.shared + f (c.loc i) = lhs c.shared + rhs g + f l)
    (h : Reach step ok start c) :
    lhs c.shared = rhs c.shared + ∑ k, f (c.loc k) := by
  refine Reach.invariant
    (I := fun c => lhs c.shared = rhs c.shared + ∑ k, f (c.loc k)) h0 ?_ h
  intro c i a g l hc hI hok hl
  have hlocal := hstep c i a g l hc hI hok hl
  have hsum := sum_update f c.loc i l
  have hcancel : lhs g + (rhs c.shared + f (c.loc i)) =
      rhs g + (∑ k, f (Function.update c.loc i l k)) +
        (rhs c.shared + f (c.loc i)) :=
    calc lhs g + (rhs c.shared + f (c.loc i))
        = lhs g + rhs c.shared + f (c.loc i) := by ac_rfl
      _ = lhs c.shared + rhs g + f l := hlocal
      _ = rhs g + rhs c.shared + ((∑ k, f (c.loc k)) + f l) := by
          rw [hI]
          ac_rfl
      _ = rhs g + (∑ k, f (Function.update c.loc i l k)) +
            (rhs c.shared + f (c.loc i)) := by
          rw [← hsum]
          ac_rfl
  exact add_right_cancel hcancel

/-! ## Runs that are given -/

/-- The configuration after a list of steps, each of which satisfies `ok`. -/
def runSteps (step : ι → G → L → A → Option (G × L))
    (ok : Config ι G L → ι → A → Config ι G L → Prop)
    [∀ c i a c', Decidable (ok c i a c')] :
    Config ι G L → List (ι × A) → Option (Config ι G L)
  | c, [] => some c
  | c, (i, a) :: rest =>
      match move step c i a with
      | none => none
      | some c' => if ok c i a c' then runSteps step ok c' rest else none

theorem Reach.runSteps [∀ c i a c', Decidable (ok c i a c')] :
    ∀ {acts : List (ι × A)} {c c' : Config ι G L}, Reach step ok start c →
      runSteps step ok c acts = some c' → Reach step ok start c'
  | [], c, c', hc, h => by
      cases h
      exact hc
  | (i, a) :: rest, c, c', hc, h => by
      rw [Lib.runSteps] at h
      split at h
      · cases h
      · next hmove =>
        split at h
        · next hok => exact Reach.runSteps (.move hc hok hmove) h
        · cases h

/-- What is true at the end of a run that is given is true of some reachable
configuration. -/
theorem Reach.run_any [∀ c i a c', Decidable (ok c i a c')]
    {acts : List (ι × A)} {p : Config ι G L → Bool} (hc : Reach step ok start c)
    (hend : (Lib.runSteps step ok c acts).any p = true) :
    ∃ c', Reach step ok start c' ∧ p c' = true := by
  obtain ⟨c', hrun, hp⟩ := (Option.any_eq_true _ _).mp hend
  exact ⟨c', hc.runSteps hrun, hp⟩

/-- **The rule for a potential**: where every step uses some of it up, except
for what the step itself brings, a run is no longer than the potential it
starts with and what its steps bring. -/
theorem runSteps_potential [∀ c i a c', Decidable (ok c i a c')]
    (Φ : Config ι G L → ℤ) (gain : A → ℤ)
    (hstep : ∀ c i a g l, Reach step ok start c →
      step i c.shared (c.loc i) a = some (g, l) →
      Φ ⟨g, Function.update c.loc i l⟩ + 1 ≤ Φ c + gain a) :
    ∀ {acts : List (ι × A)} {c c' : Config ι G L}, Reach step ok start c →
      Lib.runSteps step ok c acts = some c' →
      Φ c' + acts.length ≤ Φ c + (acts.map fun x => gain x.2).sum
  | [], c, c', _, h => by
      cases h
      simp
  | (i, a) :: rest, c, c', hc, h => by
      rw [Lib.runSteps] at h
      split at h
      · cases h
      · next c₁ hmove =>
        split at h
        · next hok =>
          have hrest := runSteps_potential Φ gain hstep
            (.move hc hok hmove) h
          obtain ⟨g, l, hl, rfl⟩ := move_eq_some hmove
          have hone := hstep c i a g l hc hl
          simp only [List.length_cons, List.map_cons, List.sum_cons,
            Nat.cast_succ]
          omega
        · cases h

end Threads

end Mtasc.Lib
