import Mtasc.Lib.Threads

/-!
# `THREAD`

The instance that holds the pool of the process. `createThreadManager` loads
its flag, assigns the pointer and sets the flag, in three steps, and the
assignment destroys what the pointer held; `getThreadManager` hands out a
reference. The flag protects the pointer from being read too early, and from
being assigned twice only where no two creations overlap.
-/

namespace Mtasc

open Lib

variable {ι : Type}

structure ThreadInstance where
  /-- `M_threadmanager`: which of the managers created so far it points to. -/
  threadmanager : Option ℕ := none
  isInitThreadmnager : Bool := false
  /-- The number of managers created, history. -/
  created : ℕ := 0

/-- An operation of a thread on the instance, with its result. -/
inductive InstanceEvent where
  | createThreadManager
  | getThreadManager
  | load (b : Bool)
  /-- `M_threadmanager = std::make_unique<ThreadManager>(..)`. -/
  | assign
  | store
  /-- `*M_threadmanager`, the reference to manager `k`. -/
  | reference (k : ℕ)
  /-- `*M_threadmanager` of a null pointer. -/
  | null
  /-- The caller is done with its reference. -/
  | release
deriving DecidableEq

def InstanceEvent.enabled (g : ThreadInstance) : InstanceEvent → Bool
  | .load b => g.isInitThreadmnager == b
  | .reference k => decide (g.threadmanager = some k)
  | .null => decide (g.threadmanager = none)
  | _ => true

def InstanceEvent.effect (g : ThreadInstance) : InstanceEvent → ThreadInstance
  | .assign =>
      { g with threadmanager := some g.created, created := g.created + 1 }
  | .store => { g with isInitThreadmnager := true }
  | _ => g

/-- The places of a thread that uses the instance. -/
inductive InstancePc where
  | idle
  -- `createThreadManager`
  | createLoad
  | assign
  | store
  -- `getThreadManager`
  | getLoad
  | reference
  /-- The caller has the reference to manager `k`. -/
  | holding (k : ℕ)
  | undefined
deriving DecidableEq

/-- The code; `getThreadManager` throws where it reads the flag as false. -/
def InstancePc.next : InstancePc → InstanceEvent → Option InstancePc
  | .idle, .createThreadManager => some .createLoad
  | .idle, .getThreadManager => some .getLoad
  | .createLoad, .load true => some .idle
  | .createLoad, .load false => some .assign
  | .assign, .assign => some .store
  | .store, .store => some .idle
  | .getLoad, .load false => some .idle
  | .getLoad, .load true => some .reference
  | .reference, .reference k => some (.holding k)
  | .reference, .null => some .undefined
  | .holding _, .release => some .idle
  | _, _ => none

def instanceStep (_ : ι) (g : ThreadInstance) (pc : InstancePc)
    (e : InstanceEvent) : Option (ThreadInstance × InstancePc) :=
  match pc.next e with
  | some pc' => if e.enabled g then some (e.effect g, pc') else none
  | none => none

/-- The rows of `InstancePc.next`. -/
inductive InstanceEdge : InstancePc → InstanceEvent → InstancePc → Prop where
  | create : InstanceEdge .idle .createThreadManager .createLoad
  | get : InstanceEdge .idle .getThreadManager .getLoad
  | created : InstanceEdge .createLoad (.load true) .idle
  | missing : InstanceEdge .createLoad (.load false) .assign
  | assign : InstanceEdge .assign .assign .store
  | store : InstanceEdge .store .store .idle
  | throw : InstanceEdge .getLoad (.load false) .idle
  | ready : InstanceEdge .getLoad (.load true) .reference
  | reference (k : ℕ) : InstanceEdge .reference (.reference k) (.holding k)
  | null : InstanceEdge .reference .null .undefined
  | release (k : ℕ) : InstanceEdge (.holding k) .release .idle

theorem instanceStep_edge {i : ι} {g g' : ThreadInstance}
    {pc pc' : InstancePc} {e : InstanceEvent}
    (h : instanceStep i g pc e = some (g', pc')) :
    InstanceEdge pc e pc' ∧ e.enabled g = true ∧ g' = e.effect g := by
  unfold instanceStep at h
  split at h
  · next hnext =>
    split at h
    · next henabled =>
      cases h
      refine ⟨?_, henabled, rfl⟩
      unfold InstancePc.next at hnext
      split at hnext
      case h_12 => cases hnext
      all_goals
        cases hnext
        constructor
    · cases h
  · cases h

abbrev Instances (ι : Type) : Type := Config ι ThreadInstance InstancePc

namespace Instances

def init (ι : Type) : Instances ι := ⟨{}, fun _ => .idle⟩

abbrev StepRule (ι : Type) : Type :=
  Instances ι → ι → InstanceEvent → Instances ι → Prop

abbrev Reachable [DecidableEq ι] (ok : StepRule ι) (c : Instances ι) : Prop :=
  Reach instanceStep ok (init ι) c

/-- Any interleaving. -/
def anyStep : StepRule ι := fun _ _ _ _ => True

end Instances

/-- Inside a creation, behind its test. -/
def InstancePc.creating : InstancePc → Bool
  | .assign => true
  | .store => true
  | _ => false

/-- No two creations overlap: a thread does not go on to create while another
one does. -/
def Instances.apart : StepRule ι := fun c i e _ =>
  c.loc i = .createLoad → e = .load false → ∀ j, (c.loc j).creating = false

/-- What a place knows about the pointer. -/
def InstancePc.Knows (g : ThreadInstance) : InstancePc → Prop
  | .store => g.threadmanager ≠ none
  | .reference => g.threadmanager ≠ none
  | .undefined => False
  | _ => True

theorem InstanceEvent.threadmanager_ne {g : ThreadInstance}
    (e : InstanceEvent) (h : g.threadmanager ≠ none) :
    (e.effect g).threadmanager ≠ none := by
  cases e with
  | assign => exact Option.some_ne_none _
  | _ => exact h

theorem InstancePc.Knows.effect {g : ThreadInstance} {pc : InstancePc}
    (h : pc.Knows g) (e : InstanceEvent) : pc.Knows (e.effect g) := by
  cases pc with
  | store => exact e.threadmanager_ne h
  | reference => exact e.threadmanager_ne h
  | undefined => exact h
  | _ => trivial

namespace Instances

variable [DecidableEq ι] {ok : StepRule ι} {c : Instances ι}

/-- Where the flag is set the pointer is, and so it is where a thread relies
on it. -/
theorem knows (h : Reachable ok c) :
    (c.shared.isInitThreadmnager = true → c.shared.threadmanager ≠ none) ∧
      ∀ i, (c.loc i).Knows c.shared := by
  refine Reach.invariant (I := fun c : Instances ι =>
    (c.shared.isInitThreadmnager = true → c.shared.threadmanager ≠ none) ∧
      ∀ i, (c.loc i).Knows c.shared) ?_ ?_ h
  · exact And.intro (fun h => absurd h Bool.false_ne_true) fun _ => trivial
  intro c i e g pc' _ hI _ hstep
  obtain ⟨hedge, henabled, rfl⟩ := instanceStep_edge hstep
  obtain ⟨hflag, hknows⟩ := hI
  have hi := hknows i
  refine ⟨fun hset => ?_, fun j => ?_⟩
  · refine e.threadmanager_ne ?_
    generalize c.loc i = pc at hedge hi
    cases hedge with
    | store => exact hi
    | _ => exact hflag hset
  · simp only
    by_cases hj : j = i
    · subst hj
      rw [Function.update_self]
      generalize c.loc j = pc at hedge hi
      cases hedge with
      | assign => exact Option.some_ne_none _
      | ready => exact hflag (beq_iff_eq.mp henabled)
      | null => exact hi (of_decide_eq_true henabled)
      | _ => trivial
    · rw [Function.update_of_ne hj]
      exact (hknows j).effect e

/-- The manager has not been created, or it has been and is about to be
announced or announced. -/
inductive Stands (c : Instances ι) : Prop where
  | before (hcreated : c.shared.created = 0)
      (hpointer : c.shared.threadmanager = none)
      (hflag : c.shared.isInitThreadmnager = false)
      (hstore : ∀ i, c.loc i ≠ .store) (hheld : ∀ i k, c.loc i ≠ .holding k)
  | after (hcreated : c.shared.created = 1)
      (hpointer : c.shared.threadmanager = some 0)
      (hflag : c.shared.isInitThreadmnager = true ∨ ∃ i, c.loc i = .store)
      (hassign : ∀ i, c.loc i ≠ .assign)
      (hheld : ∀ i k, c.loc i = .holding k → k = 0)

/-- A thread that is at a place the step does not lead to was there before. -/
theorem loc_of_update {i j : ι} {pc pc' : InstancePc} {loc : ι → InstancePc}
    (h : Function.update loc i pc' j = pc) (hne : pc' ≠ pc) : loc j = pc := by
  by_cases hj : j = i
  · subst hj
    rw [Function.update_self] at h
    exact absurd h hne
  · rwa [Function.update_of_ne hj] at h

/-- A step that neither creates nor hands out a reference. -/
theorem Stands.keep {i : ι} {pc' : InstancePc} (h : Stands c)
    (hbefore : c.loc i ≠ .store) (hassign : pc' ≠ .assign) (hstore : pc' ≠ .store)
    (hheld : ∀ k, pc' ≠ .holding k) :
    Stands (⟨c.shared, Function.update c.loc i pc'⟩ : Instances ι) := by
  cases h with
  | before hcreated hpointer hflag hst hh =>
      exact .before hcreated hpointer hflag
        (fun j hj => hst j (loc_of_update hj hstore))
        fun j k hj => hh j k (loc_of_update hj (hheld k))
  | after hcreated hpointer hflag has hh =>
      refine .after hcreated hpointer (hflag.imp_right ?_)
        (fun j hj => has j (loc_of_update hj hassign))
        fun j k hj => hh j k (loc_of_update hj (hheld k))
      rintro ⟨j, hj⟩
      refine ⟨j, ?_⟩
      simp only
      rw [Function.update_of_ne]
      · exact hj
      · rintro rfl
        exact hbefore hj

/-- Who creates creates alone. -/
theorem alone (h : Reachable apart c) {i j : ι}
    (hi : (c.loc i).creating = true) (hj : (c.loc j).creating = true) : i = j := by
  refine Reach.invariant (I := fun c : Instances ι => ∀ i j,
    (c.loc i).creating = true → (c.loc j).creating = true → i = j) ?_ ?_ h i j hi hj
  · intro i j hi
    exact absurd hi Bool.false_ne_true
  intro c i e g pc' _ hI hapart hstep
  obtain ⟨hedge, -, rfl⟩ := instanceStep_edge hstep
  -- where the stepping thread creates behind the step, nobody else does
  have hothers : pc'.creating = true → ∀ j, j ≠ i → (c.loc j).creating = false := by
    intro hpc' j hj
    have hpc := hapart
    have hself := hI i j
    unfold apart at hpc
    generalize c.loc i = pc at hedge hpc hself
    cases hedge with
    | missing => exact hpc rfl rfl j
    | assign =>
        cases hcreating : (c.loc j).creating with
        | false => rfl
        | true => exact absurd (hself rfl hcreating).symm hj
    | _ => cases hpc'
  intro j k hj hk
  simp only at hj hk
  by_cases hji : j = i
  · subst hji
    rw [Function.update_self] at hj
    by_cases hkj : k = j
    · exact hkj.symm
    · rw [Function.update_of_ne hkj, hothers hj k hkj] at hk
      cases hk
  · rw [Function.update_of_ne hji] at hj
    by_cases hki : k = i
    · subst hki
      rw [Function.update_self] at hk
      rw [hothers hk j hji] at hj
      cases hj
    · rw [Function.update_of_ne hki] at hk
      exact hI j k hj hk

theorem stands (h : Reachable apart c) : Stands c := by
  refine Reach.invariant (I := Stands) ?_ ?_ h
  · exact .before rfl rfl rfl (fun _ => InstancePc.noConfusion)
      fun _ _ => InstancePc.noConfusion
  intro c i e g pc' hc hstands hapart hstep
  obtain ⟨hedge, henabled, rfl⟩ := instanceStep_edge hstep
  generalize hpc : c.loc i = pc at hedge
  have hkeep : pc ≠ .store → pc' ≠ .assign → pc' ≠ .store → (∀ k, pc' ≠ .holding k) →
      Stands (⟨c.shared, Function.update c.loc i pc'⟩ : Instances ι) :=
    fun hne => hstands.keep (hpc ▸ hne)
  cases hedge with
  | missing =>
      cases hstands with
      | before hcreated hpointer hflag hst hh =>
          exact .before hcreated hpointer hflag
            (fun j hj => hst j (loc_of_update hj InstancePc.noConfusion))
            fun j k hj => hh j k (loc_of_update hj InstancePc.noConfusion)
      | after _ _ hflag _ _ =>
          exfalso
          have hfalse : c.shared.isInitThreadmnager = false := beq_iff_eq.mp henabled
          rcases hflag with hflag | ⟨j, hj⟩
          · rw [hfalse] at hflag
            cases hflag
          · have hnone := hapart hpc rfl j
            rw [hj] at hnone
            cases hnone
  | assign =>
      cases hstands with
      | before hcreated hpointer hflag hst hh =>
          refine .after ?_ ?_ (Or.inr ⟨i, Function.update_self i _ _⟩)
            (fun j hj => ?_) fun j k hj => ?_
          · show c.shared.created + 1 = 1
            rw [hcreated]
          · show some c.shared.created = some 0
            rw [hcreated]
          · have hassign := loc_of_update hj InstancePc.noConfusion
            obtain rfl := alone hc (i := j) (j := i) (by rw [hassign]; rfl)
              (by rw [hpc]; rfl)
            simp only [Function.update_self] at hj
            cases hj
          · exact absurd (loc_of_update hj InstancePc.noConfusion) (hh j k)
      | after _ _ _ has _ => exact absurd hpc (has i)
  | store =>
      cases hstands with
      | before _ _ _ hst _ => exact absurd hpc (hst i)
      | after hcreated hpointer _ has hh =>
          exact .after hcreated hpointer (Or.inl rfl)
            (fun j hj => has j (loc_of_update hj InstancePc.noConfusion))
            fun j k hj => hh j k (loc_of_update hj InstancePc.noConfusion)
  | reference k =>
      have hpointer' : c.shared.threadmanager = some k := of_decide_eq_true henabled
      cases hstands with
      | before _ hpointer _ _ _ =>
          rw [hpointer] at hpointer'
          cases hpointer'
      | after hcreated hpointer hflag has hh =>
          obtain rfl : 0 = k := Option.some.inj (hpointer.symm.trans hpointer')
          refine .after hcreated hpointer (hflag.imp_right ?_)
            (fun j hj => has j (loc_of_update hj InstancePc.noConfusion))
            fun j k hj => ?_
          · rintro ⟨j, hj⟩
            refine ⟨j, ?_⟩
            simp only
            rw [Function.update_of_ne]
            · exact hj
            · rintro rfl
              rw [hpc] at hj
              cases hj
          · simp only at hj
            by_cases hji : j = i
            · subst hji
              rw [Function.update_self] at hj
              exact (InstancePc.holding.inj hj).symm
            · rw [Function.update_of_ne hji] at hj
              exact hh j k hj
  | _ =>
      exact hkeep InstancePc.noConfusion InstancePc.noConfusion
        InstancePc.noConfusion fun _ => InstancePc.noConfusion

/-- **One pool, and references to it.** However the threads interleave, the
null pointer is never dereferenced. Where no two creations overlap, at most
one manager is created, and every reference handed out is to the manager the
instance holds. -/
theorem references_live (h : Reachable anyStep c) :
    (∀ i, c.loc i ≠ .undefined) ∧
    (Reachable apart c → c.shared.created ≤ 1 ∧
      ∀ i k, c.loc i = .holding k → c.shared.threadmanager = some k) := by
  refine ⟨fun i hpc => ?_, fun hapart => ?_⟩
  · have hknows := (knows h).2 i
    rw [hpc] at hknows
    exact hknows
  · cases stands hapart with
    | before hcreated _ _ _ hh =>
        exact ⟨by omega, fun i k hk => absurd hk (hh i k)⟩
    | after hcreated hpointer _ _ hh =>
        refine ⟨by omega, fun i k hk => ?_⟩
        rw [hh i k hk]
        exact hpointer

instance (c c' : Instances ι) (i : ι) (e : InstanceEvent) :
    Decidable (anyStep c i e c') :=
  inferInstanceAs (Decidable True)

instance [Fintype ι] (c c' : Instances ι) (i : ι) (e : InstanceEvent) :
    Decidable (apart c i e c') :=
  inferInstanceAs (Decidable (c.loc i = .createLoad → e = .load false →
    ∀ j, (c.loc j).creating = false))

/-- One thread creates the manager, another one gets it. -/
def createdRun : List (Fin 2 × InstanceEvent) :=
  [(0, .createThreadManager), (0, .load false), (0, .assign), (0, .store),
    (1, .getThreadManager), (1, .load true), (1, .reference 0)]

theorem references_live_created : ∃ c : Instances (Fin 2),
    c.loc 1 = .holding 0 ∧ c.shared.threadmanager = some 0 := by
  have hrun : (runSteps instanceStep apart (init (Fin 2)) createdRun).any
      (fun c => decide (c.loc 1 = .holding 0)) = true := by
    decide
  obtain ⟨c, hreach, hend⟩ := Reach.run_any .start hrun
  have hheld : c.loc 1 = .holding 0 := of_decide_eq_true hend
  obtain ⟨-, hlive⟩ := references_live (hreach.mono fun _ _ _ _ _ => trivial)
  exact ⟨c, hheld, (hlive hreach).2 1 0 hheld⟩

/-- Two threads read the flag as false; the second one assigns when the first
one's manager has already been handed out. -/
def overlappingRun : List (Fin 2 × InstanceEvent) :=
  [(0, .createThreadManager), (1, .createThreadManager), (0, .load false),
    (1, .load false), (0, .assign), (0, .store), (0, .getThreadManager),
    (0, .load true), (0, .reference 0), (1, .assign)]

/-- Two creations that overlap leave a thread with a reference to a manager
that has been destroyed. -/
theorem overlapping_dangles : ∃ c : Instances (Fin 2), Reachable anyStep c ∧
    c.loc 0 = .holding 0 ∧ c.shared.threadmanager = some 1 := by
  have hrun : (runSteps instanceStep anyStep (init (Fin 2)) overlappingRun).any
      (fun c => decide (c.loc 0 = .holding 0) &&
        decide (c.shared.threadmanager = some 1)) = true := by
    decide
  obtain ⟨c, hreach, hend⟩ := Reach.run_any .start hrun
  obtain ⟨hheld, hpointer⟩ := (Bool.and_eq_true _ _).mp hend
  exact ⟨c, hreach, of_decide_eq_true hheld,
    of_decide_eq_true hpointer⟩

end Instances

end Mtasc
