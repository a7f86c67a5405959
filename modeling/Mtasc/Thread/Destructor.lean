import Mtasc.Thread.Progress

/-!
# `~ThreadManager`

The destructor sets `M_stop`, reads it back, notifies and joins; it waits for
nothing but the workers. With the joins left out, a run with the destructor is
a run with a `waitAllthread` that never gets further than its first lock, so
that what holds of the pool up to there holds of the destructor; in particular
the workers drain the queue before they can be joined.
-/

namespace Mtasc

open Lib

variable {τ : Type} {n m : ℕ}

/-! ## The pool and its destructor -/

inductive DtorPc (τ : Type) where
  /-- A worker, or a thread that submits. -/
  | thread (pc : Pc τ)
  -- the thread that destroys the pool
  | storeStop
  | loadStop
  | notifyAll
  | joining (k : ℕ)
  /-- `M_stop` has been read as false. -/
  | skipped
deriving DecidableEq

def DtorPc.isThread : DtorPc τ → Bool
  | .thread _ => true
  | _ => false

/-- The place of the pool that corresponds to it. -/
def DtorPc.toPc : DtorPc τ → Pc τ
  | .thread pc => pc
  | .storeStop => .storeStop
  | .loadStop => .stopNotify
  | .notifyAll => .stopNotify
  | .joining _ => .waitLock
  | .skipped => .stopNotify

abbrev DtorPool (τ : Type) (n m : ℕ) : Type :=
  Config (Tid n m) (Shared τ n m) (DtorPc τ)

namespace DtorPool

def init (τ : Type) (n m : ℕ) : DtorPool τ n m where
  shared := {}
  loc
    | .worker _ => .thread .lockTasks
    | .client _ => .thread .idle
    | .closer => .storeStop

/-- The pool without the joins. -/
def pool (c : DtorPool τ n m) : Pool τ n m := ⟨c.shared, DtorPc.toPc ∘ c.loc⟩

end DtorPool

/-- The rows of `DtorPc.next`. -/
inductive DtorEdge : DtorPc τ → Event τ n m → DtorPc τ → Prop where
  | thread {pc pc' : Pc τ} {e : Event τ n m} (h : Edge pc e pc') :
      DtorEdge (.thread pc) e (.thread pc')
  | storeStop : DtorEdge .storeStop .storeStop .loadStop
  | stopped : DtorEdge .loadStop (.loadStop true) .notifyAll
  | running : DtorEdge .loadStop (.loadStop false) .skipped
  | notifyAll : DtorEdge .notifyAll .notifyAll (.joining 0)
  | join (i : Fin n) :
      DtorEdge (.joining i.val) (.join (.worker i)) (.joining (i.val + 1))

/-- A row is a row of the pool, or nothing happens there. -/
theorem DtorEdge.toPc {pc pc' : DtorPc τ} {e : Event τ n m}
    (h : DtorEdge pc e pc') : Edge pc.toPc e pc'.toPc ∨
      (pc'.toPc = pc.toPc ∧ ∀ t g, e.effect t g = g) := by
  cases h with
  | thread h => exact Or.inl h
  | storeStop => exact Or.inl .storeStop
  | stopped => exact Or.inr ⟨rfl, fun _ _ => rfl⟩
  | running => exact Or.inr ⟨rfl, fun _ _ => rfl⟩
  | notifyAll => exact Or.inl .stopNotify
  | join i => exact Or.inr ⟨rfl, fun _ _ => rfl⟩

theorem DtorEdge.from_joining {pc' : DtorPc τ} {e : Event τ n m} {k : ℕ}
    (h : DtorEdge (.joining k) e pc') : ∃ i : Fin n, i.val = k := by
  cases h with
  | join i => exact ⟨i, rfl⟩

variable [DecidableEq τ]

/-- The code of the threads. -/
def DtorPc.next : DtorPc τ → Event τ n m → Option (DtorPc τ)
  | .thread pc, e => (pc.next e).map .thread
  | .storeStop, .storeStop => some .loadStop
  | .loadStop, .loadStop true => some .notifyAll
  | .loadStop, .loadStop false => some .skipped
  | .notifyAll, .notifyAll => some (.joining 0)
  | .joining k, .join (.worker i) =>
      if i.val = k then some (.joining (k + 1)) else none
  | _, _ => none

def dtorStep (t : Tid n m) (g : Shared τ n m) (pc : DtorPc τ) (e : Event τ n m) :
    Option (Shared τ n m × DtorPc τ) :=
  match pc.next e with
  | some pc' => if e.enabled t g then some (e.effect t g, pc') else none
  | none => none

/-- The states of the runs whose steps satisfy `ok`. -/
abbrev DtorPool.Reachable (ok : Pool.StepRule τ n m) (c : DtorPool τ n m) : Prop :=
  Reach dtorStep (fun c t e c' => ok (DtorPool.pool c) t e (DtorPool.pool c'))
    (DtorPool.init τ n m) c

theorem DtorPc.next_edge {pc pc' : DtorPc τ} {e : Event τ n m}
    (h : pc.next e = some pc') : DtorEdge pc e pc' := by
  unfold DtorPc.next at h
  split at h
  · obtain ⟨pc', hnext, rfl⟩ := Option.map_eq_some_iff.mp h
    exact .thread (Pc.next_edge hnext)
  · cases h
    exact .storeStop
  · cases h
    exact .stopped
  · cases h
    exact .running
  · cases h
    exact .notifyAll
  · split at h
    · next i hi =>
      cases h
      subst hi
      exact .join i
    · cases h
  · cases h

theorem DtorEdge.next {pc pc' : DtorPc τ} {e : Event τ n m}
    (h : DtorEdge pc e pc') : pc.next e = some pc' := by
  cases h with
  | thread h => simp [DtorPc.next, h.next]
  | join i => simp [DtorPc.next]
  | _ => rfl

theorem dtorStep_edge {t : Tid n m} {g g' : Shared τ n m} {pc pc' : DtorPc τ}
    {e : Event τ n m} (h : dtorStep t g pc e = some (g', pc')) :
    DtorEdge pc e pc' ∧ e.enabled t g = true ∧ g' = e.effect t g := by
  unfold dtorStep at h
  split at h
  · next hnext =>
    split at h
    · next henabled =>
      cases h
      exact ⟨DtorPc.next_edge hnext, henabled, rfl⟩
    · cases h
  · cases h

variable {ok : Pool.StepRule τ n m} {c : DtorPool τ n m}

/-- **The destructor refines `waitAllthread`**, up to the joins. -/
theorem DtorPool.pool_reachable (h : Reachable ok c) :
    Pool.Reachable ok c.pool := by
  have hinit : DtorPool.pool (DtorPool.init τ n m) = Pool.init τ n m := by
    refine congrArg (Config.mk _) (funext fun t => ?_)
    cases t <;> rfl
  rw [Pool.Reachable, ← hinit]
  refine Reach.simulate DtorPool.pool ?_ h
  intro c t e g pc' _ hok hstep
  obtain ⟨hedge, henabled, rfl⟩ := dtorStep_edge hstep
  rcases hedge.toPc with hpool | ⟨hpc, heffect⟩
  · refine Or.inr ⟨e, hok, ?_⟩
    have hstep : poolStep t (DtorPool.pool c).shared ((DtorPool.pool c).loc t) e =
        some (e.effect t c.shared, pc'.toPc) := by
      have hnext : Pc.next ((DtorPool.pool c).loc t) e = some pc'.toPc := hpool.next
      have hen : e.enabled t (DtorPool.pool c).shared = true := henabled
      simp only [poolStep, hnext, hen, if_true]
      rfl
    rw [Lib.move, hstep]
    simp only [Option.map_some, DtorPool.pool, Function.comp_update]
  · refine Or.inl ?_
    simp only [DtorPool.pool, Function.comp_update, heffect, hpc]
    exact congrArg (Config.mk _) (Function.update_eq_self t _)

/-! ## Roles, and who has been joined -/

theorem DtorPool.isThread (h : Reachable ok c) (t : Tid n m) :
    (c.loc t).isThread = decide (t ≠ .closer) := by
  refine Reach.forall_thread
    (P := fun t _ pc => DtorPc.isThread pc = decide (t ≠ (.closer : Tid n m)))
    (fun t => by cases t <;> rfl) ?_ (fun _ _ _ _ _ u _ hP _ _ => hP u) h t
  intro c t e g pc' _ hP hstep
  obtain ⟨hedge, -, -⟩ := dtorStep_edge hstep
  rw [← hP t]
  generalize c.loc t = pc at hedge
  cases hedge <;> rfl

/-- The destructor does join. -/
theorem DtorPool.never_skipped (h : Reachable ok c) :
    c.loc .closer ≠ .skipped := by
  refine Reach.invariant (I := fun c : DtorPool τ n m => c.loc .closer ≠ .skipped)
    (fun hpc => by cases hpc) ?_ h
  intro c t e g pc' hc hI _ hstep hpc
  obtain ⟨hedge, henabled, rfl⟩ := dtorStep_edge hstep
  by_cases ht : t = .closer
  · subst ht
    simp only [Function.update_self] at hpc
    subst hpc
    generalize hbefore : c.loc .closer = pc at hedge
    cases hedge
    have hstop := Pool.stop_of_closer (DtorPool.pool_reachable hc)
      (by
        intro heq
        have : DtorPc.toPc (c.loc .closer) = .storeStop := heq
        rw [hbefore] at this
        cases this)
    have hopen : c.shared.stop = false := beq_iff_eq.mp henabled
    rw [show c.shared.stop = true from hstop] at hopen
    cases hopen
  · simp only [Function.update_of_ne (Ne.symm ht)] at hpc
    exact hI hpc

/-- The joins so far. -/
theorem DtorPool.joined (h : Reachable ok c) {k : ℕ}
    (hpc : c.loc .closer = .joining k) :
    k ≤ n ∧ ∀ i : Fin n, i.val < k → .worker i ∈ c.shared.terminated := by
  refine Reach.invariant (I := fun c : DtorPool τ n m => ∀ k,
    c.loc .closer = .joining k → k ≤ n ∧
      ∀ i : Fin n, i.val < k → .worker i ∈ c.shared.terminated)
    (fun k hpc => by cases hpc) ?_ h k hpc
  intro c t e g pc' hc hI _ hstep k hpc
  obtain ⟨hedge, henabled, rfl⟩ := dtorStep_edge hstep
  by_cases ht : t = .closer
  · subst ht
    simp only [Function.update_self] at hpc
    subst hpc
    generalize hbefore : c.loc .closer = pc at hedge
    cases hedge with
    | notifyAll => exact ⟨Nat.zero_le n, fun i hi => absurd hi (Nat.not_lt_zero _)⟩
    | join i =>
        refine ⟨i.isLt, fun i' hi' => ?_⟩
        rcases Nat.lt_succ_iff_lt_or_eq.mp hi' with hlt | heq
        · exact (hI i.val hbefore).2 i' hlt
        · obtain rfl : i' = i := Fin.ext heq
          exact of_decide_eq_true henabled
  · simp only [Function.update_of_ne (Ne.symm ht)] at hpc
    obtain ⟨hle, hterm⟩ := hI k hpc
    exact ⟨hle, fun i hi => e.terminated_mono (hterm i hi)⟩

theorem DtorPool.left_of_joined (h : Reachable ok c)
    (hpc : c.loc .closer = .joining n) (i : Fin n) :
    c.loc (.worker i) = .thread .left := by
  have hleft := Pool.terminated_left (DtorPool.pool_reachable h)
    ((DtorPool.joined h hpc).2 i i.isLt)
  have hthread := DtorPool.isThread h (.worker i)
  have hto : (c.loc (.worker i)).toPc = .left := hleft
  generalize c.loc (.worker i) = pc at hthread hto
  cases pc with
  | thread pc =>
      have hpc : pc = .left := hto
      rw [hpc]
  | _ => cases hthread

/-- When the destructor has joined all workers, they have left their loops. -/
theorem DtorPool.all_left (h : Reachable ok c)
    (hjoined : c.loc .closer = .joining n) (i : Fin n) :
    (c.pool.loc (.worker i)).hasLeft = true := by
  rw [show c.pool.loc (.worker i) = (c.loc (.worker i)).toPc from rfl,
    DtorPool.left_of_joined h hjoined i]
  rfl

/-- **The destructor drains the pool.** When it has joined all workers, and the
calls from outside had returned before it was entered, the queue is empty and
what was submitted has been run, each task once; and the counter is zero if the
pending tasks stayed inside `int`. -/
theorem DtorPool.drains (hn : 0 < n) (h : Reachable Pool.closedBySubmitters c)
    (hjoined : c.loc .closer = .joining n) :
    c.shared.tasks = [] ∧ c.shared.ran.Perm c.shared.pushed ∧
    (Reachable (fun c t e c' =>
        Pool.closedBySubmitters c t e c' ∧ Pool.withinInt c t e c') c →
      c.shared.threadRurinngCount = 0) := by
  have hpool := DtorPool.pool_reachable h
  have hleft := DtorPool.all_left h hjoined
  refine ⟨Pool.left_tasks hn (fun _ _ _ _ => id) hpool hleft,
    Pool.left_ran hn (fun _ _ _ _ => id) hpool hleft, fun hint => ?_⟩
  exact Pool.left_count hn (fun _ _ _ _ hok => hok.1)
    (fun _ _ _ _ hok => hok.2) (DtorPool.pool_reachable hint) hleft

/-! ## It does not hang -/

/-- No thread can take a step by itself. -/
def DtorPool.Stuck (c : DtorPool τ n m) : Prop :=
  ∀ t e, e.outside = false → dtorStep t c.shared (c.loc t) e = none

def Event.notifies : Event τ n m → Bool
  | .notifyOne _ => true
  | .notifyAll => true
  | _ => false

/-- The runs in which no notification falls between a worker's predicate and
its wait, and the outside submissions have returned before the destructor. Its
read of `M_stop`, which the pool does not have, may fall there. -/
def DtorPool.orderly : Pool.StepRule τ n m := fun c t e c' =>
  (e.notifies = true → Pool.notifiesAwake c t e c') ∧
    Pool.closedBySubmitters c t e c'

instance (c c' : Pool τ n m) (t : Tid n m) (e : Event τ n m) :
    Decidable (DtorPool.orderly c t e c') :=
  inferInstanceAs (Decidable ((e.notifies = true → Pool.notifiesAwake c t e c') ∧
    Pool.closedBySubmitters c t e c'))

/-- In the pool only a notification is made at `stopNotify`. -/
theorem DtorPool.notifies_awake (h : Reachable DtorPool.orderly c) :
    Pool.Reachable Pool.notifiesAwake c.pool := by
  refine (DtorPool.pool_reachable h).mono_step ?_
  intro c t e c' hmove hok
  cases hnotifies : e.notifies with
  | true => exact hok.1 hnotifies
  | false =>
      obtain ⟨g, pc', hstep, -⟩ := move_eq_some hmove
      obtain ⟨hedge, -, -⟩ := poolStep_edge hstep
      constructor
      · rintro - - ⟨w, rfl⟩
        cases hnotifies
      · intro hpc
        rw [hpc] at hedge
        cases hedge
        cases hnotifies

theorem DtorPool.Stuck.no_row {t : Tid n m} {e : Event τ n m} {pc' : DtorPc τ}
    (hstuck : c.Stuck) (hedge : DtorEdge (c.loc t) e pc')
    (hout : e.outside = false) : e.enabled t c.shared = false := by
  have hnone := hstuck t e hout
  cases henabled : e.enabled t c.shared with
  | false => rfl
  | true => simp [dtorStep, hedge.next, henabled] at hnone

theorem DtorPool.Stuck.waits (hstuck : c.Stuck) {t : Tid n m} {pc : Pc τ}
    (hpc : c.loc t = .thread pc) : pc.waits t c.shared := by
  rcases pc.waits_or_goes (t := t) (g := c.shared) with
    hwait | ⟨e, pc', hedge, henabled, hout⟩
  · exact hwait
  · have hrow : DtorEdge (c.loc t) e (.thread pc') := by
      rw [hpc]
      exact .thread hedge
    have hnot := hstuck.no_row hrow hout
    rw [henabled] at hnot
    cases hnot

/-- Where the threads of a pool are in which nobody can go on. -/
theorem DtorPool.Stuck.threads (h : Reachable ok c) (hstuck : c.Stuck) :
    (∀ j, c.pool.loc (.client j) = .idle) ∧
    ∀ i, (c.pool.loc (.worker i) = .waiting ∧ .worker i ∈ c.shared.waiters) ∨
      c.pool.loc (.worker i) = .left := by
  have hpool := DtorPool.pool_reachable h
  have hthread : ∀ t, t ≠ .closer → (c.pool.loc t).waits t c.shared := by
    intro t ht
    have his := DtorPool.isThread h t
    rw [decide_eq_true ht] at his
    cases hpc : c.loc t with
    | thread pc =>
        rw [show c.pool.loc t = (c.loc t).toPc from rfl, hpc]
        exact hstuck.waits hpc
    | _ =>
        rw [hpc] at his
        cases his
  have hfree : ∀ x, c.pool.shared.owner x = none := by
    intro x
    refine Pool.owner_free hpool fun t => ?_
    by_cases ht : t = .closer
    · right
      subst ht
      have his := DtorPool.isThread h (.closer : Tid n m)
      rw [show c.pool.loc .closer = (c.loc .closer).toPc from rfl]
      generalize c.loc .closer = pc at his
      cases pc with
      | thread pc => cases his
      | _ => rfl
    · exact Or.inl (hthread t ht)
  exact ⟨fun j => Pool.client_rest hpool hfree (hthread _ (fun heq => by cases heq)),
    fun i => Pool.worker_rest hpool hfree (hthread _ (fun heq => by cases heq))⟩

/-- **The destructor does not hang** where no wake-up is lost, whatever the
counter says: a state in which no thread can go on has an empty queue, every
submitted task has been run once, and a destructor that has begun has joined
all workers. -/
theorem DtorPool.destruction_finished (hn : 0 < n) (h : Reachable DtorPool.orderly c)
    (hstuck : c.Stuck) :
    c.shared.tasks = [] ∧ c.shared.ran.Perm c.shared.pushed ∧
    (c.loc .closer = .storeStop ∨ c.loc .closer = .joining n) := by
  have hpool := DtorPool.pool_reachable h
  have hawake := DtorPool.notifies_awake h
  obtain ⟨hclient, hworker⟩ := hstuck.threads h
  have hrow : ∀ {pc pc' : DtorPc τ} {e : Event τ n m}, c.loc .closer = pc →
      DtorEdge pc e pc' → e.outside = false → e.enabled .closer c.shared = true →
      False := by
    rintro pc pc' e rfl hedge hout henabled
    have hnot := hstuck.no_row hedge hout
    rw [henabled] at hnot
    cases hnot
  cases hpc : c.loc .closer with
  | thread pc =>
      have his := DtorPool.isThread h (.closer : Tid n m)
      rw [hpc] at his
      cases his
  | storeStop =>
      have hsleep : ∀ i, c.pool.loc (.worker i) = .waiting ∧
          .worker i ∈ c.shared.waiters := by
        intro i
        refine (hworker i).resolve_right fun hleft => ?_
        -- nobody leaves before the destructor begins
        have hstop := (Pool.mayLeave hpool (.worker i)).stop (by rw [hleft]; rfl)
        rcases Pool.clients_idle (fun _ _ _ _ hok => hok.2) hpool with
          ⟨-, hopen⟩ | ⟨hne, -⟩
        · rw [hstop] at hopen
          cases hopen
        · exact hne (congrArg DtorPc.toPc hpc)
      have hquiet : ∀ t, (c.pool.loc t).carried = 0 ∧
          (c.pool.loc t).notifying = false := by
        intro t
        cases t with
        | worker i =>
            rw [(hsleep i).1]
            exact ⟨rfl, rfl⟩
        | client j =>
            rw [hclient j]
            exact ⟨rfl, rfl⟩
        | closer =>
            rw [show c.pool.loc .closer = .storeStop from
              congrArg DtorPc.toPc hpc]
            exact ⟨rfl, rfl⟩
      have hempty : c.shared.tasks = [] := by
        by_contra hne
        obtain ⟨i, hup, -⟩ := Pool.alert hn hawake hne fun t => (hquiet t).2
        exact hup (hsleep i).2
      exact ⟨hempty, Pool.ran_of_quiet hpool hempty fun t => (hquiet t).1,
        Or.inl rfl⟩
  | loadStop =>
      cases hstop : c.shared.stop with
      | true => exact (hrow hpc .stopped rfl (beq_iff_eq.mpr hstop)).elim
      | false => exact (hrow hpc .running rfl (beq_iff_eq.mpr hstop)).elim
  | notifyAll => exact (hrow hpc .notifyAll rfl rfl).elim
  | joining k =>
      obtain ⟨hle, -⟩ := DtorPool.joined h hpc
      rcases Nat.eq_or_lt_of_le hle with rfl | hlt
      · have hleft := DtorPool.all_left h hpc
        exact ⟨Pool.left_tasks hn (fun _ _ _ _ hok => hok.2) hpool hleft,
          Pool.left_ran hn (fun _ _ _ _ hok => hok.2) hpool hleft, Or.inr rfl⟩
      · exfalso
        rcases hworker ⟨k, hlt⟩ with ⟨-, hmem⟩ | hleft
        · refine (Pool.stopped_awake hawake ?_ ⟨k, hlt⟩).1 hmem
          rw [show c.pool.loc .closer = .waitLock from congrArg DtorPc.toPc hpc]
          rfl
        · exact hrow hpc (.join ⟨k, hlt⟩) rfl
            (decide_eq_true (Pool.left_terminated hpool hleft))
  | skipped => exact absurd hpc (DtorPool.never_skipped h)

/-! ## A run -/

/-- One task, and a destructor behind it that reads `M_stop` back in front of
the worker's wait and notifies behind it. -/
def destroyedRun : List (Tid 1 1 × Event Unit 1 1) :=
  servedRun () ++ [(onlyWorker, .lock .tasksMutex),
    (onlyWorker, .tasksEmpty true), (onlyWorker, .loadStop false),
    (.closer, .storeStop), (.closer, .loadStop true),
    (onlyWorker, .block .tasksMutex), (.closer, .notifyAll),
    (onlyWorker, .woken)] ++ leavingRun ++ [(.closer, .join onlyWorker)]

theorem DtorPool.destroyed : ∃ c : DtorPool Unit 1 1,
    Reachable DtorPool.orderly c ∧ c.loc (.worker 0) = .thread .left ∧
    c.loc (.client 0) = .thread .idle ∧ c.loc .closer = .joining 1 ∧
    c.shared.ran = [()] := by
  have hrun : (runSteps dtorStep
      (fun c t e c' => DtorPool.orderly (pool c) t e (pool c'))
      (DtorPool.init Unit 1 1) destroyedRun).any
      (fun c => decide (c.loc (.worker 0) = .thread .left) &&
        decide (c.loc (.client 0) = .thread .idle) &&
        decide (c.loc .closer = .joining 1) &&
        decide (c.shared.ran = [()])) = true := by
    decide +kernel
  obtain ⟨c, hreach, hend⟩ := Reach.run_any .start hrun
  simp only [Bool.and_eq_true, decide_eq_true_eq] at hend
  obtain ⟨⟨⟨hworker, hclient⟩, hcloser⟩, hran⟩ := hend
  exact ⟨c, hreach, hworker, hclient, hcloser, hran⟩

theorem DtorPool.drains_destroyed : ∃ c : DtorPool Unit 1 1,
    c.shared.ran = [()] ∧ c.shared.tasks = [] ∧
    c.shared.ran.Perm c.shared.pushed := by
  obtain ⟨c, hreach, -, -, hcloser, hran⟩ := DtorPool.destroyed
  obtain ⟨htasks, hperm, -⟩ := DtorPool.drains Nat.one_pos
    (hreach.mono fun _ _ _ _ hok => hok.2) hcloser
  exact ⟨c, hran, htasks, hperm⟩

theorem DtorPool.destruction_finished_destroyed : ∃ c : DtorPool Unit 1 1,
    c.shared.ran = [()] ∧ c.loc .closer = .joining 1 ∧
    c.shared.tasks = [] ∧ c.shared.ran.Perm c.shared.pushed ∧
    (c.loc .closer = .storeStop ∨ c.loc .closer = .joining 1) := by
  obtain ⟨c, hreach, hworker, hclient, hcloser, hran⟩ := DtorPool.destroyed
  refine ⟨c, hran, hcloser,
    DtorPool.destruction_finished Nat.one_pos hreach fun t e hout => ?_⟩
  cases hstep : dtorStep t c.shared (c.loc t) e with
  | none => rfl
  | some r =>
      obtain ⟨g', pc'⟩ := r
      obtain ⟨hedge, -, -⟩ := dtorStep_edge hstep
      cases t with
      | worker i =>
          rw [Fin.fin_one_eq_zero i, hworker] at hedge
          cases hedge with
          | thread h => cases h
      | client j =>
          rw [Fin.fin_one_eq_zero j, hclient] at hedge
          cases hedge with
          | thread h =>
              cases h
              cases hout
      | closer =>
          rw [hcloser] at hedge
          obtain ⟨i, hi⟩ := hedge.from_joining
          exact absurd hi (Nat.ne_of_lt i.isLt)

end Mtasc
