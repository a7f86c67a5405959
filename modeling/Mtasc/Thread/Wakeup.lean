import Mtasc.Thread.Shutdown

/-!
# Wake-ups

A worker tests its predicate and joins the wait set in two steps, and what
should keep a notification out of the time between them is the mutex it holds
meanwhile. `asyncTaskret` pushes under that mutex. `asyncTaskvoid` pushes under
the other one, and `waitAllthread` sets `M_stop` under none, so their
notifications can fall into that time and be lost. In the runs where they do
not, no wake-up is lost.
-/

namespace Mtasc

open Lib

variable {τ : Type} {n m : ℕ}

/-! ## The places that matter -/

/-- Between the push and the end of the notification. -/
def Stage.notifying : Stage → Bool
  | .increment => true
  | .unlock => true
  | .notify => true
  | _ => false

/-- Between a push and its `notify_one`. -/
def Pc.notifying (pc : Pc τ) : Bool :=
  pc.submission.any fun s => s.stage.notifying

def Pc.voidNotifying (pc : Pc τ) : Bool :=
  pc.submission.any fun s => decide (s.path = .asyncTaskvoid) && s.stage.notifying

/-- In front of joining the wait set: the queue has been read as empty, and
`M_stop` as false or is about to be. -/
def Pc.blind (stop : Bool) : Pc τ → Bool
  | .predStop => !stop
  | .block => true
  | _ => false

def Pc.asleep : Pc τ → Bool
  | .waiting => true
  | .waitWaiting => true
  | _ => false

theorem SubmissionEdge.notifying {path : Path} {x : τ} {stage stage' : Stage}
    {e : Event τ n m} (h : SubmissionEdge path x stage e (some stage'))
    (hstage : stage.notifying = true) : stage'.notifying = true := by
  cases h <;> first | rfl | cases hstage

theorem SubmissionEdge.notifyOne {path : Path} {x : τ} {stage : Stage}
    {e : Event τ n m} (h : SubmissionEdge path x stage e none) :
    ∃ w, e = .notifyOne w := by
  cases h
  exact ⟨_, rfl⟩

/-- A submission that has pushed stays so until its `notify_one`. -/
theorem Edge.notifying {pc pc' : Pc τ} {e : Event τ n m} (h : Edge pc e pc')
    (hpc : pc.notifying = true) :
    (∃ w, e = .notifyOne w) ∨ pc'.notifying = true := by
  cases h with
  | taskSubmit _ _ _ h => exact Or.inr (h.notifying hpc)
  | taskReturn _ _ _ h => exact Or.inl h.notifyOne
  | submit _ _ h => exact Or.inr (h.notifying hpc)
  | «return» _ _ h => exact Or.inl h.notifyOne
  | _ => cases hpc

theorem Edge.voidNotifying {pc pc' : Pc τ} {e : Event τ n m}
    (h : Edge pc e pc') (hpc : pc.voidNotifying = true) :
    (∃ w, e = .notifyOne w) ∨ pc'.voidNotifying = true := by
  cases h with
  | taskSubmit _ _ _ h =>
      obtain ⟨hpath, hstage⟩ := (Bool.and_eq_true _ _).mp hpc
      exact Or.inr ((Bool.and_eq_true _ _).mpr ⟨hpath, h.notifying hstage⟩)
  | taskReturn _ _ _ h => exact Or.inl h.notifyOne
  | submit _ _ h =>
      obtain ⟨hpath, hstage⟩ := (Bool.and_eq_true _ _).mp hpc
      exact Or.inr ((Bool.and_eq_true _ _).mpr ⟨hpath, h.notifying hstage⟩)
  | «return» _ _ h => exact Or.inl h.notifyOne
  | _ => cases hpc

theorem Edge.pushBack_notifying {pc pc' : Pc τ} {x : τ}
    (h : Edge pc (.pushBack x : Event τ n m) pc') : pc'.notifying = true ∧
      (pc'.voidNotifying = true ∨ pc.holds .tasksMutex = true) := by
  have hpath : ∀ path : Path, (decide (path = .asyncTaskvoid) && true) = true ∨
      (true && decide (path.mutex = .tasksMutex)) = true := by
    intro path
    cases path
    · exact Or.inl rfl
    · exact Or.inr rfl
  cases h with
  | taskSubmit _ _ path h =>
      cases h
      exact ⟨rfl, hpath path⟩
  | taskReturn _ _ _ h => cases h
  | submit _ path h =>
      cases h
      exact ⟨rfl, hpath path⟩
  | «return» _ _ h => cases h

/-- A thread that notifies is awake, before and after. -/
theorem Edge.notifyOne_spec {pc pc' : Pc τ} {w : Option (Tid n m)}
    (h : Edge pc (.notifyOne w) pc') : pc.asleep = false ∧
      pc'.asleep = false ∧ ∀ stop, pc'.blind stop = false := by
  cases h with
  | taskSubmit _ _ _ h => cases h
  | taskReturn _ _ _ h => exact ⟨rfl, rfl, fun _ => rfl⟩
  | submit _ _ h => cases h
  | «return» _ _ h => exact ⟨rfl, rfl, fun _ => rfl⟩

theorem Edge.pushBack_sighted {pc pc' : Pc τ} {x : τ}
    (h : Edge pc (.pushBack x : Event τ n m) pc') (stop : Bool) :
    pc.blind stop = false := by
  cases h <;> rfl

theorem Pc.blind_holds {pc : Pc τ} {stop : Bool} (h : pc.blind stop = true) :
    pc.holds .tasksMutex = true := by
  cases pc <;> first | rfl | cases h

theorem Pc.blind_mono {pc : Pc τ} {stop : Bool} (h : pc.blind stop = false) :
    pc.blind true = false := by
  cases pc <;> first | rfl | cases h

theorem Pc.blind_true {pc : Pc τ} (h : pc ≠ .block) :
    pc.blind true = false := by
  cases pc <;> first | rfl | exact absurd rfl h

theorem Pc.blind_asleep {pc : Pc τ} (h : pc.asleep = true) (stop : Bool) :
    pc.blind stop = false := by
  cases pc <;> first | rfl | cases h

theorem Pc.notifying_of_void {pc : Pc τ} (h : pc.voidNotifying = true) :
    pc.notifying = true := by
  unfold Pc.voidNotifying at h
  unfold Pc.notifying
  cases hs : pc.submission with
  | none =>
      rw [hs] at h
      cases h
  | some s =>
      rw [hs] at h
      exact ((Bool.and_eq_true _ _).mp h).2

/-- How a thread gets in front of the wait set. -/
theorem Edge.blind [DecidableEq τ] {pc pc' : Pc τ} {e : Event τ n m}
    {t : Tid n m} {g : Shared τ n m} (h : Edge pc e pc')
    (henabled : e.enabled t g = true)
    (hpc' : pc'.blind (e.effect t g).stop = true) :
    e = .tasksEmpty true ∨ pc.blind g.stop = true := by
  cases h with
  | predEmpty => exact Or.inl rfl
  | predFalse =>
      right
      have hstop : g.stop = false := beq_iff_eq.mp henabled
      rw [Pc.blind, hstop]
      rfl
  | _ => cases hpc'

/-! ## The wait set -/

theorem Event.mem_effect_waiters {t u : Tid n m} {g : Shared τ n m}
    {e : Event τ n m} (h : u ∈ (e.effect t g).waiters) :
    u ∈ g.waiters ∨ (u = t ∧ ∃ x, e = .block x) := by
  cases e with
  | block x =>
      rcases Finset.mem_insert.mp h with rfl | hmem
      · exact Or.inr ⟨rfl, x, rfl⟩
      · exact Or.inl hmem
  | notifyOne w =>
      cases w with
      | none => exact Or.inl h
      | some w => exact Or.inl (Finset.mem_of_mem_erase h)
  | notifyAll => exact absurd h (Finset.notMem_empty u)
  | spurious => exact Or.inl (Finset.mem_of_mem_erase h)
  | timeout => exact Or.inl (Finset.mem_of_mem_erase h)
  | _ => exact Or.inl h

theorem Edge.asleep [DecidableEq τ] {pc pc' : Pc τ} {e : Event τ n m}
    {t : Tid n m} {g : Shared τ n m} (h : Edge pc e pc')
    (henabled : e.enabled t g = true) (hbefore : t ∈ g.waiters → pc.asleep = true)
    (hmem : t ∈ (e.effect t g).waiters) : pc'.asleep = true := by
  rcases Event.mem_effect_waiters hmem with hold | ⟨-, x, rfl⟩
  · have hpc := hbefore hold
    cases h with
    | woken => exact absurd hold (of_decide_eq_true henabled)
    | spurious => exact absurd rfl (Finset.ne_of_mem_erase hmem)
    | waitWoken => exact absurd hold (of_decide_eq_true henabled)
    | waitSpurious => exact absurd rfl (Finset.ne_of_mem_erase hmem)
    | waitTimeout => exact absurd rfl (Finset.ne_of_mem_erase hmem)
    | _ => cases hpc
  · cases h with
    | block => rfl
    | waitBlock => rfl
    | taskSubmit _ _ _ h => cases h
    | taskReturn _ _ _ h => cases h
    | submit _ _ h => cases h
    | «return» _ _ h => cases h

theorem Pc.asleep_role {pc : Pc τ} (h : pc.asleep = true) :
    pc.role = .worker ∨ pc.role = .closer := by
  cases pc <;> first | exact Or.inl rfl | exact Or.inr rfl | cases h

theorem Edge.block_eq {pc pc' : Pc τ} {x : Mutex}
    (h : Edge pc (.block x : Event τ n m) pc') (hrole : pc.role = .worker) :
    pc = .block := by
  cases h with
  | block => rfl
  | waitBlock => cases hrole
  | taskSubmit _ _ _ h => cases h
  | taskReturn _ _ _ h => cases h
  | submit _ _ h => cases h
  | «return» _ _ h => cases h

/-- The places of `waitAllthread` before its `notify_all`. -/
def Pc.beforeNotifyAll : Pc τ → Bool
  | .storeStop => true
  | .stopNotify => true
  | _ => false

theorem Pc.asleep_before {pc : Pc τ} (h : pc.beforeNotifyAll = true) :
    pc.asleep = false := by
  cases pc <;> first | rfl | cases h

theorem Edge.notifyAll_issued {pc pc' : Pc τ} {e : Event τ n m}
    (h : Edge pc e pc') (hpc : pc.beforeNotifyAll = true)
    (hpc' : pc'.beforeNotifyAll = false) : pc = .stopNotify ∧ e = .notifyAll := by
  cases h with
  | stopNotify => exact ⟨rfl, rfl⟩
  | storeStop => cases hpc'
  | _ => cases hpc

theorem Edge.to_block {pc : Pc τ} {e : Event τ n m} (h : Edge pc e .block) :
    e = .loadStop false := by
  cases h
  rfl

/-! ## Invariants -/

variable [DecidableEq τ]

/-- Who is in the wait set has not left the wait. -/
theorem Pool.asleep {ok : StepRule τ n m} {c : Pool τ n m} (h : Reachable ok c)
    {t : Tid n m} (ht : t ∈ c.shared.waiters) : (c.loc t).asleep = true := by
  refine Reach.forall_thread
    (P := fun t g pc => t ∈ g.waiters → Pc.asleep pc = true)
    (fun t ht => absurd ht (Finset.notMem_empty t)) ?_ ?_ h t ht
  · intro c t e g pc' _ hP hstep
    obtain ⟨hedge, henabled, rfl⟩ := poolStep_edge hstep
    exact hedge.asleep henabled (hP t)
  · intro c t e g pc' u _ hP hu hstep hmem
    obtain ⟨-, -, rfl⟩ := poolStep_edge hstep
    rcases Event.mem_effect_waiters hmem with hold | ⟨heq, -⟩
    · exact hP u hold
    · exact absurd heq hu

/-- `M_stop` is set from the first step of `waitAllthread` on. -/
theorem Pool.stop_of_closer {ok : StepRule τ n m} {c : Pool τ n m}
    (h : Reachable ok c) (hpc : c.loc .closer ≠ .storeStop) :
    c.shared.stop = true := by
  refine Reach.invariant (I := fun c : Pool τ n m =>
    c.loc .closer ≠ .storeStop → c.shared.stop = true)
    (fun hne => absurd rfl hne) ?_ h hpc
  intro c t e g pc' _ hI _ hstep hne
  obtain ⟨hedge, -, rfl⟩ := poolStep_edge hstep
  have hkeep : c.shared.stop = true → (e.effect t c.shared).stop = true := by
    intro hstop
    rcases Event.effect_stop t c.shared e with heq | ⟨-, heq⟩
    · rw [heq, hstop]
    · exact heq
  by_cases hpc : c.loc .closer = .storeStop
  · by_cases ht : t = .closer
    · subst ht
      rw [hpc] at hedge
      cases hedge
      rfl
    · simp only [Function.update_of_ne (Ne.symm ht)] at hne
      exact absurd hpc hne
  · exact hkeep (hI hpc)

/-- The steps of which no notification falls into the time between the test
of the predicate and the wait: with a single worker, no `notify_one` of
`asyncTaskvoid`; and never the `notify_all` of `waitAllthread`. -/
def Pool.notifiesAwake : StepRule τ n m := fun c t e _ =>
  (n = 1 → (c.loc t).voidNotifying = true → (∃ w, e = .notifyOne w) →
    ∀ i, (c.loc (.worker i)).blind c.shared.stop = false) ∧
  (c.loc t = .stopNotify → ∀ i, c.loc (.worker i) ≠ .block)

instance (c c' : Pool τ n m) (t : Tid n m) (e : Event τ n m) :
    Decidable (Pool.notifiesAwake c t e c') :=
  inferInstanceAs (Decidable ((n = 1 → (c.loc t).voidNotifying = true →
      (∃ w, e = .notifyOne w) →
        ∀ i, (c.loc (.worker i)).blind c.shared.stop = false) ∧
    (c.loc t = .stopNotify → ∀ i, c.loc (.worker i) ≠ .block)))

/-- Behind the `notify_all` of `waitAllthread` no worker sleeps again. -/
theorem Pool.stopped_awake {c : Pool τ n m} (h : Reachable notifiesAwake c)
    (hissued : (c.loc .closer).beforeNotifyAll = false) (i : Fin n) :
    .worker i ∉ c.shared.waiters ∧ c.loc (.worker i) ≠ .block := by
  refine Reach.invariant (I := fun c : Pool τ n m =>
    (c.loc .closer).beforeNotifyAll = false → ∀ i, Tid.worker i ∉ c.shared.waiters ∧
      c.loc (.worker i) ≠ .block) (fun h => by cases h) ?_ h hissued i
  intro c t e g pc' hc hI hok hstep hissued' i
  obtain ⟨hedge, henabled, rfl⟩ := poolStep_edge hstep
  simp only at hissued' ⊢
  by_cases hbefore : (c.loc .closer).beforeNotifyAll = false
  · obtain ⟨hwait, hblock⟩ := hI hbefore i
    have hstop := Pool.stop_of_closer hc fun hpc => by
      rw [hpc] at hbefore
      cases hbefore
    refine ⟨fun hmem => ?_, fun hpc => ?_⟩
    · rcases Event.mem_effect_waiters hmem with hold | ⟨rfl, x, rfl⟩
      · exact hwait hold
      · exact hblock (hedge.block_eq (Pool.role hc _))
    · by_cases hti : Tid.worker i = t
      · subst hti
        rw [Function.update_self] at hpc
        subst hpc
        obtain rfl := hedge.to_block
        rw [beq_iff_eq.mp henabled] at hstop
        cases hstop
      · rw [Function.update_of_ne hti] at hpc
        exact hblock hpc
  · by_cases ht : t = .closer
    · subst ht
      rw [Function.update_self] at hissued'
      obtain ⟨hpc, rfl⟩ := hedge.notifyAll_issued (by simpa using hbefore) hissued'
      exact ⟨Finset.notMem_empty _, hok.2 hpc i⟩
    · rw [Function.update_of_ne (Ne.symm ht)] at hissued'
      exact absurd hissued' hbefore

/-- With one worker, a task in front of a blind worker was pushed by
`asyncTaskvoid`, and its notification is still to come. -/
theorem Pool.blind_pending {c : Pool τ n m} (h : Reachable notifiesAwake c)
    (hn : n = 1) {i : Fin n} (hblind : (c.loc (.worker i)).blind c.shared.stop = true)
    (hne : c.shared.tasks ≠ []) : ∃ t, (c.loc t).voidNotifying = true := by
  refine Reach.invariant (I := fun c : Pool τ n m => ∀ i,
    (c.loc (.worker i)).blind c.shared.stop = true → c.shared.tasks ≠ [] →
    ∃ t, (c.loc t).voidNotifying = true)
    (fun _ _ hne => absurd rfl hne) ?_ h i hblind hne
  intro c t e g pc' hc hI hok hstep i hblind' hne'
  obtain ⟨hedge, henabled, rfl⟩ := poolStep_edge hstep
  simp only at hblind' hne' ⊢
  -- the worker was blind before the step: at the test the queue is empty
  have hblind : (c.loc (.worker i)).blind c.shared.stop = true := by
    by_cases hti : Tid.worker i = t
    · subst hti
      rw [Function.update_self] at hblind'
      rcases hedge.blind henabled hblind' with rfl | hblind
      · exact absurd (List.isEmpty_iff.mp (beq_iff_eq.mp henabled)) hne'
      · exact hblind
    · rw [Function.update_of_ne hti] at hblind'
      rcases Event.effect_stop t c.shared e with heq | ⟨-, heq⟩
      · rwa [heq] at hblind'
      · rw [heq] at hblind'
        cases hold : (c.loc (.worker i)).blind c.shared.stop with
        | true => rfl
        | false =>
            rw [Pc.blind_mono hold] at hblind'
            cases hblind'
  by_cases hpush : ∃ x, e = .pushBack x
  · obtain ⟨x, rfl⟩ := hpush
    refine ⟨t, ?_⟩
    rw [Function.update_self]
    rcases hedge.pushBack_notifying.2 with hvoid | hholds
    · exact hvoid
    · -- `asyncTaskret` would push under the mutex that the worker holds
      obtain rfl := Pool.exclusive hc hholds (Pc.blind_holds hblind)
      rw [hedge.pushBack_sighted] at hblind
      cases hblind
  · have hold : c.shared.tasks ≠ [] := by
      rcases Event.effect_tasks t c.shared e with heq | ⟨x, rfl, -⟩ | ⟨x, -, heq⟩
      · rwa [heq] at hne'
      · exact absurd ⟨x, rfl⟩ hpush
      · intro hempty
        rw [heq, hempty] at hne'
        exact hne' rfl
    obtain ⟨u, hu⟩ := hI i hblind hold
    refine ⟨u, ?_⟩
    by_cases hut : u = t
    · subst hut
      rw [Function.update_self]
      rcases hedge.voidNotifying hu with hnotify | hvoid
      · rw [hok.1 hn hu hnotify i] at hblind
        cases hblind
      · exact hvoid
    · rw [Function.update_of_ne hut]
      exact hu

/-- Two workers are not in front of the wait set at once. -/
theorem Pool.exists_sighted {ok : StepRule τ n m} {c : Pool τ n m}
    (h : Reachable ok c) (hn : 1 < n) :
    ∃ i, (c.loc (.worker i)).blind c.shared.stop = false := by
  cases hzero : (c.loc (.worker ⟨0, by omega⟩)).blind c.shared.stop with
  | false => exact ⟨_, hzero⟩
  | true =>
      refine ⟨⟨1, hn⟩, ?_⟩
      cases hone : (c.loc (.worker ⟨1, hn⟩)).blind c.shared.stop with
      | false => rfl
      | true =>
          have heq := Pool.exclusive h (Pc.blind_holds hzero)
            (Pc.blind_holds hone)
          cases heq

/-- A worker that is up and will look at the queue before it sleeps. -/
def Pool.Alert (c : Pool τ n m) (i : Fin n) : Prop :=
  .worker i ∉ c.shared.waiters ∧
    (c.loc (.worker i)).blind c.shared.stop = false

section Notify

variable {c : Pool τ n m} {t : Tid n m} {w : Option (Tid n m)} {pc' : Pc τ}

/-- Whom a `notify_one` finds: behind it some worker is up, and the notifying
thread apart it is not in front of the wait set. -/
theorem Pool.sighted_of_notify (hn : 0 < n) (h : Reachable notifiesAwake c)
    (hok : (c.loc t).voidNotifying = true → n = 1 →
      ∀ i, (c.loc (.worker i)).blind c.shared.stop = false)
    (hedge : Edge (c.loc t) (.notifyOne w) pc')
    (henabled : (Event.notifyOne w : Event τ n m).enabled t c.shared = true)
    (hne : c.shared.tasks ≠ [])
    (hnone : ∀ u, u ≠ t → (c.loc u).notifying = false) :
    ∃ i, .worker i ∉ ((Event.notifyOne w).effect t c.shared).waiters ∧
      (c.loc (.worker i)).blind c.shared.stop = false := by
  cases hbefore : (c.loc .closer).beforeNotifyAll with
  | false =>
      obtain ⟨hwait, hblock⟩ := Pool.stopped_awake h hbefore ⟨0, hn⟩
      have hstop := Pool.stop_of_closer h fun hpc => by
        rw [hpc] at hbefore
        cases hbefore
      refine ⟨⟨0, hn⟩, fun hmem => ?_, ?_⟩
      · rcases Event.mem_effect_waiters hmem with hold | ⟨-, x, hx⟩
        · exact hwait hold
        · cases hx
      · rw [hstop]
        exact Pc.blind_true hblock
  | true =>
      cases w with
      | some u =>
          have hmem : u ∈ c.shared.waiters := of_decide_eq_true henabled
          have hasleep := Pool.asleep h hmem
          have hrole := Pool.role h u
          cases u with
          | worker i =>
              exact ⟨i, Finset.notMem_erase _ _, Pc.blind_asleep hasleep _⟩
          | client j =>
              rcases Pc.asleep_role hasleep with hr | hr <;>
                rw [hrole] at hr <;> cases hr
          | closer =>
              rw [Pc.asleep_before hbefore] at hasleep
              cases hasleep
      | none =>
          have hempty : c.shared.waiters = ∅ := of_decide_eq_true henabled
          have hout : ∀ u, u ∉ ((Event.notifyOne none : Event τ n m).effect t
              c.shared).waiters := by
            intro u hmem
            exact absurd (hempty ▸ hmem) (Finset.notMem_empty u)
          rcases Nat.eq_or_lt_of_le hn with hone | hmany
          · refine ⟨⟨0, hn⟩, hout _, ?_⟩
            cases hblind : (c.loc (.worker ⟨0, hn⟩)).blind c.shared.stop with
            | false => rfl
            | true =>
                obtain ⟨u, hu⟩ := Pool.blind_pending h hone.symm hblind hne
                by_cases hut : u = t
                · subst hut
                  rw [hok hu hone.symm] at hblind
                  cases hblind
                · have hpending := Pc.notifying_of_void hu
                  rw [hnone u hut] at hpending
                  cases hpending
          · obtain ⟨i, hi⟩ := Pool.exists_sighted h hmany
            exact ⟨i, hout _, hi⟩

end Notify

/-- A queue that is not empty, and whose pushes have all been notified, has a
worker that is up and will look at it. -/
theorem Pool.alert {c : Pool τ n m} (hn : 0 < n)
    (h : Reachable notifiesAwake c) (hne : c.shared.tasks ≠ [])
    (hnone : ∀ t, (c.loc t).notifying = false) : ∃ i, c.Alert i := by
  refine Reach.invariant (I := fun c : Pool τ n m => c.shared.tasks ≠ [] →
    (∀ t, (c.loc t).notifying = false) → ∃ i, c.Alert i)
    (fun hne => absurd rfl hne) ?_ h hne hnone
  intro c t e g pc' hc hI hok hstep hne' hnone'
  obtain ⟨hedge, henabled, rfl⟩ := poolStep_edge hstep
  simp only at hne' hnone'
  have hpc' : pc'.notifying = false := by
    simpa using hnone' t
  have hothers : ∀ u, u ≠ t → (c.loc u).notifying = false := by
    intro u hu
    simpa [hu] using hnone' u
  by_cases hnotify : ∃ w, e = .notifyOne w
  · obtain ⟨w, rfl⟩ := hnotify
    have hold : c.shared.tasks ≠ [] := by cases w <;> exact hne'
    have hstop : ((Event.notifyOne w).effect t c.shared).stop = c.shared.stop := by
      cases w <;> rfl
    obtain ⟨i, hwait, hblind⟩ := Pool.sighted_of_notify hn hc
      (fun hvoid hone => hok.1 hone hvoid ⟨w, rfl⟩) hedge henabled hold hothers
    refine ⟨i, hwait, ?_⟩
    simp only [hstop]
    by_cases hti : Tid.worker i = t
    · subst hti
      rw [Function.update_self]
      exact hedge.notifyOne_spec.2.2 _
    · rw [Function.update_of_ne hti]
      exact hblind
  · have hquiet : ∀ u, (c.loc u).notifying = false := by
      intro u
      by_cases hut : u = t
      · subst hut
        cases hpc : (c.loc u).notifying with
        | false => rfl
        | true =>
            have hstill := (hedge.notifying hpc).resolve_left hnotify
            rw [hpc'] at hstill
            cases hstill
      · exact hothers u hut
    have hold : c.shared.tasks ≠ [] := by
      rcases Event.effect_tasks t c.shared e with heq | ⟨x, rfl, -⟩ | ⟨x, -, heq⟩
      · rwa [heq] at hne'
      · rw [hedge.pushBack_notifying.1] at hpc'
        cases hpc'
      · intro hempty
        rw [heq, hempty] at hne'
        exact hne' rfl
    obtain ⟨i, hwait, hblind⟩ := hI hold hquiet
    refine ⟨i, fun hmem => ?_, ?_⟩
    · rcases Event.mem_effect_waiters hmem with hin | ⟨rfl, x, rfl⟩
      · exact hwait hin
      · rw [hedge.block_eq (Pool.role hc _)] at hblind
        cases hblind
    · simp only
      by_cases hti : Tid.worker i = t
      · subst hti
        rw [Function.update_self]
        cases hblind' : pc'.blind (e.effect (.worker i) c.shared).stop with
        | false => rfl
        | true =>
            rcases hedge.blind henabled hblind' with rfl | hbefore
            · exact absurd (List.isEmpty_iff.mp (beq_iff_eq.mp henabled)) hold
            · rw [hblind] at hbefore
              cases hbefore
      · rw [Function.update_of_ne hti]
        rcases Event.effect_stop t c.shared e with heq | ⟨-, heq⟩
        · rw [heq]
          exact hblind
        · rw [heq]
          exact Pc.blind_mono hblind

/-! ## No lost wake-up -/

/-- A queued task whose submission has notified finds a worker outside the wait
set, and so does `M_stop` with all of them. -/
structure Pool.NoLostWakeup (c : Pool τ n m) : Prop where
  task : c.shared.tasks ≠ [] → (∀ t, (c.loc t).notifying = false) →
    ∃ i : Fin n, .worker i ∉ c.shared.waiters
  stop : c.shared.stop = true → (c.loc .closer).beforeNotifyAll = false →
    ∀ i : Fin n, .worker i ∉ c.shared.waiters

/-- **No wake-up is lost** in the runs in which no notification falls between a
worker's predicate and its wait. -/
theorem Pool.no_lost_wakeup {c : Pool τ n m} (hn : 0 < n)
    (h : Reachable notifiesAwake c) : c.NoLostWakeup where
  task hne hnone := by
    obtain ⟨i, hwait, -⟩ := Pool.alert hn h hne hnone
    exact ⟨i, hwait⟩
  stop _ hissued i := (Pool.stopped_awake h hissued i).1

/-- The worker finds the queue empty and sleeps. -/
def sleepingRun : List (Tid 1 1 × Event Unit 1 1) :=
  [(onlyWorker, .lock .tasksMutex), (onlyWorker, .tasksEmpty true),
    (onlyWorker, .loadStop false), (onlyWorker, .block .tasksMutex)]

/-- A sleeping worker is woken by a submission, and by the closing call. -/
theorem Pool.no_lost_wakeup_woken : ∃ c c₁ c₂ : Pool Unit 1 1,
    (Reachable notifiesAwake c ∧ ∀ i, .worker i ∈ c.shared.waiters) ∧
    (Reach poolStep notifiesAwake c c₁ ∧ c₁.shared.tasks = [()] ∧
      (∀ t, (c₁.loc t).notifying = false) ∧ c₁.NoLostWakeup) ∧
    (Reach poolStep notifiesAwake c c₂ ∧ c₂.shared.stop = true ∧
      (c₂.loc .closer).beforeNotifyAll = false ∧ c₂.NoLostWakeup) := by
  let submitted : List (Tid 1 1 × Event Unit 1 1) :=
    [(onlyClient, .call .asyncTaskvoid ()), (onlyClient, .lock .countMutex),
      (onlyClient, .pushBack ()), (onlyClient, .increment),
      (onlyClient, .unlock .countMutex),
      (onlyClient, .notifyOne (some onlyWorker))]
  let closed : List (Tid 1 1 × Event Unit 1 1) :=
    [(.closer, .storeStop), (.closer, .notifyAll)]
  have hrun : (runSteps poolStep notifiesAwake (Pool.init Unit 1 1)
      sleepingRun).any (fun c => decide (∀ i, .worker i ∈ c.shared.waiters) &&
        (runSteps poolStep notifiesAwake c submitted).any (fun c₁ =>
          decide (c₁.shared.tasks = [()]) &&
            decide (∀ t, (c₁.loc t).notifying = false)) &&
        (runSteps poolStep notifiesAwake c closed).any fun c₂ =>
          c₂.shared.stop &&
            decide ((c₂.loc .closer).beforeNotifyAll = false)) = true := by
    decide +kernel
  obtain ⟨c, hc, hends⟩ := Reach.run_any .start hrun
  simp only [Bool.and_eq_true, decide_eq_true_eq] at hends
  obtain ⟨⟨hasleep, hsubmitted⟩, hclosed⟩ := hends
  obtain ⟨c₁, hc₁, hend₁⟩ := (Option.any_eq_true _ _).mp hsubmitted
  obtain ⟨c₂, hc₂, hend₂⟩ := (Option.any_eq_true _ _).mp hclosed
  simp only [Bool.and_eq_true, decide_eq_true_eq] at hend₁ hend₂
  refine ⟨c, c₁, c₂, ⟨hc, hasleep⟩,
    ⟨Reach.start.runSteps hc₁, hend₁.1, hend₁.2, ?_⟩,
    ⟨Reach.start.runSteps hc₂, hend₂.1, hend₂.2, ?_⟩⟩
  · exact Pool.no_lost_wakeup Nat.one_pos (hc.runSteps hc₁)
  · exact Pool.no_lost_wakeup Nat.one_pos (hc.runSteps hc₂)

/-- The worker finds the queue empty; a task is pushed and notified before it
joins the wait set. -/
def lostTaskRun : List (Tid 1 1 × Event Unit 1 1) :=
  [(.worker 0, .lock .tasksMutex), (.worker 0, .tasksEmpty true),
    (.worker 0, .loadStop false),
    (.client 0, .call .asyncTaskvoid ()), (.client 0, .lock .countMutex),
    (.client 0, .pushBack ()), (.client 0, .increment),
    (.client 0, .unlock .countMutex), (.client 0, .notifyOne none),
    (.worker 0, .block .tasksMutex)]

/-- The worker finds `M_stop` unset; it is set and notified before the worker
joins the wait set. -/
def lostStopRun : List (Tid 1 1 × Event Unit 1 1) :=
  [(.worker 0, .lock .tasksMutex), (.worker 0, .tasksEmpty true),
    (.worker 0, .loadStop false),
    (.closer, .storeStop), (.closer, .notifyAll),
    (.worker 0, .block .tasksMutex)]

/-- Both notifications can be lost: the task stays queued, `M_stop` stays set,
and the only worker sleeps. -/
theorem Pool.lost_wakeup :
    (∃ c : Pool Unit 1 1, Reachable anyStep c ∧ c.shared.tasks ≠ [] ∧
      (∀ t, (c.loc t).notifying = false) ∧
      ∀ i, .worker i ∈ c.shared.waiters) ∧
    (∃ c : Pool Unit 1 1, Reachable anyStep c ∧ c.shared.stop = true ∧
      (c.loc .closer).beforeNotifyAll = false ∧
      ∀ i, .worker i ∈ c.shared.waiters) := by
  have hany : ∀ acts c, runSteps poolStep (fun _ _ _ _ => True)
      (Pool.init Unit 1 1) acts = some c →
      Reach poolStep (fun _ _ _ _ => True) (Pool.init Unit 1 1) c :=
    fun _ _ h => Reach.runSteps .start h
  exact ⟨⟨_, hany lostTaskRun _ rfl, by decide, by decide, by decide⟩,
    ⟨_, hany lostStopRun _ rfl, rfl, rfl, by decide⟩⟩

end Mtasc
