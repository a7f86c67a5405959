import Mtasc.Thread.Locks

/-!
# Pending-task accounting

The counter counts the tasks that are queued or being worked on. It lags behind
the queue while a submission is between its push and its increment, and it runs
ahead while a worker is between its pop and its decrement; `Pool.Accounts` is
that balance. It makes the guard of the decrement redundant, as long as the
counter stays inside `int`.
-/

namespace Mtasc

open Lib

variable {τ : Type} {n m : ℕ}

/-! ## What the threads contribute -/

/-- The submission a thread is in. -/
def Pc.submission : Pc τ → Option (Submission τ)
  | .submit s => some s
  | .runningSubmit _ s => some s
  | _ => none

/-- Between its push and its increment. -/
def Pc.pushing (pc : Pc τ) : Bool :=
  pc.submission.any fun s => decide (s.stage = .increment)

/-- Between its pop and its decrement. -/
def Pc.inFlight : Pc τ → Bool
  | .unlockTask _ => true
  | .running _ => true
  | .runningSubmit _ _ => true
  | .lockCount => true
  | .guard => true
  | .decrement => true
  | _ => false

namespace Pool

/-- The number of submissions between their push and their increment. -/
def pushing (c : Pool τ n m) : ℕ := ∑ t, (c.loc t).pushing.toNat

/-- The number of workers between their pop and their decrement. -/
def inFlight (c : Pool τ n m) : ℕ := ∑ t, (c.loc t).inFlight.toNat

/-- The tasks that have been pushed and not yet counted off. -/
def pending (c : Pool τ n m) : ℕ := c.shared.tasks.length + c.inFlight

/-- No step leaves more tasks pending than an `int` can count. -/
def withinInt : StepRule τ n m := fun _ _ _ c' => c'.pending < 2 ^ 31

instance (c c' : Pool τ n m) (t : Tid n m) (e : Event τ n m) :
    Decidable (withinInt c t e c') :=
  inferInstanceAs (Decidable (c'.pending < 2 ^ 31))

end Pool

/-- What a thread adds to the counter beyond the length of the queue. -/
def Pc.lead (pc : Pc τ) : ℤ := pc.inFlight.toNat - pc.pushing.toNat

theorem Pool.sum_lead (c : Pool τ n m) :
    ∑ t, (c.loc t).lead = c.inFlight - c.pushing := by
  simp only [Pc.lead, Finset.sum_sub_distrib, Pool.inFlight, Pool.pushing,
    Nat.cast_sum]

/-- How an operation changes the lead of its thread. -/
def Event.leadChange : Event τ n m → ℤ
  | .pushBack _ => -1
  | .increment => 1
  | .popFront _ => 1
  | .decrement => -1
  | .countPositive false => -1
  | _ => 0

theorem Edge.lead {pc pc' : Pc τ} {e : Event τ n m} (h : Edge pc e pc') :
    pc'.lead = pc.lead + e.leadChange := by
  cases h with
  | taskSubmit _ _ _ h => cases h <;> rfl
  | taskReturn _ _ _ h =>
      cases h
      rfl
  | submit _ _ h => cases h <;> rfl
  | «return» _ _ h =>
      cases h
      rfl
  | _ => rfl

/-! ## What the holder of `M_tasksMutex_` knows about the queue -/

/-- What a thread at a place may rely on about `M_tasks`. -/
def Pc.Sees (tasks : List τ) : Pc τ → Prop
  | .front => tasks ≠ []
  | .popFront x => tasks.head? = some x
  | .submit s => s.path = .asyncTaskret → s.stage = .increment → tasks ≠ []
  | .runningSubmit _ s =>
      s.path = .asyncTaskret → s.stage = .increment → tasks ≠ []
  | .undefined => False
  | _ => True

theorem Pc.Sees.pushBack {tasks : List τ} {pc : Pc τ} (h : pc.Sees tasks)
    (x : τ) : pc.Sees (tasks ++ [x]) := by
  have hne : tasks ++ [x] ≠ [] := by simp
  cases pc with
  | front => exact hne
  | popFront y =>
      have hhead : tasks.head? = some y := h
      simp [Pc.Sees, List.head?_append, hhead]
  | submit s => exact fun _ _ => hne
  | runningSubmit y s => exact fun _ _ => hne
  | undefined => exact h
  | _ => trivial

/-- Only who holds the mutex relies on the queue. -/
theorem Pc.sees_of_not_holds {pc : Pc τ} (h : pc.holds .tasksMutex = false)
    (tasks : List τ) : pc.Sees tasks := by
  have hsub : ∀ s : Submission τ, s.holds .tasksMutex = false →
      s.path = .asyncTaskret → s.stage = .increment → tasks ≠ [] := by
    intro s hs hpath hstage
    simp [Submission.holds, hpath, hstage, Stage.locked, Path.mutex] at hs
  cases pc with
  | front => cases h
  | popFront _ => cases h
  | undefined => cases h
  | submit s => exact hsub s h
  | runningSubmit _ s => exact hsub s h
  | _ => trivial

/-- The queue behind an operation. -/
theorem Event.effect_tasks (t : Tid n m) (g : Shared τ n m)
    (e : Event τ n m) : (e.effect t g).tasks = g.tasks ∨
      (∃ x, e = .pushBack x ∧ (e.effect t g).tasks = g.tasks ++ [x]) ∨
      (∃ x, e = .popFront x ∧ (e.effect t g).tasks = g.tasks.tail) := by
  cases e with
  | pushBack x => exact Or.inr (Or.inl ⟨x, rfl, rfl⟩)
  | popFront x => exact Or.inr (Or.inr ⟨x, rfl, rfl⟩)
  | notifyOne u => cases u <;> exact Or.inl rfl
  | _ => exact Or.inl rfl

theorem SubmissionEdge.sees {path : Path} {y : τ} {stage stage' : Stage}
    {e : Event τ n m} {g : Shared τ n m} (t : Tid n m)
    (h : SubmissionEdge path y stage e (some stage')) (hnew : stage' = .increment) :
    (e.effect t g).tasks ≠ [] := by
  cases h with
  | push => simp [Event.effect]
  | _ => cases hnew

theorem Edge.sees [DecidableEq τ] {pc pc' : Pc τ} {e : Event τ n m} {t : Tid n m}
    {g : Shared τ n m} (h : Edge pc e pc') (henabled : e.enabled t g = true)
    (hsees : pc.Sees g.tasks) : pc'.Sees (e.effect t g).tasks := by
  cases h with
  | contFilled =>
      intro hempty
      simp [Event.enabled, show g.tasks = [] from hempty] at henabled
  | front x =>
      have hhead : g.tasks.head? = some x := of_decide_eq_true henabled
      exact hhead
  | frontUndefined => exact hsees (List.isEmpty_iff.mp henabled)
  | popUndefined x =>
      have hhead : g.tasks.head? = some x := hsees
      rw [List.isEmpty_iff.mp henabled] at hhead
      cases hhead
  | taskCall => exact fun _ hstage => by cases hstage
  | taskSubmit _ _ _ h => exact fun _ hstage => h.sees t hstage
  | call => exact fun _ hstage => by cases hstage
  | submit _ _ h => exact fun _ hstage => h.sees t hstage
  | _ => trivial

theorem Edge.popFront_holds {pc pc' : Pc τ} {x : τ}
    (h : Edge pc (.popFront x : Event τ n m) pc') :
    pc = .popFront x ∧ pc.holds .tasksMutex = true := by
  cases h with
  | popFront => exact ⟨rfl, rfl⟩
  | taskSubmit _ _ _ h => cases h
  | taskReturn _ _ _ h => cases h
  | submit _ _ h => cases h
  | «return» _ _ h => cases h

section

variable [DecidableEq τ]

/-- What a thread relies on is so: the mutex keeps other pops away, and a push,
under whichever mutex, only adds. -/
theorem Pool.sees {ok : StepRule τ n m} {c : Pool τ n m}
    (h : Reachable ok c) (t : Tid n m) : (c.loc t).Sees c.shared.tasks := by
  refine Reach.forall_thread (P := fun _ g pc => Pc.Sees g.tasks pc)
    (fun t => by cases t <;> trivial) ?_ ?_ h t
  · intro c t e g pc' _ hP hstep
    obtain ⟨hedge, henabled, rfl⟩ := poolStep_edge hstep
    exact hedge.sees henabled (hP t)
  · intro c t e g pc' u hc hP hu hstep
    obtain ⟨hedge, -, rfl⟩ := poolStep_edge hstep
    rcases Event.effect_tasks t c.shared e with heq | ⟨x, -, heq⟩ | ⟨x, rfl, -⟩
    · rw [heq]
      exact hP u
    · rw [heq]
      exact (hP u).pushBack x
    · cases hholds : (c.loc u).holds .tasksMutex with
      | false => exact Pc.sees_of_not_holds hholds _
      | true =>
          exact absurd (Pool.exclusive hc hholds hedge.popFront_holds.2) hu

/-- Neither `front` nor `pop_front` is ever applied to an empty queue. -/
theorem Pool.never_undefined {ok : StepRule τ n m} {c : Pool τ n m}
    (h : Reachable ok c) (t : Tid n m) : c.loc t ≠ .undefined := by
  intro hpc
  have hsees := Pool.sees h t
  rw [hpc] at hsees
  exact hsees

/-- **Tasks are popped in the order they were pushed**, each once. -/
theorem Pool.pushed_eq {ok : StepRule τ n m} {c : Pool τ n m}
    (h : Reachable ok c) :
    c.shared.pushed = c.shared.popped ++ c.shared.tasks := by
  refine Reach.invariant
    (I := fun c => c.shared.pushed = c.shared.popped ++ c.shared.tasks) rfl ?_ h
  intro c t e g pc' hc hI _ hstep
  obtain ⟨hedge, -, rfl⟩ := poolStep_edge hstep
  have hsees := Pool.sees hc t
  cases e with
  | pushBack x =>
      show c.shared.pushed ++ [x] = c.shared.popped ++ (c.shared.tasks ++ [x])
      rw [hI, List.append_assoc]
  | popFront x =>
      rw [hedge.popFront_holds.1] at hsees
      obtain ⟨rest, hrest⟩ := List.head?_eq_some_iff.mp hsees
      show c.shared.pushed = c.shared.popped ++ [x] ++ c.shared.tasks.tail
      rw [hI, hrest, List.append_assoc]
      rfl
  | notifyOne u => cases u <;> exact hI
  | _ => exact hI

end

/-! ## The balance -/

theorem Pc.pushing_lt_of_lead {pc : Pc τ} (h : pc.lead < 0) :
    pc.pushing = true := by
  cases hp : pc.pushing with
  | true => rfl
  | false =>
      rw [Pc.lead, hp] at h
      cases hf : pc.inFlight <;> simp [hf] at h

theorem Pc.neg_one_le_lead (pc : Pc τ) : -1 ≤ pc.lead := by
  unfold Pc.lead
  cases pc.inFlight <;> cases pc.pushing <;> decide

/-- A thread that has pushed and not yet counted holds the mutex of its path,
and in `asyncTaskret` the pushed task cannot have been taken. -/
theorem Pc.pushing_holds {pc : Pc τ} {tasks : List τ} (h : pc.pushing = true)
    (hsees : pc.Sees tasks) :
    pc.holds .countMutex = true ∨
      (pc.holds .tasksMutex = true ∧ tasks ≠ []) := by
  have hsub : ∀ s : Submission τ, s.stage = .increment →
      (s.path = .asyncTaskret → s.stage = .increment → tasks ≠ []) →
      s.holds .countMutex = true ∨
        (s.holds .tasksMutex = true ∧ tasks ≠ []) := by
    rintro ⟨path, x, stage⟩ rfl hret
    cases path with
    | asyncTaskvoid => exact Or.inl rfl
    | asyncTaskret => exact Or.inr ⟨rfl, hret rfl rfl⟩
  cases pc with
  | submit s => exact hsub s (of_decide_eq_true h) hsees
  | runningSubmit _ s => exact hsub s (of_decide_eq_true h) hsees
  | _ => cases h

/-- How an operation changes the counter, inside `int`. -/
def Event.countChange : Event τ n m → ℤ
  | .increment => 1
  | .decrement => -1
  | _ => 0

theorem Edge.increment_pushing {pc pc' : Pc τ}
    (h : Edge pc (.increment : Event τ n m) pc') : pc.pushing = true := by
  cases h with
  | taskSubmit _ _ _ h =>
      cases h
      rfl
  | taskReturn _ _ _ h => cases h
  | submit _ _ h =>
      cases h
      rfl
  | «return» _ _ h => cases h

theorem Edge.decrement_eq {pc pc' : Pc τ}
    (h : Edge pc (.decrement : Event τ n m) pc') : pc = .decrement := by
  cases h with
  | decrement => rfl
  | taskSubmit _ _ _ h => cases h
  | taskReturn _ _ _ h => cases h
  | submit _ _ h => cases h
  | «return» _ _ h => cases h

theorem Edge.to_decrement {pc : Pc τ} {e : Event τ n m}
    (h : Edge pc e .decrement) : pc = .guard ∧ e = .countPositive true := by
  cases h
  exact ⟨rfl, rfl⟩

theorem Edge.guardFails_eq {pc pc' : Pc τ}
    (h : Edge pc (.countPositive false : Event τ n m) pc') : pc = .guard := by
  cases h with
  | guardFails => rfl
  | taskSubmit _ _ _ h => cases h
  | taskReturn _ _ _ h => cases h
  | submit _ _ h => cases h
  | «return» _ _ h => cases h

/-- The length of the queue and the lead of the thread make up the change of
the counter, unless the guard fails. -/
theorem Event.change_eq [DecidableEq τ] {t : Tid n m} {g : Shared τ n m} {e : Event τ n m}
    (henabled : e.enabled t g = true) (hguard : e ≠ .countPositive false) :
    e.countChange = (e.effect t g).tasks.length - g.tasks.length +
      e.leadChange := by
  have hzero : (0 : ℤ) = g.tasks.length - g.tasks.length + 0 := by omega
  cases e with
  | pushBack x =>
      simp [Event.countChange, Event.leadChange, Event.effect]
  | popFront x =>
      have hne : g.tasks ≠ [] := by simpa [Event.enabled] using henabled
      have hpos := List.length_pos_iff.mpr hne
      simp only [Event.countChange, Event.leadChange, Event.effect,
        List.length_tail]
      omega
  | increment =>
      simp [Event.countChange, Event.leadChange, Event.effect]
  | decrement =>
      simp [Event.countChange, Event.leadChange, Event.effect]
  | countPositive b =>
      cases b with
      | true => exact hzero
      | false => exact absurd rfl hguard
  | notifyOne u => cases u <;> exact hzero
  | _ => exact hzero

/-- The balance of counter, queue and threads. -/
structure Pool.Accounts (c : Pool τ n m) : Prop where
  balance : c.shared.threadRurinngCount =
    c.shared.tasks.length + ∑ t, (c.loc t).lead
  nonneg : 0 ≤ c.shared.threadRurinngCount
  /-- The test in front of a decrement still holds when it is made. -/
  positive : ∀ t, c.loc t = .decrement → 1 ≤ c.shared.threadRurinngCount

theorem Pool.Accounts.count_add_pushing {c : Pool τ n m} (hacc : c.Accounts) :
    c.shared.threadRurinngCount + c.pushing = c.pending := by
  have hsum := c.sum_lead
  have hbalance := hacc.balance
  rw [hsum] at hbalance
  simp only [Pool.pending, Nat.cast_add]
  omega

variable [DecidableEq τ]

/-- While a worker is in the accounting block with its own task uncounted, the
other threads cannot take the balance below one. -/
theorem Pool.one_le_lead {ok : StepRule τ n m} {c : Pool τ n m}
    (h : Reachable ok c) {t : Tid n m}
    (hholds : (c.loc t).holds .countMutex = true) (hlead : (c.loc t).lead = 1) :
    1 ≤ (c.shared.tasks.length : ℤ) + ∑ u, (c.loc u).lead := by
  -- a pushing thread is in `asyncTaskret`: the other path needs the mutex of `t`
  have hret : ∀ u, (c.loc u).pushing = true →
      (c.loc u).holds .tasksMutex = true ∧ c.shared.tasks ≠ [] := by
    intro u hu
    rcases Pc.pushing_holds hu (Pool.sees h u) with hcount | hret
    · obtain rfl := Pool.exclusive h hcount hholds
      rw [Pc.lead, hu] at hlead
      cases hf : (c.loc u).inFlight <;> simp [hf] at hlead
    · exact hret
  by_cases hp : ∃ u, (c.loc u).pushing = true
  · obtain ⟨u, hu⟩ := hp
    obtain ⟨hheld, hne⟩ := hret u hu
    have hlen : 1 ≤ (c.shared.tasks.length : ℤ) := by
      have := List.length_pos_iff.mpr hne
      omega
    have hother : ∀ k ∈ Finset.univ.erase u, 0 ≤ (c.loc k).lead := by
      intro k hk
      by_contra hneg
      have hpk := Pc.pushing_lt_of_lead (Int.not_le.mp hneg)
      exact Finset.ne_of_mem_erase hk
        (Pool.exclusive h (hret k hpk).1 hheld)
    have htu : t ∈ Finset.univ.erase u := by
      refine Finset.mem_erase.mpr ⟨?_, Finset.mem_univ t⟩
      rintro rfl
      rw [Pc.lead, hu] at hlead
      cases hf : (c.loc t).inFlight <;> simp [hf] at hlead
    have hsum := Finset.single_le_sum hother htu
    have hsplit := Finset.add_sum_erase Finset.univ
      (fun k => (c.loc k).lead) (Finset.mem_univ u)
    have hmin := Pc.neg_one_le_lead (c.loc u)
    omega
  · have hall : ∀ k ∈ Finset.univ, 0 ≤ (c.loc k).lead := by
      intro k _
      by_contra hneg
      exact hp ⟨k, Pc.pushing_lt_of_lead (Int.not_le.mp hneg)⟩
    have hsum := Finset.single_le_sum hall (Finset.mem_univ t)
    omega

theorem Pool.Accounts.guard {ok : StepRule τ n m} {c : Pool τ n m}
    (h : Reachable ok c) (hacc : c.Accounts) {t : Tid n m}
    (hpc : c.loc t = .guard) : 0 < c.shared.threadRurinngCount := by
  have := Pool.one_le_lead h (t := t) (by rw [hpc]; rfl) (by rw [hpc]; rfl)
  rw [hacc.balance]
  omega

theorem Pool.pending_lt {ok : StepRule τ n m} {c : Pool τ n m}
    (hok : ∀ c t e c', ok c t e c' → withinInt c t e c') (h : Reachable ok c) :
    c.pending < 2 ^ 31 := by
  cases h with
  | start =>
      have hzero : (Pool.init τ n m).pending = 0 := by
        rw [Pool.pending, Pool.inFlight, Finset.sum_eq_zero]
        · rfl
        · intro t _
          cases t <;> rfl
      rw [hzero]
      decide
  | move _ hstep _ => exact hok _ _ _ _ hstep

/-- The counter moves by one and never wraps. -/
theorem Pool.Accounts.effect_count {ok : StepRule τ n m} {c : Pool τ n m}
    (hok : ∀ c t e c', ok c t e c' → withinInt c t e c') (h : Reachable ok c)
    (hacc : c.Accounts) {t : Tid n m} {e : Event τ n m} {pc' : Pc τ}
    (hedge : Edge (c.loc t) e pc') :
    (e.effect t c.shared).threadRurinngCount =
      c.shared.threadRurinngCount + e.countChange := by
  have hpending := Pool.pending_lt hok h
  have hcount := hacc.count_add_pushing
  have hnonneg := hacc.nonneg
  cases e with
  | increment =>
      have hone : 1 ≤ c.pushing := by
        have := Finset.single_le_sum (f := fun u => (c.loc u).pushing.toNat)
          (fun _ _ => Nat.zero_le _) (Finset.mem_univ t)
        simp only [hedge.increment_pushing] at this
        exact this
      exact wrapInt_of_lt (by omega) (by omega)
  | decrement =>
      have hpos := hacc.positive t hedge.decrement_eq
      exact wrapInt_of_lt (by omega) (by omega)
  | notifyOne u => cases u <;> exact (Int.add_zero _).symm
  | _ => exact (Int.add_zero _).symm

theorem Pool.accounts {ok : StepRule τ n m} {c : Pool τ n m}
    (hok : ∀ c t e c', ok c t e c' → withinInt c t e c')
    (h : Reachable ok c) : c.Accounts := by
  refine Reach.invariant (I := Pool.Accounts) ?_ ?_ h
  · refine ⟨?_, Int.le_refl _, fun t ht => by cases t <;> cases ht⟩
    rw [Finset.sum_eq_zero fun t _ => by cases t <;> rfl]
    rfl
  · intro c t e g pc' hc hacc _ hstep
    obtain ⟨hedge, henabled, rfl⟩ := poolStep_edge hstep
    have hcount := hacc.effect_count hok hc hedge
    have hguard : e ≠ .countPositive false := by
      rintro rfl
      have := hacc.guard hc hedge.guardFails_eq
      simp [Event.enabled, this] at henabled
    have hchange := Event.change_eq henabled hguard
    have hsum := sum_update Pc.lead c.loc t pc'
    have hlead := hedge.lead
    have hbalance := hacc.balance
    refine ⟨?_, ?_, ?_⟩
    · simp only
      omega
    · simp only
      have hnonneg := hacc.nonneg
      cases e with
      | decrement =>
          have hpos := hacc.positive t hedge.decrement_eq
          simp only [Event.countChange] at hcount
          omega
      | _ =>
          simp only [Event.countChange] at hcount
          omega
    · intro u hu
      simp only at hu ⊢
      by_cases hut : u = t
      · subst hut
        rw [Function.update_self] at hu
        obtain ⟨-, rfl⟩ := (hu ▸ hedge).to_decrement
        have hpos : 0 < c.shared.threadRurinngCount := by
          simpa [Event.enabled] using henabled
        exact hpos
      · rw [Function.update_of_ne hut] at hu
        have hpos := hacc.positive u hu
        cases e with
        | decrement =>
            -- both threads would be between the guard and the decrement
            have htu := Pool.exclusive hc (x := .countMutex) (t := u) (u := t)
              (by rw [hu]; rfl) (by rw [hedge.decrement_eq]; rfl)
            exact absurd htu hut
        | _ =>
            simp only [Event.countChange] at hcount
            omega

/-- **Pending-task accounting.** In every run the tasks are popped in the order
they were pushed. In every run that keeps the pending tasks inside `int`, the
counter and the submissions that have not counted yet make up the queue and
the workers that have not counted off yet; no worker that tests the guard
fails it, and the counter is not negative. -/
theorem Pool.accounting {c : Pool τ n m} (h : Reachable anyStep c) :
    c.shared.pushed = c.shared.popped ++ c.shared.tasks ∧
    (Reachable withinInt c →
      c.shared.threadRurinngCount + c.pushing =
        c.shared.tasks.length + c.inFlight ∧
      (∀ t, c.loc t = .guard → 0 < c.shared.threadRurinngCount) ∧
      0 ≤ c.shared.threadRurinngCount) := by
  refine ⟨Pool.pushed_eq h, fun hint => ?_⟩
  have hacc := Pool.accounts (fun _ _ _ _ hok => hok) hint
  refine ⟨?_, fun t => hacc.guard hint, hacc.nonneg⟩
  rw [hacc.count_add_pushing, Pool.pending, Nat.cast_add]

/-- In the middle of a submission: the task is queued, the counter lags. -/
theorem Pool.accounting_pushed : ∃ c : Pool Unit 1 1,
    c.shared.tasks = [()] ∧ c.pushing = 1 ∧ c.shared.threadRurinngCount = 0 ∧
    c.shared.pushed = c.shared.popped ++ c.shared.tasks ∧
    c.shared.threadRurinngCount + c.pushing =
      c.shared.tasks.length + c.inFlight := by
  have hsmall : ∀ c' : Pool Unit 1 1, c'.pending ≤ 1 → c'.pending < 2 ^ 31 :=
    fun _ h => by omega
  obtain ⟨c, hreach, htasks, hpushing, hcount⟩ : ∃ c : Pool Unit 1 1,
      Reachable withinInt c ∧ c.shared.tasks = [()] ∧ c.pushing = 1 ∧
        c.shared.threadRurinngCount = 0 := by
    refine ⟨_, .move (i := .client 0) (a := .pushBack ())
      (.move (i := .client 0) (a := .lock .countMutex)
        (.move (i := .client 0) (a := .call .asyncTaskvoid ())
          .start (hsmall _ ?_) rfl) (hsmall _ ?_) rfl) (hsmall _ ?_) rfl,
      rfl, ?_, rfl⟩
    all_goals decide
  obtain ⟨horder, hbalance⟩ :=
    Pool.accounting (hreach.mono fun _ _ _ _ _ => trivial)
  exact ⟨c, htasks, hpushing, hcount, horder, (hbalance hreach).1⟩

/-- With `2 ^ 31` tasks queued the counter has wrapped. -/
theorem Pool.accounting_overflow : ∃ c : Pool Unit 1 1, Reachable anyStep c ∧
    c.shared.threadRurinngCount + c.pushing ≠
      c.shared.tasks.length + c.inFlight ∧
    c.shared.threadRurinngCount < 0 := by
  obtain ⟨k, hk⟩ : ∃ k : ℕ, k = 2 ^ 31 := ⟨_, rfl⟩
  have hreach : Reachable anyStep
      ⟨Pool.filled 1 1 () k, (Pool.init Unit 1 1).loc⟩ :=
    Pool.filled_run () 0 (fun _ _ _ _ => trivial) k
  have hcount : wrapInt (k : ℤ) = -2 ^ 31 := by
    rw [hk]
    decide +kernel
  have hne : ∀ a b : ℕ, (-2 ^ 31 : ℤ) + (0 : ℕ) ≠ a + b := by
    intro a b
    omega
  have hpushing : Pool.pushing (⟨Pool.filled 1 1 () k,
      (Pool.init Unit 1 1).loc⟩ : Pool Unit 1 1) = 0 :=
    Finset.sum_eq_zero fun t _ => by cases t <;> rfl
  refine ⟨_, hreach, ?_, ?_⟩
  · rw [hpushing, Pool.filled_count, hcount]
    exact hne _ _
  · rw [Pool.filled_count, hcount]
    omega

end Mtasc
