import Mtasc.Thread.Termination

/-!
# Conflicting accesses to `M_tasks`

Every access to the queue is made with a mutex in hand, but not always with the
same one: the workers and `asyncTaskret` hold `M_tasksMutex_`, `asyncTaskvoid`,
the accounting and the predicate of `waitAllthread` hold `M_countMutex_`. Two
accesses conflict when one of them writes. What mutual exclusion leaves of the
conflicts is below; the model takes the operations one at a time, in which it
grants the deque more than its type does.
-/

namespace Mtasc

open Lib

variable {τ : Type} {n m : ℕ}

/-! ## Accesses -/

inductive DequeAccess where
  | read
  | write
deriving DecidableEq

/-- The access to the deque an operation makes. `front` is moved out of. -/
def Event.access : Event τ n m → Option DequeAccess
  | .tasksEmpty _ => some .read
  | .front _ => some .write
  | .popFront _ => some .write
  | .underflow => some .write
  | .pushBack _ => some .write
  | _ => none

/-- About to push inside `asyncTaskvoid`. -/
def Pc.voidPush (pc : Pc τ) : Bool :=
  pc.submission.any fun s =>
    decide (s.path = .asyncTaskvoid) && decide (s.stage = .push)

theorem SubmissionEdge.access {path : Path} {y : τ} {stage : Stage}
    {e : Event τ n m} {o : Option Stage} (h : SubmissionEdge path y stage e o)
    (he : e.access ≠ none) : stage = .push := by
  cases h with
  | push => rfl
  | _ => exact absurd rfl he

/-- Who accesses the deque holds a mutex. -/
theorem Edge.access_held {pc pc' : Pc τ} {e : Event τ n m} (h : Edge pc e pc')
    (he : e.access ≠ none) : ∃ x, pc.holds x = true := by
  have hsubmit : ∀ {path : Path} {y : τ} {stage : Stage} {o : Option Stage},
      SubmissionEdge path y stage e o →
      Submission.holds ⟨path, y, stage⟩ path.mutex = true := by
    intro path y stage o h
    obtain rfl := h.access he
    cases path <;> rfl
  cases h with
  | predEmpty => exact ⟨.tasksMutex, rfl⟩
  | predFilled => exact ⟨.tasksMutex, rfl⟩
  | exitEmpty => exact ⟨.tasksMutex, rfl⟩
  | exitFilled => exact ⟨.tasksMutex, rfl⟩
  | contEmpty => exact ⟨.tasksMutex, rfl⟩
  | contFilled => exact ⟨.tasksMutex, rfl⟩
  | front x => exact ⟨.tasksMutex, rfl⟩
  | frontUndefined => exact ⟨.tasksMutex, rfl⟩
  | popFront x => exact ⟨.tasksMutex, rfl⟩
  | popUndefined x => exact ⟨.tasksMutex, rfl⟩
  | postEmpty => exact ⟨.countMutex, rfl⟩
  | postFilled => exact ⟨.countMutex, rfl⟩
  | waitEmpty last => exact ⟨.countMutex, rfl⟩
  | waitFilled => exact ⟨.countMutex, rfl⟩
  | lastFilled => exact ⟨.countMutex, rfl⟩
  | taskSubmit x y path h => exact ⟨path.mutex, hsubmit h⟩
  | taskReturn x y path h => exact ⟨path.mutex, hsubmit h⟩
  | submit y path h => exact ⟨path.mutex, hsubmit h⟩
  | «return» y path h => exact ⟨path.mutex, hsubmit h⟩
  | _ => exact absurd rfl he

/-- Under `M_countMutex_` only the push of `asyncTaskvoid` writes. -/
theorem Edge.count_write {pc pc' : Pc τ} {e : Event τ n m} (h : Edge pc e pc')
    (hwrite : e.access = some .write) (hheld : pc.holds .countMutex = true) :
    pc.voidPush = true := by
  have hsubmit : ∀ {path : Path} {y : τ} {stage : Stage} {o : Option Stage},
      SubmissionEdge path y stage e o →
      Submission.holds ⟨path, y, stage⟩ .countMutex = true →
      (decide (path = .asyncTaskvoid) && decide (stage = .push)) = true := by
    intro path y stage o h hheld
    obtain rfl := h.access (by rw [hwrite]; exact Option.some_ne_none _)
    cases path with
    | asyncTaskvoid => rfl
    | asyncTaskret => cases hheld
  cases h with
  | taskSubmit x y path h => exact hsubmit h hheld
  | taskReturn x y path h => exact hsubmit h hheld
  | submit y path h => exact hsubmit h hheld
  | «return» y path h => exact hsubmit h hheld
  | front x => cases hheld
  | frontUndefined => cases hheld
  | popFront x => cases hheld
  | popUndefined x => cases hheld
  | _ => cases hwrite

/-! ## Races -/

variable [DecidableEq τ]

/-- Two threads can both access the deque next, and one of them writes. -/
structure Pool.Race (c : Pool τ n m) (t u : Tid n m) (a b : DequeAccess) : Prop where
  ne : t ≠ u
  first : ∃ e pc', Edge (c.loc t) e pc' ∧ e.enabled t c.shared = true ∧
    e.access = some a
  second : ∃ e pc', Edge (c.loc u) e pc' ∧ e.enabled u c.shared = true ∧
    e.access = some b
  conflict : a = .write ∨ b = .write

theorem Mutex.eq_of_ne {x y : Mutex} (h : x ≠ y) :
    (x = .tasksMutex ∧ y = .countMutex) ∨ (x = .countMutex ∧ y = .tasksMutex) := by
  cases x <;> cases y
  · exact absurd rfl h
  · exact Or.inl ⟨rfl, rfl⟩
  · exact Or.inr ⟨rfl, rfl⟩
  · exact absurd rfl h

/-- **Where the queue is raced for.** In every state of every interleaving, two
threads with conflicting accesses hold the two different mutexes; and where
both write, one of them is about to push in `asyncTaskvoid`. -/
theorem Pool.race_mutexes {c : Pool τ n m} (h : Reachable anyStep c)
    {t u : Tid n m} {a b : DequeAccess} (hrace : c.Race t u a b) :
    (((c.loc t).holds .tasksMutex = true ∧ (c.loc u).holds .countMutex = true) ∨
      ((c.loc t).holds .countMutex = true ∧ (c.loc u).holds .tasksMutex = true)) ∧
    (a = .write → b = .write →
      (c.loc t).voidPush = true ∨ (c.loc u).voidPush = true) := by
  obtain ⟨e, pc, hedge, -, ha⟩ := hrace.first
  obtain ⟨e', pc', hedge', -, hb⟩ := hrace.second
  obtain ⟨x, hx⟩ := hedge.access_held (by rw [ha]; exact Option.some_ne_none a)
  obtain ⟨y, hy⟩ := hedge'.access_held (by rw [hb]; exact Option.some_ne_none b)
  have hne : x ≠ y := by
    rintro rfl
    exact hrace.ne (Pool.exclusive h hx hy)
  rcases Mutex.eq_of_ne hne with ⟨rfl, rfl⟩ | ⟨rfl, rfl⟩
  · exact ⟨Or.inl ⟨hx, hy⟩, fun _ hwrite =>
      Or.inr (hedge'.count_write (hwrite ▸ hb) hy)⟩
  · exact ⟨Or.inr ⟨hx, hy⟩, fun hwrite _ =>
      Or.inl (hedge.count_write (hwrite ▸ ha) hx)⟩

/-- A worker is between `front` and `pop_front`, and `asyncTaskvoid` in front
of its `push_back`. -/
def racingRun : List (Tid 1 1 × Event Unit 1 1) :=
  [(onlyClient, .call .asyncTaskvoid ()), (onlyClient, .lock .countMutex),
    (onlyClient, .pushBack ()), (onlyClient, .increment),
    (onlyClient, .unlock .countMutex), (onlyClient, .notifyOne none),
    (onlyWorker, .lock .tasksMutex), (onlyWorker, .tasksEmpty false),
    (onlyWorker, .tasksEmpty false), (onlyWorker, .tasksEmpty false),
    (onlyWorker, .front ()),
    (onlyClient, .call .asyncTaskvoid ()), (onlyClient, .lock .countMutex)]

theorem Pool.race_mutexes_push : ∃ c : Pool Unit 1 1, Reachable anyStep c ∧
    c.Race (.worker 0) (.client 0) .write .write ∧
    ((c.loc (.worker 0)).voidPush = true ∨ (c.loc (.client 0)).voidPush = true) := by
  have hrun : (runSteps poolStep anyStep (Pool.init Unit 1 1) racingRun).any
      (fun c => decide (c.loc (.worker 0) = .popFront ()) &&
        decide (c.loc (.client 0) = .submit ⟨.asyncTaskvoid, (), .push⟩) &&
        decide (c.shared.tasks = [()])) = true := by
    decide +kernel
  obtain ⟨c, hreach, hend⟩ := Reach.run_any .start hrun
  simp only [Bool.and_eq_true, decide_eq_true_eq] at hend
  obtain ⟨⟨hworker, hclient⟩, htasks⟩ := hend
  have hrace : Pool.Race c (.worker 0) (.client 0) .write .write := by
    refine ⟨fun heq => (by cases heq), ?_, ?_, Or.inl rfl⟩
    · rw [hworker]
      refine ⟨.popFront (), _, .popFront (), ?_, rfl⟩
      simp [Event.enabled, htasks]
    · rw [hclient]
      exact ⟨.pushBack (), _, .submit _ _ .push, rfl, rfl⟩
  exact ⟨c, hreach, hrace, (Pool.race_mutexes hreach hrace).2 rfl rfl⟩

end Mtasc
