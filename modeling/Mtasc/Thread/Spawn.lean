import Mtasc.Lib.Closure
import Mtasc.Thread.Termination

/-!
# What tasks submit

Here a task has a body: the submissions its function makes, one after the
other. A thread carries what is left of the body it executes, and the shared
state what has been submitted from outside the pool; both are history, and
without them a run is a run of the pool.

What has been pushed is what was submitted from outside and by the bodies that
have been popped, as far as they have come. When all workers have left, nothing
is under way, and what has run is the closure of what came from outside.
-/

namespace Mtasc

open Lib

variable {τ : Type} {n m : ℕ}

/-! ## The pool with bodies -/

structure BodyShared (τ : Type) (n m : ℕ) where
  pool : Shared τ n m
  /-- What threads outside the pool have submitted. -/
  outside : Multiset τ

structure BodyThread (τ : Type) where
  pc : Pc τ
  /-- What is left of the body. -/
  todo : List τ

/-- The submissions from outside behind an operation of thread `t`. -/
def Event.outsideAfter (t : Tid n m) (s : Multiset τ) : Event τ n m → Multiset τ
  | .call _ y => if t.role = .client then y ::ₘ s else s
  | _ => s

section

variable [DecidableEq τ]

/-- What is left of the body behind an operation of thread `t`. A task submits
the next element of its body, and returns at its end. -/
def Event.todoAfter (body : τ → List τ) (t : Tid n m) (todo : List τ) :
    Event τ n m → Option (List τ)
  | .call _ y =>
      if t.role = .client then some todo
      else if todo.head? = some y then some todo.tail else none
  | .popFront x => some (body x)
  | .finish _ => if todo = [] then some [] else none
  | _ => some todo

def bodyStep (body : τ → List τ) (t : Tid n m) (g : BodyShared τ n m)
    (l : BodyThread τ) (e : Event τ n m) :
    Option (BodyShared τ n m × BodyThread τ) :=
  (poolStep t g.pool l.pc e).bind fun r =>
    (e.todoAfter body t l.todo).map fun todo =>
      (⟨r.1, e.outsideAfter t g.outside⟩, ⟨r.2, todo⟩)

abbrev BodyPool (τ : Type) (n m : ℕ) : Type :=
  Config (Tid n m) (BodyShared τ n m) (BodyThread τ)

namespace BodyPool

def init (τ : Type) (n m : ℕ) : BodyPool τ n m where
  shared := ⟨{}, 0⟩
  loc t := ⟨(Pool.init τ n m).loc t, []⟩

/-- The pool itself. -/
def pool (c : BodyPool τ n m) : Pool τ n m :=
  ⟨c.shared.pool, BodyThread.pc ∘ c.loc⟩

/-- The states of the runs whose steps satisfy `ok`. -/
abbrev Reachable (body : τ → List τ) (ok : Pool.StepRule τ n m)
    (c : BodyPool τ n m) : Prop :=
  Reach (bodyStep body) (fun c t e c' => ok (pool c) t e (pool c'))
    (BodyPool.init τ n m) c

end BodyPool

variable {body : τ → List τ} {ok : Pool.StepRule τ n m} {c : BodyPool τ n m}

theorem bodyStep_eq_some {t : Tid n m} {g g' : BodyShared τ n m}
    {l l' : BodyThread τ} {e : Event τ n m}
    (h : bodyStep body t g l e = some (g', l')) :
    poolStep t g.pool l.pc e = some (g'.pool, l'.pc) ∧
      e.todoAfter body t l.todo = some l'.todo ∧
      g'.outside = e.outsideAfter t g.outside := by
  obtain ⟨r, hstep, hrest⟩ := Option.bind_eq_some_iff.mp h
  obtain ⟨todo, htodo, heq⟩ := Option.map_eq_some_iff.mp hrest
  cases heq
  exact ⟨hstep, htodo, rfl⟩

theorem Event.todoAfter_finish {t : Tid n m} {todo todo' : List τ} {x : τ}
    (h : (Event.finish x : Event τ n m).todoAfter body t todo = some todo') :
    todo = [] ∧ todo' = [] := by
  simp only [Event.todoAfter] at h
  split at h
  · next hnil => exact ⟨hnil, (Option.some.inj h).symm⟩
  · cases h

/-- **A pool with bodies is a pool.** -/
theorem BodyPool.pool_reachable (h : Reachable body ok c) :
    Pool.Reachable ok c.pool := by
  refine Reach.simulate BodyPool.pool ?_ h
  intro c t e g l _ hok hstep
  obtain ⟨hpool, -, -⟩ := bodyStep_eq_some hstep
  refine Or.inr ⟨e, hok, ?_⟩
  have hpc : (BodyPool.pool c).loc t = (c.loc t).pc := rfl
  rw [Lib.move, hpc, show (BodyPool.pool c).shared = c.shared.pool from rfl, hpool]
  simp only [Option.map_some, BodyPool.pool, Function.comp_update]

/-! ## The balance of submissions -/

/-- The submission a thread has called and not pushed. -/
def Stage.calling : Stage → Bool
  | .lock => true
  | .push => true
  | _ => false

def Submission.calling (s : Submission τ) : Multiset τ :=
  if s.stage.calling then {s.task} else 0

def Pc.calling : Pc τ → Multiset τ
  | .submit s => s.calling
  | .runningSubmit _ s => s.calling
  | _ => 0

omit [DecidableEq τ] in
theorem Edge.call_spec {pc pc' : Pc τ} {path : Path} {y : τ}
    (h : Edge pc (.call path y : Event τ n m) pc') :
    (∃ x, pc = .running x ∧ pc' = .runningSubmit x ⟨path, y, .lock⟩) ∨
      (pc = .idle ∧ pc' = .submit ⟨path, y, .lock⟩) := by
  cases h with
  | taskCall x => exact Or.inl ⟨x, rfl, rfl⟩
  | call => exact Or.inr ⟨rfl, rfl⟩
  | taskSubmit _ _ _ h => cases h
  | taskReturn _ _ _ h => cases h
  | submit _ _ h => cases h
  | «return» _ _ h => cases h

omit [DecidableEq τ] in
/-- A thread that carries no task carried none before, unless the task has
returned. -/
theorem Edge.carried_zero {pc pc' : Pc τ} {e : Event τ n m}
    (h : Edge pc e pc') (hpc' : pc'.carried = 0) : (∃ x, e = .finish x) ∨
      (pc.carried = 0 ∧ ∀ x, e ≠ .popFront x) := by
  have hne : ∀ x : τ, ({x} : Multiset τ) ≠ 0 := fun x => Multiset.singleton_ne_zero x
  cases h with
  | finish x => exact Or.inl ⟨x, rfl⟩
  | popFront x => exact absurd hpc' (hne x)
  | taskReturn x _ _ h => exact absurd hpc' (hne x)
  | submit _ _ h =>
      refine Or.inr ⟨rfl, fun x hx => ?_⟩
      subst hx
      cases h
  | «return» _ _ h =>
      refine Or.inr ⟨rfl, fun x hx => ?_⟩
      subst hx
      cases h
  | unlockTask x => exact absurd hpc' (hne x)
  | taskCall x => exact absurd hpc' (hne x)
  | taskSubmit x _ _ h => exact absurd hpc' (hne x)
  | _ => exact Or.inr ⟨rfl, fun x hx => by cases hx⟩

/-- Who carries no task has nothing left to submit. -/
theorem BodyPool.todo_nil (h : Reachable body ok c) (t : Tid n m)
    (hcarried : (c.loc t).pc.carried = 0) : (c.loc t).todo = [] := by
  refine Reach.forall_thread
    (P := fun _ _ (l : BodyThread τ) => l.pc.carried = 0 → l.todo = [])
    (fun t _ => rfl) ?_ (fun _ _ _ _ _ u _ hP _ _ => hP u) h t hcarried
  intro c t e g l hc hP hstep hcarried
  obtain ⟨hpool, htodo, -⟩ := bodyStep_eq_some hstep
  obtain ⟨hedge, -, -⟩ := poolStep_edge hpool
  rcases hedge.carried_zero hcarried with ⟨x, rfl⟩ | ⟨hbefore, hpop⟩
  · exact (Event.todoAfter_finish htodo).2
  · have hnil := hP t hbefore
    cases e with
    | call path y =>
        rcases hedge.call_spec with ⟨x, hpc, -⟩ | ⟨hpc, -⟩
        · rw [hpc] at hbefore
          exact absurd hbefore (Multiset.singleton_ne_zero x)
        · have hrole := Pool.role (BodyPool.pool_reachable hc) t
          have hclient : t.role = .client := by
            rw [← hrole]
            exact congrArg Pc.role hpc
          simp only [Event.todoAfter, if_pos hclient] at htodo
          rw [← Option.some.inj htodo, hnil]
    | popFront x => exact absurd rfl (hpop x)
    | finish x => exact (Event.todoAfter_finish htodo).2
    | _ =>
        rw [← Option.some.inj htodo]
        exact hnil

/-- What has been submitted from outside and by what has been popped. -/
def BodyShared.due (body : τ → List τ) (g : BodyShared τ n m) : Multiset τ :=
  g.outside + (g.pool.popped : Multiset τ).bind fun x => (body x : Multiset τ)

/-- What a thread has yet to push. -/
def BodyThread.owes (l : BodyThread τ) : Multiset τ :=
  l.pc.calling + (l.todo : Multiset τ)

omit [DecidableEq τ] in
theorem SubmissionEdge.calling {path : Path} {y : τ} {stage : Stage}
    {e : Event τ n m} {o : Option Stage} (h : SubmissionEdge path y stage e o)
    (t : Tid n m) (g : Shared τ n m) :
    (g.pushed : Multiset τ) + Submission.calling ⟨path, y, stage⟩ =
      ((e.effect t g).pushed : Multiset τ) +
        o.elim 0 fun s => Submission.calling ⟨path, y, s⟩ := by
  cases h with
  | push =>
      simp only [Event.effect, Submission.calling, Stage.calling, if_true,
        Bool.false_eq_true, if_false, Option.elim]
      rw [← Multiset.coe_add, Multiset.coe_singleton, add_zero]
  | notify u => cases u <;> rfl
  | _ => rfl

/-- **What an operation moves** from one account to another. -/
theorem bodyStep_due {t : Tid n m} {g g' : BodyShared τ n m}
    {l l' : BodyThread τ} {e : Event τ n m} (hrole : l.pc.role = t.role)
    (hidle : l.pc.carried = 0 → l.todo = [])
    (hstep : bodyStep body t g l e = some (g', l')) :
    g'.due body + (g.pool.pushed : Multiset τ) + l.owes =
      g.due body + (g'.pool.pushed : Multiset τ) + l'.owes := by
  obtain ⟨hpool, htodo, hout⟩ := bodyStep_eq_some hstep
  obtain ⟨hedge, -, heffect⟩ := poolStep_edge hpool
  obtain ⟨p, todo⟩ := l
  obtain ⟨p', todo'⟩ := l'
  obtain ⟨g', outside'⟩ := g'
  simp only at hrole hidle hpool htodo hout hedge heffect
  subst heffect hout
  have hkeep : ∀ pushed pushed' : Multiset τ, todo' = todo →
      pushed + p.calling = pushed' + p'.calling →
      g.due body + pushed + BodyThread.owes ⟨p, todo⟩ =
        g.due body + pushed' + BodyThread.owes ⟨p', todo'⟩ := by
    rintro pushed pushed' rfl hcalling
    calc g.due body + pushed + (p.calling + (todo' : Multiset τ))
        = g.due body + (pushed + p.calling) + (todo' : Multiset τ) := by ac_rfl
      _ = g.due body + (pushed' + p'.calling) + (todo' : Multiset τ) := by
          rw [hcalling]
      _ = g.due body + pushed' + (p'.calling + (todo' : Multiset τ)) := by ac_rfl
  have hsubmit : ∀ {path : Path} {y : τ} {stage : Stage} {o : Option Stage},
      SubmissionEdge path y stage e o →
      BodyShared.due body ⟨e.effect t g.pool, e.outsideAfter t g.outside⟩ =
        g.due body ∧ todo' = todo := by
    intro path y stage o h
    cases h with
    | notify u => cases u <;> exact ⟨rfl, (Option.some.inj htodo).symm⟩
    | _ => exact ⟨rfl, (Option.some.inj htodo).symm⟩
  cases hedge with
  | taskCall x path y =>
      have hworker : t.role ≠ .client := by
        rw [← hrole]
        intro hr
        cases hr
      simp only [Event.todoAfter, if_neg hworker] at htodo
      split at htodo
      · next hhead =>
        obtain ⟨rest, rfl⟩ := List.head?_eq_some_iff.mp hhead
        obtain rfl := Option.some.inj htodo
        have hout : g.outside = (Event.call path y : Event τ n m).outsideAfter t
            g.outside := (if_neg hworker).symm
        show BodyShared.due body ⟨g.pool, _⟩ + (g.pool.pushed : Multiset τ) +
            (0 + ((y :: rest : List τ) : Multiset τ)) =
          g.due body + (g.pool.pushed : Multiset τ) + ({y} + (rest : Multiset τ))
        rw [← hout, zero_add, ← Multiset.cons_coe, ← Multiset.singleton_add]
      · cases htodo
  | call path y =>
      have hclient : t.role = .client := hrole.symm
      simp only [Event.todoAfter, if_pos hclient] at htodo
      obtain rfl := Option.some.inj htodo
      show (Event.call path y : Event τ n m).outsideAfter t g.outside + _ + _ +
          (0 + (todo : Multiset τ)) =
        g.outside + _ + _ + ({y} + (todo : Multiset τ))
      simp only [Event.outsideAfter, if_pos hclient, ← Multiset.singleton_add]
      ac_rfl
  | popFront x =>
      obtain rfl := Option.some.inj htodo
      obtain rfl := hidle rfl
      show g.outside + Multiset.bind ((g.pool.popped ++ [x] : List τ) : Multiset τ) _ +
          (g.pool.pushed : Multiset τ) + (0 + 0) =
        g.outside + Multiset.bind (g.pool.popped : Multiset τ) _ +
          (g.pool.pushed : Multiset τ) + (0 + (body x : Multiset τ))
      rw [← Multiset.coe_add, Multiset.add_bind, Multiset.coe_singleton,
        Multiset.singleton_bind]
      ac_rfl
  | finish x =>
      obtain ⟨rfl, rfl⟩ := Event.todoAfter_finish htodo
      exact hkeep _ _ rfl rfl
  | taskSubmit x y path h =>
      rw [(hsubmit h).1]
      exact hkeep _ _ (hsubmit h).2 (h.calling t g.pool)
  | taskReturn x y path h =>
      rw [(hsubmit h).1]
      exact hkeep _ _ (hsubmit h).2 (h.calling t g.pool)
  | submit y path h =>
      rw [(hsubmit h).1]
      exact hkeep _ _ (hsubmit h).2 (h.calling t g.pool)
  | «return» y path h =>
      rw [(hsubmit h).1]
      exact hkeep _ _ (hsubmit h).2 (h.calling t g.pool)
  | _ => exact hkeep _ _ (Option.some.inj htodo).symm rfl

/-- **The balance**: what is due has been pushed or is owed by a thread. -/
theorem BodyPool.balance (h : Reachable body ok c) : c.shared.due body =
    (c.shared.pool.pushed : Multiset τ) + ∑ t, (c.loc t).owes := by
  refine Reach.sum (fun g : BodyShared τ n m => g.due body)
    (fun g : BodyShared τ n m => (g.pool.pushed : Multiset τ))
    BodyThread.owes ?_ ?_ h
  · rw [Finset.sum_eq_zero fun t _ => by cases t <;> rfl]
    rfl
  · intro c t e g l hc _ _ hstep
    exact bodyStep_due (Pool.role (BodyPool.pool_reachable hc) t)
      (BodyPool.todo_nil hc t) hstep

omit [DecidableEq τ] in
theorem Event.effect_pushed (t : Tid n m) (g : Shared τ n m) (e : Event τ n m) :
    (e.effect t g).pushed = g.pushed ∨
      ((∃ x, e = .pushBack x) ∧ (e.effect t g).popped = g.popped) := by
  cases e with
  | pushBack x => exact Or.inr ⟨⟨x, rfl⟩, rfl⟩
  | notifyOne u => cases u <;> exact Or.inl rfl
  | _ => exact Or.inl rfl

omit [DecidableEq τ] in
theorem Event.le_outsideAfter (t : Tid n m) (s : Multiset τ)
    (e : Event τ n m) : s ≤ e.outsideAfter t s := by
  cases e with
  | call path y =>
      simp only [Event.outsideAfter]
      split
      · exact Multiset.le_cons_self s y
      · exact le_refl s
  | _ => exact le_refl s

/-- Nothing is pushed that does not come of what was submitted outside. -/
theorem BodyPool.pushed_le (h : Reachable body ok c) {q : Multiset τ}
    (hq : Contains (fun x => (body x : Multiset τ)) c.shared.outside q) :
    (c.shared.pool.pushed : Multiset τ) ≤ q := by
  induction h generalizing q with
  | start => exact Multiset.zero_le q
  | @move c c' t e hc hok hmove ih =>
      have hreach : Reachable body ok c' := .move hc hok hmove
      obtain ⟨g, l, hstep, rfl⟩ := move_eq_some hmove
      obtain ⟨hpool, -, hout⟩ := bodyStep_eq_some hstep
      obtain ⟨-, -, heffect⟩ := poolStep_edge hpool
      have hbefore : (c.shared.pool.pushed : Multiset τ) ≤ q := by
        refine ih (hq.mono_left ?_)
        rw [show g.outside = _ from hout]
        exact e.le_outsideAfter t _
      simp only [heffect]
      rcases e.effect_pushed t c.shared.pool with hsame | ⟨-, hpopped⟩
      · rw [hsame]
        exact hbefore
      · -- a push: it comes of what has been popped, which had been pushed
        have hdue := BodyPool.balance hreach
        have horder := Pool.pushed_eq (BodyPool.pool_reachable hc)
        have hle : (c.shared.pool.popped : Multiset τ) ≤ q := by
          refine le_trans ?_ hbefore
          rw [show c.shared.pool.pushed = _ from horder, ← Multiset.coe_add]
          exact Multiset.le_add_right _ _
        calc ((e.effect t c.shared.pool).pushed : Multiset τ)
            ≤ g.due body := by
              rw [← heffect, show g.due body = _ from hdue]
              exact Multiset.le_add_right _ _
          _ = g.outside + (c.shared.pool.popped : Multiset τ).bind _ := by
              rw [BodyShared.due, heffect, hpopped]
          _ ≤ q := hq.round hle

/-- When all workers have left, no thread has a task in its hands. -/
theorem Pool.left_clear {c : Pool τ n m} (hn : 0 < n)
    (hok : ∀ c t e c', ok c t e c' → closedBySubmitters c t e c')
    (h : Reachable ok c) (hleft : ∀ i, (c.loc (.worker i)).hasLeft = true)
    (t : Tid n m) : (c.loc t).carried = 0 ∧ (c.loc t).calling = 0 := by
  have hrole := Pool.role h t
  cases t with
  | worker i =>
      refine ⟨Pc.carried_of_hasLeft (hleft i), ?_⟩
      have hpc := hleft i
      generalize c.loc (.worker i) = pc at hpc
      cases pc <;> first | rfl | cases hpc
  | client j =>
      have hidle : c.loc (.client j) = .idle := by
        rcases Pool.clients_idle hok h with ⟨-, hopen⟩ | ⟨-, hidle⟩
        · have hstop := (Pool.mayLeave h (.worker ⟨0, hn⟩)).stop
            (Pc.decided_of_hasLeft (hleft _))
          rw [hopen] at hstop
          cases hstop
        · exact hidle j
      rw [hidle]
      exact ⟨rfl, rfl⟩
  | closer =>
      constructor
      · refine Pc.carried_of_role ?_
        rw [hrole]
        intro hr
        cases hr
      · generalize c.loc .closer = pc at hrole
        cases pc <;> first | rfl | cases hrole

/-- Who has left owes nothing. -/
theorem BodyPool.owes_left (hn : 0 < n)
    (hok : ∀ c t e c', ok c t e c' → Pool.closedBySubmitters c t e c')
    (h : Reachable body ok c)
    (hleft : ∀ i, (c.loc (.worker i)).pc.hasLeft = true) (t : Tid n m) :
    (c.loc t).owes = 0 := by
  obtain ⟨hcarried, hcalling⟩ : (c.loc t).pc.carried = 0 ∧
      (c.loc t).pc.calling = 0 :=
    Pool.left_clear hn hok (BodyPool.pool_reachable h) hleft t
  rw [BodyThread.owes, hcalling, BodyPool.todo_nil h t hcarried]
  rfl

/-- **What has been run is what comes of the outside submissions.** When all
workers have left, and the calls from outside had returned before the closing
call, the tasks that have run are those submitted from outside and, for each of
them as often as it ran, those its body submits, and so on: every one of them
once, and no other. -/
theorem BodyPool.ran_closure (hn : 0 < n)
    (h : Reachable body Pool.closedBySubmitters c)
    (hleft : ∀ i, (c.loc (.worker i)).pc.hasLeft = true) :
    IsClosure (fun x => (body x : Multiset τ)) c.shared.outside
      (c.shared.pool.ran : Multiset τ) := by
  have hpool := BodyPool.pool_reachable h
  have hran := Multiset.coe_eq_coe.mpr
    (Pool.left_ran hn (fun _ _ _ _ => id) hpool hleft)
  have htasks := Pool.left_tasks hn (fun _ _ _ _ => id) hpool hleft
  have horder := Pool.pushed_eq hpool
  rw [htasks, List.append_nil] at horder
  have hdue := BodyPool.balance h
  rw [Finset.sum_eq_zero fun t _ =>
    BodyPool.owes_left hn (fun _ _ _ _ => id) h hleft t, add_zero] at hdue
  have hpopped : c.shared.pool.popped = c.shared.pool.pushed := horder.symm
  have heq : (c.shared.pool.pushed : Multiset τ) = c.shared.due body := hdue.symm
  rw [BodyShared.due, hpopped] at heq
  rw [show (c.shared.pool.ran : Multiset τ) = _ from hran]
  exact ⟨heq, fun q hq => BodyPool.pushed_le h hq⟩

end

/-! ## A run -/

/-- A task that submits another one. -/
def parentBody : Bool → List Bool
  | true => [false]
  | false => []

/-- A task is submitted from outside, and the pool is closed while it runs and
before it submits another one. -/
def parentRun (parent child : τ) : List (Tid 1 1 × Event τ 1 1) :=
  closingRun parent ++ drainingRun parent child

theorem BodyPool.ran_closure_parent : ∃ c : BodyPool Bool 1 1,
    c.shared.outside = {true} ∧ c.shared.pool.ran = [true, false] ∧
    IsClosure (fun x => (parentBody x : Multiset Bool)) c.shared.outside
      (c.shared.pool.ran : Multiset Bool) := by
  have hrun : (runSteps (bodyStep parentBody)
      (fun c t e c' => Pool.closedBySubmitters (pool c) t e (pool c'))
      (BodyPool.init Bool 1 1) (parentRun true false)).any (fun c =>
        (c.loc (.worker 0)).pc.hasLeft && decide (c.shared.outside = {true}) &&
          decide (c.shared.pool.ran = [true, false])) = true := by
    decide +kernel
  obtain ⟨c, hreach, hend⟩ := Reach.run_any .start hrun
  simp only [Bool.and_eq_true, decide_eq_true_eq] at hend
  obtain ⟨⟨hleft, hout⟩, hran⟩ := hend
  refine ⟨c, hout, hran, BodyPool.ran_closure Nat.one_pos
    hreach fun i => ?_⟩
  rw [Fin.fin_one_eq_zero i]
  exact hleft

end Mtasc
