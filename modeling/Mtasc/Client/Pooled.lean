import Mtasc.Client.Once
import Mtasc.Thread.Spawn

/-!
# Operations on the pool

A write or a read over TCP is a task of the pool that submits a callback, and a
callback is a task that calls further operations. Put together, the pool loses
no operation: each one that has been called, from outside or by a callback, has
had its callback run once by the time all workers have left.
-/

namespace Mtasc

open Lib

/-- A call of the client with its arguments. -/
inductive Operation where
  | write (ctx : ClientContext) (message : Bytes)
  | read (ctx : ClientContext) (buffer : ReadBuffer) (chacheSize : ℕ)
  | readUntil (ctx : ClientContext) (delimiter : Bytes)

def Operation.prog (fuel : ℕ) : Operation → Net TaskEnd
  | .write ctx message => asyncWrite fuel ctx message
  | .read ctx b chacheSize => asyncRead fuel (some b) ctx chacheSize
  | .readUntil ctx delimiter => asyncReadUntil fuel ctx delimiter

/-- `async_write` refuses its arguments and submits the callback itself; no
task is posted. The reads post theirs in any case. -/
def Operation.refused : Operation → Bool
  | .write ctx message =>
      decide (ctx.socketfd < 0) || ctx.thisAddrInvalid ||
        decide (ctx.resovlerAddrs = []) || decide (message = [])
  | _ => false

/-- What `async_read_until` needs and does not check. -/
def Operation.Proper : Operation → Prop
  | .readUntil ctx _ => 0 ≤ ctx.socketfd
  | _ => True

/-- The tasks: of operation `k`, and its callback with what it is given. -/
inductive Job (κ : Type) where
  | operation (k : κ)
  | callback (k : κ) (s : Completion)
deriving DecidableEq

/-- The operation whose callback a task is. -/
def Job.completed {κ : Type} : Job κ → Multiset κ
  | .callback k _ => {k}
  | .operation _ => 0

/-- The operation a task is. -/
def Job.posted {κ : Type} : Job κ → Multiset κ
  | .callback _ _ => 0
  | .operation k => {k}

/-- A program over the client: which operations there are, what answers each
of them, and which operations the callback of each calls. -/
structure Session (κ : Type) where
  operation : κ → Operation
  fuel : ℕ
  oracle : κ → Oracle Call Call.Reply
  follow : κ → Completion → List κ

namespace Session

variable {κ : Type} (p : Session κ)

def run (k : κ) : Status TaskEnd × Trace :=
  ((p.operation k).prog p.fuel).exec (p.oracle k) []

/-- The callbacks operation `k` submits. -/
def callbacks (k : κ) : List (Job κ) :=
  (Trace.completions (p.run k).2).map (.callback k)

/-- What a call of operation `k` submits. -/
def start (k : κ) : List (Job κ) :=
  if (p.operation k).refused then p.callbacks k else [.operation k]

/-- What a task submits. -/
def body : Job κ → List (Job κ)
  | .operation k => p.callbacks k
  | .callback k s => (p.follow k s).flatMap p.start

/-- Each operation has run to its end. -/
structure Returns : Prop where
  reads : ∀ k, (p.oracle k).Obeys ReadContract
  proper : ∀ k, (p.operation k).Proper
  returned : ∀ k, (p.run k).1 = .done .returned

variable {p}

theorem Returns.submittedLast (h : p.Returns) (k : κ) :
    SubmittedLast (p.run k).2 := by
  have hret := h.returned k
  have hproper := h.proper k
  unfold Session.run at hret ⊢
  cases hop : p.operation k with
  | write ctx message =>
      rw [hop] at hret
      have hend := (asyncWrite_end ctx message p.fuel).exec
        (o := p.oracle k) fun _ _ => trivial
      rw [show ((asyncWrite p.fuel ctx message).exec (p.oracle k) []).1 = _
        from hret] at hend
      exact hend.2
  | read ctx b chacheSize =>
      rw [hop] at hret
      have hend := (asyncRead_end b ctx chacheSize p.fuel).exec (h.reads k)
      rw [show ((asyncRead p.fuel (some b) ctx chacheSize).exec
        (p.oracle k) []).1 = _ from hret] at hend
      exact hend.submittedLast
  | readUntil ctx delimiter =>
      rw [hop] at hret hproper
      have hend := (asyncReadUntil_end hproper delimiter p.fuel).exec (h.reads k)
      rw [show ((asyncReadUntil p.fuel ctx delimiter).exec
        (p.oracle k) []).1 = _ from hret] at hend
      exact hend.submittedLast

/-- The callback of an operation is one. -/
theorem Returns.callbacks_eq (h : p.Returns) (k : κ) :
    ∃ s, Trace.completions (p.run k).2 = [s] ∧ p.callbacks k = [.callback k s] := by
  obtain ⟨h', s, heq, hnone⟩ := h.submittedLast k
  have hone : Trace.completions (p.run k).2 = [s] := by
    rw [heq, Trace.completions_snoc, hnone]
    rfl
  exact ⟨s, hone, by rw [Session.callbacks, hone]; rfl⟩

/-! ## The balance of calls -/

/-- The operations a task calls. -/
def calls (p : Session κ) : Job κ → Multiset κ
  | .callback k s => p.follow k s
  | .operation _ => 0

theorem Returns.callbacks_completed (h : p.Returns) (k : κ) :
    (p.callbacks k : Multiset (Job κ)).bind Job.completed = {k} ∧
      (p.callbacks k : Multiset (Job κ)).bind Job.posted = 0 := by
  obtain ⟨s, -, heq⟩ := h.callbacks_eq k
  rw [heq, Multiset.coe_singleton, Multiset.singleton_bind,
    Multiset.singleton_bind]
  exact ⟨rfl, rfl⟩

theorem bind_self (s : Multiset κ) : (s.bind fun k => {k}) = s :=
  (Multiset.bind_singleton s id).trans (Multiset.map_id s)

/-- A call is answered by the operation's task or by its callback. -/
theorem Returns.start_balance (h : p.Returns) (k : κ) :
    (p.start k : Multiset (Job κ)).bind Job.completed +
      (p.start k : Multiset (Job κ)).bind Job.posted = {k} := by
  unfold Session.start
  split
  · obtain ⟨hcompleted, hposted⟩ := h.callbacks_completed k
    rw [hcompleted, hposted, add_zero]
  · rw [Multiset.coe_singleton, Multiset.singleton_bind, Multiset.singleton_bind]
    rfl

theorem Returns.body_balance (h : p.Returns) (x : Job κ) :
    (p.body x : Multiset (Job κ)).bind Job.completed +
      (p.body x : Multiset (Job κ)).bind Job.posted = x.posted + p.calls x := by
  cases x with
  | operation k =>
      obtain ⟨hcompleted, hposted⟩ := h.callbacks_completed k
      rw [Session.body, hcompleted, hposted]
      rfl
  | callback k s =>
      have hbind : (p.body (.callback k s) : Multiset (Job κ)) =
          (p.follow k s : Multiset κ).bind
            fun k' => (p.start k' : Multiset (Job κ)) := by
        rw [Multiset.coe_bind]
        rfl
      rw [hbind, Multiset.bind_assoc, Multiset.bind_assoc, ← Multiset.bind_add,
        Multiset.bind_congr fun k' _ => h.start_balance k', Session.bind_self]
      exact (zero_add _).symm

variable [DecidableEq κ] {n m : ℕ} {c : BodyPool (Job κ) n m}

/-- **Every operation completes once.** When all workers have left, the
callbacks that have run are one for each call of an operation, made from
outside or by a callback that has run, and each has been given what its
operation ended with. -/
theorem callbacks_run_once (p : Session κ) (hp : p.Returns) (hn : 0 < n)
    (h : BodyPool.Reachable p.body Pool.closedBySubmitters c)
    (hleft : ∀ i, (c.loc (.worker i)).pc.hasLeft = true) (outside : Multiset κ)
    (hout : c.shared.outside =
      outside.bind fun k => (p.start k : Multiset (Job κ))) :
    (c.shared.pool.ran : Multiset (Job κ)).bind Job.completed =
      outside + (c.shared.pool.ran : Multiset (Job κ)).bind p.calls ∧
    ∀ k s, .callback k s ∈ c.shared.pool.ran →
      Trace.completions (p.run k).2 = [s] := by
  have hclosure := BodyPool.ran_closure hn h hleft
  refine ⟨?_, fun k s hmem => ?_⟩
  · have hcompleted := hclosure.bind_eq Job.completed
    have hposted := hclosure.bind_eq Job.posted
    generalize (c.shared.pool.ran : Multiset (Job κ)) = r at hcompleted hposted ⊢
    rw [hout, Multiset.bind_assoc] at hcompleted hposted
    -- what is called is either completed at once or posted
    have hsum : r.bind Job.completed + r.bind Job.posted =
        outside + r.bind p.calls + r.bind Job.posted :=
      calc r.bind Job.completed + r.bind Job.posted
          = (outside.bind fun k => (p.start k : Multiset (Job κ)).bind Job.completed) +
                (outside.bind fun k => (p.start k : Multiset (Job κ)).bind Job.posted) +
              ((r.bind fun a => (p.body a : Multiset (Job κ)).bind Job.completed) +
                r.bind fun a => (p.body a : Multiset (Job κ)).bind Job.posted) := by
            rw [hcompleted, hposted]
            ac_rfl
        _ = outside + (r.bind Job.posted + r.bind p.calls) := by
            rw [← Multiset.bind_add, ← Multiset.bind_add, ← Multiset.bind_add,
              Multiset.bind_congr fun k _ => hp.start_balance k,
              Multiset.bind_congr fun x _ => hp.body_balance x, bind_self]
        _ = outside + r.bind p.calls + r.bind Job.posted := by ac_rfl
    exact add_right_cancel hsum
  · have hcallback : ∀ k', Job.callback k s ∈ p.callbacks k' →
        Trace.completions (p.run k).2 = [s] := by
      intro k' hk'
      obtain ⟨s', hone, heq⟩ := hp.callbacks_eq k'
      rw [heq, List.mem_singleton] at hk'
      cases hk'
      exact hone
    have hstart : ∀ k', Job.callback k s ∈ p.start k' →
        Trace.completions (p.run k).2 = [s] := by
      intro k' hk'
      unfold Session.start at hk'
      split at hk'
      · exact hcallback k' hk'
      · cases List.mem_singleton.mp hk'
    rcases hclosure.mem (Multiset.mem_coe.mpr hmem) with hmem | ⟨x, hx⟩
    · rw [hout] at hmem
      obtain ⟨k', -, hk'⟩ := Multiset.mem_bind.mp hmem
      exact hstart k' hk'
    · cases x with
      | operation k' => exact hcallback k' hx
      | callback k' s' =>
          obtain ⟨k'', -, hk''⟩ := List.mem_flatMap.mp hx
          exact hstart k'' hk''

/-- A read up to the delimiter, whose callback calls nothing. -/
def reading : Session Unit where
  operation _ := .readUntil connected [67]
  fuel := 9
  oracle _ := silentStream [[66], [67]] eagain
  follow _ _ := []

/-- What its callback is given. -/
def found : Completion :=
  .read {} 2 (some ⟨[66, 67], 0, 2⟩)
    { connected with maxRetyCount := 10, isRetrySuccess := true }

theorem reading_returns : reading.Returns where
  reads _ := silentStream_reads [[66], [67]] eagain
  proper _ := Int.natCast_nonneg 4
  returned k := by
    cases k
    decide +kernel

theorem callbacks_run_once_reading : ∃ c : BodyPool (Job Unit) 1 1,
    c.shared.pool.ran = [.operation (), .callback () found] ∧
    (c.shared.pool.ran : Multiset (Job Unit)).bind Job.completed =
      {()} + (c.shared.pool.ran : Multiset (Job Unit)).bind reading.calls := by
  have hrun : (runSteps (bodyStep reading.body)
      (fun c t e c' => Pool.closedBySubmitters (BodyPool.pool c) t e (BodyPool.pool c'))
      (BodyPool.init (Job Unit) 1 1)
      (parentRun (.operation ()) (.callback () found))).any (fun c =>
        (c.loc (.worker 0)).pc.hasLeft &&
          decide (c.shared.outside = {.operation ()}) &&
          decide (c.shared.pool.ran = [.operation (), .callback () found])) =
      true := by
    decide +kernel
  obtain ⟨c, hreach, hend⟩ := Reach.run_any .start hrun
  simp only [Bool.and_eq_true, decide_eq_true_eq] at hend
  obtain ⟨⟨hleft, hout⟩, hran⟩ := hend
  refine ⟨c, hran, (callbacks_run_once reading reading_returns Nat.one_pos
    hreach (fun i => ?_) {()} ?_).1⟩
  · rw [Fin.fin_one_eq_zero i]
    exact hleft
  · rw [hout]
    rfl

end Session

end Mtasc
