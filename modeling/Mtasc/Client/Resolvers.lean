import Mtasc.Client.Descriptors
import Mtasc.Lib.Owners

/-!
# The resolvers of `socketTcp`

Any number of `socketTcp` objects that resolve, connect, are moved and are
destroyed. An object keeps the resolvers of its two families by raw pointers; a
resolver owns the list that `M_resovler_addrs` of the delivered contexts points
into, and both go with `~socketTcp`. `M_connects` is left out: nothing is ever
put into it.
-/

namespace Mtasc

open Lib

inductive Family where
  | ipv4
  | ipv6
deriving DecidableEq, Repr

/-- The destructor deletes in this order. -/
def Family.order : List Family := [.ipv4, .ipv6]

/-- A resolver is named by a number, and `none` is a null pointer. -/
structure SocketTcp where
  clientContext : ClientContext
  resolverIpv4 : Option ℕ := none
  resolverIpv6 : Option ℕ := none
deriving DecidableEq, Repr

namespace SocketTcp

/-- The move constructor. -/
def moveConstruct (other : SocketTcp) : SocketTcp where
  clientContext := other.clientContext.moveConstruct
  resolverIpv4 := other.resolverIpv4
  resolverIpv6 := other.resolverIpv6

/-- The move assignment from another object. -/
def moveAssign (s other : SocketTcp) : SocketTcp where
  clientContext := s.clientContext.moveAssign other.clientContext
  resolverIpv4 := other.resolverIpv4
  resolverIpv6 := other.resolverIpv6

/-- What either of them leaves of the source. -/
def movedFrom (other : SocketTcp) : SocketTcp :=
  { other with clientContext := other.clientContext.movedFrom }

/-- The assignment of a new resolver in `async_resolver_domain`. -/
def setResolver (s : SocketTcp) (enableIpv6 : Bool) (r : ℕ) : SocketTcp :=
  if enableIpv6 then { s with resolverIpv6 := some r }
  else { s with resolverIpv4 := some r }

/-- `~socketTcp`. -/
def deletes (s : SocketTcp) : List (Use ℕ) :=
  s.resolverIpv4.toList.map .release ++ s.resolverIpv6.toList.map .release

def resolver (s : SocketTcp) : Family → Option ℕ
  | .ipv4 => s.resolverIpv4
  | .ipv6 => s.resolverIpv6

end SocketTcp

/-- The resolver's constructor has returned. -/
@[simp] def ConnectTrace.resolvedBy : (q : ConnectCall) → q.Reply → Bool
  | .getaddrinfo _ _ _, addrinfo => addrinfo.isSome
  | _, _ => false

/-- `async_try_connect_tcp` reads the list of the context. -/
def ClientContext.ReadsList (ctx : ClientContext) : Prop :=
  ctx.addrsHost ≠ none ∧ ctx.resovlerAddrs ≠ [] ∧ ctx.socketfd ≠ -1

instance (ctx : ClientContext) : Decidable ctx.ReadsList :=
  inferInstanceAs (Decidable (_ ∧ _ ∧ _))

/-! ## Runs -/

structure TcpPopulation where
  objects : ℕ → Option SocketTcp := fun _ => none
  trace : ConnectTrace := []
  resolvers : Ledger ℕ := {}

/-- A step on an object that is not there, or that would build one where there
is one, does nothing. -/
inductive TcpStep where
  | construct (i : ℕ) (ctx : ClientContext)
  /-- `j` is built from `i`. -/
  | moveConstruct (i j : ℕ)
  /-- `j` is assigned from `i`. -/
  | moveAssign (i j : ℕ)
  /-- `async_resolver_domain`; a new resolver gets the name `r`. -/
  | resolve (i : ℕ) (ctx : ClientContext) (timeout : UInt16) (enableIpv6 : Bool)
      (maxRetCount : ℤ) (r : ℕ)
  /-- `async_try_connect_tcp`; the context points into the list of `r`. -/
  | connect (i : ℕ) (ctx : ClientContext) (r : ℕ)
  | destroy (i : ℕ)

namespace TcpPopulation

def set (p : TcpPopulation) (i : ℕ) (s : Option SocketTcp) : TcpPopulation :=
  { p with objects := Function.update p.objects i s }

/-- The calls of `async_resolver_domain`. -/
def resolving (o : Oracle ConnectCall ConnectCall.Reply) (p : TcpPopulation)
    (ctx : ClientContext) (timeout : UInt16) (enableIpv6 : Bool)
    (maxRetCount : ℤ) : ConnectTrace :=
  ((asyncResolverDomain ctx timeout enableIpv6 maxRetCount).exec o p.trace).2

/-- The call has built a resolver. -/
def resolves (o : Oracle ConnectCall ConnectCall.Reply) (p : TcpPopulation)
    (ctx : ClientContext) (timeout : UInt16) (enableIpv6 : Bool)
    (maxRetCount : ℤ) : Bool :=
  ((p.resolving o ctx timeout enableIpv6 maxRetCount).drop p.trace.length).any
    fun e => ConnectTrace.resolvedBy e.1 e.2

def step (o : Oracle ConnectCall ConnectCall.Reply) (fuel : ℕ)
    (p : TcpPopulation) : TcpStep → TcpPopulation
  | .construct i ctx =>
      match p.objects i with
      | none => p.set i (some { clientContext := ctx })
      | some _ => p
  | .moveConstruct i j =>
      match p.objects i, p.objects j with
      | some s, none => (p.set i (some s.movedFrom)).set j (some s.moveConstruct)
      | _, _ => p
  | .moveAssign i j =>
      match p.objects i, p.objects j with
      | some s, some t =>
          -- `this != &other_tcp_operator`
          if i = j then p
          else (p.set i (some s.movedFrom)).set j (some (t.moveAssign s))
      | _, _ => p
  | .resolve i ctx timeout enableIpv6 maxRetCount r =>
      match p.objects i with
      | none => p
      | some s =>
          let q := { p with
            trace := p.resolving o ctx timeout enableIpv6 maxRetCount }
          -- `new` does not hand out a name that is in use
          if p.resolves o ctx timeout enableIpv6 maxRetCount ∧
              r ∉ p.resolvers.live then
            { q.set i (some (s.setResolver enableIpv6 r)) with
              resolvers := p.resolvers.step (.acquire r) }
          else q
  | .connect i ctx r =>
      match p.objects i with
      | none => p
      | some _ =>
          let q := { p with
            trace := ((asyncTryConnectTcp fuel ctx).exec o p.trace).2 }
          if ctx.ReadsList then
            { q with resolvers := p.resolvers.step (.use r) }
          else q
  | .destroy i =>
      match p.objects i with
      | none => p
      | some s =>
          { p.set i none with resolvers := p.resolvers.run s.deletes }

def run (o : Oracle ConnectCall ConnectCall.Reply) (fuel : ℕ)
    (p : TcpPopulation) (as : List TcpStep) : TcpPopulation :=
  as.foldl (step o fuel) p

/-! ## What a user has to avoid -/

/-- A resolver of the object `i` for this family. -/
def resolver (p : TcpPopulation) (i : ℕ) (f : Family) : Option ℕ :=
  (p.objects i).bind fun s => s.resolver f

/-- An object gets a resolver where it has one already. -/
def Overwrites (o : Oracle ConnectCall ConnectCall.Reply) (p : TcpPopulation) :
    TcpStep → Prop
  | .moveAssign i j =>
      i ≠ j ∧ p.objects i ≠ none ∧ ∃ f, p.resolver j f ≠ none
  | .resolve i ctx timeout enableIpv6 maxRetCount r =>
      p.resolves o ctx timeout enableIpv6 maxRetCount ∧
        r ∉ p.resolvers.live ∧
        p.resolver i (if enableIpv6 then .ipv6 else .ipv4) ≠ none
  | _ => False

/-- An object that has a resolver is moved. -/
def Moves (p : TcpPopulation) : TcpStep → Prop
  | .moveConstruct i j => p.objects j = none ∧ ∃ f, p.resolver i f ≠ none
  | .moveAssign i j =>
      i ≠ j ∧ p.objects j ≠ none ∧ ∃ f, p.resolver i f ≠ none
  | _ => False

/-- A context is used whose resolver has gone. -/
def Outlives (p : TcpPopulation) : TcpStep → Prop
  | .connect i ctx r =>
      p.objects i ≠ none ∧ ctx.ReadsList ∧ r ∉ p.resolvers.live
  | _ => False

/-! ## Objects as owners -/

def owners (p : TcpPopulation) : Owners Family ℕ where
  field := p.resolver
  ledger := p.resolvers

/-- What a step does to the resolvers. -/
def see (o : Oracle ConnectCall ConnectCall.Reply) (p : TcpPopulation) :
    TcpStep → Option (OwnerStep Family ℕ)
  | .construct _ _ => none
  | .moveConstruct i j =>
      if p.objects i ≠ none ∧ p.objects j = none then some (.copy i j) else none
  | .moveAssign i j =>
      if p.objects i ≠ none ∧ p.objects j ≠ none then some (.copy i j) else none
  | .resolve i ctx timeout enableIpv6 maxRetCount r =>
      if p.objects i ≠ none ∧
          p.resolves o ctx timeout enableIpv6 maxRetCount then
        some (.store i (if enableIpv6 then .ipv6 else .ipv4) r)
      else none
  | .connect i ctx r =>
      if p.objects i ≠ none ∧ ctx.ReadsList then some (.use r) else none
  | .destroy i => if p.objects i ≠ none then some (.destroy i) else none

section

variable {o : Oracle ConnectCall ConnectCall.Reply} {fuel : ℕ}
variable {p : TcpPopulation} {i j : ℕ} {s : SocketTcp}

theorem resolver_of (hi : p.objects i = some s) : p.resolver i = s.resolver := by
  funext f
  rw [resolver, hi]
  rfl

theorem resolver_set (s : Option SocketTcp) :
    (p.set i s).resolver =
      Function.update p.resolver i fun f => s.bind fun s => s.resolver f := by
  funext i' f
  by_cases hi : i' = i
  · subst hi
    simp [resolver, set]
  · simp [resolver, set, Function.update_of_ne hi]

/-- An object that has been moved from keeps its resolvers. -/
theorem resolver_set_movedFrom (hi : p.objects i = some s) :
    (p.set i (some s.movedFrom)).resolver = p.resolver := by
  rw [resolver_set]
  refine Function.update_eq_self_iff.mpr ?_
  rw [resolver_of hi]
  rfl

/-- What a move leaves. -/
theorem owners_move (hi : p.objects i = some s) {t : SocketTcp}
    (ht : t.resolver = s.resolver) :
    ((p.set i (some s.movedFrom)).set j (some t)).owners =
      p.owners.step Family.order (.copy i j) := by
  have hfield : ((p.set i (some s.movedFrom)).set j (some t)).resolver =
      Function.update p.resolver j (p.resolver i) := by
    rw [resolver_set, resolver_set_movedFrom hi, resolver_of hi, ← ht]
    rfl
  rw [owners, hfield]
  rfl

theorem resolver_setResolver (s : SocketTcp) (enableIpv6 : Bool) (r : ℕ) :
    (s.setResolver enableIpv6 r).resolver = Function.update s.resolver
      (if enableIpv6 then .ipv6 else .ipv4) (some r) := by
  funext f
  cases enableIpv6 <;> cases f <;> rfl

/-- What a new resolver leaves. -/
theorem owners_resolve (hi : p.objects i = some s) (enableIpv6 : Bool) {r : ℕ}
    (hr : r ∉ p.resolvers.live) (h : ConnectTrace) :
    owners { ({ p with trace := h }.set i (some (s.setResolver enableIpv6 r)))
      with resolvers := p.resolvers.step (.acquire r) } =
      p.owners.step Family.order
        (.store i (if enableIpv6 then .ipv6 else .ipv4) r) := by
  have hfield : ({ p with trace := h }.set i
      (some (s.setResolver enableIpv6 r))).resolver =
        Function.update p.resolver i (Function.update (p.resolver i)
          (if enableIpv6 then .ipv6 else .ipv4) (some r)) := by
    rw [resolver_set, resolver_of hi, ← resolver_setResolver]
    rfl
  have hfresh : r ∉ p.owners.ledger.live := hr
  rw [Owners.step, if_neg hfresh]
  exact congrArg (Owners.mk · _) hfield

/-- The destructor deletes what an owner releases. -/
theorem deletes_eq (hi : p.objects i = some s) :
    s.deletes = (p.owners.holds Family.order i).map .release := by
  have hfield : p.owners.field i = s.resolver := resolver_of hi
  rw [Owners.holds, hfield, SocketTcp.deletes]
  show _ = List.map _ ([Family.ipv4, Family.ipv6].filterMap s.resolver)
  cases h4 : s.resolverIpv4 <;> cases h6 : s.resolverIpv6 <;>
    simp [SocketTcp.resolver, h4, h6]

/-- **A `socketTcp` is an owner of its resolvers.** -/
theorem owners_step (p : TcpPopulation) (a : TcpStep) :
    (p.step o fuel a).owners =
      (p.see o a).elim p.owners (p.owners.step Family.order) := by
  cases a with
  | construct i ctx =>
      rw [step, see]
      cases hi : p.objects i with
      | none =>
          have hfield : (p.set i (some { clientContext := ctx })).resolver =
              p.resolver := by
            rw [resolver_set]
            refine Function.update_eq_self_iff.mpr (funext fun f => ?_)
            rw [resolver, hi]
            cases f <;> rfl
          show Owners.mk _ _ = _
          rw [hfield]
          rfl
      | some s => rfl
  | moveConstruct i j =>
      rw [step, see]
      cases hi : p.objects i with
      | none => rfl
      | some s =>
          cases hj : p.objects j with
          | none => exact owners_move hi rfl
          | some t => simp
  | moveAssign i j =>
      rw [step, see]
      cases hi : p.objects i with
      | none => rfl
      | some s =>
          cases hj : p.objects j with
          | none => simp
          | some t =>
              by_cases hij : i = j
              · subst hij
                simp [Owners.step]
              · simp only [if_neg hij]
                exact owners_move hi rfl
  | resolve i ctx timeout enableIpv6 maxRetCount r =>
      rw [step, see]
      cases hi : p.objects i with
      | none => rfl
      | some s =>
          by_cases hres : p.resolves o ctx timeout enableIpv6 maxRetCount = true
          · by_cases hr : r ∈ p.resolvers.live
            · have htaken : p.owners.step Family.order
                  (.store i (if enableIpv6 then .ipv6 else .ipv4) r) =
                    p.owners := if_pos hr
              simp only [hres, hr, not_true_eq_false, and_false, if_false,
                ne_eq, reduceCtorEq, not_false_eq_true, and_self, if_true,
                Option.elim_some, htaken]
              rfl
            · simp only [hres, hr, not_false_eq_true, and_self, if_true, ne_eq,
                reduceCtorEq, Option.elim_some]
              exact owners_resolve hi enableIpv6 hr _
          · simp [hres]
            rfl
  | connect i ctx r =>
      rw [step, see]
      cases hi : p.objects i with
      | none => rfl
      | some s =>
          by_cases hreads : ctx.ReadsList
          · simp [hreads]
            rfl
          · simp [hreads]
            rfl
  | destroy i =>
      rw [step, see]
      cases hi : p.objects i with
      | none => rfl
      | some s =>
          have hfield : (p.set i none).resolver =
              Function.update p.resolver i fun _ => none := resolver_set none
          show Owners.mk (p.set i none).resolver (p.resolvers.run s.deletes) = _
          rw [hfield, deletes_eq hi]
          rfl

/-! ## The same steps go wrong -/

theorem exists_mem_ite {β : Type} {c : Prop} [Decidable c] {b : β}
    {P : β → Prop} :
    (∃ b' ∈ if c then some b else none, P b') ↔ c ∧ P b := by
  split <;> simp [*]

theorem object_of_resolver {f : Family} (h : p.resolver i f ≠ none) :
    p.objects i ≠ none := by
  intro hi
  rw [resolver, hi] at h
  exact h rfl

theorem overwrites_iff (p : TcpPopulation) (a : TcpStep) :
    p.Overwrites o a ↔ ∃ b ∈ p.see o a, p.owners.Overwrites b := by
  cases a with
  | construct i ctx => simp [Overwrites, see]
  | moveConstruct i j =>
      rw [see, exists_mem_ite]
      refine iff_of_false id ?_
      rintro ⟨⟨-, hj⟩, -, f, hf⟩
      exact object_of_resolver hf hj
  | moveAssign i j =>
      rw [Overwrites, see, exists_mem_ite]
      constructor
      · rintro ⟨hij, hi, f, hf⟩
        exact ⟨⟨hi, object_of_resolver hf⟩, hij, f, hf⟩
      · rintro ⟨⟨hi, -⟩, hij, f, hf⟩
        exact ⟨hij, hi, f, hf⟩
  | resolve i ctx timeout enableIpv6 maxRetCount r =>
      rw [Overwrites, see, exists_mem_ite]
      constructor
      · rintro ⟨hres, hr, hf⟩
        exact ⟨⟨object_of_resolver hf, hres⟩, hr, hf⟩
      · rintro ⟨⟨-, hres⟩, hr, hf⟩
        exact ⟨hres, hr, hf⟩
  | connect i ctx r => simp [Overwrites, see, Owners.Overwrites]
  | destroy i => simp [Overwrites, see, Owners.Overwrites]

theorem moves_iff (p : TcpPopulation) (a : TcpStep) :
    p.Moves a ↔ ∃ b ∈ p.see o a, p.owners.Shares b := by
  cases a with
  | construct i ctx => simp [Moves, see]
  | moveConstruct i j =>
      rw [Moves, see, exists_mem_ite]
      constructor
      · rintro ⟨hj, f, hf⟩
        have hi := object_of_resolver hf
        refine ⟨⟨hi, hj⟩, ?_, f, hf⟩
        rintro rfl
        exact hi hj
      · rintro ⟨⟨-, hj⟩, -, f, hf⟩
        exact ⟨hj, f, hf⟩
  | moveAssign i j =>
      rw [Moves, see, exists_mem_ite]
      constructor
      · rintro ⟨hij, hj, f, hf⟩
        exact ⟨⟨object_of_resolver hf, hj⟩, hij, f, hf⟩
      · rintro ⟨⟨-, hj⟩, hij, f, hf⟩
        exact ⟨hij, hj, f, hf⟩
  | resolve i ctx timeout enableIpv6 maxRetCount r =>
      simp [Moves, see, Owners.Shares]
  | connect i ctx r => simp [Moves, see, Owners.Shares]
  | destroy i => simp [Moves, see, Owners.Shares]

theorem outlives_iff (p : TcpPopulation) (a : TcpStep) :
    p.Outlives a ↔ ∃ b ∈ p.see o a, p.owners.Late b := by
  cases a with
  | construct i ctx => simp [Outlives, see]
  | moveConstruct i j => simp [Outlives, see, Owners.Late]
  | moveAssign i j => simp [Outlives, see, Owners.Late]
  | resolve i ctx timeout enableIpv6 maxRetCount r =>
      simp [Outlives, see, Owners.Late]
  | connect i ctx r =>
      rw [Outlives, see, exists_mem_ite, and_assoc]
      exact Iff.rfl
  | destroy i => simp [Outlives, see, Owners.Late]

/-- **The resolvers of `socketTcp`.** At the end of a run that has destroyed
its objects, every resolver has been deleted exactly once and no list has been
read after that, if and only if no object has got a resolver where it had one,
no object that had one has been moved, and no context has been used whose
resolver had gone. -/
theorem resolvers_clean_iff (o : Oracle ConnectCall ConnectCall.Reply)
    (fuel : ℕ) (as : List TcpStep)
    (hend : ∀ i, (run o fuel {} as).objects i = none)
    (hone : Never (step o fuel) (Overwrites o) {} as ∨
      Never (step o fuel) Moves {} as) :
    (run o fuel {} as).resolvers = {} ↔
      Never (step o fuel) (Overwrites o) {} as ∧
        Never (step o fuel) Moves {} as ∧
        Never (step o fuel) Outlives {} as := by
  have hstep : ∀ (p : TcpPopulation) (a : TcpStep), (p.step o fuel a).owners =
      (p.see o a).elim p.owners (p.owners.step Family.order) := owners_step
  have hinit : owners {} = {} := rfl
  -- the run as one of owners
  have hrun := foldl_seenAs hstep {} as
  have hover := never_seenAs hstep overwrites_iff {} as
  have hmoves := never_seenAs hstep moves_iff {} as
  have hlate := never_seenAs hstep outlives_iff {} as
  rw [hinit] at hrun hover hmoves hlate
  rw [hover, hmoves] at hone
  rw [hover, hmoves, hlate]
  have hall : ∀ f, f ∈ Family.order := by
    intro f
    cases f <;> decide
  have hempty : ∀ i f, (Owners.run Family.order {}
      (seenAs (step o fuel) (see o) {} as)).field i f = none := by
    intro i f
    rw [Owners.run, ← hrun]
    show (run o fuel {} as).resolver i f = none
    rw [resolver, hend i]
    rfl
  rw [← Owners.run_clean_iff hall (by decide) hempty hone]
  exact (congrArg (fun w : Owners Family ℕ => w.ledger = {}) hrun).to_iff

/-- A host is resolved and connected to, and the object destroyed. -/
theorem resolvers_clean_once :
    let as : List TcpStep := [.construct 0 hosted,
      .resolve 0 hosted 20 false 3 7, .connect 0 hostedResolved 7, .destroy 0]
    (run acceptsSecond 9 {} as).resolvers = {} ↔
      Never (step acceptsSecond 9) (Overwrites acceptsSecond) {} as ∧
        Never (step acceptsSecond 9) Moves {} as ∧
        Never (step acceptsSecond 9) Outlives {} as := by
  intro as
  have hobjects : (run acceptsSecond 9 {} as).objects = Function.update
      (Function.update (Function.update (fun _ => none) 0
        (some { clientContext := hosted })) 0
        (some { clientContext := hosted, resolverIpv4 := some 7 })) 0 none := rfl
  refine resolvers_clean_iff acceptsSecond 9 as (fun i => ?_)
    (Or.inr ⟨id, id, id, id, trivial⟩)
  rw [hobjects]
  by_cases hi : i = 0
  · rw [hi, Function.update_self]
  · rw [Function.update_of_ne hi, Function.update_of_ne hi,
      Function.update_of_ne hi]

end

end TcpPopulation

end Mtasc
