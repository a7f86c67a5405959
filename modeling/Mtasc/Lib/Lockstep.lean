import Mtasc.Lib.Interact

/-!
# Two runs against one oracle

`Lockstep S p p'`: whatever the replies, `p` and `p'` make the same calls and
end together, with results that `S` relates. The rules follow the two programs
in parallel, as those of `Sat` follow one. What is to be shown of two runs that
differ in what they start from is what an observer of their results sees.
-/

namespace Mtasc.Lib

/-- A condition that is the same on both sides of a relation. -/
theorem rel_ite {α β : Type} {S : α → β → Prop} {c : Prop} [Decidable c]
    {a a' : α} {b b' : β} (hpos : c → S a b) (hneg : ¬ c → S a' b') :
    S (if c then a else a') (if c then b else b') := by
  by_cases hc : c
  · rw [if_pos hc, if_pos hc]
    exact hpos hc
  · rw [if_neg hc, if_neg hc]
    exact hneg hc

def Status.map {α β : Type} (f : α → β) : Status α → Status β
  | .calling => .calling
  | .stuck => .stuck
  | .undefined => .undefined
  | .done a => .done (f a)

inductive Status.Related {α β : Type} (S : α → β → Prop) :
    Status α → Status β → Prop
  | calling : Related S .calling .calling
  | stuck : Related S .stuck .stuck
  | undefined : Related S .undefined .undefined
  | done {a : α} {b : β} (h : S a b) : Related S (.done a) (.done b)

theorem Status.Related.map {α β γ : Type} {f : α → γ} {g : β → γ}
    {s : Status α} {t : Status β} (h : Related (fun a b => f a = g b) s t) :
    s.map f = t.map g := by
  cases h with
  | calling => rfl
  | stuck => rfl
  | undefined => rfl
  | done h => exact congrArg Status.done h

/-- `done` is related to `done` alone, and `next` to `next` alone. -/
inductive Iter.Related {σ τ ρ ρ' : Type} (T : σ → τ → Prop)
    (S : ρ → ρ' → Prop) : Iter σ ρ → Iter τ ρ' → Prop
  | next {s : σ} {t : τ} (h : T s t) : Related T S (.next s) (.next t)
  | done {r : ρ} {r' : ρ'} (h : S r r') : Related T S (.done r) (.done r')

namespace Prog

variable {Q : Type} {R : Q → Type} {α β γ δ σ τ ρ ρ' : Type}

/-- What an observer of `f` sees of a run: the calls with their replies, and
`f` of the result. -/
def observe (f : α → γ) (o : Oracle Q R) (p : Prog Q R α) (h : History Q R) :
    Status γ × History Q R :=
  ((p.exec o h).1.map f, (p.exec o h).2)

/-- The same calls are made, and an observer of `f` sees the same result. -/
def Alike (f : α → γ) (o : Oracle Q R) (p p' : Prog Q R α) : Prop :=
  p.observe f o [] = p'.observe f o []

inductive Lockstep (S : α → β → Prop) : Prog Q R α → Prog Q R β → Prop
  | ret {a : α} {b : β} (h : S a b) : Lockstep S (.ret a) (.ret b)
  | call {q : Q} {k : R q → Prog Q R α} {k' : R q → Prog Q R β}
      (h : ∀ r, Lockstep S (k r) (k' r)) : Lockstep S (.call q k) (.call q k')
  | stuck : Lockstep S .stuck .stuck
  | undefined : Lockstep S .undefined .undefined

namespace Lockstep

variable {S : α → β → Prop} {U : γ → δ → Prop}

theorem pure {a : α} {b : β} (h : S a b) :
    Lockstep S (Pure.pure a : Prog Q R α) (Pure.pure b) :=
  .ret h

/-- A program and itself. -/
theorem refl {S : α → α → Prop} (hS : ∀ a, S a a) (p : Prog Q R α) :
    Lockstep S p p := by
  induction p with
  | ret a => exact .ret (hS a)
  | call _ _ ih => exact .call ih
  | stuck => exact .stuck
  | undefined => exact .undefined

theorem bind {p : Prog Q R α} {p' : Prog Q R β} {f : α → Prog Q R γ}
    {f' : β → Prog Q R δ} (hp : Lockstep S p p')
    (hf : ∀ a b, S a b → Lockstep U (f a) (f' b)) :
    Lockstep U (p >>= f) (p' >>= f') := by
  induction hp with
  | ret h => exact hf _ _ h
  | call _ ih => exact .call ih
  | stuck => exact .stuck
  | undefined => exact .undefined

/-- The same call, and what follows it. -/
theorem perform {q : Q} {f : R q → Prog Q R α} {f' : R q → Prog Q R β}
    (h : ∀ r, Lockstep S (f r) (f' r)) :
    Lockstep S (Prog.perform q >>= f) (Prog.perform q >>= f') :=
  .call h

theorem ite {c : Prop} [Decidable c] {p q : Prog Q R α} {p' q' : Prog Q R β}
    (hp : c → Lockstep S p p') (hq : ¬ c → Lockstep S q q') :
    Lockstep S (if c then p else q) (if c then p' else q') :=
  rel_ite hp hq

/-- **The loop rule.** `T` is the invariant: it relates the states of the two
loops. -/
theorem iterate {T : σ → τ → Prop} {S : ρ → ρ' → Prop}
    {body : σ → Prog Q R (Iter σ ρ)} {body' : τ → Prog Q R (Iter τ ρ')}
    (hstep : ∀ s t, T s t → Lockstep (Iter.Related T S) (body s) (body' t))
    (n : ℕ) {s : σ} {t : τ} (hst : T s t) :
    Lockstep S (Prog.iterate body n s) (Prog.iterate body' n t) := by
  induction n generalizing s t with
  | zero => exact .stuck
  | succ n ih =>
      refine (hstep s t hst).bind fun i i' hi => ?_
      cases hi with
      | next h => exact ih h
      | done h => exact .ret h

/-! ## What the relation says about runs -/

variable {p : Prog Q R α} {p' : Prog Q R β} {o : Oracle Q R} {h : History Q R}

theorem exec (hp : Lockstep S p p') :
    Status.Related S (p.exec o h).1 (p'.exec o h).1 ∧
      (p.exec o h).2 = (p'.exec o h).2 := by
  induction hp generalizing h with
  | ret hS => exact ⟨.done hS, rfl⟩
  | call _ ih => exact ih _
  | stuck => exact ⟨.stuck, rfl⟩
  | undefined => exact ⟨.undefined, rfl⟩

theorem alike {f : α → γ} {p p' : Prog Q R α}
    (hp : Lockstep (fun a b => f a = f b) p p') : Alike f o p p' := by
  obtain ⟨hst, hcalls⟩ := hp.exec (o := o) (h := [])
  exact Prod.ext hst.map hcalls

end Lockstep

end Prog

end Mtasc.Lib
