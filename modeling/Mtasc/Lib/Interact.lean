import Mathlib
import Mtasc.Lib.Loop

/-!
# Programs that make calls

A program makes calls `q : Q` and goes on with the reply, of type `R q`. What
answers is an oracle: it sees the history of the calls so far, so that a
statement about every oracle is a statement about every sequence of replies.
A `while` loop is cut off after a number of iterations and is `stuck` there.
Where a program does what its language leaves `undefined`, nothing is said of
what it does from there on.

`p.Sat ok φ h` is the rule of the program logic: whatever replies `ok` admits,
`φ` holds at each call `p` makes after the history `h`, and where it ends. It
is computed along the program, so that a proof follows the code.
-/

namespace Mtasc.Lib

inductive Prog (Q : Type) (R : Q → Type) (α : Type) where
  | ret (a : α)
  | call (q : Q) (k : R q → Prog Q R α)
  | stuck
  | undefined

/-- The calls made so far, each with its reply. -/
abbrev History (Q : Type) (R : Q → Type) : Type := List ((q : Q) × R q)

abbrev Oracle (Q : Type) (R : Q → Type) : Type := History Q R → (q : Q) → R q

/-- Where a program is: at a call, cut off, behind all that is defined, or at
its end. -/
inductive Status (α : Type) where
  | calling
  | stuck
  | undefined
  | done (a : α)
deriving DecidableEq

/-- The oracle gives only replies that `ok` admits. -/
def Oracle.Obeys {Q : Type} {R : Q → Type} (o : Oracle Q R)
    (ok : History Q R → (q : Q) → R q → Prop) : Prop :=
  ∀ h q, ok h q (o h q)

namespace Prog

variable {Q : Type} {R : Q → Type} {α β σ ρ : Type}

def bind : Prog Q R α → (α → Prog Q R β) → Prog Q R β
  | .ret a, f => f a
  | .call q k, f => .call q fun r => (k r).bind f
  | .stuck, _ => .stuck
  | .undefined, _ => .undefined

instance : Monad (Prog Q R) where
  pure := .ret
  bind := .bind

def perform (q : Q) : Prog Q R (R q) := .call q .ret

/-- A loop of at most `n` iterations. -/
def iterate (body : σ → Prog Q R (Iter σ ρ)) : ℕ → σ → Prog Q R ρ
  | 0, _ => .stuck
  | n + 1, s => body s >>= fun
      | .done r => .ret r
      | .next s' => iterate body n s'

/-- Running against an oracle, from the history on that is already there. -/
def exec (o : Oracle Q R) : Prog Q R α → History Q R → Status α × History Q R
  | .ret a, h => (.done a, h)
  | .call q k, h => (k (o h q)).exec o (h ++ [⟨q, o h q⟩])
  | .stuck, h => (.stuck, h)
  | .undefined, h => (.undefined, h)

/-! ## The program logic -/

def Sat (ok : History Q R → (q : Q) → R q → Prop)
    (φ : History Q R → Status α → Prop) : Prog Q R α → History Q R → Prop
  | .ret a, h => φ h (.done a)
  | .call q k, h =>
      φ h .calling ∧ ∀ r, ok h q r → (k r).Sat ok φ (h ++ [⟨q, r⟩])
  | .stuck, h => φ h .stuck
  | .undefined, h => φ h .undefined

/-- What has to hold of a program for `φ` to hold of what it is part of: at
its end `next` takes over. -/
def andThen (φ : History Q R → Status β → Prop)
    (next : α → History Q R → Prop) : History Q R → Status α → Prop
  | h, .calling => φ h .calling
  | h, .stuck => φ h .stuck
  | h, .undefined => φ h .undefined
  | h, .done a => next a h

/-- What an iteration has to establish: `φ` if the loop ends, `J` if not. -/
def afterIter (φ : History Q R → Status ρ → Prop) (J : σ → History Q R → Prop) :
    Iter σ ρ → History Q R → Prop
  | .done r, h => φ h (.done r)
  | .next s, h => J s h

variable {ok : History Q R → (q : Q) → R q → Prop}
variable {φ ψ : History Q R → Status α → Prop}

@[simp] theorem sat_pure {a : α} {h : History Q R} :
    (pure a : Prog Q R α).Sat ok φ h ↔ φ h (.done a) := Iff.rfl

@[simp] theorem sat_ret {a : α} {h : History Q R} :
    (ret a : Prog Q R α).Sat ok φ h ↔ φ h (.done a) := Iff.rfl

@[simp] theorem andThen_calling {φ : History Q R → Status β → Prop}
    {next : α → History Q R → Prop} {h : History Q R} :
    andThen φ next h .calling ↔ φ h .calling := Iff.rfl

@[simp] theorem andThen_stuck {φ : History Q R → Status β → Prop}
    {next : α → History Q R → Prop} {h : History Q R} :
    andThen φ next h .stuck ↔ φ h .stuck := Iff.rfl

@[simp] theorem andThen_undefined {φ : History Q R → Status β → Prop}
    {next : α → History Q R → Prop} {h : History Q R} :
    andThen φ next h .undefined ↔ φ h .undefined := Iff.rfl

@[simp] theorem andThen_done {φ : History Q R → Status β → Prop}
    {next : α → History Q R → Prop} {h : History Q R} {a : α} :
    andThen φ next h (.done a) ↔ next a h := Iff.rfl

@[simp] theorem afterIter_done {φ : History Q R → Status ρ → Prop}
    {J : σ → History Q R → Prop} {h : History Q R} {r : ρ} :
    afterIter φ J (.done r) h ↔ φ h (.done r) := Iff.rfl

@[simp] theorem afterIter_next {φ : History Q R → Status ρ → Prop}
    {J : σ → History Q R → Prop} {h : History Q R} {s : σ} :
    afterIter φ J (.next s) h ↔ J s h := Iff.rfl

@[simp] theorem sat_bind {φ : History Q R → Status β → Prop} {p : Prog Q R α}
    {f : α → Prog Q R β} {h : History Q R} :
    (p >>= f).Sat ok φ h ↔
      p.Sat ok (andThen φ fun a h => (f a).Sat ok φ h) h := by
  show (p.bind f).Sat ok φ h ↔ _
  induction p generalizing h with
  | ret a => exact Iff.rfl
  | call q k ih =>
      exact and_congr_right fun _ =>
        forall_congr' fun r => imp_congr_right fun _ => ih r
  | stuck => exact Iff.rfl
  | undefined => exact Iff.rfl

@[simp] theorem sat_perform {q : Q} {φ : History Q R → Status (R q) → Prop}
    {h : History Q R} :
    (perform q).Sat ok φ h ↔
      φ h .calling ∧ ∀ r, ok h q r → φ (h ++ [⟨q, r⟩]) (.done r) := Iff.rfl

/-- A call and what follows it. -/
theorem sat_perform_bind {q : Q} {f : R q → Prog Q R α} {h : History Q R} :
    (perform q >>= f).Sat ok φ h ↔
      φ h .calling ∧ ∀ r, ok h q r → (f r).Sat ok φ (h ++ [⟨q, r⟩]) := Iff.rfl

theorem Sat.mono {p : Prog Q R α} {h : History Q R} (hp : p.Sat ok φ h)
    (himp : ∀ h s, φ h s → ψ h s) : p.Sat ok ψ h := by
  induction p generalizing h with
  | ret a => exact himp h _ hp
  | call q k ih => exact ⟨himp h _ hp.1, fun r hr => ih r (hp.2 r hr)⟩
  | stuck => exact himp h _ hp
  | undefined => exact himp h _ hp

/-- Two specifications of one program. -/
theorem Sat.and {p : Prog Q R α} {h : History Q R} (hp : p.Sat ok φ h)
    (hp' : p.Sat ok ψ h) : p.Sat ok (fun h s => φ h s ∧ ψ h s) h := by
  induction p generalizing h with
  | ret a => exact ⟨hp, hp'⟩
  | call q k ih =>
      exact ⟨⟨hp.1, hp'.1⟩, fun r hr => ih r (hp.2 r hr) (hp'.2 r hr)⟩
  | stuck => exact ⟨hp, hp'⟩
  | undefined => exact ⟨hp, hp'⟩

/-- **The loop rule.** The invariant may speak of the iterations left. -/
theorem sat_iterate {body : σ → Prog Q R (Iter σ ρ)}
    {φ : History Q R → Status ρ → Prop} (J : ℕ → σ → History Q R → Prop)
    (hzero : ∀ s h, J 0 s h → φ h .stuck)
    (hstep : ∀ n s h, J (n + 1) s h →
      (body s).Sat ok (andThen φ (afterIter φ (J n))) h) :
    ∀ n s h, J n s h → (iterate body n s).Sat ok φ h := by
  intro n
  induction n with
  | zero => exact hzero
  | succ n ih =>
      intro s h hJ
      rw [iterate, sat_bind]
      refine (hstep n s h hJ).mono fun h' st hst => ?_
      cases st with
      | calling => exact hst
      | stuck => exact hst
      | undefined => exact hst
      | done it =>
          cases it with
          | done r => exact hst
          | next s' => exact ih s' h' hst

/-- **The rule for what follows a part with a specification `χ`.** -/
theorem Sat.bind {χ : History Q R → Status α → Prop}
    {φ : History Q R → Status β → Prop} {p : Prog Q R α} {f : α → Prog Q R β}
    {h : History Q R} (hp : p.Sat ok χ h)
    (hcalling : ∀ h, χ h .calling → φ h .calling)
    (hstuck : ∀ h, χ h .stuck → φ h .stuck)
    (hdone : ∀ a h, χ h (.done a) → (f a).Sat ok φ h)
    (hundefined : ∀ h, χ h .undefined → φ h .undefined := by
      intro _ hst
      first | exact hst | trivial) :
    (p >>= f).Sat ok φ h := by
  rw [sat_bind]
  refine hp.mono fun h' st hst => ?_
  cases st with
  | calling => exact hcalling h' hst
  | stuck => exact hstuck h' hst
  | undefined => exact hundefined h' hst
  | done a => exact hdone a h' hst

/-! ## Invariants of the history -/

/-- What a program and all that may follow it keep is kept by both together. -/
theorem Sat.bind_keeps {I : History Q R → Prop} {p : Prog Q R α}
    {f : α → Prog Q R β} {h : History Q R}
    (hp : p.Sat ok (fun h _ => I h) h)
    (hf : ∀ a h, I h → (f a).Sat ok (fun h _ => I h) h) :
    (p >>= f).Sat ok (fun h _ => I h) h :=
  hp.bind (fun _ hI => hI) (fun _ hI => hI) hf

/-- What no call can undo, no program can. -/
theorem sat_of_kept {I : History Q R → Prop}
    (hkept : ∀ h q r, I h → I (h ++ [⟨q, r⟩])) (p : Prog Q R α)
    {h : History Q R} (hI : I h) : p.Sat ok (fun h _ => I h) h := by
  induction p generalizing h with
  | ret a => exact hI
  | call q k ih => exact ⟨hI, fun r _ => ih r (hkept h q r hI)⟩
  | stuck => exact hI
  | undefined => exact hI

/-- A run adds to the history. -/
theorem sat_extends (p : Prog Q R α) (h : History Q R) :
    p.Sat ok (fun h' _ => h <+: h') h :=
  sat_of_kept (fun _ _ _ hle => hle.trans (List.prefix_append _ _)) p
    List.prefix_rfl

/-- What each iteration keeps, the loop keeps. -/
theorem sat_iterate_keeps {I : History Q R → Prop}
    {body : σ → Prog Q R (Iter σ ρ)}
    (hstep : ∀ s h, I h → (body s).Sat ok (fun h _ => I h) h) (n : ℕ) (s : σ)
    {h : History Q R} (hI : I h) :
    (iterate body n s).Sat ok (fun h _ => I h) h := by
  refine sat_iterate (fun _ _ h => I h) (fun _ _ hI => hI) ?_ n s h hI
  intro _ s h hI
  refine (hstep s h hI).mono fun h' st hst => ?_
  cases st with
  | calling => exact hst
  | stuck => exact hst
  | undefined => exact hst
  | done it =>
      cases it with
      | done r => exact hst
      | next s' => exact hst

/-! ## What the logic says about runs -/

variable {o : Oracle Q R}

theorem Sat.exec {p : Prog Q R α} {h : History Q R} (hp : p.Sat ok φ h)
    (ho : o.Obeys ok) : φ (p.exec o h).2 (p.exec o h).1 := by
  induction p generalizing h with
  | ret a => exact hp
  | call q k ih => exact ih _ (hp.2 _ (ho h q))
  | stuck => exact hp
  | undefined => exact hp

theorem exec_perform_bind {q : Q} {f : R q → Prog Q R α} {h : History Q R} :
    (perform q >>= f).exec o h = (f (o h q)).exec o (h ++ [⟨q, o h q⟩]) := rfl

theorem exec_bind_done {p : Prog Q R α} {f : α → Prog Q R β}
    {h h' : History Q R} {a : α} (hp : p.exec o h = (.done a, h')) :
    (p >>= f).exec o h = (f a).exec o h' := by
  show (p.bind f).exec o h = _
  induction p generalizing h with
  | ret b =>
      obtain ⟨hb, rfl⟩ := Prod.mk.inj hp
      obtain rfl := Status.done.inj hb
      rfl
  | call q k ih => exact ih _ hp
  | stuck => cases hp
  | undefined => cases hp

theorem exec_iterate_done {body : σ → Prog Q R (Iter σ ρ)} {s : σ} {r : ρ}
    {h h' : History Q R} (hbody : (body s).exec o h = (.done (.done r), h'))
    (n : ℕ) : (iterate body (n + 1) s).exec o h = (.done r, h') := by
  rw [iterate, exec_bind_done hbody]
  rfl

theorem exec_iterate_next {body : σ → Prog Q R (Iter σ ρ)} {s s' : σ}
    {h h' : History Q R} (hbody : (body s).exec o h = (.done (.next s'), h'))
    (n : ℕ) : (iterate body (n + 1) s).exec o h =
      (iterate body n s').exec o h' := by
  rw [iterate, exec_bind_done hbody]

theorem exec_ne_calling (p : Prog Q R α) (o : Oracle Q R) (h : History Q R) :
    (p.exec o h).1 ≠ .calling := by
  induction p generalizing h with
  | ret a => nofun
  | call q k ih => exact ih _ _
  | stuck => nofun
  | undefined => nofun

/-- **The ends of a run.** It is cut off, it gets to something undefined, or it
comes to its end. -/
theorem Sat.exec_ends {p : Prog Q R α} {h : History Q R} (hp : p.Sat ok φ h)
    (ho : o.Obeys ok) :
    (∃ h', p.exec o h = (.stuck, h') ∧ φ h' .stuck) ∨
      (∃ h', p.exec o h = (.undefined, h') ∧ φ h' .undefined) ∨
      ∃ a h', p.exec o h = (.done a, h') ∧ φ h' (.done a) := by
  have hend := hp.exec ho
  have hne := exec_ne_calling p o h
  cases hrun : p.exec o h with
  | mk st h' =>
      rw [hrun] at hend hne
      cases st with
      | calling => exact absurd rfl hne
      | stuck => exact Or.inl ⟨h', rfl, hend⟩
      | undefined => exact Or.inr (Or.inl ⟨h', rfl, hend⟩)
      | done a => exact Or.inr (Or.inr ⟨a, h', rfl, hend⟩)

theorem exec_extends (p : Prog Q R α) (h : History Q R) :
    h <+: (p.exec o h).2 := by
  induction p generalizing h with
  | ret a => exact List.prefix_rfl
  | call q k ih => exact (List.prefix_append _ _).trans (ih _ _)
  | stuck => exact List.prefix_rfl
  | undefined => exact List.prefix_rfl

/-- A property of the history holds at every moment of a run. -/
theorem Sat.moments {I : History Q R → Prop} {p : Prog Q R α}
    {h h' : History Q R} (hp : p.Sat ok (fun h _ => I h) h)
    (ho : o.Obeys ok) (hle : h <+: h') (hlast : h' <+: (p.exec o h).2) :
    I h' := by
  induction p generalizing h with
  | ret a =>
      have heq : h' = h := hlast.eq_of_length_le hle.length_le
      exact heq ▸ hp
  | call q k ih =>
      by_cases hlen : h'.length ≤ h.length
      · have heq : h = h' := hle.eq_of_length_le hlen
        exact heq ▸ hp.1
      · -- past the first call, the moment is one of the rest of the run
        have hnext : h ++ [⟨q, o h q⟩] <+: h' :=
          List.prefix_of_prefix_length_le (exec_extends (k _) _) hlast
            (by simp only [List.length_append, List.length_singleton]; omega)
        exact ih _ (hp.2 _ (ho h q)) hnext hlast
  | stuck =>
      have heq : h' = h := hlast.eq_of_length_le hle.length_le
      exact heq ▸ hp
  | undefined =>
      have heq : h' = h := hlast.eq_of_length_le hle.length_le
      exact heq ▸ hp

end Prog

end Mtasc.Lib
