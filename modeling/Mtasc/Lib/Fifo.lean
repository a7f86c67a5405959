import Mathlib

/-!
# First-in first-out queues and data refinement

A FIFO queue is described by its history: everything that ever entered, and
how much of it has left. The bound between the two is a field, so a history
that hands out more than it took in cannot be written down.

`Refines` packages the induction of a data refinement: when every legal
operation of a concrete store succeeds and keeps a relation to an abstract
one, every legal run succeeds and ends in related states.
-/

namespace Mtasc.Lib

/-! ## Queue histories -/

/-- What entered a FIFO queue, in order, and how many of it have left. -/
structure FifoHistory (α : Type*) where
  entered : List α
  left : ℕ
  left_le : left ≤ entered.length

namespace FifoHistory

variable {α : Type*}

def empty : FifoHistory α := ⟨[], 0, Nat.le_refl 0⟩

/-- What is in the queue now. -/
def contents (h : FifoHistory α) : List α := h.entered.drop h.left

def enter (h : FifoHistory α) (xs : List α) : FifoHistory α where
  entered := h.entered ++ xs
  left := h.left
  left_le := by
    have := h.left_le
    rw [List.length_append]
    omega

/-- `n` elements leave at the front; a request beyond the contents takes what
there is. -/
def leave (h : FifoHistory α) (n : ℕ) : FifoHistory α where
  entered := h.entered
  left := h.left + min n h.contents.length
  left_le := by
    have := h.left_le
    rw [contents, List.length_drop]
    omega

theorem contents_enter (h : FifoHistory α) (xs : List α) :
    (h.enter xs).contents = h.contents ++ xs :=
  List.drop_append_of_le_length h.left_le

theorem contents_leave (h : FifoHistory α) (n : ℕ) :
    (h.leave n).contents = h.contents.drop n := by
  simp only [contents, leave, List.length_drop, List.drop_drop]
  rcases Nat.le_total n (h.entered.length - h.left) with hn | hn
  · rw [Nat.min_eq_left hn]
  · rw [Nat.min_eq_right hn, List.drop_eq_nil_of_le (by omega),
      List.drop_eq_nil_of_le (by omega)]

end FifoHistory

/-! ## Runs of a refinement -/

section Refinement

variable {C A O ε : Type*} (cstep : C → O → Except ε C) (astep : A → O → A)
  (legal : C → O → Prop)

/-- The concrete store after a list of operations. -/
def runOps : C → List O → Except ε C
  | c, [] => .ok c
  | c, o :: os =>
      match cstep c o with
      | .ok c' => runOps c' os
      | .error e => .error e

/-- Every operation of the run is legal in the state it meets. -/
def LegalRun : C → List O → Prop
  | _, [] => True
  | c, o :: os =>
      legal c o ∧
        match cstep c o with
        | .ok c' => LegalRun c' os
        | .error _ => True

instance LegalRun.decidable [∀ c o, Decidable (legal c o)] :
    ∀ (os : List O) (c : C), Decidable (LegalRun cstep legal c os)
  | [], _ => isTrue trivial
  | o :: os, c =>
      have : Decidable (match cstep c o with
          | .ok c' => LegalRun cstep legal c' os
          | .error _ => True) :=
        match cstep c o with
        | .ok c' => LegalRun.decidable os c'
        | .error _ => isTrue trivial
      inferInstanceAs (Decidable (legal c o ∧ _))

/-- A legal operation on related states succeeds and keeps them related. The
relation may also speak about the operations still to come: a bound on what
the rest of the run will ask for is part of it. -/
def Refines (R : List O → C → A → Prop) : Prop :=
  ∀ o os c a, R (o :: os) c a → legal c o →
    ∃ c', cstep c o = .ok c' ∧ R os c' (astep a o)

variable {cstep astep legal}

theorem LegalRun.tail {o : O} {os : List O} {c c' : C}
    (h : LegalRun cstep legal c (o :: os)) (hc : cstep c o = .ok c') :
    LegalRun cstep legal c' os := by
  obtain ⟨-, hos⟩ := h
  rwa [hc] at hos

theorem Refines.run {R : List O → C → A → Prop}
    (h : Refines cstep astep legal R) : ∀ (os : List O) (c : C) (a : A),
    R os c a → LegalRun cstep legal c os →
      ∃ c', runOps cstep c os = .ok c' ∧ R [] c' (os.foldl astep a)
  | [], c, a, hR, _ => ⟨c, rfl, hR⟩
  | o :: os, c, a, hR, hlegal => by
      obtain ⟨c₁, hc₁, hR₁⟩ := h o os c a hR hlegal.1
      obtain ⟨c₂, hc₂, hR₂⟩ :=
        h.run os c₁ (astep a o) hR₁ (hlegal.tail hc₁)
      exact ⟨c₂, by simp only [runOps, hc₁, hc₂], hR₂⟩

/-- A legal run is legal up to every point of it. -/
theorem LegalRun.left : ∀ {os os' : List O} {c : C},
    LegalRun cstep legal c (os ++ os') → LegalRun cstep legal c os
  | [], _, _, _ => trivial
  | o :: os, _, c, h => by
      refine ⟨h.1, ?_⟩
      cases hc : cstep c o with
      | ok c' => exact (h.tail hc).left
      | error e => trivial

/-- **The rule of an exact condition.** If an operation on a state in `I`
leads to a `good` one exactly where it is legal, then a run is legal exactly
if it gets through and every state it meets is good. -/
theorem legalRun_iff {I good : C → Prop}
    (hstep : ∀ c o, I c →
      ∃ c', cstep c o = .ok c' ∧ (good c' ↔ legal c o) ∧ (good c' → I c')) :
    ∀ (os : List O) (c : C), I c → good c →
      ((∀ pre, pre <+: os → ∃ c', runOps cstep c pre = .ok c' ∧ good c') ↔
        LegalRun cstep legal c os) := by
  intro os
  induction os with
  | nil =>
      intro c hI hgood
      apply iff_of_true _ trivial
      intro pre hpre
      rw [List.prefix_nil.mp hpre]
      exact ⟨c, rfl, hgood⟩
  | cons o os ih =>
      intro c hI hgood
      obtain ⟨c', hc, hlegal, hI'⟩ := hstep c o hI
      have hrun : ∀ pre, runOps cstep c (o :: pre) = runOps cstep c' pre := by
        intro pre
        simp only [runOps, hc]
      constructor
      · intro hall
        -- the first step: the run of one operation ends in a good state
        have hgood' : good c' := by
          obtain ⟨c₁, hc₁, hgood₁⟩ := hall [o] (List.prefix_append [o] os)
          rw [hrun] at hc₁
          cases hc₁
          exact hgood₁
        refine ⟨hlegal.mp hgood', ?_⟩
        rw [hc]
        apply (ih c' (hI' hgood') hgood').mp
        intro pre hpre
        rw [← hrun]
        exact hall (o :: pre) ((List.prefix_cons_inj o).mpr hpre)
      · rintro hrunLegal pre hpre
        have hgood' : good c' := hlegal.mpr hrunLegal.1
        cases pre with
        | nil => exact ⟨c, rfl, hgood⟩
        | cons o' pre =>
            obtain ⟨rfl, hrest⟩ := List.cons_prefix_cons.mp hpre
            rw [hrun]
            exact (ih c' (hI' hgood') hgood').mpr (hrunLegal.tail hc) pre hrest

/-- **The rule of a guarded run.** If an operation keeps `I` wherever it leads
to a `good` state, and every state that a legal run meets is good, then every
state it meets is in `I`. -/
theorem LegalRun.guarded {I good : C → Prop}
    (hstep : ∀ c o c', I c → legal c o → cstep c o = .ok c' → good c' → I c') :
    ∀ (os : List O) (c : C), I c → LegalRun cstep legal c os →
      (∀ pre c', pre <+: os → runOps cstep c pre = .ok c' → good c') →
      ∀ pre c', pre <+: os → runOps cstep c pre = .ok c' → I c' := by
  intro os
  induction os with
  | nil =>
      intro c hI _ _ pre c' hpre hrun
      rw [List.prefix_nil.mp hpre] at hrun
      cases hrun
      exact hI
  | cons o os ih =>
      intro c hI hlegal hgood pre c' hpre hrun
      cases pre with
      | nil =>
          cases hrun
          exact hI
      | cons o' pre =>
          obtain ⟨rfl, hrest⟩ := List.cons_prefix_cons.mp hpre
          cases hc : cstep c o' with
          | error e => simp only [runOps, hc, reduceCtorEq] at hrun
          | ok c₁ =>
              have hstart : ∀ rest, runOps cstep c (o' :: rest) =
                  runOps cstep c₁ rest := by
                intro rest
                simp only [runOps, hc]
              have hgood₁ : good c₁ :=
                hgood [o'] c₁ (List.prefix_append [o'] os) (hstart [])
              have hI₁ : I c₁ := hstep c o' c₁ hI hlegal.1 hc hgood₁
              refine ih c₁ hI₁ (hlegal.tail hc) ?_ pre c' hrest ?_
              · intro rest c₂ hle hrun₂
                apply hgood (o' :: rest) c₂ ((List.prefix_cons_inj o').mpr hle)
                rw [hstart]
                exact hrun₂
              · rw [← hstart]
                exact hrun

end Refinement

end Mtasc.Lib
