import Mtasc.Lib.Cut
import Mtasc.Parser.Authority

/-!
# One iteration of either loop

Up to the slash both parsers move their cursor in the same way: `frontNext`.
`basicStep_front` and `queryStep_front` say this of an iteration that goes on,
and where it leads at the slash; `basicStep_behind` and `queryStep_behind` are
about the iterations behind it. The invariants of the two loops are derived
from these four.
-/

namespace Mtasc

open Lib

/-! ## The first `:/` -/

theorem charAt_drop (s : Text) (j i : ℕ) :
    charAt (s.drop j) i = charAt s (j + i) := by
  simp [charAt, List.getD]

theorem signAt_eq_true {s : Text} {pos : ℕ} :
    signAt s pos = true ↔ charAt s pos = ':' ∧ charAt s (pos + 1) = '/' := by
  rw [signAt, Bool.and_eq_true, beq_iff_eq, beq_iff_eq]

theorem signAt_iff {s : Text} {j : ℕ} :
    signAt s j = true ↔ [':', '/'] <+: s.drop j := by
  have hfirst : charAt s j = charAt (s.drop j) 0 := (charAt_drop s j 0).symm
  have hsecond : charAt s (j + 1) = charAt (s.drop j) 1 :=
    (charAt_drop s j 1).symm
  rw [signAt, hfirst, hsecond]
  rcases s.drop j with _ | ⟨x, _ | ⟨y, t⟩⟩
  · simp [charAt]
  · simp [charAt]
  · rw [Bool.and_eq_true, beq_iff_eq, beq_iff_eq, List.cons_prefix_cons,
      List.cons_prefix_cons]
    constructor
    · rintro ⟨hx, hy⟩
      exact ⟨hx.symm, hy.symm, List.nil_prefix⟩
    · rintro ⟨hx, hy, -⟩
      exact ⟨hx.symm, hy.symm⟩

theorem firstIn_sign_of_cut {s a b : Text}
    (h : cut [':', '/'] s = some (a, b)) :
    firstIn (signAt s) 0 s.length = a.length := by
  obtain ⟨hs, hfirst⟩ := cut_some h
  apply firstIn_eq (Nat.zero_le _)
  · rw [hs, List.length_append]
    exact Nat.le_add_right _ _
  · intro j _ hj
    rw [Bool.eq_false_iff, Ne, signAt_iff]
    exact hfirst j hj
  · right
    rw [signAt_iff, hs, List.drop_left]
    exact List.prefix_append _ _

theorem firstIn_sign_of_none {s : Text} (h : cut [':', '/'] s = none) :
    firstIn (signAt s) 0 s.length = s.length := by
  apply firstIn_eq (Nat.zero_le _) (Nat.le_refl _)
  · intro j _ hj
    rw [Bool.eq_false_iff, Ne, signAt_iff]
    exact not_prefix_of_cut_none h j (Nat.le_of_lt hj)
  · exact Or.inl rfl

/-! ## The cursor in front of the path -/

/-- A cursor in one of the first three states, which both parsers share. -/
structure FrontPos where
  state : FrontState
  pos : ℕ
  start : ℕ

def BasicCursor.front? (c : BasicCursor) : Option FrontPos :=
  match c.state with
  | .sign => some ⟨.sign, c.pos, c.start⟩
  | .host => some ⟨.host, c.pos, c.start⟩
  | .port => some ⟨.port, c.pos, c.start⟩
  | _ => none

def QueryCursor.front? (c : QueryCursor) : Option FrontPos :=
  match c.state with
  | .sign => some ⟨.sign, c.ops, c.start⟩
  | .host => some ⟨.host, c.ops, c.start⟩
  | .port => some ⟨.port, c.ops, c.start⟩
  | _ => none

/-- Where an iteration takes such a cursor; `none` is the path. -/
def frontNext (s : Text) (x : FrontPos) : Option FrontPos :=
  match x.state with
  | .sign =>
      if signAt s x.pos then some ⟨.host, x.pos + 3, x.pos + 3⟩
      else some { x with pos := x.pos + 1 }
  | .host =>
      if charAt s x.pos = ':' then some ⟨.port, x.pos + 1, x.pos + 1⟩
      else if charAt s x.pos = '/' then none
      else some { x with pos := x.pos + 1 }
  | .port =>
      if charAt s x.pos = '/' then none else some { x with pos := x.pos + 1 }

section

variable {s : Text} {x : FrontPos}

/-- Only an iteration with its cursor on a character goes on. -/
theorem basicStep_next {c c' : BasicCursor} (h : basicStep s c = .next c') :
    c.pos < s.length ∧ basicSwitch s c = .next c' := by
  rw [basicStep] at h
  split at h
  · cases h
  split at h
  · cases h
  · exact ⟨by omega, h⟩

theorem queryStep_next {c c' : QueryCursor} (h : queryStep s c = .next c') :
    c.ops < s.length ∧ querySwitch s c = .next c' := by
  rw [queryStep] at h
  split at h
  · cases h
  split at h
  · cases h
  · exact ⟨by omega, h⟩

/-! ## Up to the slash -/

theorem basicStep_front {c c' : BasicCursor} (h : basicStep s c = .next c')
    (hc : c.front? = some x) :
    x.pos < s.length ∧ c'.front? = frontNext s x ∧
      (frontNext s x = none → charAt s x.pos = '/' ∧ c'.state = .path ∧
        c'.start = x.pos ∧ c'.pos = x.pos) := by
  obtain ⟨hlt, h⟩ := basicStep_next h
  obtain ⟨state, pos, start, r⟩ := c
  cases state with
  | sign =>
      cases hc
      refine ⟨hlt, ?_⟩
      simp only [basicSwitch, ← signAt_eq_true] at h
      simp only [frontNext]
      split at h
      · next hsign =>
        cases h
        rw [if_pos hsign]
        exact ⟨rfl, fun hnone => by cases hnone⟩
      · next hsign =>
        cases h
        rw [if_neg hsign]
        exact ⟨rfl, fun hnone => by cases hnone⟩
  | host =>
      cases hc
      refine ⟨hlt, ?_⟩
      simp only [basicSwitch] at h
      simp only [frontNext]
      split at h
      · next hsep =>
        split at h
        · next hcolon =>
          cases h
          rw [if_pos hcolon]
          exact ⟨rfl, fun hnone => by cases hnone⟩
        · next hcolon =>
          cases h
          have hslash := hsep.resolve_left hcolon
          rw [if_neg hcolon, if_pos hslash]
          exact ⟨rfl, fun _ => ⟨hslash, rfl, rfl, rfl⟩⟩
      · next hsep =>
        cases h
        rw [if_neg fun hcolon => hsep (Or.inl hcolon),
          if_neg fun hslash => hsep (Or.inr hslash)]
        exact ⟨rfl, fun hnone => by cases hnone⟩
  | port =>
      cases hc
      refine ⟨hlt, ?_⟩
      simp only [basicSwitch] at h
      simp only [frontNext]
      split at h
      · next hslash =>
        rw [if_pos hslash]
        split at h
        · cases h
        · cases h
          exact ⟨rfl, fun _ => ⟨hslash, rfl, rfl, rfl⟩⟩
      · next hslash =>
        cases h
        rw [if_neg hslash]
        exact ⟨rfl, fun hnone => by cases hnone⟩
  | path => cases hc
  | finish => cases hc

theorem queryStep_front {c c' : QueryCursor} (h : queryStep s c = .next c')
    (hc : c.front? = some x) :
    x.pos < s.length ∧ c'.front? = frontNext s x ∧
      (frontNext s x = none → charAt s x.pos = '/' ∧ c'.state = .query ∧
        c'.start = x.pos ∧ x.pos ≤ c'.ops ∧ c'.ops ≤ x.pos + 1) := by
  obtain ⟨hlt, h⟩ := queryStep_next h
  obtain ⟨state, ops, start, r⟩ := c
  cases state with
  | sign =>
      cases hc
      refine ⟨hlt, ?_⟩
      simp only [querySwitch, ← signAt_eq_true] at h
      simp only [frontNext]
      split at h
      · next hsign =>
        cases h
        rw [if_pos hsign]
        exact ⟨rfl, fun hnone => by cases hnone⟩
      · next hsign =>
        cases h
        rw [if_neg hsign]
        exact ⟨rfl, fun hnone => by cases hnone⟩
  | host =>
      cases hc
      refine ⟨hlt, ?_⟩
      simp only [querySwitch] at h
      simp only [frontNext]
      split at h
      · next hsep =>
        split at h
        · next hcolon =>
          cases h
          rw [if_pos hcolon]
          exact ⟨rfl, fun hnone => by cases hnone⟩
        · next hcolon =>
          cases h
          have hslash := hsep.resolve_left hcolon
          rw [if_neg hcolon, if_pos hslash]
          exact ⟨rfl, fun _ => ⟨hslash, rfl, rfl, Nat.le_succ _, Nat.le_refl _⟩⟩
      · next hsep =>
        cases h
        rw [if_neg fun hcolon => hsep (Or.inl hcolon),
          if_neg fun hslash => hsep (Or.inr hslash)]
        exact ⟨rfl, fun hnone => by cases hnone⟩
  | port =>
      cases hc
      refine ⟨hlt, ?_⟩
      simp only [querySwitch] at h
      simp only [frontNext]
      split at h
      · next hslash =>
        rw [if_pos hslash]
        split at h
        · cases h
        · cases h
          exact ⟨rfl, fun _ => ⟨hslash, rfl, rfl, Nat.le_refl _, Nat.le_succ _⟩⟩
      · next hslash =>
        cases h
        rw [if_neg hslash]
        exact ⟨rfl, fun hnone => by cases hnone⟩
  | query => cases hc
  | finish => cases hc

/-- What such a cursor is of the one of its parser. -/
theorem BasicCursor.fields_of_front {c : BasicCursor}
    (hc : c.front? = some x) :
    x.pos = c.pos ∧ x.start = c.start ∧ (x.state = .sign ↔ c.state = .sign) := by
  obtain ⟨state, pos, start, r⟩ := c
  cases state with
  | sign =>
      cases hc
      exact ⟨rfl, rfl, iff_of_true rfl rfl⟩
  | host =>
      cases hc
      exact ⟨rfl, rfl, by simp⟩
  | port =>
      cases hc
      exact ⟨rfl, rfl, by simp⟩
  | path => cases hc
  | finish => cases hc

theorem QueryCursor.fields_of_front {c : QueryCursor}
    (hc : c.front? = some x) :
    x.pos = c.ops ∧ x.start = c.start ∧ (x.state = .sign ↔ c.state = .sign) := by
  obtain ⟨state, ops, start, r⟩ := c
  cases state with
  | sign =>
      cases hc
      exact ⟨rfl, rfl, iff_of_true rfl rfl⟩
  | host =>
      cases hc
      exact ⟨rfl, rfl, by simp⟩
  | port =>
      cases hc
      exact ⟨rfl, rfl, by simp⟩
  | query => cases hc
  | finish => cases hc

/-- Such a cursor is in none of the two states behind the slash. -/
theorem QueryCursor.ne_of_front {c : QueryCursor} (hc : c.front? = some x) :
    c.state ≠ .query ∧ c.state ≠ .finish := by
  obtain ⟨state, ops, start, r⟩ := c
  constructor
  · rintro rfl
    cases hc
  · rintro rfl
    cases hc

/-! ## Behind the slash -/

theorem basicStep_behind {c c' : BasicCursor} (h : basicStep s c = .next c')
    (hc : c.front? = none) :
    c'.state = .finish ∧ c'.start = c.start ∧ c'.pos = c.pos := by
  obtain ⟨-, h⟩ := basicStep_next h
  obtain ⟨state, pos, start, r⟩ := c
  cases state with
  | sign => cases hc
  | host => cases hc
  | port => cases hc
  | path =>
      cases h
      exact ⟨rfl, rfl, rfl⟩
  | finish => cases h

theorem queryStep_behind {c c' : QueryCursor} (h : queryStep s c = .next c')
    (hc : c.front? = none) :
    c.state = .query ∧ c.ops < s.length ∧ c'.start = c.start ∧
      (queryAt s c.ops = true ∧ c'.state = .finish ∧ c'.ops = c.ops ∧
          c'.result.basicPath = slice s c.start c.ops ∨
        c'.state = .query ∧ c'.ops = c.ops + 1) := by
  obtain ⟨hlt, hswitch⟩ := queryStep_next h
  obtain ⟨state, ops, start, r⟩ := c
  cases state with
  | sign => cases hc
  | host => cases hc
  | port => cases hc
  | query =>
      refine ⟨rfl, hlt, ?_⟩
      simp only [querySwitch] at hswitch
      split at hswitch
      · next hmark =>
        cases hswitch
        have hat : queryAt s ops = true := by simpa [queryAt] using hmark
        exact ⟨rfl, Or.inl ⟨hat, rfl, rfl, rfl⟩⟩
      · cases hswitch
        exact ⟨rfl, Or.inr ⟨rfl, rfl⟩⟩
  | finish =>
      rw [queryStep_finish hlt] at h
      cases h

end

end Mtasc
