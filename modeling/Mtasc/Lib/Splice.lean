import Mathlib

/-!
# Overwriting a stretch of a list

`overwrite v i xs` is the array `v` after `xs` has been stored from index `i`
on. The lemmas read the result back before, inside and after the stretch.
-/

namespace Mtasc.Lib

variable {α : Type*}

/-- `v` with `xs` stored at the indices from `i` on. -/
def overwrite (v : List α) (i : ℕ) (xs : List α) : List α :=
  v.take i ++ xs ++ v.drop (i + xs.length)

/-- The stretch of `v` from index `a` (included) to `b` (excluded). -/
def slice (v : List α) (a b : ℕ) : List α := (v.drop a).take (b - a)

theorem overwrite_length {v : List α} {i : ℕ} {xs : List α}
    (h : i + xs.length ≤ v.length) : (overwrite v i xs).length = v.length := by
  simp only [overwrite, List.length_append, List.length_take, List.length_drop]
  omega

/-- A stretch that ends where the stored one ends: the untouched part before
it, then what was stored. -/
theorem slice_overwrite {v : List α} {a i : ℕ} (xs : List α)
    (ha : a ≤ i) (hi : i ≤ v.length) :
    slice (overwrite v i xs) a (i + xs.length) = slice v a i ++ xs := by
  have hlen : (v.take i).length = i := by simp [hi]
  have hdrop : ((v.take i).drop a).length = i - a := by simp [hlen]
  simp only [slice, overwrite, List.append_assoc]
  rw [List.drop_append_of_le_length (by omega), List.drop_take]
  rw [← List.append_assoc, List.take_append_of_le_length]
  · rw [List.take_of_length_le]
    simp
    omega
  · simp
    omega

theorem slice_length {v : List α} {a b : ℕ} (hb : b ≤ v.length) :
    (slice v a b).length = b - a := by
  simp only [slice, List.length_take, List.length_drop]
  omega

theorem slice_self (v : List α) (a : ℕ) : slice v a a = [] := by
  simp [slice]

theorem slice_append_drop {v : List α} {a b : ℕ} (hab : a ≤ b) :
    slice v a b ++ v.drop b = v.drop a := by
  have hb : a + (b - a) = b := by omega
  rw [slice, ← hb, ← List.drop_drop, Nat.add_sub_cancel_left]
  exact List.take_append_drop _ _

/-- Dropping the first `n` elements of a stretch moves its start. -/
theorem drop_slice {v : List α} {a b n : ℕ} :
    (slice v a b).drop n = slice v (a + n) b := by
  simp only [slice, List.drop_take, List.drop_drop]
  rw [Nat.sub_sub]

/-- A stretch inside the first part of a concatenation. -/
theorem slice_append_left {v u : List α} {a b : ℕ} (hb : b ≤ v.length) :
    slice (v ++ u) a b = slice v a b := by
  simp only [slice]
  rcases Nat.le_total b a with hba | hab
  · simp [Nat.sub_eq_zero_of_le hba]
  · rw [List.drop_append_of_le_length (by omega),
      List.take_append_of_le_length (by simp; omega)]

/-- The stretch of `xs ++ ys ++ zs` that is `ys`. -/
theorem slice_middle (xs ys zs : List α) :
    slice (xs ++ ys ++ zs) xs.length (xs.length + ys.length) = ys := by
  simp [slice]

/-- A list occurs in another one if it is one of its stretches. -/
theorem infix_iff_slice {xs v : List α} :
    xs <:+: v ↔
      ∃ i, i + xs.length ≤ v.length ∧ slice v i (i + xs.length) = xs := by
  constructor
  · rintro ⟨s, t, rfl⟩
    refine ⟨s.length, ?_, slice_middle s xs t⟩
    simp only [List.length_append]
    exact Nat.le_add_right _ _
  · rintro ⟨i, -, heq⟩
    rw [← heq]
    exact (List.take_prefix _ _).isInfix.trans (List.drop_suffix i v).isInfix

end Mtasc.Lib
