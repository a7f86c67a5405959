import Mathlib

/-!
# Machine integers

Addition and subtraction of `w`-bit unsigned words as natural numbers, and the
conversions between an `int` and a `size_t`, with the wrap-around written out.
The lemmas say when the wrap-around is invisible.
-/

namespace Mtasc.Lib

/-- Unsigned `w`-bit addition. -/
def wadd (w a b : ℕ) : ℕ := (a + b) % 2 ^ w

/-- Unsigned `w`-bit subtraction: `a - b` modulo `2 ^ w`. -/
def wsub (w a b : ℕ) : ℕ := (a + (2 ^ w - b)) % 2 ^ w

theorem wadd_of_lt {w a b : ℕ} (h : a + b < 2 ^ w) : wadd w a b = a + b :=
  Nat.mod_eq_of_lt h

theorem wadd_comm (w a b : ℕ) : wadd w a b = wadd w b a := by
  rw [wadd, wadd, Nat.add_comm]

theorem wadd_le (w a b : ℕ) : wadd w a b ≤ a + b := Nat.mod_le _ _

theorem wsub_of_le {w a b : ℕ} (hb : b ≤ a) (ha : a < 2 ^ w) :
    wsub w a b = a - b := by
  have h : a + (2 ^ w - b) = (a - b) + 2 ^ w := by omega
  unfold wsub
  rw [h, Nat.add_mod_right]
  exact Nat.mod_eq_of_lt (by omega)

/-- The value an `int` takes: two's complement, `4294967296 = 2 ^ 32`. -/
@[irreducible] def wrapInt (x : ℤ) : ℤ := Int.bmod x 4294967296

theorem wrapInt_of_lt {x : ℤ} (h : -2 ^ 31 ≤ x) (h' : x < 2 ^ 31) :
    wrapInt x = x := by
  unfold wrapInt
  rw [Int.bmod_eq_of_le (by omega) (by omega)]

theorem wrapInt_natCast {n : ℕ} (h : n < 2 ^ 31) : wrapInt (n : ℤ) = n :=
  wrapInt_of_lt (by omega) (by omega)

/-- The `size_t` an `int` converts to, `18446744073709551616 = 2 ^ 64`. -/
def toSizeT (x : ℤ) : ℕ := (x % 18446744073709551616).toNat

theorem toSizeT_natCast {n : ℕ} (h : n < 2 ^ 64) : toSizeT (n : ℤ) = n := by
  unfold toSizeT
  omega

theorem toSizeT_of_neg {x : ℤ} (h : x < 0) (h' : -2 ^ 31 ≤ x) :
    2 ^ 63 ≤ toSizeT x := by
  unfold toSizeT
  omega

/-- Taking a number for an `int` makes it no larger. -/
theorem toSizeT_wrapInt_le {n : ℕ} (h : 0 ≤ wrapInt (n : ℤ)) :
    toSizeT (wrapInt (n : ℤ)) ≤ n := by
  have hle : wrapInt (n : ℤ) ≤ n := by
    unfold wrapInt
    rw [Int.bmod_eq_emod]
    split <;> omega
  unfold toSizeT
  omega

end Mtasc.Lib
