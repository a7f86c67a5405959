import Mtasc.Parser.UrlParser

/-!
# Searching a token in a concatenation

A string built by an encoder is a prefix, a token and a rest that starts with
a separator. The lemmas say where a search that starts in front of the token
stops, and what lies between.
-/

namespace Mtasc

open Lib

variable {pre tok rest : Text} {c : Char} {j : ℕ}

theorem charAt_append_right (pre t : Text) (j : ℕ) :
    charAt (pre ++ t) (pre.length + j) = charAt t j := by
  rw [charAt, List.getD_append_right _ _ _ _ (by omega),
    Nat.add_sub_cancel_left]
  rfl

theorem charAt_token_mem (h : j < tok.length) : charAt (tok ++ rest) j ∈ tok := by
  rw [charAt, List.getD_append _ _ _ _ h, List.getD_eq_getElem _ _ h]
  exact List.getElem_mem h

theorem charAt_behind : charAt (tok ++ c :: rest) tok.length = c := by
  simp [charAt]

/-- A search that starts in front of a token without hits stops behind it. -/
theorem firstIn_token {P : ℕ → Bool} {pre tok rest : Text}
    (htok : ∀ j < tok.length, P (pre.length + j) = false)
    (hrest : rest = [] ∨ P (pre.length + tok.length) = true) :
    firstIn P pre.length (pre ++ (tok ++ rest)).length =
      pre.length + tok.length := by
  refine firstIn_eq (by omega) (by simp only [List.length_append]; omega) ?_ ?_
  · intro i hi hlt
    obtain ⟨j, rfl⟩ : ∃ j, i = pre.length + j := ⟨i - pre.length, by omega⟩
    exact htok j (by omega)
  · rcases hrest with rfl | hhit
    · left
      simp
    · exact Or.inr hhit

theorem slice_token (pre tok rest : Text) :
    slice (pre ++ (tok ++ rest)) pre.length (pre.length + tok.length) = tok := by
  rw [← List.append_assoc]
  exact slice_middle pre tok rest

theorem token_ne (h : c ∉ tok) (hj : j < tok.length) :
    charAt (pre ++ (tok ++ rest)) (pre.length + j) ≠ c := by
  rw [charAt_append_right]
  rintro rfl
  exact h (charAt_token_mem hj)

theorem charAt_after_token :
    charAt (pre ++ (tok ++ c :: rest)) (pre.length + tok.length) = c := by
  rw [charAt_append_right]
  exact charAt_behind

/-- `std::string::find` of a separator that the token does not contain. -/
theorem find_token (h : c ∉ tok) :
    find (pre ++ (tok ++ c :: rest)) c pre.length = pre.length + tok.length := by
  simp only [find]
  rw [firstIn_token (fun j hj => by simpa using token_ne h hj)
    (Or.inr (by simp [charAt_after_token]))]
  rw [if_pos (by simp)]

/-- `std::string::find` of a character that does not occur any more. -/
theorem find_none (h : c ∉ tok) : find (pre ++ tok) c pre.length = npos := by
  have hend := firstIn_token (P := fun i => charAt (pre ++ (tok ++ [])) i == c)
    (fun j hj => by
      have hne : charAt (pre ++ (tok ++ [])) (pre.length + j) ≠ c :=
        token_ne h hj
      simpa using hne) (Or.inl rfl)
  rw [List.append_nil] at hend
  simp only [find]
  rw [hend, if_neg (by simp)]

theorem le_find {s : Text} {pos : ℕ} (h : find s c pos ≠ npos) :
    pos ≤ find s c pos ∧ find s c pos < s.length := by
  simp only [find] at h ⊢
  split
  · exact ⟨le_firstIn, by assumption⟩
  · next hi => exact absurd (if_neg hi) h

end Mtasc
