import Mtasc.Lib.Interact

/-!
# Events of a history

`Ever B h` says that some reply of `h` is one that `B` describes. `B` judges a
reply by the calls made before it, so that it can speak of what a run has done
up to then. `Latest P h` says that `P` describes the newest call and its reply.
-/

namespace Mtasc.Lib

variable {Q : Type} {R : Q → Type}

def Ever (B : History Q R → (q : Q) → R q → Prop) (h : History Q R) : Prop :=
  ∃ p q r, p ++ [⟨q, r⟩] <+: h ∧ B p q r

variable {B : History Q R → (q : Q) → R q → Prop} {h h' : History Q R}

@[simp] theorem not_ever_nil : ¬ Ever B [] := by
  rintro ⟨p, q, r, hle, -⟩
  exact absurd (List.prefix_nil.mp hle) (by simp)

/-- The newest reply is judged by the whole history before it. -/
@[simp] theorem ever_snoc {q : Q} {r : R q} :
    Ever B (h ++ [⟨q, r⟩]) ↔ Ever B h ∨ B h q r := by
  constructor
  · rintro ⟨p, q', r', hle, hB⟩
    rcases List.prefix_concat_iff.mp hle with heq | hle
    · obtain ⟨rfl, hlast⟩ := List.append_inj' heq rfl
      cases List.singleton_inj.mp hlast
      exact Or.inr hB
    · exact Or.inl ⟨p, q', r', hle, hB⟩
  · rintro (⟨p, q', r', hle, hB⟩ | hB)
    · exact ⟨p, q', r', hle.trans (List.prefix_append _ _), hB⟩
    · exact ⟨h, q, r, List.prefix_rfl, hB⟩

/-- What has happened once has happened. -/
theorem Ever.mono (hB : Ever B h) (hle : h <+: h') : Ever B h' := by
  obtain ⟨p, q, r, hp, hr⟩ := hB
  exact ⟨p, q, r, hp.trans hle, hr⟩

/-! ## The newest call -/

def Latest (P : (q : Q) → R q → Prop) (h : History Q R) : Prop :=
  ∃ e ∈ h.getLast?, P e.1 e.2

@[simp] theorem latest_snoc {P : (q : Q) → R q → Prop} {q : Q} {r : R q} :
    Latest P (h ++ [⟨q, r⟩]) ↔ P q r := by
  simp [Latest]

end Mtasc.Lib
