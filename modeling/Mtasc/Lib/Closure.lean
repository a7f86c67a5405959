import Mathlib

/-!
# What follows from what

Each `x` brings forth the elements of `b x`. `IsClosure b s r` says that `r` is
what comes of `s`: the elements of `s`, and of each element of `r` what it
brings forth, every one as often as it is brought forth, and no more than that.
-/

namespace Mtasc.Lib

variable {α : Type*} (b : α → Multiset α)

/-- `s` and what `r` brings forth are in `r`. -/
def Contains (s r : Multiset α) : Prop := s + r.bind b ≤ r

structure IsClosure (s r : Multiset α) : Prop where
  eq : r = s + r.bind b
  least : ∀ q, Contains b s q → r ≤ q

variable {b} {s s' r r' q : Multiset α}

theorem Contains.mono_left (h : Contains b s r) (hle : s' ≤ s) :
    Contains b s' r := (add_le_add_left hle _).trans h

/-- What one more round brings forth is contained as well. -/
theorem Contains.round (h : Contains b s q) (hle : r ≤ q) :
    s + r.bind b ≤ q := by
  have hbind : r.bind b ≤ q.bind b := by
    obtain ⟨u, rfl⟩ := Multiset.le_iff_exists_add.mp hle
    rw [Multiset.add_bind]
    exact Multiset.le_add_right _ _
  exact (add_le_add_right hbind s).trans h

/-- What is collected from a closure comes of its start or of one of its
elements. -/
theorem IsClosure.bind_eq {β : Type*} (h : IsClosure b s r) (f : α → Multiset β) :
    r.bind f = s.bind f + r.bind fun a => (b a).bind f :=
  calc r.bind f = (s + r.bind b).bind f := congrArg (·.bind f) h.eq
    _ = s.bind f + (r.bind b).bind f := Multiset.add_bind _ _ _
    _ = s.bind f + r.bind fun a => (b a).bind f := by rw [Multiset.bind_assoc]

theorem IsClosure.mem (h : IsClosure b s r) {a : α} (ha : a ∈ r) :
    a ∈ s ∨ ∃ x, a ∈ b x := by
  rw [h.eq, Multiset.mem_add, Multiset.mem_bind] at ha
  exact ha.imp_right fun ⟨x, _, hx⟩ => ⟨x, hx⟩

theorem IsClosure.unique (h : IsClosure b s r) (h' : IsClosure b s r') : r = r' :=
  le_antisymm (h.least r' (le_of_eq h'.eq.symm))
    (h'.least r (le_of_eq h.eq.symm))

end Mtasc.Lib
