import Mathlib

/-!
# Cutting a list at a separator

`cut sep s` is what lies in front of the first occurrence of `sep` in `s`, and
what lies behind it; `split` cuts at every occurrence. The lemmas say what
they give on a list that has been put together from pieces in which the first
element of the separator does not occur, and where the first blank line of a
text is.
-/

namespace Mtasc.Lib

variable {α : Type*} [DecidableEq α]

def cut (sep : List α) : List α → Option (List α × List α)
  | [] => if sep = [] then some ([], []) else none
  | x :: s =>
      if sep <+: x :: s then some ([], (x :: s).drop sep.length)
      else (cut sep s).map fun p => (x :: p.1, p.2)

/-- The pieces left by at most `n` cuts. -/
def pieces (sep : List α) : ℕ → List α → List (List α)
  | 0, s => [s]
  | n + 1, s =>
      match cut sep s with
      | none => [s]
      | some (a, b) => a :: pieces sep n b

def split (sep s : List α) : List (List α) := pieces sep s.length s

section

variable {c d x : α} {t a b s : List α}

theorem cut_cons_of_ne (hx : x ≠ c) :
    cut (c :: t) (x :: s) =
      (cut (c :: t) s).map fun p => (x :: p.1, p.2) := by
  rw [cut, if_neg]
  intro hpre
  exact hx (List.cons_prefix_cons.mp hpre).1.symm

/-- A stretch without the first element of the separator is passed over. -/
theorem cut_append (ha : c ∉ a) :
    cut (c :: t) (a ++ s) =
      (cut (c :: t) s).map fun p => (a ++ p.1, p.2) := by
  induction a with
  | nil => simp
  | cons x a ih =>
      rw [List.mem_cons, not_or] at ha
      rw [List.cons_append, cut_cons_of_ne (Ne.symm ha.1), ih ha.2,
        Option.map_map]
      rfl

theorem cut_sep : cut (c :: t) (c :: t ++ b) = some ([], b) := by
  have hpre : c :: t <+: c :: (t ++ b) := List.prefix_append (c :: t) b
  rw [List.cons_append, cut, if_pos hpre]
  simp

theorem cut_token (ha : c ∉ a) :
    cut (c :: t) (a ++ (c :: t ++ b)) = some (a, b) := by
  rw [cut_append ha, cut_sep]
  simp

theorem cut_none (ha : c ∉ a) : cut (c :: t) a = none := by
  have h := cut_append (t := t) (s := []) ha
  rw [List.append_nil] at h
  rw [h]
  rfl

/-- A cut takes the list apart at an occurrence of the separator, and at no
index in front of it does the separator occur. -/
theorem cut_some {sep : List α} (h : cut sep s = some (a, b)) :
    s = a ++ (sep ++ b) ∧ ∀ j < a.length, ¬ sep <+: s.drop j := by
  induction s generalizing a with
  | nil =>
      rw [cut] at h
      split at h
      · next hsep =>
        cases h
        exact ⟨by simp [hsep], fun j hj => absurd hj (Nat.not_lt_zero j)⟩
      · cases h
  | cons x s ih =>
      rw [cut] at h
      split at h
      · next hpre =>
        cases h
        refine ⟨?_, fun j hj => absurd hj (Nat.not_lt_zero j)⟩
        rw [List.nil_append]
        exact (List.prefix_iff_eq_append.mp hpre).symm
      · next hpre =>
        obtain ⟨⟨a', b'⟩, hcut, heq⟩ := Option.map_eq_some_iff.mp h
        cases heq
        obtain ⟨hs, hfirst⟩ := ih hcut
        refine ⟨by rw [List.cons_append, ← hs], fun j hj => ?_⟩
        cases j with
        | zero => exact hpre
        | succ j => exact hfirst j (Nat.lt_of_succ_lt_succ hj)

/-- A list that has been cut is cut there whatever is put behind it. -/
theorem cut_extend {sep : List α} (h : cut sep s = some (a, b)) (u : List α) :
    cut sep (s ++ u) = some (a, b ++ u) := by
  induction s generalizing a with
  | nil =>
      rw [cut] at h
      split at h
      · next hsep =>
        cases h
        rw [hsep]
        cases u with
        | nil => rfl
        | cons x u => exact if_pos (List.nil_prefix)
      · cases h
  | cons x s ih =>
      rw [cut] at h
      rw [List.cons_append, cut]
      split at h
      · next hpre =>
        cases h
        have hpre' : sep <+: x :: (s ++ u) :=
          hpre.trans (List.prefix_append (x :: s) u)
        rw [if_pos hpre', ← List.cons_append,
          List.drop_append_of_le_length hpre.length_le]
      · next hpre =>
        obtain ⟨⟨a', b'⟩, hcut, heq⟩ := Option.map_eq_some_iff.mp h
        cases heq
        have hpre' : ¬ sep <+: x :: (s ++ u) := by
          -- the separator fits into what has been cut
          intro hsep
          obtain ⟨hs, -⟩ := cut_some hcut
          have hlen : sep.length ≤ (x :: s).length := by
            rw [hs]
            simp
            omega
          exact hpre (List.prefix_of_prefix_length_le hsep
            (List.prefix_append (x :: s) u) hlen)
        rw [if_neg hpre', ih hcut]
        rfl

/-- Where a list is taken apart at the first occurrence of the separator, it
is cut. -/
theorem cut_of_first {sep : List α}
    (h : ∀ j < a.length, ¬ sep <+: (a ++ (sep ++ b)).drop j) :
    cut sep (a ++ (sep ++ b)) = some (a, b) := by
  induction a with
  | nil =>
      rw [List.nil_append]
      cases sep with
      | nil => cases b <;> simp [cut]
      | cons c t => exact cut_sep
  | cons x a ih =>
      have hhead : ¬ sep <+: x :: (a ++ (sep ++ b)) :=
        h 0 (Nat.succ_pos _)
      rw [List.cons_append, cut, if_neg hhead, ih fun j hj =>
        h (j + 1) (Nat.succ_lt_succ hj)]
      rfl

/-- What lies in front of a separator does so whatever is put behind. -/
theorem cut_again {sep : List α} (h : cut sep s = some (a, b))
    (b' : List α) : cut sep (a ++ (sep ++ b')) = some (a, b') := by
  obtain ⟨hs, hfirst⟩ := cut_some h
  refine cut_of_first fun j hj hpre => hfirst j hj ?_
  -- an occurrence in front of the separator ends within it
  have hle : j ≤ (a ++ sep).length := by
    rw [List.length_append]
    omega
  have hroom : sep.length ≤ ((a ++ sep).drop j).length := by
    rw [List.length_drop, List.length_append]
    omega
  rw [← List.append_assoc, List.drop_append_of_le_length hle] at hpre
  rw [hs, ← List.append_assoc, List.drop_append_of_le_length hle]
  exact (List.prefix_of_prefix_length_le hpre (List.prefix_append _ _)
    hroom).trans (List.prefix_append _ _)

theorem not_prefix_of_cut_none {sep : List α} (h : cut sep s = none) :
    ∀ j ≤ s.length, ¬ sep <+: s.drop j := by
  induction s with
  | nil =>
      intro j hj hpre
      rw [cut] at h
      split at h
      · cases h
      · next hsep =>
        rw [List.drop_nil] at hpre
        exact hsep (List.prefix_nil.mp hpre)
  | cons x s ih =>
      rw [cut] at h
      split at h
      · cases h
      · next hpre =>
        intro j hj
        cases j with
        | zero => exact hpre
        | succ j =>
            exact ih (Option.map_eq_none_iff.mp h) j (Nat.le_of_succ_le_succ hj)

theorem pieces_none (ha : c ∉ a) (n : ℕ) : pieces (c :: t) n a = [a] := by
  cases n with
  | zero => rfl
  | succ n => rw [pieces, cut_none ha]

/-- Splitting undoes joining. -/
theorem pieces_join {ls : List (List α)} {l : List α}
    (hls : ∀ k ∈ ls, c ∉ k) (hl : c ∉ l) {n : ℕ} (hn : ls.length ≤ n) :
    pieces (c :: t) n (ls.flatMap (· ++ c :: t) ++ l) = ls ++ [l] := by
  induction ls generalizing n with
  | nil => exact pieces_none hl n
  | cons k ls ih =>
      obtain ⟨m, rfl⟩ : ∃ m, n = m + 1 := by
        refine ⟨n - 1, ?_⟩
        rw [List.length_cons] at hn
        omega
      have hk := hls k List.mem_cons_self
      have htail := ih (fun j hj => hls j (List.mem_cons_of_mem _ hj))
        (Nat.le_of_succ_le_succ hn)
      rw [List.flatMap_cons, List.append_assoc, List.append_assoc, pieces,
        cut_token hk]
      show k :: pieces (c :: t) m _ = _
      rw [htail]
      rfl

omit [DecidableEq α] in
theorem length_le_join (ls : List (List α)) (l : List α) :
    ls.length ≤ (ls.flatMap (· ++ c :: t) ++ l).length := by
  induction ls with
  | nil => exact Nat.zero_le _
  | cons k ls ih =>
      simp only [List.flatMap_cons, List.length_cons, List.length_append] at *
      omega

theorem split_join {ls : List (List α)} {l : List α}
    (hls : ∀ k ∈ ls, c ∉ k) (hl : c ∉ l) :
    split (c :: t) (ls.flatMap (· ++ c :: t) ++ l) = ls ++ [l] :=
  pieces_join hls hl (length_le_join ls l)

/-! ## The first blank line -/

/-- Behind a line that is followed by a line, the blank line is to come. -/
theorem cut_blank_cons (hcd : c ≠ d) (ha : c ∉ a) (hx : x ≠ c) :
    cut [c, d, c, d] (a ++ (c :: d :: x :: s)) =
      (cut [c, d, c, d] (x :: s)).map fun p => (a ++ (c :: d :: p.1), p.2) := by
  have hnot : ¬ [c, d, c, d] <+: c :: d :: x :: s := by
    intro hpre
    rw [List.cons_prefix_cons, List.cons_prefix_cons,
      List.cons_prefix_cons] at hpre
    exact hx hpre.2.2.1.symm
  rw [cut_append ha, cut, if_neg hnot, cut_cons_of_ne (Ne.symm hcd),
    Option.map_map, Option.map_map]
  rfl

/-- **The first blank line** of a text of non-empty lines is the one that
ends it, whatever follows. -/
theorem cut_blank (hcd : c ≠ d) {ls : List (List α)} {l : List α}
    (hls : ∀ k ∈ ls, c ∉ k ∧ k ≠ []) (hl : c ∉ l ∧ l ≠ []) (rest : List α) :
    cut [c, d, c, d]
        (ls.flatMap (· ++ [c, d]) ++ (l ++ ([c, d, c, d] ++ rest))) =
      some (ls.flatMap (· ++ [c, d]) ++ l, rest) := by
  induction ls with
  | nil => exact cut_token hl.1
  | cons k ls ih =>
      have hk := hls k List.mem_cons_self
      have htail := fun j hj => hls j (List.mem_cons_of_mem k hj)
      -- the next line starts with something else than the separator
      obtain ⟨x, s, hxs, hx⟩ : ∃ x s, x ≠ c ∧
          ls.flatMap (· ++ [c, d]) ++ (l ++ ([c, d, c, d] ++ rest)) =
            x :: s := by
        cases ls with
        | nil =>
            obtain ⟨x, l', rfl⟩ := List.exists_cons_of_ne_nil hl.2
            refine ⟨x, _, ?_, rfl⟩
            rintro rfl
            exact hl.1 List.mem_cons_self
        | cons j ls =>
            obtain ⟨hj, hne⟩ := htail j List.mem_cons_self
            obtain ⟨x, j', rfl⟩ := List.exists_cons_of_ne_nil hne
            refine ⟨x, _, ?_, rfl⟩
            rintro rfl
            exact hj List.mem_cons_self
      have hrest := ih htail
      rw [hx] at hrest
      rw [List.flatMap_cons, List.append_assoc, hx, List.append_assoc]
      show cut [c, d, c, d] (k ++ (c :: d :: x :: s)) = _
      rw [cut_blank_cons hcd hk.1 hxs, hrest]
      simp

end

/-! ## Up to a separator of one element -/

/-- What lies in front of the first `c`; everything if there is none. -/
def upTo (c : α) (s : List α) : List α := s.takeWhile (· ≠ c)

/-- What lies behind the first `c`; nothing if there is none. -/
def past (c : α) (s : List α) : List α := (s.dropWhile (· ≠ c)).tail

section

variable {c x : α} {a b s : List α}

theorem not_mem_upTo : c ∉ upTo c s := by
  intro h
  simpa using List.mem_takeWhile_imp h

theorem upTo_of_not_mem (h : c ∉ s) : upTo c s = s := by
  apply List.takeWhile_eq_self_iff.mpr
  rintro x hx
  have hne : x ≠ c := fun heq => h (heq ▸ hx)
  simpa using hne

theorem past_of_not_mem (h : c ∉ s) : past c s = [] := by
  have hdrop : s.dropWhile (· ≠ c) = [] := by
    apply List.dropWhile_eq_nil_iff.mpr
    rintro x hx
    have hne : x ≠ c := fun heq => h (heq ▸ hx)
    simpa using hne
  rw [past, hdrop]
  rfl

theorem upTo_cons_of_ne (h : x ≠ c) : upTo c (x :: s) = x :: upTo c s :=
  List.takeWhile_cons_of_pos (by simpa using h)

theorem past_cons_of_ne (h : x ≠ c) : past c (x :: s) = past c s := by
  rw [past, List.dropWhile_cons_of_pos (by simpa using h)]
  rfl

theorem upTo_append_past (h : c ∈ s) : upTo c s ++ c :: past c s = s := by
  induction s with
  | nil => cases h
  | cons x s ih =>
      by_cases hx : x = c
      · subst hx
        simp [upTo, past]
      · have hmem : c ∈ s := (List.mem_cons.mp h).resolve_left (Ne.symm hx)
        rw [upTo_cons_of_ne hx, past_cons_of_ne hx, List.cons_append, ih hmem]

theorem upTo_token (h : c ∉ a) : upTo c (a ++ c :: b) = a := by
  induction a with
  | nil => simp [upTo]
  | cons x a ih =>
      rw [List.mem_cons, not_or] at h
      rw [List.cons_append, upTo_cons_of_ne (Ne.symm h.1), ih h.2]

theorem upTo_append_of_not_mem (h : c ∉ a) : upTo c (a ++ b) = a ++ upTo c b := by
  apply List.takeWhile_append_of_pos
  rintro x hx
  have hne : x ≠ c := fun heq => h (heq ▸ hx)
  simpa using hne

theorem past_token (h : c ∉ a) : past c (a ++ c :: b) = b := by
  induction a with
  | nil => simp [past]
  | cons x a ih =>
      rw [List.mem_cons, not_or] at h
      rw [List.cons_append, past_cons_of_ne (Ne.symm h.1), ih h.2]

theorem drop_upTo (c : α) (s : List α) :
    s.drop ((upTo c s).length + 1) = past c s := by
  by_cases h : c ∈ s
  · calc s.drop ((upTo c s).length + 1)
        = (upTo c s ++ c :: past c s).drop ((upTo c s).length + 1) := by
          rw [upTo_append_past h]
      _ = past c s := by
        rw [← List.drop_drop, List.drop_left, List.drop_one]
        rfl
  · rw [upTo_of_not_mem h, past_of_not_mem h]
    exact List.drop_of_length_le (Nat.le_succ _)

/-- What lies around the first `c` of a part lies around it in the whole. -/
theorem upTo_append_of_mem (h : c ∈ a) : upTo c (a ++ b) = upTo c a := by
  have hsplit := upTo_append_past h
  have hfront : c ∉ upTo c a := not_mem_upTo
  calc upTo c (a ++ b) = upTo c (upTo c a ++ c :: (past c a ++ b)) := by
        rw [← List.cons_append, ← List.append_assoc, hsplit]
    _ = upTo c a := upTo_token hfront

theorem past_append_of_mem (h : c ∈ a) : past c (a ++ b) = past c a ++ b := by
  have hsplit := upTo_append_past h
  have hfront : c ∉ upTo c a := not_mem_upTo
  calc past c (a ++ b) = past c (upTo c a ++ c :: (past c a ++ b)) := by
        rw [← List.cons_append, ← List.append_assoc, hsplit]
    _ = past c a ++ b := past_token hfront

theorem upTo_length_lt (h : c ∈ s) : (upTo c s).length < s.length := by
  have hlen := congrArg List.length (upTo_append_past h)
  rw [List.length_append, List.length_cons] at hlen
  omega

theorem past_length_le : (past c s).length ≤ s.length := by
  rw [← drop_upTo c s, List.length_drop]
  exact Nat.sub_le _ _

theorem past_length_lt (h : s ≠ []) : (past c s).length < s.length := by
  by_cases hmem : c ∈ s
  · have hlen := congrArg List.length (upTo_append_past hmem)
    rw [List.length_append, List.length_cons] at hlen
    omega
  · rw [past_of_not_mem hmem]
    exact List.length_pos_of_ne_nil h

theorem splitOn_of_mem (h : c ∈ s) :
    s.splitOn c = upTo c s :: (past c s).splitOn c := by
  have hfront : c ∉ upTo c s := not_mem_upTo
  calc s.splitOn c = (upTo c s ++ c :: past c s).splitOn c := by
        rw [upTo_append_past h]
    _ = upTo c s :: (past c s).splitOn c := by
      rw [List.splitOn_append_cons_self, List.splitOn_eq_singleton hfront]
      rfl

theorem not_mem_of_mem_splitOn (h : a ∈ s.splitOn c) : c ∉ a := by
  induction hn : s.length using Nat.strong_induction_on generalizing s with
  | h n ih =>
      subst hn
      by_cases hmem : c ∈ s
      · rw [splitOn_of_mem hmem, List.mem_cons] at h
        rcases h with rfl | h
        · exact not_mem_upTo
        · exact ih _ (past_length_lt (List.ne_nil_of_mem hmem)) h rfl
      · rw [List.splitOn_eq_singleton hmem, List.mem_singleton] at h
        rwa [h]

end

end Mtasc.Lib
