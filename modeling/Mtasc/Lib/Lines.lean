import Mtasc.Lib.Cut

/-!
# Lines and blank lines

A line break is a pair of two different elements, and a blank line is two of
them. Splitting at line breaks takes a join of texts apart piece by piece. The
first blank line of a text is in the first of its pieces that has one: a piece
is judged together with the line break behind it. `blank_pair` says when two
pieces can change places without a reader taking notice.
-/

namespace Mtasc.Lib

variable {α : Type*} [DecidableEq α] {c d : α} {a b s u x y : List α}

/-! ## Splitting -/

theorem split_none {sep : List α} (h : cut sep s = none) :
    split sep s = [s] := by
  rw [split]
  cases s.length with
  | zero => rfl
  | succ n => rw [pieces, h]

theorem length_lt_of_cut {sep : List α} (hsep : sep ≠ [])
    (h : cut sep s = some (a, b)) : b.length < s.length := by
  have hpos := List.length_pos_iff.mpr hsep
  rw [(cut_some h).1, List.length_append, List.length_append]
  omega

/-- More cuts than there are elements find no more. -/
theorem pieces_eq_split {sep : List α} (hsep : sep ≠ []) {n : ℕ}
    (hn : s.length ≤ n) : pieces sep n s = split sep s := by
  induction n using Nat.strong_induction_on generalizing s with
  | _ n ih =>
      cases hcut : cut sep s with
      | none =>
          rw [split_none hcut]
          cases n with
          | zero => rfl
          | succ n => rw [pieces, hcut]
      | some p =>
          obtain ⟨a, b⟩ := p
          have hlt := length_lt_of_cut hsep hcut
          obtain ⟨k, hk⟩ : ∃ k, s.length = k + 1 := ⟨s.length - 1, by omega⟩
          obtain ⟨m, rfl⟩ : ∃ m, n = m + 1 := ⟨n - 1, by omega⟩
          rw [split, hk, pieces, pieces, hcut]
          dsimp only
          rw [ih m (by omega) (by omega)]
          rcases Nat.lt_or_ge k (m + 1) with hlt' | hge
          · rw [ih k hlt' (by omega)]
          · omega

theorem split_some {sep : List α} (hsep : sep ≠ [])
    (h : cut sep s = some (a, b)) : split sep s = a :: split sep b := by
  have hlt := length_lt_of_cut hsep h
  obtain ⟨k, hk⟩ : ∃ k, s.length = k + 1 := ⟨s.length - 1, by omega⟩
  rw [split, hk, pieces, h]
  dsimp only
  rw [pieces_eq_split hsep (by omega)]

theorem split_ne_nil (sep s : List α) : split sep s ≠ [] := by
  rw [split]
  cases s.length with
  | zero => exact List.cons_ne_nil _ _
  | succ n =>
      rw [pieces]
      split
      · exact List.cons_ne_nil _ _
      · exact List.cons_ne_nil _ _

/-- A line break behind a text without one is its first. -/
theorem cut_break (hcd : c ≠ d) (h : cut [c, d] a = none) (b : List α) :
    cut [c, d] (a ++ c :: d :: b) = some (a, b) := by
  induction a with
  | nil => exact cut_sep
  | cons x a ih =>
      rw [cut] at h
      split at h
      · cases h
      · next hpre =>
        have hpre' : ¬ [c, d] <+: x :: (a ++ c :: d :: b) := by
          intro hbreak
          obtain ⟨rfl, hrest⟩ := List.cons_prefix_cons.mp hbreak
          cases a with
          | nil => exact hcd (List.cons_prefix_cons.mp hrest).1.symm
          | cons y a =>
              obtain ⟨rfl, -⟩ := List.cons_prefix_cons.mp hrest
              exact hpre (List.prefix_append [c, d] a)
        rw [List.cons_append, cut, if_neg hpre',
          ih (Option.map_eq_none_iff.mp h)]
        rfl

/-- **Splitting a join.** -/
theorem split_append (hcd : c ≠ d) (a b : List α) :
    split [c, d] (a ++ c :: d :: b) = split [c, d] a ++ split [c, d] b := by
  have hsep : [c, d] ≠ [] := List.cons_ne_nil _ _
  induction hn : a.length using Nat.strong_induction_on generalizing a with
  | _ n ih =>
      cases hcut : cut [c, d] a with
      | none =>
          rw [split_some hsep (cut_break hcd hcut b), split_none hcut]
          rfl
      | some p =>
          obtain ⟨x, y⟩ := p
          have hlt := length_lt_of_cut hsep hcut
          rw [split_some hsep (cut_extend hcut _), split_some hsep hcut,
            ih y.length (hn ▸ hlt) y rfl, List.cons_append]

theorem split_lines (hcd : c ≠ d) (u : List α) (ls : List (List α)) :
    split [c, d] (u ++ ls.flatMap ([c, d] ++ ·)) =
      split [c, d] u ++ ls.flatMap (split [c, d]) := by
  induction ls generalizing u with
  | nil => simp
  | cons l ls ih =>
      have hcons : u ++ (l :: ls).flatMap ([c, d] ++ ·) =
          (u ++ c :: d :: l) ++ ls.flatMap ([c, d] ++ ·) := by simp
      rw [hcons, ih, split_append hcd, List.flatMap_cons, List.append_assoc]

omit [DecidableEq α] in
/-- Line breaks behind all lines but the last are in front of all but the
first. -/
theorem join_lines (k l m : List α) (ls : List (List α)) :
    (l :: ls).flatMap (· ++ k) ++ m = l ++ (ls ++ [m]).flatMap (k ++ ·) := by
  induction ls generalizing l with
  | nil => simp
  | cons n ls ih =>
      rw [List.flatMap_cons, List.append_assoc, ih n]
      simp

/-- The length of a text from the lengths of its lines. -/
theorem split_length (s : List α) :
    ((split [c, d] s).map (·.length + 2)).sum = s.length + 2 := by
  induction hn : s.length using Nat.strong_induction_on generalizing s with
  | _ n ih =>
      cases hcut : cut [c, d] s with
      | none =>
          rw [split_none hcut]
          simp [hn]
      | some p =>
          obtain ⟨a, b⟩ := p
          have hsep : [c, d] ≠ [] := List.cons_ne_nil _ _
          have hlt := length_lt_of_cut hsep hcut
          have hlen := congrArg List.length (cut_some hcut).1
          rw [List.length_append, List.length_append] at hlen
          rw [split_some hsep hcut, List.map_cons, List.sum_cons,
            ih b.length (hn ▸ hlt) b rfl]
          simp only [List.length_cons, List.length_nil] at hlen
          omega

omit [DecidableEq α] in
/-- The first that is found is the same in every order, if all that can be
found are. -/
theorem findSome_perm {β : Type*} {f : α → Option β} {ls ls' : List α}
    (hperm : ls.Perm ls')
    (h : ∀ k ∈ ls, ∀ l ∈ ls, ∀ m n, f k = some m → f l = some n → m = n) :
    ls.findSome? f = ls'.findSome? f := by
  cases hfirst : ls.findSome? f with
  | none =>
      symm
      rw [List.findSome?_eq_none_iff] at hfirst ⊢
      exact fun k hk => hfirst k (hperm.mem_iff.mpr hk)
  | some m =>
      obtain ⟨k, hk, hkm⟩ := List.exists_of_findSome?_eq_some hfirst
      cases hsecond : ls'.findSome? f with
      | none =>
          rw [List.findSome?_eq_none_iff] at hsecond
          rw [hsecond k (hperm.mem_iff.mp hk)] at hkm
          cases hkm
      | some n =>
          obtain ⟨l, hl, hln⟩ := List.exists_of_findSome?_eq_some hsecond
          exact congrArg some (h k hk l (hperm.mem_iff.mpr hl) m n hkm hln)

/-! ## Where the first blank line is -/

/-- A text that contains a separator is cut. -/
theorem cut_exists (sep a b : List α) :
    ∃ a' b', cut sep (a ++ (sep ++ b)) = some (a', b') := by
  cases hcut : cut sep (a ++ (sep ++ b)) with
  | some p => exact ⟨p.1, p.2, rfl⟩
  | none =>
      have hnot := not_prefix_of_cut_none hcut a.length (by simp)
      rw [List.drop_left] at hnot
      exact absurd (List.prefix_append _ _) hnot

theorem cut_none_iff {sep : List α} :
    cut sep s = none ↔ ¬ sep <:+: s := by
  constructor
  · rintro hcut ⟨a, b, rfl⟩
    obtain ⟨a', b', hsome⟩ := cut_exists sep a b
    rw [List.append_assoc, hsome] at hcut
    cases hcut
  · intro hnot
    cases hcut : cut sep s with
    | none => rfl
    | some p =>
        rw [(cut_some hcut).1, ← List.append_assoc] at hnot
        exact absurd (List.infix_append _ _ _) hnot

/-- **A text without a blank line is passed over**, if there is none either
together with the line break behind it. -/
theorem cut_unbroken (hcd : c ≠ d)
    (h : ¬ [c, d, c, d] <:+: u ++ [c, d]) (s : List α) :
    cut [c, d, c, d] (u ++ c :: d :: s) =
      (cut [c, d, c, d] (c :: d :: s)).map fun p => (u ++ p.1, p.2) := by
  induction u with
  | nil => simp
  | cons x u ih =>
      have hpre : ¬ [c, d, c, d] <+: x :: (u ++ c :: d :: s) := by
        intro hblank
        obtain ⟨rfl, hy⟩ := List.cons_prefix_cons.mp hblank
        rcases u with _ | ⟨y, u⟩
        · exact hcd (List.cons_prefix_cons.mp hy).1.symm
        obtain ⟨rfl, hz⟩ := List.cons_prefix_cons.mp hy
        rcases u with _ | ⟨z, u⟩
        · exact h List.infix_rfl
        obtain ⟨rfl, hw⟩ := List.cons_prefix_cons.mp hz
        rcases u with _ | ⟨w, u⟩
        · exact hcd (List.cons_prefix_cons.mp hw).1.symm
        obtain ⟨rfl, -⟩ := List.cons_prefix_cons.mp hw
        exact h ⟨[], u ++ [c, d], by simp⟩
      have htail : ¬ [c, d, c, d] <:+: u ++ [c, d] := fun hblank =>
        h (hblank.trans (List.infix_cons List.infix_rfl))
      rw [List.cons_append, cut, if_neg hpre, ih htail, Option.map_map]
      rfl

/-- The first blank line of a text of unbroken lines is the one that ends
it. -/
theorem cut_unbroken_lines (hcd : c ≠ d)
    (hu : ¬ [c, d, c, d] <:+: u ++ [c, d]) {ls : List (List α)}
    (hls : ∀ l ∈ ls, ¬ [c, d, c, d] <:+: [c, d] ++ l ++ [c, d]) (s : List α) :
    cut [c, d, c, d] (u ++ ls.flatMap ([c, d] ++ ·) ++ ([c, d, c, d] ++ s)) =
      some (u ++ ls.flatMap ([c, d] ++ ·), s) := by
  induction ls generalizing u with
  | nil =>
      have hcut := cut_unbroken hcd hu (c :: d :: s)
      have hsep : cut [c, d, c, d] (c :: d :: c :: d :: s) = some ([], s) :=
        cut_sep
      rw [hsep] at hcut
      simpa using hcut
  | cons l ls ih =>
      have hl := hls l List.mem_cons_self
      have hnext := cut_unbroken hcd hu (l ++ ls.flatMap ([c, d] ++ ·) ++
        ([c, d, c, d] ++ s))
      have hrest := ih hl fun k hk => hls k (List.mem_cons_of_mem l hk)
      simp only [List.cons_append, List.nil_append, List.append_assoc,
        List.flatMap_cons] at hnext hrest ⊢
      rw [hnext, hrest]
      rfl

/-- A line without a break of its own. -/
theorem unbroken_of_not_mem (hcd : c ≠ d) (ha : c ∉ a) (hne : a ≠ []) :
    ¬ [c, d, c, d] <:+: [c, d] ++ a ++ [c, d] := by
  obtain ⟨x, a, rfl⟩ := List.exists_cons_of_ne_nil hne
  have hx : x ≠ c := by
    rintro rfl
    exact ha List.mem_cons_self
  have hcut := cut_blank_cons (a := []) (s := a ++ [c, d]) hcd
    List.not_mem_nil hx
  have hline : cut [c, d, c, d] (x :: a ++ [c, d]) = none := by
    rw [cut_append ha, cut, if_neg, cut_cons_of_ne (Ne.symm hcd)]
    · rfl
    · intro hpre
      have hlen := hpre.length_le
      simp at hlen
  rw [List.cons_append] at hline
  rw [List.nil_append, hline] at hcut
  have hnone : cut [c, d, c, d] ([c, d] ++ x :: a ++ [c, d]) = none := hcut
  exact cut_none_iff.mp hnone

/-! ## Two texts that change places -/

/-- Behind what lies in front of the first blank line `p`, no blank line
begins earlier. -/
theorem not_blank_early {p : List α} {j : ℕ}
    (hp : cut [c, d, c, d] ([c, d] ++ (p ++ [c, d, c, d])) =
      some ([c, d] ++ p, [])) (hj : j < p.length) :
    ¬ [c, d, c, d] <+: (p ++ [c, d, c, d]).drop j := by
  have hnot := (cut_some hp).2 (j + 2) (by simp; omega)
  simpa using hnot

/-- Two texts with a first blank line each that overlap, neither ending in
the middle of a line break: the one in front reaches over the other's lead and
blank line. -/
theorem blank_overlap {p q y y' : List α}
    (hp : cut [c, d, c, d] ([c, d] ++ (p ++ [c, d, c, d])) =
      some ([c, d] ++ p, []))
    (hlen : p.length = q.length) (hy : y.getLast? ≠ some c)
    (heq : q ++ ([c, d, c, d] ++ y') = y ++ (p ++ [c, d, c, d])) :
    y = [] ∨ ∃ z, y = q ++ ([c, d, c, d] ++ z) ∧
      y' = z ++ (p ++ [c, d, c, d]) := by
  by_cases hnil : y = []
  · exact Or.inl hnil
  right
  have hpos := List.length_pos_iff.mpr hnil
  rcases Nat.lt_or_ge p.length y.length with hlong | hshort
  · -- `y` reaches into the blank line
    obtain ⟨z, rfl⟩ : q <+: y :=
      List.prefix_of_prefix_length_le (List.prefix_append q _)
        (heq ▸ List.prefix_append y _) (by omega)
    rw [List.append_assoc] at heq
    have hrest := List.append_cancel_left heq
    rcases z with _ | ⟨z₀, _ | ⟨z₁, _ | ⟨z₂, _ | ⟨z₃, z⟩⟩⟩⟩
    · rw [List.append_nil] at hlong
      omega
    · obtain ⟨rfl, -⟩ := List.cons.inj hrest
      simp at hy
    · simp only [List.cons_append, List.nil_append, List.cons.injEq] at hrest
      obtain ⟨-, -, htail⟩ := hrest
      have hnot := (cut_some hp).2 0 (by simp)
      rw [List.drop_zero, ← htail] at hnot
      exact absurd (List.prefix_append [c, d, c, d] y') hnot
    · simp only [List.cons_append, List.nil_append, List.cons.injEq] at hrest
      obtain ⟨-, -, rfl, -⟩ := hrest
      simp at hy
    · simp only [List.cons_append, List.nil_append, List.cons.injEq] at hrest
      obtain ⟨rfl, rfl, rfl, rfl, rfl⟩ := hrest
      exact ⟨z, rfl, rfl⟩
  · -- the blank line behind `q` would begin within `p`
    have hnot := not_blank_early hp (j := p.length - y.length) (by omega)
    have hdrop := congrArg (List.drop q.length) heq
    rw [List.drop_left, List.drop_append, List.drop_of_length_le (by omega),
      List.nil_append, ← hlen] at hdrop
    rw [← hdrop] at hnot
    exact absurd (List.prefix_append _ _) hnot

/-- `p` and `q` lie in front of the first blank lines of two texts with `x` and
`x'` behind them. If each rest with the other text behind it is the same, so
are `p` and `q`. The induction is Euclid's on `x` and `x'`: the longer one
begins with the shorter one, `q` and its blank line, and what is left of it
takes its place. -/
theorem blank_lead {p q x x' : List α}
    (hp : cut [c, d, c, d] ([c, d] ++ (p ++ [c, d, c, d])) =
      some ([c, d] ++ p, []))
    (hq : cut [c, d, c, d] ([c, d] ++ (q ++ [c, d, c, d])) =
      some ([c, d] ++ q, []))
    (hlen : p.length = q.length) (hx : x.getLast? ≠ some c)
    (hx' : x'.getLast? ≠ some c)
    (heq : x ++ (q ++ ([c, d, c, d] ++ x')) =
      x' ++ (p ++ ([c, d, c, d] ++ x))) : p = q := by
  induction hn : x.length + x'.length using Nat.strong_induction_on
    generalizing p q x x' with
  | _ n ih =>
      wlog hle : x.length ≤ x'.length generalizing p q x x'
      · exact (this hq hp hlen.symm hx' hx heq.symm (by omega) (by omega)).symm
      obtain ⟨y, hy⟩ : x <+: x' :=
        List.prefix_of_prefix_length_le (List.prefix_append x _)
          (heq ▸ List.prefix_append x' _) hle
      obtain ⟨y', hy'⟩ : x <:+ x' := by
        have hsuffix : x <:+ x' ++ (p ++ ([c, d, c, d] ++ x)) :=
          ⟨x' ++ (p ++ [c, d, c, d]), by simp⟩
        have hsuffix' : x' <:+ x' ++ (p ++ ([c, d, c, d] ++ x)) :=
          heq ▸ ⟨x ++ (q ++ [c, d, c, d]), by simp⟩
        exact List.suffix_of_suffix_length_le hsuffix hsuffix' hle
      have hmid : q ++ ([c, d, c, d] ++ y') = y ++ (p ++ [c, d, c, d]) := by
        refine (List.append_left_inj x).mp ?_
        have hboth := heq
        nth_rewrite 1 [← hy'] at hboth
        rw [← hy] at hboth
        simpa using hboth
      have hlast : ∀ u v : List α, u ++ v = x' → v.getLast? ≠ some c := by
        rintro u v rfl hv
        rw [List.getLast?_append, hv, Option.some_or] at hx'
        exact hx' rfl
      rcases blank_overlap hp hlen (hlast x y hy) hmid with rfl | ⟨z, rfl, rfl⟩
      · rw [List.nil_append] at hmid
        exact (List.append_inj hmid hlen.symm).1.symm
      · have hxz : x ++ (q ++ ([c, d, c, d] ++ z)) =
            z ++ (p ++ ([c, d, c, d] ++ x)) := by
          rw [hy, ← hy']
          simp
        have hz := hlast (x ++ (q ++ [c, d, c, d])) z (by simpa using hy)
        have hlen' := congrArg List.length hy
        simp only [List.length_append, List.length_cons,
          List.length_nil] at hlen'
        exact ih (x.length + z.length) (by omega) hp hq hlen hx hz hxz rfl

/-- A first blank line behind a line break and something else. -/
theorem cut_lead (hcd : c ≠ d) {f : List α}
    (hf : cut [c, d, c, d] ([c, d] ++ f ++ [c, d]) = some (a, x))
    (ha : a ≠ []) : ∃ p, a = [c, d] ++ p ∧
      f ++ [c, d] = p ++ ([c, d, c, d] ++ x) ∧
      cut [c, d, c, d] ([c, d] ++ (p ++ [c, d, c, d])) =
        some ([c, d] ++ p, []) := by
  have hs := (cut_some hf).1
  rcases a with _ | ⟨y, _ | ⟨z, p⟩⟩
  · exact absurd rfl ha
  · have hd : d = c := (List.cons.inj (List.cons.inj hs).2).1
    exact absurd hd.symm hcd
  · simp only [List.cons_append, List.nil_append, List.cons.injEq] at hs
    obtain ⟨rfl, rfl, hfp⟩ := hs
    refine ⟨p, rfl, hfp, ?_⟩
    have hagain := cut_again hf []
    simpa using hagain

/-- **Two texts that change places.** Each of them has its first blank line
equally far behind the line break in front of it; if what is behind that, with
the other text, is the same in both orders, the two commute. -/
theorem blank_swap (hcd : c ≠ d) {f g a a' x x' : List α}
    (hf : cut [c, d, c, d] ([c, d] ++ f ++ [c, d]) = some (a, x))
    (hg : cut [c, d, c, d] ([c, d] ++ g ++ [c, d]) = some (a', x'))
    (hlen : a.length = a'.length) (hrest : x ++ g = x' ++ f) :
    f ++ [c, d] ++ g = g ++ [c, d] ++ f := by
  have hlead : a = a' := by
    by_cases ha : a = []
    · rw [ha] at hlen ⊢
      exact (List.length_eq_zero_iff.mp hlen.symm).symm
    have ha' : a' ≠ [] := by
      rintro rfl
      exact ha (List.length_eq_zero_iff.mp hlen)
    obtain ⟨p, rfl, hfp, hp⟩ := cut_lead hcd hf ha
    obtain ⟨q, rfl, hgq, hq⟩ := cut_lead hcd hg ha'
    -- both texts end with a line break
    have hlast : ∀ {h u v : List α}, h ++ [c, d] = u ++ v →
        v.getLast? ≠ some c := by
      intro h u v heq hv
      have hend := congrArg List.getLast? heq
      rw [List.getLast?_append, List.getLast?_append, hv] at hend
      exact hcd (Option.some.inj hend).symm
    have hx : x.getLast? ≠ some c :=
      hlast (u := p ++ [c, d, c, d]) (by simpa using hfp)
    have hx' : x'.getLast? ≠ some c :=
      hlast (u := q ++ [c, d, c, d]) (by simpa using hgq)
    have hpq : p = q := by
      refine blank_lead hp hq (by simpa using hlen) hx hx' ?_
      rw [← hfp, ← hgq, ← List.append_assoc, hrest, List.append_assoc]
    rw [hpq]
  have hfg : [c, d] ++ (f ++ [c, d] ++ g) = [c, d] ++ (g ++ [c, d] ++ f) := by
    calc [c, d] ++ (f ++ [c, d] ++ g)
        = ([c, d] ++ f ++ [c, d]) ++ g := by simp
      _ = a ++ ([c, d, c, d] ++ (x ++ g)) := by
          rw [(cut_some hf).1]
          simp
      _ = a' ++ ([c, d, c, d] ++ (x' ++ f)) := by rw [hlead, hrest]
      _ = ([c, d] ++ g ++ [c, d]) ++ f := by
          rw [(cut_some hg).1]
          simp
      _ = [c, d] ++ (g ++ [c, d] ++ f) := by simp
  exact List.append_cancel_left hfg

/-- The first blank line is in the first text. -/
theorem cut_first {f : List α} (g t : List α)
    (hf : cut [c, d, c, d] ([c, d] ++ f ++ [c, d]) = some (a, x)) :
    cut [c, d, c, d] ([c, d] ++ f ++ ([c, d] ++ g ++ ([c, d] ++ t))) =
      some (a, x ++ (g ++ ([c, d] ++ t))) := by
  have hext := cut_extend hf (g ++ ([c, d] ++ t))
  simp only [List.append_assoc] at hext ⊢
  exact hext

/-- The first blank line is in the second text. -/
theorem cut_second (hcd : c ≠ d) {f g : List α}
    (hf : ¬ [c, d, c, d] <:+: [c, d] ++ f ++ [c, d])
    (hg : cut [c, d, c, d] ([c, d] ++ g ++ [c, d]) = some (a, x)) (t : List α) :
    cut [c, d, c, d] ([c, d] ++ f ++ ([c, d] ++ g ++ ([c, d] ++ t))) =
      some ([c, d] ++ f ++ a, x ++ t) := by
  have hnext := cut_unbroken hcd hf (g ++ ([c, d] ++ t))
  have hext := cut_extend hg t
  simp only [List.cons_append, List.nil_append, List.append_assoc] at *
  rw [hnext, hext]
  rfl

/-- Of two texts that commute, none has a blank line or both have. -/
theorem unbroken_of_comm (hcd : c ≠ d) {f g : List α}
    (hcomm : f ++ [c, d] ++ g = g ++ [c, d] ++ f)
    (hf : ¬ [c, d, c, d] <:+: [c, d] ++ f ++ [c, d]) :
    ¬ [c, d, c, d] <:+: [c, d] ++ g ++ [c, d] := by
  rw [← cut_none_iff]
  cases hg : cut [c, d, c, d] ([c, d] ++ g ++ [c, d]) with
  | none => rfl
  | some p =>
      obtain ⟨a, x⟩ := p
      -- the blank line of `g` is in two places of the same text
      have hsecond := cut_second hcd hf hg []
      have hfirst := cut_extend hg (f ++ [c, d])
      have hsame : [c, d] ++ f ++ ([c, d] ++ g ++ ([c, d] ++ [])) =
          [c, d] ++ g ++ [c, d] ++ (f ++ [c, d]) := by
        have h := congrArg (fun s => [c, d] ++ s ++ [c, d]) hcomm
        simpa using h
      rw [hsame, hfirst] at hsecond
      have hlen := congrArg List.length (Prod.mk.inj (Option.some.inj hsecond)).1
      simp only [List.length_append, List.length_cons, List.length_nil] at hlen
      omega

/-- If the first blank lines of both orders are equally far from the beginning,
with the same behind them, the two texts commute or neither has one. -/
theorem blank_orders (hcd : c ≠ d) {f g h h' t : List α}
    (hcut : cut [c, d, c, d]
      ([c, d] ++ f ++ ([c, d] ++ g ++ ([c, d] ++ t))) = some (h, b))
    (hcut' : cut [c, d, c, d]
      ([c, d] ++ g ++ ([c, d] ++ f ++ ([c, d] ++ t))) = some (h', b))
    (hlen : h.length = h'.length) :
    f ++ [c, d] ++ g = g ++ [c, d] ++ f ∨
      (¬ [c, d, c, d] <:+: [c, d] ++ f ++ [c, d] ∧
        ¬ [c, d, c, d] <:+: [c, d] ++ g ++ [c, d]) := by
  -- where only one of them has a blank line, the other comes behind it in one
  -- order, and not in the other
  have hmore : ∀ {y : List α} (k t : List α), y ++ (k ++ ([c, d] ++ t)) = b →
      y ++ t ≠ b := by
    intro y k t hb hb'
    have hlong := congrArg List.length (hb.trans hb'.symm)
    simp only [List.length_append, List.length_cons] at hlong
    omega
  cases hf : cut [c, d, c, d] ([c, d] ++ f ++ [c, d]) with
  | none =>
      cases hg : cut [c, d, c, d] ([c, d] ++ g ++ [c, d]) with
      | none => exact Or.inr ⟨cut_none_iff.mp hf, cut_none_iff.mp hg⟩
      | some q =>
          rw [cut_second hcd (cut_none_iff.mp hf) hg t] at hcut
          rw [cut_first f t hg] at hcut'
          exact absurd (Prod.mk.inj (Option.some.inj hcut)).2
            (hmore f t (Prod.mk.inj (Option.some.inj hcut')).2)
  | some p =>
      rw [cut_first g t hf] at hcut
      cases hg : cut [c, d, c, d] ([c, d] ++ g ++ [c, d]) with
      | none =>
          rw [cut_second hcd (cut_none_iff.mp hg) hf t] at hcut'
          exact absurd (Prod.mk.inj (Option.some.inj hcut')).2
            (hmore g t (Prod.mk.inj (Option.some.inj hcut)).2)
      | some q =>
          left
          rw [cut_first f t hg] at hcut'
          obtain ⟨rfl, hb⟩ := Prod.mk.inj (Option.some.inj hcut)
          obtain ⟨rfl, hb'⟩ := Prod.mk.inj (Option.some.inj hcut')
          refine blank_swap hcd hf hg hlen ?_
          refine (List.append_left_inj ([c, d] ++ t)).mp ?_
          simpa using hb.trans hb'.symm

/-- A blank line in front of both leaves them to what is behind it. -/
theorem comm_behind {f g h h' t : List α}
    (hu : [c, d, c, d] <:+: u ++ [c, d])
    (hcut : cut [c, d, c, d]
      (u ++ ([c, d] ++ f ++ ([c, d] ++ g ++ ([c, d] ++ t)))) = some (h, b))
    (hcut' : cut [c, d, c, d]
      (u ++ ([c, d] ++ g ++ ([c, d] ++ f ++ ([c, d] ++ t)))) = some (h', b)) :
    f ++ [c, d] ++ g = g ++ [c, d] ++ f := by
  obtain ⟨p, hp⟩ := Option.ne_none_iff_exists'.mp
    (mt cut_none_iff.mp (not_not.mpr hu))
  have hbehind : ∀ {f g h : List α}, cut [c, d, c, d]
      (u ++ ([c, d] ++ f ++ ([c, d] ++ g ++ ([c, d] ++ t)))) = some (h, b) →
      p.2 ++ (f ++ ([c, d] ++ g ++ ([c, d] ++ t))) = b := by
    intro f g h hcut
    have hext := cut_extend hp (f ++ ([c, d] ++ g ++ ([c, d] ++ t)))
    simp only [List.cons_append, List.nil_append, List.append_assoc] at *
    rw [hext] at hcut
    exact (Prod.mk.inj (Option.some.inj hcut)).2
  have hcancel := List.append_cancel_left
    ((hbehind hcut).trans (hbehind hcut').symm)
  refine (List.append_left_inj ([c, d] ++ t)).mp ?_
  simpa using hcancel

/-- **A reader of two texts in both orders.** If the first blank lines are
equally far from the beginning, with the same behind them, then the texts
commute or there is no blank line up to their end. -/
theorem blank_pair (hcd : c ≠ d) {f g h h' t : List α}
    (hcut : cut [c, d, c, d]
      (u ++ ([c, d] ++ f ++ ([c, d] ++ g ++ ([c, d] ++ t)))) = some (h, b))
    (hcut' : cut [c, d, c, d]
      (u ++ ([c, d] ++ g ++ ([c, d] ++ f ++ ([c, d] ++ t)))) = some (h', b))
    (hlen : h.length = h'.length) :
    f ++ [c, d] ++ g = g ++ [c, d] ++ f ∨
      (¬ [c, d, c, d] <:+: u ++ [c, d] ∧
        ¬ [c, d, c, d] <:+: [c, d] ++ f ++ [c, d] ∧
        ¬ [c, d, c, d] <:+: [c, d] ++ g ++ [c, d]) := by
  by_cases hu : [c, d, c, d] <:+: u ++ [c, d]
  · exact Or.inl (comm_behind hu hcut hcut')
  -- what is in front of the two texts is passed over
  have hlead : ∀ {f g h : List α}, cut [c, d, c, d]
      (u ++ ([c, d] ++ f ++ ([c, d] ++ g ++ ([c, d] ++ t)))) = some (h, b) →
      ∃ k, h = u ++ k ∧ cut [c, d, c, d]
        ([c, d] ++ f ++ ([c, d] ++ g ++ ([c, d] ++ t))) = some (k, b) := by
    intro f g h hcut
    have hpass := cut_unbroken hcd hu (f ++ ([c, d] ++ g ++ ([c, d] ++ t)))
    obtain ⟨⟨k, b'⟩, hk, heq⟩ := Option.map_eq_some_iff.mp (hpass.symm.trans hcut)
    cases heq
    exact ⟨k, rfl, hk⟩
  obtain ⟨k, rfl, hk⟩ := hlead hcut
  obtain ⟨k', rfl, hk'⟩ := hlead hcut'
  have horders := blank_orders hcd hk hk' (by simpa using hlen)
  exact horders.imp_right fun hboth => ⟨hu, hboth⟩

end Mtasc.Lib
