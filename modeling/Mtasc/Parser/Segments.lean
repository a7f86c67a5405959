import Mtasc.Lib.Cut
import Mtasc.Parser.Paramter

/-!
# The query, segment by segment

What a query should mean: it is cut at `&`, and each segment that is not empty
binds what is in front of its first `=` to what is behind it, or all of it to
a placeholder (`referenceMap`). What the scan does: a key ends at the next `=`
of the whole rest of the query, in whatever segment that is. So a segment
without `=` must be the last one; the other differences are an empty query and
the question mark that every iteration drops.
-/

namespace Mtasc

open Lib

/-! ## The reference -/

/-- What a segment binds. -/
def segmentPair (g : Text) : Text × Text :=
  (upTo '=' g, if '=' ∈ g then past '=' g else emptyParamter)

/-- The segments of a query that are not empty. -/
def querySegments (q : Text) : List Text := (q.splitOn '&').filter (· ≠ [])

/-- The map of a list of segments, in their order. -/
def segmentsMap (gs : List Text) : ParamterMap :=
  (gs.map segmentPair).foldl insertPair ∅

def referenceMap (q : Text) : ParamterMap := segmentsMap (querySegments q)

/-- The map of the query is the reference, and no key has a separator in it. -/
def ReadsReference (q : Text) : Prop :=
  parserQueryParamter ('?' :: q) = some (some (referenceMap q)) ∧
    ∀ m, parserQueryParamter ('?' :: q) = some (some m) →
      ∀ key ∈ m.keys, '&' ∉ key

/-! ## Scan and reference -/

section

variable {q r : Text} {n : ℕ}

/-- The mark that is dropped is no part of a cut at something else. -/
theorem upTo_dropMark {c : Char} (hc : c ≠ '?') :
    upTo c (dropMark r) = dropMark (upTo c r) := by
  by_cases hmark : r.head? = some '?'
  · obtain ⟨r', rfl⟩ := List.head?_eq_some_iff.mp hmark
    rw [upTo_cons_of_ne hc.symm]
    rfl
  · rw [dropMark_of_ne hmark, dropMark_of_ne]
    cases r with
    | nil => exact hmark
    | cons x r =>
        by_cases hx : x = c
        · subst hx
          simp [upTo]
        · rw [upTo_cons_of_ne hx]
          exact hmark

theorem past_dropMark {c : Char} (hc : c ≠ '?') :
    past c (dropMark r) = past c r := by
  by_cases hmark : r.head? = some '?'
  · obtain ⟨r', rfl⟩ := List.head?_eq_some_iff.mp hmark
    rw [past_cons_of_ne hc.symm]
    rfl
  · rw [dropMark_of_ne hmark]

theorem mem_dropMark {c : Char} (hc : c ≠ '?') : c ∈ dropMark r ↔ c ∈ r := by
  by_cases hmark : r.head? = some '?'
  · obtain ⟨r', rfl⟩ := List.head?_eq_some_iff.mp hmark
    rw [List.mem_cons, or_iff_right hc]
    rfl
  · rw [dropMark_of_ne hmark]

/-- If the first segment has a `=`, or is all there is, an iteration inserts
what the segment binds. -/
theorem scanPair_eq (h : '&' ∈ r → '=' ∈ upTo '&' r) :
    scanPair r = segmentPair (upTo '&' r) := by
  by_cases hamp : '&' ∈ r
  · have hkey : upTo '=' r = upTo '=' (upTo '&' r) := by
      rw [← upTo_append_of_mem (h hamp)]
      congr 1
      exact List.takeWhile_append_dropWhile.symm
    rw [scanPair, hkey]
    rfl
  · rw [upTo_of_not_mem hamp, scanPair, upTo_of_not_mem hamp]
    rfl

/-- If it has none and is not all there is, the key goes on behind the `&`. -/
theorem amp_mem_scanPair (hamp : '&' ∈ r) (h : '=' ∉ upTo '&' r) :
    '&' ∈ (scanPair r).1 := by
  have hkey : upTo '=' r = upTo '&' r ++ upTo '=' ('&' :: past '&' r) := by
    rw [← upTo_append_of_not_mem h, upTo_append_past hamp]
  show '&' ∈ upTo '=' r
  rw [hkey, upTo_cons_of_ne (by decide)]
  exact List.mem_append_right _ List.mem_cons_self

/-- The segments of a query, the last one apart. -/
theorem dropLast_splitOn (h : '&' ∈ r) :
    (r.splitOn '&').dropLast =
      upTo '&' r :: ((past '&' r).splitOn '&').dropLast := by
  rw [splitOn_of_mem h, List.dropLast_cons_of_ne_nil]
  exact List.splitOn_ne_nil _ _

theorem dropLast_splitOn_of_not_mem (h : '&' ∉ r) :
    (r.splitOn '&').dropLast = [] := by
  rw [List.splitOn_eq_singleton h]
  rfl

theorem querySegments_of_mem (h : '&' ∈ r) (hne : upTo '&' r ≠ []) :
    querySegments r = upTo '&' r :: querySegments (past '&' r) := by
  rw [querySegments, splitOn_of_mem h, List.filter_cons_of_pos (by simpa)]
  rfl

theorem querySegments_of_not_mem (h : '&' ∉ r) (hne : r ≠ []) :
    querySegments r = [r] := by
  rw [querySegments, List.splitOn_eq_singleton h,
    List.filter_cons_of_pos (by simpa)]
  rfl

/-- Where every segment but the last has a `=`, the scan inserts segment by
segment. -/
theorem scanPairs_eq : ∀ {r : Text}, r.length ≤ n →
    (∀ g ∈ (r.splitOn '&').dropLast, '=' ∈ g) →
      scanPairs n r = ((querySegments r).map dropMark).map segmentPair := by
  induction n with
  | zero =>
      intro r hn _
      obtain rfl := List.length_eq_zero_iff.mp (Nat.le_zero.mp hn)
      rfl
  | succ n ih =>
      intro r hn hseg
      by_cases hr : r = []
      · subst hr
        rfl
      rw [scanPairs, if_neg hr, past_dropMark (by decide)]
      have hless := past_length_lt (c := '&') hr
      by_cases hamp : '&' ∈ r
      · rw [dropLast_splitOn hamp, List.forall_mem_cons] at hseg
        have hpair : scanPair (dropMark r) =
            segmentPair (dropMark (upTo '&' r)) := by
          rw [← upTo_dropMark (by decide)]
          apply scanPair_eq
          intro _
          rw [upTo_dropMark (by decide), mem_dropMark (by decide)]
          exact hseg.1
        rw [querySegments_of_mem hamp (List.ne_nil_of_mem hseg.1), hpair,
          ih (by omega) hseg.2]
        rfl
      · have hpair : scanPair (dropMark r) = segmentPair (dropMark r) := by
          have hall := (mem_dropMark (r := r) (c := '&') (by decide)).not.mpr hamp
          rw [scanPair_eq (fun h => absurd h hall), upTo_of_not_mem hall]
        rw [querySegments_of_not_mem hamp hr, hpair, past_of_not_mem hamp,
          ih (Nat.zero_le _) (by simp)]
        rfl

/-- Otherwise it inserts a key with a separator in it. -/
theorem amp_mem_scanPairs : ∀ {r : Text}, r.length ≤ n →
    (∃ g ∈ (r.splitOn '&').dropLast, '=' ∉ g) →
      ∃ kv ∈ scanPairs n r, '&' ∈ kv.1 := by
  induction n with
  | zero =>
      rintro r hn ⟨g, hg, -⟩
      obtain rfl := List.length_eq_zero_iff.mp (Nat.le_zero.mp hn)
      cases hg
  | succ n ih =>
      rintro r hn ⟨g, hg, hnot⟩
      have hamp : '&' ∈ r := by
        by_contra hamp
        rw [dropLast_splitOn_of_not_mem hamp] at hg
        cases hg
      have hr : r ≠ [] := List.ne_nil_of_mem hamp
      have hless := past_length_lt (c := '&') hr
      rw [scanPairs, if_neg hr, past_dropMark (by decide)]
      rw [dropLast_splitOn hamp, List.mem_cons] at hg
      rcases hg with rfl | hg
      · refine ⟨_, List.mem_cons_self, amp_mem_scanPair ?_ ?_⟩
        · exact (mem_dropMark (by decide)).mpr hamp
        · rwa [upTo_dropMark (by decide), mem_dropMark (by decide)]
      · obtain ⟨kv, hkv, hkey⟩ := ih (by omega) ⟨g, hg, hnot⟩
        exact ⟨kv, List.mem_cons_of_mem _ hkv, hkey⟩

end

/-! ## The marks that the scan drops -/

/-- The first segment as the first one of a query, the others without the
question mark in front of them. -/
def dropMarks : List Text → List Text
  | [] => []
  | g :: gs => g :: gs.map dropMark

/-- What the last segment with one of the keys binds. -/
def lastValue (keys gs : List Text) : Option Text :=
  (gs.reverse.find? (upTo '=' · ∈ keys)).map fun g => (segmentPair g).2

/-- The marks behind the first segment make no difference. Each key with one is
the first segment's key without some of the marks in front of it; each of these
keys that still has a mark is bound behind the first segment, last to what the
first one binds; and where only the mark tells two keys apart, the last of
their segments binds what the last one without it does. -/
structure MarksAbsorbed (g : Text) (gs : List Text) : Prop where
  marked : ∀ k ∈ gs, k.head? = some '?' →
    ∃ j, upTo '=' g = List.replicate j '?' ++ upTo '=' k
  value : ∀ j key, upTo '=' g = List.replicate j '?' ++ key →
    key.head? = some '?' → lastValue [key] gs = some (segmentPair g).2
  bare : ∀ j key, upTo '=' g = List.replicate j '?' ++ key →
    key.head? ≠ some '?' → lastValue [key, '?' :: key] gs = lastValue [key] gs

section

variable {g key : Text} {gs keys keys' : List Text}

theorem dropMarks_of_no_mark (h : ∀ k ∈ gs, k.head? ≠ some '?') :
    dropMarks (g :: gs) = g :: gs := by
  have hsame : gs.map dropMark = gs.map id := by
    apply List.map_congr_left
    intro k hk
    exact dropMark_of_ne (h k hk)
  rw [dropMarks, hsame, List.map_id]

theorem mem_segmentsMap {key : Text} :
    key ∈ segmentsMap gs ↔ ∃ k ∈ gs, upTo '=' k = key := by
  rw [segmentsMap, mem_foldl_insertPair,
    or_iff_left (Finmap.notMem_empty (a := key))]
  constructor
  · rintro ⟨kv, hkv, rfl⟩
    obtain ⟨k, hk, rfl⟩ := List.mem_map.mp hkv
    exact ⟨k, hk, rfl⟩
  · rintro ⟨k, hk, rfl⟩
    exact ⟨segmentPair k, List.mem_map_of_mem hk, rfl⟩

theorem head_upTo : (upTo '=' g).head? = some '?' ↔ g.head? = some '?' := by
  cases g with
  | nil => rfl
  | cons c g =>
      by_cases hc : c = '='
      · subst hc
        simp [upTo]
      · rw [upTo_cons_of_ne hc]
        rfl

/-! ### The last value -/

theorem lastValue_cons :
    lastValue keys (g :: gs) = (lastValue keys gs).or
      (if upTo '=' g ∈ keys then some (segmentPair g).2 else none) := by
  rw [lastValue, List.reverse_cons, List.find?_append, Option.map_or,
    List.find?_singleton]
  by_cases hkey : upTo '=' g ∈ keys
  · simp [lastValue, hkey]
  · simp [lastValue, hkey]

theorem lastValue_eq_none :
    lastValue keys gs = none ↔ ∀ k ∈ gs, upTo '=' k ∉ keys := by
  simp [lastValue]

theorem lastValue_congr
    (h : ∀ k ∈ gs, upTo '=' k ∈ keys ↔ upTo '=' k ∈ keys') :
    lastValue keys gs = lastValue keys' gs := by
  induction gs with
  | nil => rfl
  | cons g gs ih =>
      rw [List.forall_mem_cons] at h
      rw [lastValue_cons, lastValue_cons, ih h.2]
      simp only [h.1]

theorem lookup_segmentsMap :
    (segmentsMap gs).lookup key = lastValue [key] gs := by
  rw [segmentsMap, lookup_foldl_insertPair, Finmap.lookup_empty, Option.or_none]
  induction gs with
  | nil => rfl
  | cons g gs ih =>
      rw [lastValue_cons, List.map_cons, List.reverse_cons,
        List.lookup_append, ih]
      congr 1
      by_cases hkey : upTo '=' g = key
      · simp [segmentPair, hkey]
      · have hkey' : (key == upTo '=' g) = false := by
          simpa using Ne.symm hkey
        simp [segmentPair, hkey, hkey', List.lookup]

theorem segmentPair_dropMark :
    segmentPair (dropMark g) = (dropMark (upTo '=' g), (segmentPair g).2) := by
  rw [segmentPair, upTo_dropMark (by decide), past_dropMark (by decide)]
  simp only [mem_dropMark (c := '=') (by decide)]
  rfl

/-- The last value without the marks is the last one of the keys that lose
them. -/
theorem lastValue_map_dropMark
    (h : ∀ key, dropMark key ∈ keys ↔ key ∈ keys') :
    lastValue keys (gs.map dropMark) = lastValue keys' gs := by
  induction gs with
  | nil => rfl
  | cons g gs ih =>
      have hkey : upTo '=' (dropMark g) ∈ keys ↔ upTo '=' g ∈ keys' := by
        rw [upTo_dropMark (by decide)]
        exact h _
      rw [List.map_cons, lastValue_cons, lastValue_cons, ih,
        segmentPair_dropMark]
      simp only [hkey]

theorem dropMark_eq_iff : dropMark g = key ↔
    g = '?' :: key ∨ g = key ∧ key.head? ≠ some '?' := by
  by_cases hmark : g.head? = some '?'
  · obtain ⟨g', rfl⟩ := List.head?_eq_some_iff.mp hmark
    have hdrop : dropMark ('?' :: g') = g' := rfl
    rw [hdrop, List.cons_inj_right]
    constructor
    · exact Or.inl
    · rintro (heq | ⟨rfl, hhead⟩)
      · exact heq
      · exact absurd hmark hhead
  · rw [dropMark_of_ne hmark]
    constructor
    · rintro rfl
      exact Or.inr ⟨rfl, hmark⟩
    · rintro (rfl | ⟨heq, -⟩)
      · exact absurd rfl hmark
      · exact heq

theorem lastValue_dropMark_marked (h : key.head? = some '?') :
    lastValue [key] (gs.map dropMark) = lastValue ['?' :: key] gs := by
  apply lastValue_map_dropMark
  intro k
  simp [dropMark_eq_iff, h]

theorem lastValue_dropMark_bare (h : key.head? ≠ some '?') :
    lastValue [key] (gs.map dropMark) = lastValue [key, '?' :: key] gs := by
  apply lastValue_map_dropMark
  intro k
  simp [dropMark_eq_iff, h, or_comm]

theorem lookup_dropMarks : (segmentsMap (dropMarks (g :: gs))).lookup key =
    (lastValue [key] (gs.map dropMark)).or
      (if upTo '=' g = key then some (segmentPair g).2 else none) := by
  rw [lookup_segmentsMap, dropMarks, lastValue_cons]
  simp only [List.mem_singleton]

theorem lookup_segments : (segmentsMap (g :: gs)).lookup key =
    (lastValue [key] gs).or
      (if upTo '=' g = key then some (segmentPair g).2 else none) := by
  rw [lookup_segmentsMap, lastValue_cons]
  simp only [List.mem_singleton]

/-! ### Marks that make no difference -/

theorem head_marks {j : ℕ} (h : key.head? = some '?') :
    (List.replicate j '?' ++ key).head? = some '?' := by
  cases j with
  | zero => exact h
  | succ j => rfl

theorem marks_succ (j : ℕ) (key : Text) :
    List.replicate (j + 1) '?' ++ key = List.replicate j '?' ++ '?' :: key := by
  rw [List.replicate_succ', List.append_assoc]
  rfl

theorem ne_marks {j : ℕ} : key ≠ List.replicate j '?' ++ '?' :: key := by
  intro heq
  have hlen := congrArg List.length heq
  rw [List.length_append, List.length_cons] at hlen
  omega

/-- A key with a mark, other than the first segment's, is bound to what the
key with one mark more was bound to. -/
theorem lastValue_mark
    (hsame : segmentsMap (dropMarks (g :: gs)) = segmentsMap (g :: gs))
    (hmark : key.head? = some '?') (hfirst : upTo '=' g ≠ key) :
    lastValue ['?' :: key] gs = lastValue [key] gs := by
  have hlookup := congrArg (Finmap.lookup key) hsame
  rw [lookup_dropMarks, lookup_segments, if_neg hfirst, Option.or_none,
    Option.or_none, lastValue_dropMark_marked hmark] at hlookup
  exact hlookup

/-- So the marks go up, as far as those of the first segment. -/
theorem exists_marks
    (hsame : segmentsMap (dropMarks (g :: gs)) = segmentsMap (g :: gs)) (n : ℕ)
    (hn : ∀ k ∈ gs, (upTo '=' k).length ≤ key.length + n)
    (hmark : key.head? = some '?') (hkey : lastValue [key] gs ≠ none) :
    (∃ j, upTo '=' g = List.replicate j '?' ++ key) ∧
      lastValue [upTo '=' g] gs ≠ none := by
  induction n generalizing key with
  | zero =>
      by_cases hfirst : upTo '=' g = key
      · exact ⟨⟨0, hfirst⟩, hfirst ▸ hkey⟩
      · rw [← lastValue_mark hsame hmark hfirst, Ne, lastValue_eq_none] at hkey
        push Not at hkey
        obtain ⟨k, hk, hlonger⟩ := hkey
        have hlen := hn k hk
        rw [List.mem_singleton.mp hlonger, List.length_cons] at hlen
        omega
  | succ n ih =>
      by_cases hfirst : upTo '=' g = key
      · exact ⟨⟨0, hfirst⟩, hfirst ▸ hkey⟩
      · rw [← lastValue_mark hsame hmark hfirst] at hkey
        obtain ⟨⟨j, hj⟩, hlast⟩ := ih
          (fun k hk => by
            have hlen := hn k hk
            rw [List.length_cons]
            omega) rfl hkey
        exact ⟨⟨j + 1, hj.trans (marks_succ j key).symm⟩, hlast⟩

theorem lastValue_ne_none {k : Text} (hk : k ∈ gs) :
    lastValue [upTo '=' k] gs ≠ none := by
  rw [Ne, lastValue_eq_none]
  push Not
  exact ⟨k, hk, List.mem_singleton_self _⟩

theorem marksAbsorbed_of_same
    (hsame : segmentsMap (dropMarks (g :: gs)) = segmentsMap (g :: gs))
    {k : Text} (hk : k ∈ gs) (hkMark : k.head? = some '?') :
    MarksAbsorbed g gs := by
  have hbound : ∀ key : Text, ∀ k ∈ gs, (upTo '=' k).length ≤
      key.length + (gs.map fun k => (upTo '=' k).length).sum := by
    intro key k hk
    have hle := List.le_sum_of_mem (List.mem_map_of_mem (f := fun k =>
      (upTo '=' k).length) hk)
    omega
  have hmarked : ∀ key : Text, key.head? = some '?' →
      lastValue [key] gs ≠ none →
      (∃ j, upTo '=' g = List.replicate j '?' ++ key) ∧
        lastValue [upTo '=' g] gs ≠ none :=
    fun key hmark hkey => exists_marks hsame _ (hbound key) hmark hkey
  obtain ⟨⟨i, hi⟩, hlast⟩ :=
    hmarked _ (head_upTo.mpr hkMark) (lastValue_ne_none hk)
  have hfirst : (upTo '=' g).head? = some '?' := by
    rw [hi]
    exact head_marks (head_upTo.mpr hkMark)
  constructor
  · intro k hk hmark
    exact (hmarked _ (head_upTo.mpr hmark) (lastValue_ne_none hk)).1
  · intro j
    induction j with
    | zero =>
        rintro key hkey hmark
        obtain rfl : upTo '=' g = key := hkey
        -- a key with one mark more would go beyond the first segment's
        have hnone : lastValue ['?' :: upTo '=' g] gs = none := by
          by_contra hsome
          obtain ⟨⟨i', hi'⟩, -⟩ := hmarked _ rfl hsome
          exact ne_marks hi'
        have hlookup := congrArg (Finmap.lookup (upTo '=' g)) hsame
        rw [lookup_dropMarks, lookup_segments, if_pos rfl,
          lastValue_dropMark_marked hmark, hnone, Option.none_or] at hlookup
        obtain ⟨v, hv⟩ := Option.ne_none_iff_exists'.mp hlast
        rw [hv, Option.some_or] at hlookup
        rw [hv, hlookup]
    | succ j ih =>
        intro key hkey hmark
        rw [marks_succ] at hkey
        have hne : upTo '=' g ≠ key := by
          rintro rfl
          exact ne_marks hkey
        rw [← lastValue_mark hsame hmark hne]
        exact ih _ hkey rfl
  · intro j key hkey hmark
    have hne : upTo '=' g ≠ key := fun heq => hmark (heq ▸ hfirst)
    have hlookup := congrArg (Finmap.lookup key) hsame
    rw [lookup_dropMarks, lookup_segments, if_neg hne, Option.or_none,
      Option.or_none, lastValue_dropMark_bare hmark] at hlookup
    exact hlookup

/-- A key with a mark that the first segment's does not end with is bound
nowhere. -/
theorem MarksAbsorbed.absent (h : MarksAbsorbed g gs)
    (hmark : key.head? = some '?')
    (hnot : ∀ j, upTo '=' g ≠ List.replicate j '?' ++ key) :
    ∀ k ∈ gs, upTo '=' k ≠ key := by
  rintro k hk rfl
  obtain ⟨j, hj⟩ := h.marked k hk (head_upTo.mp hmark)
  exact hnot j hj

theorem same_of_marksAbsorbed (h : MarksAbsorbed g gs) :
    segmentsMap (dropMarks (g :: gs)) = segmentsMap (g :: gs) := by
  apply Finmap.ext_lookup
  intro key
  rw [lookup_dropMarks, lookup_segments]
  by_cases hmark : key.head? = some '?'
  · rw [lastValue_dropMark_marked hmark]
    by_cases hends : ∃ j, upTo '=' g = List.replicate j '?' ++ key
    · obtain ⟨j, hj⟩ := hends
      rw [h.value j key hj hmark]
      cases j with
      | zero =>
          obtain rfl : upTo '=' g = key := hj
          have hnone : lastValue ['?' :: upTo '=' g] gs = none := by
            rw [lastValue_eq_none]
            intro k hk hmem
            exact h.absent rfl (fun j => ne_marks) k hk
              (List.mem_singleton.mp hmem)
          rw [hnone, if_pos rfl, Option.none_or, Option.some_or]
      | succ j =>
          rw [marks_succ] at hj
          rw [h.value j _ hj rfl]
    · push Not at hends
      have hnone : lastValue [key] gs = none := by
        rw [lastValue_eq_none]
        intro k hk hmem
        exact h.absent hmark hends k hk (List.mem_singleton.mp hmem)
      have hnone' : lastValue ['?' :: key] gs = none := by
        rw [lastValue_eq_none]
        intro k hk hmem
        exact h.absent rfl (fun j => marks_succ j key ▸ hends (j + 1)) k hk
          (List.mem_singleton.mp hmem)
      rw [hnone, hnone']
  · rw [lastValue_dropMark_bare hmark]
    by_cases hends : ∃ j, upTo '=' g = List.replicate j '?' ++ key
    · obtain ⟨j, hj⟩ := hends
      rw [h.bare j key hj hmark]
    · push Not at hends
      have hsame : lastValue [key, '?' :: key] gs = lastValue [key] gs := by
        apply lastValue_congr
        intro k hk
        have habsent := h.absent rfl
          (fun j => marks_succ j key ▸ hends (j + 1)) k hk
        simp [habsent]
      rw [hsame]

/-- **When the dropped marks make no difference.** -/
theorem dropMarks_same_iff :
    segmentsMap (dropMarks (g :: gs)) = segmentsMap (g :: gs) ↔
      (∀ k ∈ gs, k.head? ≠ some '?') ∨ MarksAbsorbed g gs := by
  constructor
  · intro hsame
    by_cases hnone : ∀ k ∈ gs, k.head? ≠ some '?'
    · exact Or.inl hnone
    · push Not at hnone
      obtain ⟨k, hk, hmark⟩ := hnone
      exact Or.inr (marksAbsorbed_of_same hsame hk hmark)
  · rintro (hnone | habsorbed)
    · rw [dropMarks_of_no_mark hnone]
    · exact same_of_marksAbsorbed habsorbed

end

/-! ## When the scan reads the reference -/

section

variable {q : Text} {n : ℕ}

theorem scan_segments (hn : (past '&' q).length ≤ n) (hq : q ≠ [])
    (hseg : ∀ g ∈ (q.splitOn '&').dropLast, '=' ∈ g) :
    scanPair q :: scanPairs n (past '&' q) =
      (dropMarks (querySegments q)).map segmentPair := by
  by_cases hamp : '&' ∈ q
  · rw [dropLast_splitOn hamp, List.forall_mem_cons] at hseg
    rw [querySegments_of_mem hamp (List.ne_nil_of_mem hseg.1),
      scanPair_eq (fun _ => hseg.1), scanPairs_eq hn hseg.2]
    rfl
  · rw [querySegments_of_not_mem hamp hq,
      scanPair_eq (fun h => absurd h hamp), upTo_of_not_mem hamp,
      scanPairs_eq hn]
    · rw [past_of_not_mem hamp]
      rfl
    · rw [past_of_not_mem hamp]
      simp

theorem scan_amp (hn : (past '&' q).length ≤ n)
    (hseg : ∃ g ∈ (q.splitOn '&').dropLast, '=' ∉ g) :
    ∃ kv ∈ scanPair q :: scanPairs n (past '&' q), '&' ∈ kv.1 := by
  obtain ⟨g, hg, hnot⟩ := hseg
  have hamp : '&' ∈ q := by
    by_contra hamp
    rw [dropLast_splitOn_of_not_mem hamp] at hg
    cases hg
  rw [dropLast_splitOn hamp, List.mem_cons] at hg
  rcases hg with rfl | hg
  · exact ⟨_, List.mem_cons_self, amp_mem_scanPair hamp hnot⟩
  · obtain ⟨kv, hkv, hkey⟩ := amp_mem_scanPairs hn ⟨g, hg, hnot⟩
    exact ⟨kv, List.mem_cons_of_mem _ hkv, hkey⟩

/-- No key of the reference has a separator in it. -/
theorem amp_not_mem_referenceMap {key : Text}
    (h : key ∈ (referenceMap q).keys) : '&' ∉ key := by
  rw [Finmap.mem_keys, referenceMap, mem_segmentsMap] at h
  obtain ⟨g, hg, rfl⟩ := h
  have hfree := not_mem_of_mem_splitOn (List.mem_of_mem_filter hg)
  intro hmem
  exact hfree (List.takeWhile_subset _ hmem)

/-- The first segment, where the query does not start with a separator. -/
theorem querySegments_cons (hq : q ≠ [])
    (hseg : ∀ g ∈ (q.splitOn '&').dropLast, '=' ∈ g) :
    ∃ g gs, querySegments q = g :: gs := by
  by_cases hamp : '&' ∈ q
  · rw [dropLast_splitOn hamp, List.forall_mem_cons] at hseg
    exact ⟨_, _, querySegments_of_mem hamp (List.ne_nil_of_mem hseg.1)⟩
  · exact ⟨_, _, querySegments_of_not_mem hamp hq⟩

theorem not_readsReference (hfits : ('?' :: q).length < 2 ^ 63)
    (hseg : ∃ g ∈ (q.splitOn '&').dropLast, '=' ∉ g) : ¬ ReadsReference q := by
  have hn : (past '&' q).length ≤ q.length := past_length_le
  have hscan := parserQueryParamter_mark hfits
  obtain ⟨kv, hkv, hamp⟩ := scan_amp hn hseg
  rintro ⟨-, hkeys⟩
  apply hkeys _ hscan kv.1 _ hamp
  rw [Finmap.mem_keys, mem_foldl_insertPair]
  exact Or.inl ⟨kv, hkv, rfl⟩

/-- **The query map**: it is the reference exactly if the query is not empty,
every segment but the last has a `=`, and the question marks that are dropped
from the segments behind the first make no difference: there are none, or the
key of the first one absorbs them. -/
theorem readsReference_iff (hfits : ('?' :: q).length < 2 ^ 63) :
    ReadsReference q ↔
      q ≠ [] ∧ (∀ g ∈ (q.splitOn '&').dropLast, '=' ∈ g) ∧
        ((∀ g ∈ (querySegments q).tail, g.head? ≠ some '?') ∨
          ∃ g gs, querySegments q = g :: gs ∧ MarksAbsorbed g gs) := by
  have hn : (past '&' q).length ≤ q.length := past_length_le
  have hscan := parserQueryParamter_mark hfits
  constructor
  · intro hreads
    have hread := hreads.1
    rw [hscan, Option.some.injEq, Option.some.injEq] at hread
    have hq : q ≠ [] := by
      rintro rfl
      have hmem : [] ∈ referenceMap [] := by
        rw [← hread, mem_foldl_insertPair]
        exact Or.inl ⟨_, List.mem_cons_self, rfl⟩
      exact Finmap.notMem_empty hmem
    have hseg : ∀ g ∈ (q.splitOn '&').dropLast, '=' ∈ g := by
      by_contra hnot
      push Not at hnot
      exact not_readsReference hfits hnot hreads
    refine ⟨hq, hseg, ?_⟩
    obtain ⟨g, gs, hsplit⟩ := querySegments_cons hq hseg
    rw [scan_segments hn hq hseg, referenceMap, hsplit] at hread
    rw [hsplit]
    rcases dropMarks_same_iff.mp hread with hnone | habsorbed
    · exact Or.inl hnone
    · exact Or.inr ⟨g, gs, rfl, habsorbed⟩
  · rintro ⟨hq, hseg, hmark⟩
    obtain ⟨g, gs, hsplit⟩ := querySegments_cons hq hseg
    have hmarks : segmentsMap (dropMarks (querySegments q)) =
        segmentsMap (querySegments q) := by
      rw [hsplit] at hmark ⊢
      apply dropMarks_same_iff.mpr
      rcases hmark with hnone | ⟨g', gs', heq, habsorbed⟩
      · exact Or.inl hnone
      · cases heq
        exact Or.inr habsorbed
    rw [scan_segments hn hq hseg] at hscan
    have hread : parserQueryParamter ('?' :: q) =
        some (some (referenceMap q)) := by
      rw [hscan]
      exact congrArg (fun m => some (some m)) hmarks
    refine ⟨hread, ?_⟩
    intro m hm key hkey
    rw [hread, Option.some.injEq, Option.some.injEq] at hm
    subst hm
    exact amp_not_mem_referenceMap hkey

end

theorem readsReference_valueless_last :
    (∃ g ∈ "b=1&a".toList.splitOn '&', '=' ∉ g) ∧
      ReadsReference "b=1&a".toList := by
  constructor
  · exact ⟨"a".toList, by decide, by decide⟩
  · apply (readsReference_iff (by decide)).mpr
    exact ⟨by decide, by decide, Or.inl (by decide)⟩

/-- In front of another segment, a segment without `=` is read into the key
`a&b`. -/
theorem readsReference_not_always :
    ¬ ∀ q : Text, ('?' :: q).length < 2 ^ 63 →
      (∃ g ∈ q.splitOn '&', '=' ∉ g) → ReadsReference q := by
  intro h
  apply not_readsReference (q := "a&b=1".toList) (by decide)
  · exact ⟨"a".toList, by decide, by decide⟩
  · apply h _ (by decide)
    exact ⟨"a".toList, by decide, by decide⟩

end Mtasc
