import Mtasc.Lib.Cut
import Mtasc.Parser.Token

/-!
# The query-parameter scan

`parserQueryParamter` never throws, so the `noexcept` of its source is sound,
and it ends: every iteration leaves less of the text than it found. What it
inserts is `scanPairs` of its text. On a text of `key=value` segments joined
by `&` these are the pairs in their order.
-/

namespace Mtasc

open Lib

/-! ## One segment -/

/-- The index an iteration starts its search from. -/
def skipMark (s : Text) (ops : ℕ) : ℕ :=
  if charAt s ops = '?' then ops + 1 else ops

/-- `M_amp_ops`: the end of the segment that starts at `ops`. -/
def segmentEnd (s : Text) (ops : ℕ) : ℕ :=
  if find s '&' ops = npos then s.length else find s '&' ops

def segmentKey (s : Text) (ops : ℕ) : Text :=
  (s.drop ops).take (wsub 64 (find s '=' ops) ops)

def segmentValue (s : Text) (ops : ℕ) : Text :=
  if find s '=' ops ≠ npos ∧ find s '=' ops < segmentEnd s ops then
    (s.drop (find s '=' ops + 1)).take
      (segmentEnd s ops - find s '=' ops - 1)
  else emptyParamter

theorem skipMark_bounds {s : Text} {ops : ℕ} (h : ops < s.length) :
    ops ≤ skipMark s ops ∧ skipMark s ops ≤ s.length := by
  unfold skipMark
  split <;> omega

theorem segmentEnd_bounds {s : Text} {ops : ℕ} (h : ops ≤ s.length) :
    ops ≤ segmentEnd s ops ∧ segmentEnd s ops ≤ s.length := by
  unfold segmentEnd
  split
  · exact ⟨h, Nat.le_refl _⟩
  · next hfound =>
    have := le_find hfound
    omega

theorem substr_eq {s : Text} {pos : ℕ} (h : pos ≤ s.length) (count : ℕ) :
    substr s pos count = some ((s.drop pos).take count) :=
  if_pos h

theorem paramterStep_end {s : Text} {c : ParamterCursor}
    (h : s.length ≤ c.ops) : paramterStep s c = .done (some c.map) := by
  rw [paramterStep, if_neg (by omega)]

/-- What one iteration does: insert the pair of a segment, move behind it. No
index wraps and no `substr` is out of range. -/
theorem paramterStep_next {s : Text} {c : ParamterCursor}
    (hs : s.length < 2 ^ 63) (h : c.ops < s.length) :
    paramterStep s c = .next
      ⟨segmentEnd s (skipMark s c.ops) + 1,
        c.map.insert (segmentKey s (skipMark s c.ops))
          (segmentValue s (skipMark s c.ops))⟩ := by
  obtain ⟨-, hskip⟩ := skipMark_bounds h
  obtain ⟨-, hend⟩ := segmentEnd_bounds hskip
  have hwrap : wadd 64 (segmentEnd s (skipMark s c.ops)) 1 =
      segmentEnd s (skipMark s c.ops) + 1 := wadd_of_lt (by omega)
  have hfoldEnd : ∀ i, (if find s '&' i = npos then s.length
      else find s '&' i) = segmentEnd s i := fun _ => rfl
  have hfoldSkip : (if charAt s c.ops = '?' then c.ops + 1 else c.ops) =
      skipMark s c.ops := rfl
  rw [paramterStep, if_pos h]
  simp only [hfoldSkip, hfoldEnd, substr_eq hskip, hwrap]
  by_cases heq : find s '=' (skipMark s c.ops) ≠ npos ∧
      find s '=' (skipMark s c.ops) < segmentEnd s (skipMark s c.ops)
  · have hlt := heq.2
    have hstart : wadd 64 (find s '=' (skipMark s c.ops)) 1 =
        find s '=' (skipMark s c.ops) + 1 := wadd_of_lt (by omega)
    have hcount : wsub 64 (wsub 64 (segmentEnd s (skipMark s c.ops))
        (find s '=' (skipMark s c.ops))) 1 =
        segmentEnd s (skipMark s c.ops) - find s '=' (skipMark s c.ops) - 1 := by
      rw [wsub_of_le (Nat.le_of_lt hlt) (by omega),
        wsub_of_le (by omega) (by omega)]
    rw [if_pos heq, hstart, hcount, substr_eq (by omega)]
    simp only [segmentKey, segmentValue, if_pos heq]
  · rw [if_neg heq]
    simp only [segmentKey, segmentValue, if_neg heq]

/-! ## What the loop inserts -/

def insertPair (m : ParamterMap) (kv : Text × Text) : ParamterMap :=
  m.insert kv.1 kv.2

/-- A question mark in front is dropped. -/
def dropMark : Text → Text
  | '?' :: r => r
  | r => r

/-- What an iteration inserts with `r` in front of it: the key goes up to the
next `=`, the value is that of the first segment. -/
def scanPair (r : Text) : Text × Text :=
  (upTo '=' r,
    if '=' ∈ upTo '&' r then past '=' (upTo '&' r) else emptyParamter)

/-- What the loop inserts with the text `r` to come. -/
def scanPairs : ℕ → Text → List (Text × Text)
  | 0, _ => []
  | n + 1, r =>
      if r = [] then []
      else scanPair (dropMark r) :: scanPairs n (past '&' (dropMark r))

section

variable {pre r : Text} {n : ℕ}

theorem dropMark_of_ne (h : r.head? ≠ some '?') : dropMark r = r := by
  unfold dropMark
  split
  · exact absurd rfl h
  · rfl

/-- An iteration leaves less than it found. -/
theorem past_dropMark_length_lt (h : r ≠ []) :
    (past '&' (dropMark r)).length < r.length := by
  by_cases hmark : r.head? = some '?'
  · obtain ⟨r', rfl⟩ := List.head?_eq_some_iff.mp hmark
    exact Nat.lt_succ_of_le past_length_le
  · rw [dropMark_of_ne hmark]
    exact past_length_lt h

/-! ## One iteration -/

/-- A search that starts in front of `r` finds the first hit in `r`. -/
theorem find_mem {c : Char} (h : c ∈ r) :
    find (pre ++ r) c pre.length = pre.length + (upTo c r).length := by
  have hfront : c ∉ upTo c r := not_mem_upTo
  have hfind : find (pre ++ (upTo c r ++ c :: past c r)) c pre.length =
      pre.length + (upTo c r).length := find_token hfront
  rwa [upTo_append_past h] at hfind

theorem segmentKey_eq (hs : (pre ++ r).length < 2 ^ 63) :
    segmentKey (pre ++ r) pre.length = upTo '=' r := by
  rw [segmentKey, List.drop_left]
  rw [List.length_append] at hs
  by_cases h : '=' ∈ r
  · have hlt := upTo_length_lt h
    rw [find_mem h, wsub_of_le (by omega) (by omega), Nat.add_sub_cancel_left]
    calc r.take (upTo '=' r).length
        = (upTo '=' r ++ '=' :: past '=' r).take (upTo '=' r).length := by
          rw [upTo_append_past h]
      _ = upTo '=' r := List.take_left
  · -- without a hit the key is all there is
    rw [find_none h, wsub_of_le (by unfold npos; omega) (by unfold npos; omega),
      upTo_of_not_mem h]
    apply List.take_of_length_le
    unfold npos
    omega

theorem segmentEnd_eq (hs : (pre ++ r).length < 2 ^ 63) :
    segmentEnd (pre ++ r) pre.length = pre.length + (upTo '&' r).length := by
  rw [List.length_append] at hs
  unfold segmentEnd
  by_cases h : '&' ∈ r
  · have hlt := upTo_length_lt h
    rw [find_mem h, if_neg (by unfold npos; omega)]
  · rw [find_none h, if_pos rfl, upTo_of_not_mem h, List.length_append]

theorem segmentValue_eq (hs : (pre ++ r).length < 2 ^ 63) :
    segmentValue (pre ++ r) pre.length = (scanPair r).2 := by
  have hend := segmentEnd_eq hs
  have hparts : upTo '&' r ++ r.dropWhile (· ≠ '&') = r :=
    List.takeWhile_append_dropWhile
  rw [List.length_append] at hs
  simp only [segmentValue, scanPair, hend]
  by_cases h : '=' ∈ upTo '&' r
  · -- the first `=` lies in the segment
    have hr : '=' ∈ r := by
      rw [← hparts]
      exact List.mem_append_left _ h
    have hkey : upTo '=' r = upTo '=' (upTo '&' r) := by
      rw [← upTo_append_of_mem h, hparts]
    have hpast : past '=' r =
        past '=' (upTo '&' r) ++ r.dropWhile (· ≠ '&') := by
      rw [← past_append_of_mem h, hparts]
    have hlt := upTo_length_lt h
    have hlen := congrArg List.length (upTo_append_past h)
    rw [List.length_append, List.length_cons] at hlen
    have hle := (List.takeWhile_prefix (· ≠ '&') (l := r)).length_le
    have hle' : (upTo '&' r).length ≤ r.length := hle
    have hdrop : (pre ++ r).drop (pre.length + (upTo '=' r).length + 1) =
        past '=' r := by
      rw [Nat.add_assoc, ← List.drop_drop, List.drop_left, drop_upTo]
    rw [find_mem hr, if_pos ⟨by unfold npos; rw [hkey]; omega,
      by rw [hkey]; omega⟩, if_pos h, hdrop, hpast]
    apply List.take_left'
    rw [hkey]
    omega
  · rw [if_neg h, if_neg]
    rintro ⟨hfound, hlt⟩
    by_cases hr : '=' ∈ r
    · have hkey : upTo '=' r =
          upTo '&' r ++ upTo '=' (r.dropWhile (· ≠ '&')) := by
        rw [← upTo_append_of_not_mem h, hparts]
      rw [find_mem hr, hkey, List.length_append] at hlt
      omega
    · exact hfound (find_none hr)

end

theorem drop_skipMark {s : Text} {ops : ℕ} (h : ops < s.length) :
    s.drop (skipMark s ops) = dropMark (s.drop ops) := by
  have hcons : s.drop ops = charAt s ops :: s.drop (ops + 1) := by
    rw [List.drop_eq_getElem_cons h, charAt, List.getD_eq_getElem _ _ h]
  unfold skipMark
  split
  · next hmark =>
    rw [hcons, hmark]
    rfl
  · next hmark =>
    rw [dropMark_of_ne]
    rw [hcons, List.head?_cons]
    exact fun heq => hmark (Option.some.inj heq)

/-- An iteration inserts the pair of the text in front of it, and leaves what
lies behind its first segment. -/
theorem paramterStep_text {s : Text} {ops : ℕ} (m : ParamterMap)
    (hs : s.length < 2 ^ 63) (h : ops < s.length) :
    ∃ ops', paramterStep s ⟨ops, m⟩ =
        .next ⟨ops', insertPair m (scanPair (dropMark (s.drop ops)))⟩ ∧
      s.drop ops' = past '&' (dropMark (s.drop ops)) := by
  obtain ⟨-, hskip⟩ := skipMark_bounds h
  have hparts : s.take (skipMark s ops) ++ s.drop (skipMark s ops) = s :=
    List.take_append_drop _ _
  have hlen : (s.take (skipMark s ops)).length = skipMark s ops := by
    rw [List.length_take, Nat.min_eq_left hskip]
  have hfits : (s.take (skipMark s ops) ++ s.drop (skipMark s ops)).length <
    2 ^ 63 := hparts.symm ▸ hs
  have hkey := segmentKey_eq hfits
  have hvalue := segmentValue_eq hfits
  have hend := segmentEnd_eq hfits
  rw [hparts, hlen] at hkey hvalue hend
  refine ⟨segmentEnd s (skipMark s ops) + 1, ?_, ?_⟩
  · rw [paramterStep_next hs h, hkey, hvalue, drop_skipMark h]
    rfl
  · rw [hend, Nat.add_assoc, ← List.drop_drop, drop_upTo, drop_skipMark h]

/-- The loop inserts the pairs of the text it starts in front of. -/
theorem loop_scanPairs {s : Text} (hs : s.length < 2 ^ 63) :
    ∀ (n ops : ℕ) (m : ParamterMap), (s.drop ops).length ≤ n →
      loop (paramterStep s) (n + 1) ⟨ops, m⟩ =
        some (some ((scanPairs n (s.drop ops)).foldl insertPair m)) := by
  intro n
  induction n with
  | zero =>
      intro ops m hn
      have hend : s.length ≤ ops := by
        rw [List.length_drop] at hn
        omega
      rw [loop, paramterStep_end hend]
      rfl
  | succ n ih =>
      intro ops m hn
      rcases Nat.lt_or_ge ops s.length with hlt | hge
      · obtain ⟨ops', hstep, hdrop⟩ := paramterStep_text m hs hlt
        have hne : s.drop ops ≠ [] := by
          rw [Ne, List.drop_eq_nil_iff]
          omega
        rw [loop, hstep, scanPairs, if_neg hne, List.foldl_cons, ← hdrop]
        apply ih
        have hshorter := past_dropMark_length_lt hne
        rw [hdrop]
        omega
      · rw [loop, paramterStep_end hge, List.drop_of_length_le hge]
        rfl

/-- **What the scan returns**: the map of the pairs it finds, whatever the
text is. -/
theorem parserQueryParamter_eq {s : Text} (hs : s.length < 2 ^ 63) :
    parserQueryParamter s =
      some (some ((scanPairs s.length s).foldl insertPair ∅)) := by
  unfold parserQueryParamter
  split
  · next hempty =>
    subst hempty
    rfl
  · exact loop_scanPairs hs s.length 0 ∅ (Nat.le_refl _)

/-- In front of the first segment the mark of the query is dropped. -/
theorem parserQueryParamter_mark {q : Text}
    (hfits : ('?' :: q).length < 2 ^ 63) :
    parserQueryParamter ('?' :: q) =
      some (some ((scanPair q :: scanPairs q.length (past '&' q)).foldl
        insertPair ∅)) :=
  parserQueryParamter_eq hfits

theorem parserQueryParamter_returns {s : Text} (hs : s.length < 2 ^ 63) :
    ∃ m, parserQueryParamter s = some (some m) :=
  ⟨_, parserQueryParamter_eq hs⟩

/-! ## Joined pairs -/

def pairText (kv : Text × Text) : Text := kv.1 ++ '=' :: kv.2

/-- The pairs as `key=value`, joined by `&`. -/
def joinPairs : List (Text × Text) → Text
  | [] => []
  | [kv] => pairText kv
  | kv :: kv' :: rest => pairText kv ++ '&' :: joinPairs (kv' :: rest)

/-- The characters that keys and values leave to the separators. -/
def PairAllowed (kv : Text × Text) : Prop :=
  '=' ∉ kv.1 ∧ '&' ∉ kv.1 ∧ kv.1.head? ≠ some '?' ∧ '&' ∉ kv.2

section

variable {kv : Text × Text} {tail : Text}

theorem PairAllowed.amp (h : PairAllowed kv) : '&' ∉ pairText kv := by
  obtain ⟨-, hkey, -, hvalue⟩ := h
  simp [pairText, hkey, hvalue]

/-- A pair does not start with the mark that an iteration would drop. -/
theorem PairAllowed.dropMark (h : PairAllowed kv) :
    dropMark (pairText kv ++ tail) = pairText kv ++ tail := by
  apply dropMark_of_ne
  obtain ⟨key, value⟩ := kv
  obtain ⟨-, -, hmark, -⟩ := h
  cases key with
  | nil => simp [pairText]
  | cons c key => simpa [pairText] using hmark

/-- An iteration in front of a pair inserts that pair. -/
theorem PairAllowed.scanPair (h : PairAllowed kv)
    (htail : upTo '&' (pairText kv ++ tail) = pairText kv) :
    scanPair (pairText kv ++ tail) = kv := by
  obtain ⟨hkey, -, -, -⟩ := h
  have hmem : '=' ∈ pairText kv := by simp [pairText]
  have hfront : upTo '=' (pairText kv ++ tail) = kv.1 := by
    rw [upTo_append_of_mem hmem, pairText, upTo_token hkey]
  have hvalue : past '=' (pairText kv) = kv.2 := by
    rw [pairText, past_token hkey]
  unfold Mtasc.scanPair
  rw [hfront, htail, if_pos hmem, hvalue]

end

theorem pairText_ne_nil (kv : Text × Text) : pairText kv ≠ [] := by
  simp [pairText]

/-- Joined pairs, cut at the first `&`: the first pair, and the others. -/
theorem joinPairs_cons {kv : Text × Text} (h : PairAllowed kv)
    (rest : List (Text × Text)) :
    ∃ tail, joinPairs (kv :: rest) = pairText kv ++ tail ∧
      upTo '&' (pairText kv ++ tail) = pairText kv ∧
      past '&' (pairText kv ++ tail) = joinPairs rest := by
  cases rest with
  | nil =>
      refine ⟨[], (List.append_nil _).symm, ?_, ?_⟩
      · rw [List.append_nil, upTo_of_not_mem h.amp]
      · rw [List.append_nil, past_of_not_mem h.amp]
        rfl
  | cons kv' rest =>
      exact ⟨'&' :: joinPairs (kv' :: rest), rfl, upTo_token h.amp,
        past_token h.amp⟩

/-- The scan of joined pairs finds the pairs, one iteration each. -/
theorem scanPairs_joinPairs {pairs : List (Text × Text)}
    (hallowed : ∀ kv ∈ pairs, PairAllowed kv) :
    ∀ {n : ℕ}, (joinPairs pairs).length ≤ n →
      scanPairs n (joinPairs pairs) = pairs := by
  induction pairs with
  | nil =>
      intro n _
      cases n with
      | zero => rfl
      | succ n => rfl
  | cons kv rest ih =>
      intro n hn
      have hkv := hallowed kv List.mem_cons_self
      have hrest : ∀ p ∈ rest, PairAllowed p := fun p hp =>
        hallowed p (List.mem_cons_of_mem _ hp)
      obtain ⟨tail, hjoin, hfront, hpast⟩ := joinPairs_cons hkv rest
      have hne : pairText kv ++ tail ≠ [] :=
        List.append_ne_nil_of_left_ne_nil (pairText_ne_nil kv) tail
      have hless := past_length_lt (c := '&') hne
      rw [hjoin] at hn ⊢
      rw [hpast] at hless
      cases n with
      | zero =>
          have hnil := List.length_eq_zero_iff.mp (Nat.le_zero.mp hn)
          exact absurd hnil hne
      | succ n =>
          rw [scanPairs, if_neg hne, hkv.dropMark, hkv.scanPair hfront, hpast,
            ih hrest (by omega)]

/-- **The scan of an encoded query** inserts the pairs in their order. -/
theorem parserQueryParamter_joinPairs {pairs : List (Text × Text)}
    (hne : pairs ≠ []) (hallowed : ∀ kv ∈ pairs, PairAllowed kv)
    (hfits : ('?' :: joinPairs pairs).length < 2 ^ 63) :
    parserQueryParamter ('?' :: joinPairs pairs) =
      some (some (pairs.foldl insertPair ∅)) := by
  obtain ⟨kv, rest, rfl⟩ := List.exists_cons_of_ne_nil hne
  have hkv := hallowed kv List.mem_cons_self
  have hrest : ∀ p ∈ rest, PairAllowed p := fun p hp =>
    hallowed p (List.mem_cons_of_mem _ hp)
  obtain ⟨tail, hjoin, hfront, hpast⟩ := joinPairs_cons hkv rest
  have hlen : (joinPairs rest).length ≤ (joinPairs (kv :: rest)).length := by
    rw [← hpast, ← hjoin]
    exact past_length_le
  rw [parserQueryParamter_mark hfits, hjoin, hkv.scanPair hfront, hpast,
    ← hjoin, scanPairs_joinPairs hrest hlen]

/-! ## The map -/

theorem mem_foldl_insertPair {k : Text} {pairs : List (Text × Text)}
    {m : ParamterMap} :
    k ∈ pairs.foldl insertPair m ↔ (∃ kv ∈ pairs, kv.1 = k) ∨ k ∈ m := by
  induction pairs generalizing m with
  | nil => simp
  | cons kv pairs ih =>
      rw [List.foldl_cons, ih, insertPair, Finmap.mem_insert, ← or_assoc,
        List.exists_mem_cons_iff, or_comm (a := kv.1 = k), eq_comm]

/-- In the map of a list of pairs a key has the value of its last occurrence;
no other key occurs. -/
theorem lookup_foldl_insertPair (k : Text) : ∀ (pairs : List (Text × Text))
    (m : ParamterMap), (pairs.foldl insertPair m).lookup k =
      (pairs.reverse.lookup k).or (m.lookup k)
  | [], m => by simp
  | kv :: pairs, m => by
      rw [List.foldl_cons, lookup_foldl_insertPair k pairs, List.reverse_cons,
        List.lookup_append, Option.or_assoc]
      congr 1
      by_cases hk : k = kv.1
      · subst hk
        simp [insertPair, Finmap.lookup_insert, List.lookup]
      · have hbeq : (k == kv.1) = false := beq_eq_false_iff_ne.mpr hk
        simp [insertPair, Finmap.lookup_insert_of_ne _ hk, List.lookup, hbeq]

end Mtasc
