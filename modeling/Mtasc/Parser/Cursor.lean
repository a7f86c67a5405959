import Mtasc.Parser.Agreement

/-!
# Where the cursors of the parsers go

`Access` is what one iteration touches: the cursor, the indices of the
characters it reads, and the substrings it takes. The test of the sign looks
at two characters and skips three, so the one string on which a cursor gets
past the end is the string that ends with its first `:/`; on every other one
the cursor stays in the string, by an invariant for each state.
-/

namespace Mtasc

open Lib

/-! ## The first `:/` -/

/-- The string ends with its first `:/`. -/
def EndsInSign (s : Text) : Prop := ∃ a, cut [':', '/'] s = some (a, [])

/-- Unless the string ends there, the first `:/` leaves room for the three
characters that are skipped. -/
theorem sign_room {s : Text} (h : ¬ EndsInSign s) :
    firstIn (signAt s) 0 s.length = s.length ∨
      firstIn (signAt s) 0 s.length + 3 ≤ s.length := by
  cases hcut : cut [':', '/'] s with
  | none => exact Or.inl (firstIn_sign_of_none hcut)
  | some p =>
      obtain ⟨a, b⟩ := p
      right
      rw [firstIn_sign_of_cut hcut]
      cases b with
      | nil => exact absurd ⟨a, hcut⟩ h
      | cons c b =>
          rw [(cut_some hcut).1]
          simp only [List.length_append, List.length_cons, List.length_nil]
          omega

theorem authority_truncated {s : Text} (h : EndsInSign s) :
    authority s = .truncated := by
  obtain ⟨a, hcut⟩ := h
  have hlen : s.length = a.length + 2 := by
    rw [(cut_some hcut).1]
    simp
  simp only [authority, firstIn_sign_of_cut hcut]
  rw [if_neg (by omega), if_pos (by omega)]

/-! ## What an iteration touches -/

structure Access where
  cursor : ℕ
  reads : List ℕ := []
  /-- Start and end of the substrings. -/
  substrings : List (ℕ × ℕ) := []

/-- Every read is of a character of `s` or of its terminating NUL, and every
substring has a length of zero or more and lies in `s`. -/
structure Access.Inside (s : Text) (a : Access) : Prop where
  cursor_le : a.cursor ≤ s.length
  reads_le : ∀ i ∈ a.reads, i ≤ s.length
  substrings_le : ∀ t ∈ a.substrings, t.1 ≤ t.2 ∧ t.2 ≤ s.length

/-- The test of the sign: the second character is read behind a colon only. -/
def signReads (s : Text) (pos : ℕ) : List ℕ :=
  if charAt s pos = ':' then [pos, pos + 1] else [pos]

/-- What an iteration of `parserBasicUrl` touches. -/
def basicAccess (s : Text) (c : BasicCursor) : Access :=
  if c.pos = s.length then { cursor := c.pos }
  else
    match c.state with
    | .sign =>
        { cursor := c.pos
          reads := signReads s c.pos
          substrings := if signAt s c.pos then [(c.start, c.pos)] else [] }
    | .host =>
        { cursor := c.pos
          reads := [c.pos]
          substrings := if hostEndAt s c.pos then [(c.start, c.pos)] else [] }
    | .port =>
        { cursor := c.pos
          reads := [c.pos]
          substrings := if slashAt s c.pos then [(c.start, c.pos)] else [] }
    | .path =>
        { cursor := c.pos
          reads := [c.pos]
          substrings := [(c.start, s.length)] }
    | .finish => { cursor := c.pos, reads := [c.pos] }

/-- What an iteration of `parserQueryUrl` touches; the inner loop reads up to
the end of the query. -/
def queryAccess (s : Text) (c : QueryCursor) : Access :=
  if c.ops = s.length then { cursor := c.ops }
  else
    match c.state with
    | .sign =>
        { cursor := c.ops
          reads := signReads s c.ops
          substrings := if signAt s c.ops then [(c.start, c.ops)] else [] }
    | .host =>
        { cursor := c.ops
          reads := [c.ops]
          substrings := if hostEndAt s c.ops then [(c.start, c.ops)] else [] }
    | .port =>
        { cursor := c.ops
          reads := [c.ops]
          substrings := if slashAt s c.ops then [(c.start, c.ops)] else [] }
    | .query =>
        let queryEnd := firstIn (hashAt s) c.ops s.length
        if queryAt s c.ops then
          { cursor := c.ops
            reads := c.ops ::
              List.range' c.ops (min (queryEnd + 1) s.length - c.ops)
            substrings := [(c.ops, queryEnd), (c.start, c.ops)] }
        else { cursor := c.ops, reads := [c.ops] }
    | .finish => { cursor := c.ops, reads := [c.ops] }

/-- A parser call ends: with a result or with an exception. -/
def ParseEnd.Completes {ρ : Type} : ParseEnd ρ → Prop
  | .returned _ => True
  | .threw _ => True
  | _ => False

/-- Every iteration of `parserBasicUrl` stays inside the string, and the loop
ends. -/
def UrlHttpParser.BasicSafe (p : UrlHttpParser) : Prop :=
  (∀ n c, after (basicStep p.parserChar) n ⟨.sign, 0, 0, {}⟩ = some c →
    (basicAccess p.parserChar c).Inside p.parserChar) ∧
  p.parserBasicUrl.Completes

/-- Every iteration of `parserQueryUrl` stays inside the string, and the loop
ends. -/
def UrlHttpParser.QuerySafe (p : UrlHttpParser) : Prop :=
  (∀ n c, after (queryStep p.parserChar) n ⟨.sign, 0, 0, {}⟩ = some c →
    (queryAccess p.parserChar c).Inside p.parserChar) ∧
  p.parserQueryUrl.Completes

/-! ## The invariant of `parserBasicUrl` -/

/-- The token in front of the cursor lies in the string, and while the sign is
looked for, the cursor is not behind it. -/
structure BasicInside (s : Text) (c : BasicCursor) : Prop where
  start_le : c.start ≤ c.pos
  pos_le : c.pos ≤ s.length
  sign_le : c.state = .sign → c.pos ≤ firstIn (signAt s) 0 s.length

structure QueryInside (s : Text) (c : QueryCursor) : Prop where
  start_le : c.start ≤ c.ops
  ops_le : c.ops ≤ s.length
  sign_le : c.state = .sign → c.ops ≤ firstIn (signAt s) 0 s.length

section

variable {s : Text}

/-- The two invariants, up to the slash. -/
structure FrontInside (s : Text) (x : FrontPos) : Prop where
  start_le : x.start ≤ x.pos
  pos_le : x.pos ≤ s.length
  sign_le : x.state = .sign → x.pos ≤ firstIn (signAt s) 0 s.length

variable {x y : FrontPos}

theorem basicInside_iff {c : BasicCursor} (hc : c.front? = some x) :
    BasicInside s c ↔ FrontInside s x := by
  obtain ⟨hpos, hstart, hstate⟩ := BasicCursor.fields_of_front hc
  constructor
  · rintro ⟨hstart', hpos', hsign⟩
    rw [← hpos] at hstart' hpos' hsign
    rw [← hstart] at hstart'
    exact ⟨hstart', hpos', fun h => hsign (hstate.mp h)⟩
  · rintro ⟨hstart', hpos', hsign⟩
    rw [hpos] at hstart' hpos' hsign
    rw [hstart] at hstart'
    exact ⟨hstart', hpos', fun h => hsign (hstate.mpr h)⟩

theorem queryInside_iff {c : QueryCursor} (hc : c.front? = some x) :
    QueryInside s c ↔ FrontInside s x := by
  obtain ⟨hpos, hstart, hstate⟩ := QueryCursor.fields_of_front hc
  constructor
  · rintro ⟨hstart', hpos', hsign⟩
    rw [← hpos] at hstart' hpos' hsign
    rw [← hstart] at hstart'
    exact ⟨hstart', hpos', fun h => hsign (hstate.mp h)⟩
  · rintro ⟨hstart', hpos', hsign⟩
    rw [hpos] at hstart' hpos' hsign
    rw [hstart] at hstart'
    exact ⟨hstart', hpos', fun h => hsign (hstate.mpr h)⟩

theorem frontNext_inside (hs : ¬ EndsInSign s) (hlt : x.pos < s.length)
    (hx : FrontInside s x) (h : frontNext s x = some y) : FrontInside s y := by
  obtain ⟨state, pos, start⟩ := x
  obtain ⟨hstart, hpos, hsign⟩ := hx
  dsimp only at hstart hpos hsign hlt
  cases state with
  | sign =>
      have hle := hsign rfl
      simp only [frontNext] at h
      split at h
      · next hfound =>
        cases h
        have hfirst := firstIn_eq_of_hit (Nat.zero_le _) hle hfound
        have hroom : pos + 3 ≤ s.length := by
          rcases sign_room hs with hend | hroom <;> omega
        exact ⟨Nat.le_refl _, hroom, fun hst => by cases hst⟩
      · next hmiss =>
        cases h
        exact ⟨Nat.le_succ_of_le hstart, hlt,
          fun _ => succ_le_firstIn hlt hle (Bool.eq_false_iff.mpr hmiss)⟩
  | host =>
      simp only [frontNext] at h
      split at h
      · cases h
        exact ⟨Nat.le_refl _, hlt, fun hst => by cases hst⟩
      · split at h
        · cases h
        · cases h
          exact ⟨Nat.le_succ_of_le hstart, hlt, fun hst => by cases hst⟩
  | port =>
      simp only [frontNext] at h
      split at h
      · cases h
      · cases h
        exact ⟨Nat.le_succ_of_le hstart, hlt, fun hst => by cases hst⟩

theorem basicStep_keepsInside (hs : ¬ EndsInSign s) (c c' : BasicCursor)
    (hI : BasicInside s c) (h : basicStep s c = .next c') :
    BasicInside s c' := by
  cases hc : c.front? with
  | some x =>
      obtain ⟨hlt, hnext, hpath⟩ := basicStep_front h hc
      have hx := (basicInside_iff hc).mp hI
      cases hy : frontNext s x with
      | some y =>
          apply (basicInside_iff (hnext.trans hy)).mpr
          exact frontNext_inside hs hlt hx hy
      | none =>
          obtain ⟨-, hstate, hstart, hpos⟩ := hpath hy
          refine ⟨?_, ?_, ?_⟩
          · rw [hstart, hpos]
          · rw [hpos]
            exact hx.pos_le
          · intro hsign
            rw [hstate] at hsign
            cases hsign
  | none =>
      obtain ⟨hstate, hstart, hpos⟩ := basicStep_behind h hc
      refine ⟨?_, ?_, ?_⟩
      · rw [hstart, hpos]
        exact hI.start_le
      · rw [hpos]
        exact hI.pos_le
      · intro hsign
        rw [hstate] at hsign
        cases hsign

theorem queryStep_keepsInside (hs : ¬ EndsInSign s) (c c' : QueryCursor)
    (hI : QueryInside s c) (h : queryStep s c = .next c') :
    QueryInside s c' := by
  cases hc : c.front? with
  | some x =>
      obtain ⟨hlt, hnext, hquery⟩ := queryStep_front h hc
      have hx := (queryInside_iff hc).mp hI
      cases hy : frontNext s x with
      | some y =>
          apply (queryInside_iff (hnext.trans hy)).mpr
          exact frontNext_inside hs hlt hx hy
      | none =>
          obtain ⟨-, hstate, hstart, hge, hle⟩ := hquery hy
          refine ⟨?_, Nat.le_trans hle hlt, ?_⟩
          · rw [hstart]
            exact hge
          · intro hsign
            rw [hstate] at hsign
            cases hsign
  | none =>
      obtain ⟨-, hlt, hstart, hend | hskip⟩ := queryStep_behind h hc
      · obtain ⟨-, hstate, hops, -⟩ := hend
        refine ⟨?_, ?_, ?_⟩
        · rw [hstart, hops]
          exact hI.start_le
        · rw [hops]
          exact hI.ops_le
        · intro hsign
          rw [hstate] at hsign
          cases hsign
      · obtain ⟨hstate, hops⟩ := hskip
        refine ⟨?_, ?_, ?_⟩
        · rw [hstart, hops]
          exact Nat.le_succ_of_le hI.start_le
        · rw [hops]
          exact hlt
        · intro hsign
          rw [hstate] at hsign
          cases hsign

/-! ## Inside the string -/

theorem signReads_le {pos : ℕ} (hlt : pos < s.length) :
    ∀ i ∈ signReads s pos, i ≤ s.length := by
  intro i hi
  unfold signReads at hi
  split at hi
  · rcases List.mem_cons.mp hi with rfl | hi
    · exact Nat.le_of_lt hlt
    · rw [List.mem_singleton.mp hi]
      exact hlt
  · rw [List.mem_singleton.mp hi]
    exact Nat.le_of_lt hlt

/-- An iteration that takes one token at most. -/
theorem access_inside {pos start : ℕ} {reads : List ℕ} {b : Bool}
    (hstart : start ≤ pos) (hlt : pos < s.length)
    (hreads : ∀ i ∈ reads, i ≤ s.length) :
    Access.Inside s ⟨pos, reads, if b then [(start, pos)] else []⟩ := by
  refine ⟨Nat.le_of_lt hlt, hreads, fun t ht => ?_⟩
  cases b with
  | false => exact absurd ht List.not_mem_nil
  | true =>
      rw [List.mem_singleton.mp ht]
      exact ⟨hstart, Nat.le_of_lt hlt⟩

theorem single_le {pos : ℕ} (hlt : pos < s.length) :
    ∀ i ∈ [pos], i ≤ s.length := by
  intro i hi
  rw [List.mem_singleton.mp hi]
  exact Nat.le_of_lt hlt

theorem BasicInside.access {c : BasicCursor} (h : BasicInside s c) :
    (basicAccess s c).Inside s := by
  obtain ⟨state, pos, start, r⟩ := c
  obtain ⟨hstart, hpos, -⟩ := h
  dsimp only at hstart hpos
  unfold basicAccess
  split
  · exact ⟨hpos, fun i hi => absurd hi List.not_mem_nil,
      fun t ht => absurd ht List.not_mem_nil⟩
  · next hend =>
    have hlt : pos < s.length := Nat.lt_of_le_of_ne hpos hend
    cases state with
    | sign => exact access_inside hstart hlt (signReads_le hlt)
    | host => exact access_inside hstart hlt (single_le hlt)
    | port => exact access_inside hstart hlt (single_le hlt)
    | path =>
        refine ⟨hpos, single_le hlt, fun t ht => ?_⟩
        rw [List.mem_singleton.mp ht]
        exact ⟨Nat.le_trans hstart hpos, Nat.le_refl _⟩
    | finish => exact access_inside (b := false) hstart hlt (single_le hlt)

theorem QueryInside.access {c : QueryCursor} (h : QueryInside s c) :
    (queryAccess s c).Inside s := by
  obtain ⟨state, ops, start, r⟩ := c
  obtain ⟨hstart, hops, -⟩ := h
  dsimp only at hstart hops
  unfold queryAccess
  split
  · exact ⟨hops, fun i hi => absurd hi List.not_mem_nil,
      fun t ht => absurd ht List.not_mem_nil⟩
  · next hend =>
    have hlt : ops < s.length := Nat.lt_of_le_of_ne hops hend
    cases state with
    | sign => exact access_inside hstart hlt (signReads_le hlt)
    | host => exact access_inside hstart hlt (single_le hlt)
    | port => exact access_inside hstart hlt (single_le hlt)
    | query =>
        have hge : ops ≤ firstIn (hashAt s) ops s.length := le_firstIn
        have hle := firstIn_le (P := hashAt s) hops
        dsimp only
        split
        · refine ⟨hops, fun i hi => ?_, fun t ht => ?_⟩
          · rcases List.mem_cons.mp hi with rfl | hi
            · exact hops
            · have := (List.mem_range'_1.mp hi).2
              omega
          · rcases List.mem_cons.mp ht with rfl | ht
            · exact ⟨hge, hle⟩
            · rw [List.mem_singleton.mp ht]
              exact ⟨hstart, hops⟩
        · exact access_inside (b := false) hstart hlt (single_le hlt)
    | finish => exact access_inside (b := false) hstart hlt (single_le hlt)

end

/-! ## The loops -/

theorem portAuthority_ne_truncated (s : Text) (f : Front) (start : ℕ) :
    portAuthority s f start ≠ .truncated := by
  intro h
  simp only [portAuthority] at h
  split at h
  · cases h
  · cases hport : stoi (slice s start (firstIn (slashAt s) start s.length)) with
    | error e =>
        rw [hport] at h
        cases h
    | ok value =>
        rw [hport] at h
        cases h

theorem authority_ne_truncated {s : Text} (hs : ¬ EndsInSign s) :
    authority s ≠ .truncated := by
  intro h
  have hroom := sign_room hs
  simp only [authority] at h
  split at h
  · cases h
  split at h
  · omega
  simp only [hostAuthority] at h
  split at h
  · cases h
  split at h
  · exact portAuthority_ne_truncated _ _ _ h
  · cases h

/-- `parserBasicUrl` ends where the authority of its string is not cut off. -/
theorem parserBasicUrl_completes (p : UrlHttpParser) :
    p.parserBasicUrl.Completes ↔ authority p.parserChar ≠ .truncated := by
  rw [parserBasicUrl_eq]
  cases authority p.parserChar with
  | stopped f => exact iff_of_true trivial (by simp)
  | truncated => exact iff_of_false id (fun h => h rfl)
  | badPort e => exact iff_of_true trivial (by simp)
  | complete f slash => exact iff_of_true trivial (by simp)

theorem parserQueryUrl_completes (p : UrlHttpParser) :
    p.parserQueryUrl.Completes ↔ authority p.parserChar ≠ .truncated := by
  rw [parserQueryUrl_eq]
  cases hauth : authority p.parserChar with
  | stopped f => exact iff_of_true trivial (by simp)
  | truncated => exact iff_of_false id (fun h => h rfl)
  | badPort e => exact iff_of_true trivial (by simp)
  | complete f slash =>
      refine iff_of_true ?_ (by simp)
      show (queryFinish p.parserChar f slash).Completes
      rcases queryFinish_returns p.fits f (authority_complete hauth).1 with
        ⟨-, hq⟩ | ⟨-, m, hq⟩
      · rw [hq]
        trivial
      · rw [hq]
        trivial

/-- **When the parsers stay inside their string.** Both do, in every iteration,
and end, unless the string ends with its first `:/`. -/
theorem parsers_safe_iff (p : UrlHttpParser) :
    (p.BasicSafe ↔ ¬ EndsInSign p.parserChar) ∧
      (p.QuerySafe ↔ ¬ EndsInSign p.parserChar) := by
  constructor
  · constructor
    · rintro ⟨-, hends⟩ hsign
      exact (parserBasicUrl_completes p).mp hends (authority_truncated hsign)
    · intro hs
      refine ⟨fun n c hc => ?_,
        (parserBasicUrl_completes p).mpr (authority_ne_truncated hs)⟩
      have hinit : BasicInside p.parserChar ⟨.sign, 0, 0, {}⟩ :=
        ⟨Nat.le_refl _, Nat.zero_le _, fun _ => Nat.zero_le _⟩
      exact (after_invariant (basicStep_keepsInside hs) hinit hc).access
  · constructor
    · rintro ⟨-, hends⟩ hsign
      exact (parserQueryUrl_completes p).mp hends (authority_truncated hsign)
    · intro hs
      refine ⟨fun n c hc => ?_,
        (parserQueryUrl_completes p).mpr (authority_ne_truncated hs)⟩
      have hinit : QueryInside p.parserChar ⟨.sign, 0, 0, {}⟩ :=
        ⟨Nat.le_refl _, Nat.zero_le _, fun _ => Nat.zero_le _⟩
      exact (after_invariant (queryStep_keepsInside hs) hinit hc).access

/-- On `a:/` the cursor of either parser is set one past the end. -/
theorem parsers_leave_string :
    ¬ ∀ p : UrlHttpParser, p.BasicSafe ∧ p.QuerySafe := by
  intro hall
  have hsafe := hall (UrlHttpParser.mk "a:/".toList (by decide))
  have hbasic := hsafe.1.1 2 ⟨.host, 4, 4, { httpSign := "a".toList }⟩ rfl
  have hle := hbasic.cursor_le
  revert hle
  decide

end Mtasc
