import Mtasc.Parser.Front
import Mtasc.Parser.Paramter

/-!
# The two parsers agree

Both loops read the same authority and end in the same way on it. They part at
the slash: `parserBasicUrl` takes everything from there as path, while
`parserQueryUrl` cuts the same text at the first `?` or `#` and at the first
`#` behind it.
-/

namespace Mtasc

open Lib

/-- The same kind of end, and the same front when both return. -/
inductive SameEnd :
    ParseEnd BasicUrlParserResult → ParseEnd QueryUrlParserResult → Prop where
  | returned {r : BasicUrlParserResult} {q : QueryUrlParserResult}
      (sign : r.httpSign = q.httpSign) (host : r.addrsHost = q.addrsHost)
      (tls : r.isEnableTls = q.isEnableTls) (port : r.addrsPort = q.addrsPort) :
      SameEnd (.returned r) (.returned q)
  | threw (e : StoiError) : SameEnd (.threw e) (.threw e)
  | pastEnd : SameEnd .pastEnd .pastEnd

/-- `parserQueryUrl` gets to `M_PARSER_END`. -/
def UrlHttpParser.ReachesEnd (p : UrlHttpParser) : Prop :=
  ∃ n c, after (queryStep p.parserChar) n ⟨.sign, 0, 0, {}⟩ = some c ∧
    c.state = .finish

/-- How the whole path of a URL is cut into basic path, query and rest. -/
structure PathSplit (path basicPath queryPath : Text) : Prop where
  joined : ∃ rest, path = basicPath ++ queryPath ++ rest ∧
    (rest = [] ∨ rest.head? = some '#')
  slash : basicPath.head? = some '/'
  basic_mark : '?' ∉ basicPath
  basic_hash : '#' ∉ basicPath
  query_hash : '#' ∉ queryPath

/-! ## The slash of an authority -/

theorem mem_slice {s : Text} {a b : ℕ} {c : Char} (hb : b ≤ s.length)
    (h : c ∈ slice s a b) : ∃ i, a ≤ i ∧ i < b ∧ charAt s i = c := by
  obtain ⟨j, hj, rfl⟩ := List.getElem_of_mem h
  rw [slice_length hb] at hj
  refine ⟨a + j, by omega, by omega, ?_⟩
  rw [charAt, List.getD_eq_getElem _ _ (by omega)]
  simp [slice]

theorem head_drop {s : Text} {i : ℕ} (h : i < s.length) :
    (s.drop i).head? = some (charAt s i) := by
  rw [List.head?_drop, charAt, List.getD_eq_getElem _ _ h,
    List.getElem?_eq_getElem h]

theorem portAuthority_complete {s : Text} {f g : Front} {start slash : ℕ}
    (hs : start ≤ s.length) (h : portAuthority s f start = .complete g slash) :
    slash < s.length ∧ charAt s slash = '/' := by
  have hle := firstIn_le (P := slashAt s) hs
  simp only [portAuthority] at h
  split at h
  · cases h
  · next hk =>
    have hlt : firstIn (slashAt s) start s.length < s.length := by omega
    cases hport : stoi (slice s start (firstIn (slashAt s) start s.length)) with
    | error e =>
        rw [hport] at h
        cases h
    | ok value =>
        rw [hport] at h
        cases h
        exact ⟨hlt, by simpa [slashAt] using firstIn_hit hlt⟩

theorem hostAuthority_complete {s : Text} {f g : Front} {start slash : ℕ}
    (hs : start ≤ s.length) (h : hostAuthority s f start = .complete g slash) :
    slash < s.length ∧ charAt s slash = '/' := by
  have hle := firstIn_le (P := hostEndAt s) hs
  simp only [hostAuthority] at h
  split at h
  · cases h
  · next hj =>
    have hlt : firstIn (hostEndAt s) start s.length < s.length := by omega
    split at h
    · exact portAuthority_complete (by omega) h
    · next hcolon =>
      have hch := firstIn_hit hlt
      cases h
      refine ⟨hlt, ?_⟩
      simp only [hostEndAt, Bool.or_eq_true, beq_iff_eq] at hch
      exact hch.resolve_left hcolon

theorem authority_complete {s : Text} {g : Front} {slash : ℕ}
    (h : authority s = .complete g slash) :
    slash < s.length ∧ charAt s slash = '/' := by
  simp only [authority] at h
  split at h
  · cases h
  · split at h
    · cases h
    · exact hostAuthority_complete (by omega) h

/-! ## The two ends -/

theorem finishQuery_returns {r : QueryUrlParserResult}
    (h : r.queryPath.length < 2 ^ 63) :
    ∃ m, finishQuery r = .returned { r with queryParamterMap := m } := by
  obtain ⟨m, hm⟩ := parserQueryParamter_returns h
  exact ⟨m, by rw [finishQuery, hm]⟩

/-- Where `parserQueryUrl` starts its query, given the slash. -/
def queryStart (s : Text) (slash : ℕ) : ℕ :=
  firstIn (queryAt s) slash s.length

def queryEnd (s : Text) (slash : ℕ) : ℕ :=
  firstIn (hashAt s) (queryStart s slash) s.length

/-- From the slash on `parserQueryUrl` returns the fields of the front; what
it adds are the two parts of the path, when there is a `?` or `#`. -/
theorem queryFinish_returns {s : Text} (hs : s.length < 2 ^ 63) (f : Front)
    {slash : ℕ} (hslash : slash < s.length) :
    (queryStart s slash = s.length ∧
      queryFinish s f slash = .returned f.query) ∨
    (queryStart s slash < s.length ∧ ∃ m,
      queryFinish s f slash = .returned { f.query with
        basicPath := slice s slash (queryStart s slash)
        queryPath := slice s (queryStart s slash) (queryEnd s slash)
        queryParamterMap := m }) := by
  have hle : queryStart s slash ≤ s.length := firstIn_le (Nat.le_of_lt hslash)
  have hend : queryEnd s slash ≤ s.length := firstIn_le hle
  rcases Nat.eq_or_lt_of_le hle with heq | hlt
  · refine Or.inl ⟨heq, ?_⟩
    exact if_pos heq
  · have hlen : (slice s (queryStart s slash) (queryEnd s slash)).length <
        2 ^ 63 := by
      rw [slice_length hend]
      omega
    obtain ⟨m, hm⟩ := finishQuery_returns (r := { f.query with
      basicPath := slice s slash (queryStart s slash)
      queryPath := slice s (queryStart s slash) (queryEnd s slash) }) hlen
    refine Or.inr ⟨hlt, m, ?_⟩
    rw [← hm, queryFinish, queryFinishFrom]
    exact if_neg (Nat.ne_of_lt hlt)

theorem pathSplit_slash {s : Text} {slash : ℕ} (hslash : slash < s.length)
    (hch : charAt s slash = '/') (hq : queryStart s slash < s.length) :
    PathSplit (s.drop slash) (slice s slash (queryStart s slash))
      (slice s (queryStart s slash) (queryEnd s slash)) := by
  have hge : slash ≤ queryStart s slash := le_firstIn
  have hge' : queryStart s slash ≤ queryEnd s slash := le_firstIn
  have hhit : queryAt s (queryStart s slash) = true := firstIn_hit hq
  have hend : queryEnd s slash ≤ s.length := firstIn_le (Nat.le_of_lt hq)
  have hne : slash < queryStart s slash := by
    rcases Nat.eq_or_lt_of_le hge with heq | hlt
    · rw [← heq, queryAt, hch] at hhit
      exact absurd hhit (by decide)
    · exact hlt
  have hbefore : ∀ c ∈ slice s slash (queryStart s slash),
      c ≠ '?' ∧ c ≠ '#' := by
    intro c hc
    obtain ⟨i, hi, hlt, rfl⟩ := mem_slice (Nat.le_of_lt hq) hc
    have := firstIn_before (P := queryAt s) hi hlt
    simpa [queryAt] using this
  refine ⟨⟨s.drop (queryEnd s slash), ?_, ?_⟩, ?_, ?_, ?_, ?_⟩
  · rw [List.append_assoc, slice_append_drop hge',
      slice_append_drop hge]
  · rcases Nat.eq_or_lt_of_le hend with heq | hlt
    · left
      rw [heq, List.drop_length]
    · right
      have hhash : hashAt s (queryEnd s slash) = true := firstIn_hit hlt
      rw [head_drop hlt]
      simpa [hashAt] using hhash
  · rw [slice, List.head?_take, if_neg (by omega), head_drop hslash, hch]
  · exact fun h => (hbefore _ h).1 rfl
  · exact fun h => (hbefore _ h).2 rfl
  · intro h
    obtain ⟨i, hi, hlt, hi'⟩ := mem_slice hend h
    have := firstIn_before (P := hashAt s) hi hlt
    simp [hashAt, hi'] at this

/-! ## Which runs get to `M_PARSER_END` -/

/-- In the query state the token starts at a slash; at the end it is not
empty. -/
def QueryInv (s : Text) (c : QueryCursor) : Prop :=
  (c.state = .query → c.start ≤ c.ops ∧ c.start < s.length ∧
    charAt s c.start = '/') ∧
  (c.state = .finish → c.ops < s.length ∧ c.result.basicPath ≠ [])

theorem queryInv_other {s : Text} {c : QueryCursor} (hq : c.state ≠ .query)
    (hf : c.state ≠ .finish) : QueryInv s c :=
  ⟨fun h => absurd h hq, fun h => absurd h hf⟩

theorem queryInv_query {s : Text} {c : QueryCursor} (hq : c.state = .query)
    (hle : c.start ≤ c.ops) (hlt : c.start < s.length)
    (hch : charAt s c.start = '/') : QueryInv s c :=
  ⟨fun _ => ⟨hle, hlt, hch⟩, fun h => by
    rw [hq] at h
    cases h⟩

theorem queryStep_inv {s : Text} (c c' : QueryCursor) (hI : QueryInv s c)
    (h : queryStep s c = .next c') : QueryInv s c' := by
  cases hc : c.front? with
  | some x =>
      obtain ⟨hlt, hnext, hquery⟩ := queryStep_front h hc
      cases hy : frontNext s x with
      | some y =>
          obtain ⟨hne, hne'⟩ := QueryCursor.ne_of_front (hnext.trans hy)
          exact queryInv_other hne hne'
      | none =>
          obtain ⟨hch, hstate, hstart, hge, -⟩ := hquery hy
          rw [← hstart] at hlt hch hge
          exact queryInv_query hstate hge hlt hch
  | none =>
      obtain ⟨hquery, hlt, hstart, hend | hskip⟩ := queryStep_behind h hc
      · obtain ⟨hmark, hstate, hops, hpath⟩ := hend
        obtain ⟨hle, -, hch⟩ := hI.1 hquery
        -- the path starts with a slash, which is no mark
        have hne : c.start ≠ c.ops := by
          intro heq
          rw [queryAt, ← heq, hch] at hmark
          exact absurd hmark (by decide)
        have hlen := slice_length (v := s) (a := c.start) (Nat.le_of_lt hlt)
        constructor
        · intro hq
          rw [hstate] at hq
          cases hq
        · intro _
          refine ⟨hops ▸ hlt, fun hempty => ?_⟩
          rw [← hpath, hempty, List.length_nil] at hlen
          omega
      · obtain ⟨hstate, hops⟩ := hskip
        obtain ⟨hle, hslash, hch⟩ := hI.1 hquery
        rw [← hstart] at hle hslash hch
        apply queryInv_query hstate _ hslash hch
        rw [hops]
        exact Nat.le_succ_of_le hle

theorem finishQuery_cases (r : QueryUrlParserResult) :
    (∃ m, finishQuery r = .returned { r with queryParamterMap := m }) ∨
      finishQuery r = .terminated ∨ finishQuery r = .running := by
  unfold finishQuery
  cases parserQueryParamter r.queryPath with
  | none => exact Or.inr (Or.inr rfl)
  | some o =>
      cases o with
      | none => exact Or.inr (Or.inl rfl)
      | some m => exact Or.inl ⟨m, rfl⟩

/-- A run that gets to `M_PARSER_END` can only return with a basic path. -/
theorem reachesEnd_basicPath {p : UrlHttpParser} (h : p.ReachesEnd) :
    (∃ q, p.parserQueryUrl = .returned q ∧ q.basicPath ≠ []) ∨
      p.parserQueryUrl = .terminated ∨ p.parserQueryUrl = .running := by
  obtain ⟨n, c, hc, hstate⟩ := h
  have hinit : QueryInv p.parserChar ⟨.sign, 0, 0, {}⟩ :=
    ⟨fun hq => (nomatch hq), fun hq => (nomatch hq)⟩
  obtain ⟨hin, hne⟩ :=
    (after_invariant (queryStep_inv (s := p.parserChar)) hinit hc).2 hstate
  obtain ⟨state, ops, start, r⟩ := c
  cases hstate
  have hrun := (after_reaches hc).returns (queryStep_finish hin)
    (Nat.lt_succ_self n)
  have hsame : (queryMachine p.parserChar).outcome (authority p.parserChar) =
      finishQuery r := loop_unique (queryMachine p.parserChar).run hrun
  rw [parserQueryUrl_eq, hsame]
  exact (finishQuery_cases r).imp (fun ⟨m, hm⟩ => ⟨_, hm, hne⟩) id

/-! ## Agreement -/

/-- **The two parsers agree** on every string: they end in the same way, with
the same front, and where `parserQueryUrl` gets to its end state, the path of
`parserBasicUrl` is its basic path, its query path and a fragment. -/
theorem parsers_agree (p : UrlHttpParser) :
    SameEnd p.parserBasicUrl p.parserQueryUrl ∧
    (p.ReachesEnd → ∃ r q, p.parserBasicUrl = .returned r ∧
      p.parserQueryUrl = .returned q ∧
      PathSplit r.addrsPath q.basicPath q.queryPath) := by
  have hend := reachesEnd_basicPath (p := p)
  rw [parserBasicUrl_eq]
  rw [parserQueryUrl_eq] at hend ⊢
  cases hauth : authority p.parserChar with
  | stopped f =>
      rw [hauth] at hend
      refine ⟨.returned rfl rfl rfl rfl, fun h => ?_⟩
      rcases hend h with ⟨q, hq, hne⟩ | hq | hq <;> cases hq
      exact absurd rfl hne
  | truncated =>
      rw [hauth] at hend
      refine ⟨.pastEnd, fun h => ?_⟩
      rcases hend h with ⟨q, hq, -⟩ | hq | hq <;> cases hq
  | badPort e =>
      rw [hauth] at hend
      refine ⟨.threw e, fun h => ?_⟩
      rcases hend h with ⟨q, hq, -⟩ | hq | hq <;> cases hq
  | complete f slash =>
      rw [hauth] at hend
      obtain ⟨hslash, hch⟩ := authority_complete hauth
      have hbasic : (basicMachine p.parserChar).outcome (.complete f slash) =
          .returned ⟨f.host, p.parserChar.drop slash, f.sign, f.port,
            f.isEnableTls⟩ := rfl
      have houtcome : (queryMachine p.parserChar).outcome (.complete f slash) =
          queryFinish p.parserChar f slash := rfl
      rw [hbasic]
      rw [houtcome] at hend ⊢
      rcases queryFinish_returns p.fits f hslash with ⟨-, hq⟩ | ⟨hlt, m, hq⟩
      · rw [hq] at hend ⊢
        refine ⟨.returned rfl rfl rfl rfl, fun h => ?_⟩
        rcases hend h with ⟨q, hq, hne⟩ | hq | hq <;> cases hq
        exact absurd rfl hne
      · rw [hq]
        exact ⟨.returned rfl rfl rfl rfl, fun _ =>
          ⟨_, _, rfl, rfl, pathSplit_slash hslash hch hlt⟩⟩

/-- The end state is reached, for one, on a URL with an empty query. -/
theorem parsers_agree_query : ∃ r q,
    (UrlHttpParser.mk "a://b/?#".toList (by decide)).parserBasicUrl =
      .returned r ∧
    (UrlHttpParser.mk "a://b/?#".toList (by decide)).parserQueryUrl =
      .returned q ∧
    PathSplit r.addrsPath q.basicPath q.queryPath :=
  (parsers_agree (UrlHttpParser.mk "a://b/?#".toList (by decide))).2
    ⟨5, ⟨.finish, 6, 5, { Front.query
      { sign := ['a'], isEnableTls := false, host := ['b'] } with
      basicPath := ['/'], queryPath := ['?'] }⟩, rfl, rfl⟩

end Mtasc
