import Mtasc.Parser.UrlParser

/-!
# What precedes the path of a URL

Both parsers read sign, host and port in the same way before they part at the
slash. `authority` says what that common front of a string is, by searches
for the separators and without a state machine.

`FrontMachine` collects what a parser loop has to do in its first three
states; `FrontMachine.run` then executes the loop once and for all. The two
parsers are instances, and `parserBasicUrl_eq` and `parserQueryUrl_eq` are
what the rest of the development knows about their loops.
-/

namespace Mtasc

open Lib

/-! ## The front of a string -/

/-- The separator after the sign, as the parsers look for it: `:/`. -/
def signAt (s : Text) (i : ℕ) : Bool :=
  charAt s i == ':' && charAt s (i + 1) == '/'

def hostEndAt (s : Text) (i : ℕ) : Bool :=
  charAt s i == ':' || charAt s i == '/'

def slashAt (s : Text) (i : ℕ) : Bool := charAt s i == '/'

def isHttps (sign : Text) : Bool := sign = "https".toList

/-- The fields both parsers have assigned when they reach the slash. -/
structure Front where
  sign : Text := []
  isEnableTls : Bool := false
  host : Text := []
  port : Option UInt16 := none

inductive Authority where
  /-- The string ends before the slash. -/
  | stopped (f : Front)
  /-- The string ends inside the three characters skipped after the sign. -/
  | truncated
  | badPort (e : StoiError)
  /-- All of it, and the index of the slash that ends it. -/
  | complete (f : Front) (slash : ℕ)

/-- The port that starts at index `start`, up to the next slash. -/
def portAuthority (s : Text) (f : Front) (start : ℕ) : Authority :=
  let k := firstIn (slashAt s) start s.length
  if k = s.length then .stopped f
  else
    match stoi (slice s start k) with
    | .error e => .badPort e
    | .ok value => .complete { f with port := some (toPort value) } k

/-- The host that starts at index `start`, and the port if there is one. -/
def hostAuthority (s : Text) (f : Front) (start : ℕ) : Authority :=
  let j := firstIn (hostEndAt s) start s.length
  if j = s.length then .stopped f
  else
    let f' := { f with host := slice s start j }
    if charAt s j = ':' then portAuthority s f' (j + 1) else .complete f' j

def authority (s : Text) : Authority :=
  let i := firstIn (signAt s) 0 s.length
  let sign := slice s 0 i
  if i = s.length then .stopped {}
  else if s.length < i + 3 then .truncated
  else hostAuthority s { sign := sign, isEnableTls := isHttps sign } (i + 3)

/-! ## Loops that read an authority -/

inductive FrontState where
  | sign
  | host
  | port

/-- Where the cursor stops in a state; it moves over everything else. -/
def FrontState.stop (s : Text) : FrontState → ℕ → Bool
  | .sign => signAt s
  | .host => hostEndAt s
  | .port => slashAt s

/-- A parser loop over `s` whose first three states read the authority.
`cursor st pos start f` is its state there, `finish f slash` is how it ends from
the slash on. -/
structure FrontMachine (s : Text) (σ ρ : Type) where
  step : σ → Iter σ (ParseEnd ρ)
  cursor : FrontState → ℕ → ℕ → Front → σ
  result : Front → ρ
  finish : Front → ℕ → ParseEnd ρ
  step_end : ∀ st start f,
    step (cursor st s.length start f) = .done (.returned (result f))
  step_pastEnd : ∀ st pos start f, s.length < pos →
    step (cursor st pos start f) = .done .pastEnd
  step_skip : ∀ st pos start f, pos < s.length → st.stop s pos = false →
    step (cursor st pos start f) = .next (cursor st (pos + 1) start f)
  step_sign : ∀ pos start f, pos < s.length → signAt s pos = true →
    step (cursor .sign pos start f) = .next (cursor .host (pos + 3) (pos + 3)
      { f with
        sign := slice s start pos
        isEnableTls := isHttps (slice s start pos) })
  step_colon : ∀ pos start f, pos < s.length → charAt s pos = ':' →
    step (cursor .host pos start f) = .next (cursor .port (pos + 1) (pos + 1)
      { f with host := slice s start pos })
  step_badPort : ∀ pos start f e, pos < s.length → charAt s pos = '/' →
    stoi (slice s start pos) = .error e →
    step (cursor .port pos start f) = .done (.threw e)
  host_slash : ∀ pos start f n, pos < s.length → charAt s pos = '/' →
    s.length - pos + 3 < n → loop step n (cursor .host pos start f) =
      some (finish { f with host := slice s start pos } pos)
  port_slash : ∀ pos start f value n, pos < s.length → charAt s pos = '/' →
    stoi (slice s start pos) = .ok value → s.length - pos + 3 < n →
    loop step n (cursor .port pos start f) =
      some (finish { f with port := some (toPort value) } pos)

namespace FrontMachine

variable {s : Text} {σ ρ : Type} (M : FrontMachine s σ ρ)

/-- How the loop ends on a given authority. -/
def outcome : Authority → ParseEnd ρ
  | .stopped f => .returned (M.result f)
  | .truncated => .pastEnd
  | .badPort e => .threw e
  | .complete f slash => M.finish f slash

/-- The scan of one token. -/
theorem scan (st : FrontState) (pos start : ℕ) (f : Front)
    (h : pos ≤ s.length) :
    Reaches M.step (firstIn (st.stop s) pos s.length - pos)
      (M.cursor st pos start f)
      (M.cursor st (firstIn (st.stop s) pos s.length) start f) := by
  refine Reaches.scan (fun i => M.cursor st i start f) le_firstIn
    fun i hi hlt => ?_
  have := firstIn_le (P := st.stop s) h
  exact M.step_skip st i start f (by omega) (firstIn_before hi hlt)

theorem run_port {start n : ℕ} {f : Front} (h : start ≤ s.length)
    (hn : s.length - start + 4 < n) :
    loop M.step n (M.cursor .port start start f) =
      some (M.outcome (portAuthority s f start)) := by
  have hle := firstIn_le (P := slashAt s) h
  have hge := le_firstIn (P := slashAt s) (a := start) (b := s.length)
  have hscan := M.scan .port start start f h
  simp only [FrontState.stop] at hscan
  simp only [portAuthority]
  by_cases hk : firstIn (slashAt s) start s.length = s.length
  · rw [if_pos hk]
    rw [hk] at hscan
    exact hscan.returns (M.step_end _ _ _) (by omega)
  · rw [if_neg hk]
    have hlt : firstIn (slashAt s) start s.length < s.length := by omega
    have hch : charAt s (firstIn (slashAt s) start s.length) = '/' := by
      simpa [slashAt] using firstIn_hit hlt
    cases hport : stoi (slice s start (firstIn (slashAt s) start s.length)) with
    | error e =>
        exact hscan.returns (M.step_badPort _ _ _ _ hlt hch hport) (by omega)
    | ok value =>
        obtain ⟨m, rfl⟩ : ∃ m,
            n = (firstIn (slashAt s) start s.length - start) + m :=
          ⟨n - (firstIn (slashAt s) start s.length - start), by omega⟩
        rw [hscan m]
        exact M.port_slash _ _ _ _ _ hlt hch hport (by omega)

theorem run_host {start n : ℕ} {f : Front} (h : start ≤ s.length)
    (hn : s.length - start + 5 < n) :
    loop M.step n (M.cursor .host start start f) =
      some (M.outcome (hostAuthority s f start)) := by
  have hle := firstIn_le (P := hostEndAt s) h
  have hge := le_firstIn (P := hostEndAt s) (a := start) (b := s.length)
  have hscan := M.scan .host start start f h
  simp only [FrontState.stop] at hscan
  simp only [hostAuthority]
  by_cases hj : firstIn (hostEndAt s) start s.length = s.length
  · rw [if_pos hj]
    rw [hj] at hscan
    exact hscan.returns (M.step_end _ _ _) (by omega)
  · rw [if_neg hj]
    have hlt : firstIn (hostEndAt s) start s.length < s.length := by omega
    have hch : charAt s (firstIn (hostEndAt s) start s.length) = ':' ∨
        charAt s (firstIn (hostEndAt s) start s.length) = '/' := by
      simpa [hostEndAt] using firstIn_hit hlt
    by_cases hcolon : charAt s (firstIn (hostEndAt s) start s.length) = ':'
    · rw [if_pos hcolon]
      have hnext := hscan.trans
        (.single (M.step_colon _ start f hlt hcolon))
      obtain ⟨m, rfl⟩ : ∃ m,
          n = (firstIn (hostEndAt s) start s.length - start + 1) + m :=
        ⟨n - (firstIn (hostEndAt s) start s.length - start + 1), by omega⟩
      rw [hnext m]
      exact M.run_port (by omega) (by omega)
    · rw [if_neg hcolon]
      obtain ⟨m, rfl⟩ : ∃ m,
          n = (firstIn (hostEndAt s) start s.length - start) + m :=
        ⟨n - (firstIn (hostEndAt s) start s.length - start), by omega⟩
      rw [hscan m]
      exact M.host_slash _ _ _ _ hlt (hch.resolve_left hcolon) (by omega)

/-- **A front machine reads the authority of its string**, and ends within the
budget of the parsers. -/
theorem run : loop M.step (parserBudget s) (M.cursor .sign 0 0 {}) =
    some (M.outcome (authority s)) := by
  have hle := firstIn_le (P := signAt s) (Nat.zero_le s.length)
  have hscan := M.scan .sign 0 0 {} (Nat.zero_le s.length)
  simp only [FrontState.stop, Nat.sub_zero] at hscan
  simp only [authority, parserBudget]
  by_cases hi : firstIn (signAt s) 0 s.length = s.length
  · rw [if_pos hi]
    rw [hi] at hscan
    exact hscan.returns (M.step_end _ _ _) (by omega)
  · rw [if_neg hi]
    have hlt : firstIn (signAt s) 0 s.length < s.length := by omega
    have hnext := hscan.trans
      (.single (M.step_sign _ 0 {} hlt (firstIn_hit hlt)))
    by_cases hcut : s.length < firstIn (signAt s) 0 s.length + 3
    · rw [if_pos hcut]
      exact hnext.returns (M.step_pastEnd _ _ _ _ hcut) (by omega)
    · rw [if_neg hcut]
      obtain ⟨m, hm⟩ : ∃ m, s.length + 8 =
          (firstIn (signAt s) 0 s.length + 1) + m :=
        ⟨s.length + 8 - (firstIn (signAt s) 0 s.length + 1), by omega⟩
      rw [hm, hnext m]
      exact M.run_host (by omega) (by omega)

end FrontMachine

/-! ## `parserBasicUrl` -/

def basicFinish (s : Text) (f : Front) (slash : ℕ) :
    ParseEnd BasicUrlParserResult :=
  .returned ⟨f.host, s.drop slash, f.sign, f.port, f.isEnableTls⟩

def FrontState.basic : FrontState → BasicParserState
  | .sign => .sign
  | .host => .host
  | .port => .port

theorem basicStep_inside {s : Text} {c : BasicCursor} (h : c.pos < s.length) :
    basicStep s c = basicSwitch s c := by
  rw [basicStep, if_neg (by omega), if_neg (by omega)]

/-- From the slash on, `parserBasicUrl` stores the path and returns. -/
theorem basic_path {s : Text} {pos n : ℕ} {r : BasicUrlParserResult}
    (h : pos < s.length) (hn : 1 < n) :
    loop (basicStep s) n ⟨.path, pos, pos, r⟩ =
      some (.returned { r with addrsPath := s.drop pos }) := by
  have hpath : s.drop pos ≠ [] := by
    rw [Ne, List.drop_eq_nil_iff]
    omega
  have hstep : basicStep s ⟨.path, pos, pos, r⟩ =
      .next ⟨.finish, pos, pos, { r with addrsPath := s.drop pos }⟩ := by
    rw [basicStep_inside h]
    simp only [basicSwitch, if_neg hpath]
  exact (Reaches.single hstep).returns (basicStep_inside h) hn

def basicMachine (s : Text) :
    FrontMachine s BasicCursor BasicUrlParserResult where
  step := basicStep s
  cursor st pos start f :=
    ⟨st.basic, pos, start, ⟨f.host, [], f.sign, f.port, f.isEnableTls⟩⟩
  result f := ⟨f.host, [], f.sign, f.port, f.isEnableTls⟩
  finish := basicFinish s
  step_end st start f := by simp [basicStep]
  step_pastEnd st pos start f h := by
    rw [basicStep, if_neg (by simp only; omega), if_pos h]
  step_skip st pos start f h hstop := by
    rw [basicStep_inside h]
    cases st with
    | sign =>
        have : ¬ (charAt s pos = ':' ∧ charAt s (pos + 1) = '/') := by
          simpa [FrontState.stop, signAt] using hstop
        simp only [basicSwitch, FrontState.basic, if_neg this]
    | host =>
        have : ¬ (charAt s pos = ':' ∨ charAt s pos = '/') := by
          simpa [FrontState.stop, hostEndAt] using hstop
        simp only [basicSwitch, FrontState.basic, if_neg this]
    | port =>
        have : ¬ charAt s pos = '/' := by
          simpa [FrontState.stop, slashAt] using hstop
        simp only [basicSwitch, FrontState.basic, if_neg this]
  step_sign pos start f h hstop := by
    have hch : charAt s pos = ':' ∧ charAt s (pos + 1) = '/' := by
      simpa [signAt] using hstop
    rw [basicStep_inside h]
    simp only [basicSwitch, FrontState.basic, if_pos hch, isHttps]
  step_colon pos start f h hch := by
    rw [basicStep_inside h]
    simp [basicSwitch, FrontState.basic, hch]
  step_badPort pos start f e h hch he := by
    rw [basicStep_inside h]
    simp [basicSwitch, FrontState.basic, hch, he]
  host_slash pos start f n h hch hn := by
    have hstep : basicStep s ⟨.host, pos, start,
        ⟨f.host, [], f.sign, f.port, f.isEnableTls⟩⟩ =
        .next ⟨.path, pos, pos,
          ⟨slice s start pos, [], f.sign, f.port, f.isEnableTls⟩⟩ := by
      rw [basicStep_inside h]
      simp [basicSwitch, hch]
    obtain ⟨m, rfl⟩ : ∃ m, n = 1 + m := ⟨n - 1, by omega⟩
    rw [FrontState.basic, Reaches.single hstep m, basic_path h (by omega)]
    rfl
  port_slash pos start f value n h hch hvalue hn := by
    have hstep : basicStep s ⟨.port, pos, start,
        ⟨f.host, [], f.sign, f.port, f.isEnableTls⟩⟩ =
        .next ⟨.path, pos, pos,
          ⟨f.host, [], f.sign, some (toPort value), f.isEnableTls⟩⟩ := by
      rw [basicStep_inside h]
      simp [basicSwitch, hch, hvalue]
    obtain ⟨m, rfl⟩ : ∃ m, n = 1 + m := ⟨n - 1, by omega⟩
    rw [FrontState.basic, Reaches.single hstep m, basic_path h (by omega)]
    rfl

/-- **What `parserBasicUrl` computes**, without its loop. -/
theorem parserBasicUrl_eq (p : UrlHttpParser) :
    p.parserBasicUrl =
      (basicMachine p.parserChar).outcome (authority p.parserChar) := by
  have hrun := (basicMachine p.parserChar).run
  show (loop (basicMachine p.parserChar).step _
    ((basicMachine p.parserChar).cursor .sign 0 0 {})).getD .running = _
  rw [hrun]
  rfl

/-! ## `parserQueryUrl` -/

def queryAt (s : Text) (i : ℕ) : Bool :=
  charAt s i == '?' || charAt s i == '#'

def hashAt (s : Text) (i : ℕ) : Bool := charAt s i == '#'

/-- The end of the query parser in the state `M_PARSER_END`. -/
def finishQuery (r : QueryUrlParserResult) : ParseEnd QueryUrlParserResult :=
  match parserQueryParamter r.queryPath with
  | some (some m) => .returned { r with queryParamterMap := m }
  | some none => .terminated
  | none => .running

/-- The query parser with its cursor at `pos` and the slash at `slash`. -/
def queryFinishFrom (s : Text) (r : QueryUrlParserResult) (slash pos : ℕ) :
    ParseEnd QueryUrlParserResult :=
  let q := firstIn (queryAt s) pos s.length
  if q = s.length then .returned r
  else
    finishQuery { r with
      basicPath := slice s slash q
      queryPath := slice s q (firstIn (hashAt s) q s.length) }

def Front.query (f : Front) : QueryUrlParserResult :=
  { addrsHost := f.host, httpSign := f.sign, addrsPort := f.port,
    isEnableTls := f.isEnableTls }

def queryFinish (s : Text) (f : Front) (slash : ℕ) :
    ParseEnd QueryUrlParserResult :=
  queryFinishFrom s f.query slash slash

def FrontState.query : FrontState → QueryParserState
  | .sign => .sign
  | .host => .host
  | .port => .port

section Query

variable {s : Text} {pos start n : ℕ} {r : QueryUrlParserResult}

theorem queryStep_inside {c : QueryCursor} (h : c.ops < s.length) :
    queryStep s c = querySwitch s c := by
  rw [queryStep, if_neg (by omega), if_neg (by omega)]

theorem queryStep_skip (h : pos < s.length) (hstop : queryAt s pos = false) :
    queryStep s ⟨.query, pos, start, r⟩ =
      .next ⟨.query, pos + 1, start, r⟩ := by
  have hch : ¬ (charAt s pos = '?' ∨ charAt s pos = '#') := by
    simpa [queryAt] using hstop
  rw [queryStep_inside h]
  simp only [querySwitch, if_neg hch]

theorem queryStep_hit (h : pos < s.length) (hstop : queryAt s pos = true) :
    queryStep s ⟨.query, pos, start, r⟩ =
      .next ⟨.finish, pos, start, { r with
        basicPath := slice s start pos
        queryPath := slice s pos (firstIn (hashAt s) pos s.length) }⟩ := by
  have hch : charAt s pos = '?' ∨ charAt s pos = '#' := by
    simpa [queryAt] using hstop
  rw [queryStep_inside h]
  simp only [querySwitch, if_pos hch]
  rfl

theorem queryStep_finish (h : pos < s.length) :
    queryStep s ⟨.finish, pos, start, r⟩ = .done (finishQuery r) := by
  rw [queryStep_inside h]
  simp only [querySwitch, finishQuery]
  cases parserQueryParamter r.queryPath with
  | none => rfl
  | some m => cases m <;> rfl

/-- The state `M_PARSER_QUERY`: look for `?` or `#`, split there, finish. -/
theorem query_path (h : pos ≤ s.length) (hn : s.length - pos + 2 < n) :
    loop (queryStep s) n ⟨.query, pos, start, r⟩ =
      some (queryFinishFrom s r start pos) := by
  have hle := firstIn_le (P := queryAt s) h
  have hge := le_firstIn (P := queryAt s) (a := pos) (b := s.length)
  have hscan : Reaches (queryStep s) (firstIn (queryAt s) pos s.length - pos)
      ⟨.query, pos, start, r⟩
      ⟨.query, firstIn (queryAt s) pos s.length, start, r⟩ :=
    Reaches.scan (fun i => (⟨.query, i, start, r⟩ : QueryCursor)) le_firstIn
      fun i hi hlt => queryStep_skip (by omega) (firstIn_before hi hlt)
  simp only [queryFinishFrom]
  by_cases hq : firstIn (queryAt s) pos s.length = s.length
  · rw [if_pos hq]
    rw [hq] at hscan
    exact hscan.returns (by simp [queryStep]) (by omega)
  · rw [if_neg hq]
    have hlt : firstIn (queryAt s) pos s.length < s.length := by omega
    exact (hscan.trans (.single (queryStep_hit hlt (firstIn_hit hlt)))).returns
      (queryStep_finish hlt) (by omega)

/-- The slash itself is neither `?` nor `#`: whether the cursor starts at it
or behind it makes no difference. -/
theorem queryFinishFrom_succ (h : pos < s.length) (hch : charAt s pos = '/') :
    queryFinishFrom s r start (pos + 1) = queryFinishFrom s r start pos := by
  have hfirst : firstIn (queryAt s) pos s.length =
      firstIn (queryAt s) (pos + 1) s.length := by
    have hle := firstIn_le (P := queryAt s)
      (show pos + 1 ≤ s.length by omega)
    have hge := le_firstIn (P := queryAt s) (a := pos + 1) (b := s.length)
    refine firstIn_eq (by omega) hle ?_ ?_
    · intro j hj hlt
      rcases Nat.eq_or_lt_of_le hj with rfl | hj'
      · simp [queryAt, hch]
      · exact firstIn_before hj' hlt
    · rcases Nat.eq_or_lt_of_le hle with heq | hlt
      · exact Or.inl heq
      · exact Or.inr (firstIn_hit hlt)
  simp only [queryFinishFrom, hfirst]

end Query

def queryMachine (s : Text) :
    FrontMachine s QueryCursor QueryUrlParserResult where
  step := queryStep s
  cursor st pos start f := ⟨st.query, pos, start, f.query⟩
  result f := f.query
  finish := queryFinish s
  step_end st start f := by simp [queryStep]
  step_pastEnd st pos start f h := by
    rw [queryStep, if_neg (by simp only; omega), if_pos h]
  step_skip st pos start f h hstop := by
    rw [queryStep_inside h]
    cases st with
    | sign =>
        have : ¬ (charAt s pos = ':' ∧ charAt s (pos + 1) = '/') := by
          simpa [FrontState.stop, signAt] using hstop
        simp only [querySwitch, FrontState.query, if_neg this]
    | host =>
        have : ¬ (charAt s pos = ':' ∨ charAt s pos = '/') := by
          simpa [FrontState.stop, hostEndAt] using hstop
        simp only [querySwitch, FrontState.query, if_neg this]
    | port =>
        have : ¬ charAt s pos = '/' := by
          simpa [FrontState.stop, slashAt] using hstop
        simp only [querySwitch, FrontState.query, if_neg this]
  step_sign pos start f h hstop := by
    have hch : charAt s pos = ':' ∧ charAt s (pos + 1) = '/' := by
      simpa [signAt] using hstop
    rw [queryStep_inside h]
    simp only [querySwitch, FrontState.query, Front.query, if_pos hch, isHttps]
  step_colon pos start f h hch := by
    rw [queryStep_inside h]
    simp [querySwitch, FrontState.query, Front.query, hch]
  step_badPort pos start f e h hch he := by
    rw [queryStep_inside h]
    simp [querySwitch, FrontState.query, hch, he]
  host_slash pos start f n h hch hn := by
    have hstep : queryStep s ⟨.host, pos, start, f.query⟩ =
        .next ⟨.query, pos + 1, pos,
          Front.query { f with host := slice s start pos }⟩ := by
      rw [queryStep_inside h]
      simp [querySwitch, Front.query, hch]
    obtain ⟨m, rfl⟩ : ∃ m, n = 1 + m := ⟨n - 1, by omega⟩
    rw [FrontState.query, Reaches.single hstep m,
      query_path (by omega) (by omega), queryFinishFrom_succ h hch]
    rfl
  port_slash pos start f value n h hch hvalue hn := by
    have hstep : queryStep s ⟨.port, pos, start, f.query⟩ =
        .next ⟨.query, pos, pos,
          Front.query { f with port := some (toPort value) }⟩ := by
      rw [queryStep_inside h]
      simp [querySwitch, Front.query, hch, hvalue]
    obtain ⟨m, rfl⟩ : ∃ m, n = 1 + m := ⟨n - 1, by omega⟩
    rw [FrontState.query, Reaches.single hstep m,
      query_path (by omega) (by omega)]
    rfl

/-- **What `parserQueryUrl` computes**, without its loop. -/
theorem parserQueryUrl_eq (p : UrlHttpParser) :
    p.parserQueryUrl =
      (queryMachine p.parserChar).outcome (authority p.parserChar) := by
  have hrun := (queryMachine p.parserChar).run
  show (loop (queryMachine p.parserChar).step _
    ((queryMachine p.parserChar).cursor .sign 0 0 {})).getD .running = _
  rw [hrun]
  rfl

end Mtasc
