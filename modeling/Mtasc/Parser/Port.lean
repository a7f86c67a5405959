import Mtasc.Parser.Cursor

/-!
# The text of the port

`portText` is the text between the colon behind the host and the next slash.
Both parsers hand it to `std::stoi` and cut what comes back to 16 bits, so they
take every number that `stoi` finds in it for a port: with white space, a sign
or a tail, and of any size an `int` can have.
-/

namespace Mtasc

open Lib

/-! ## Where the port is -/

def hostStart (s : Text) : ℕ := firstIn (signAt s) 0 s.length + 3

def hostEnd (s : Text) : ℕ := firstIn (hostEndAt s) (hostStart s) s.length

def portEnd (s : Text) : ℕ := firstIn (slashAt s) (hostEnd s + 1) s.length

/-- The text between the colon behind the host and the next slash. -/
def portText (s : Text) : Option Text :=
  if charAt s (hostEnd s) = ':' ∧ portEnd s < s.length then
    some (slice s (hostEnd s + 1) (portEnd s))
  else none

/-- The fields a parser has assigned when it returns. -/
def Authority.front? : Authority → Option Front
  | .stopped f => some f
  | .complete f _ => some f
  | _ => none

section

variable {s t : Text} {f : Front} {value : ℤ} {e : StoiError}

theorem portText_bounds (h : portText s = some t) :
    hostStart s ≤ hostEnd s ∧ hostEnd s < portEnd s ∧ portEnd s < s.length ∧
      charAt s (hostEnd s) = ':' ∧ charAt s (portEnd s) = '/' ∧
      t = slice s (hostEnd s + 1) (portEnd s) := by
  unfold portText at h
  split at h
  · next hport =>
    have hge : hostEnd s + 1 ≤ portEnd s := le_firstIn
    have hslash : slashAt s (portEnd s) = true := firstIn_hit hport.2
    exact ⟨le_firstIn, hge, hport.2, hport.1, by simpa [slashAt] using hslash,
      (Option.some.inj h).symm⟩
  · cases h

/-- What both parsers make of a string with a port text. -/
theorem authority_portText (h : portText s = some t) :
    ∃ f, authority s = portAuthority s f (hostEnd s + 1) ∧
      f.host = slice s (hostStart s) (hostEnd s) := by
  obtain ⟨hstart, hport, hlt, hcolon, -, -⟩ := portText_bounds h
  have hroom : firstIn (signAt s) 0 s.length + 3 ≤ hostEnd s := hstart
  refine ⟨{ sign := slice s 0 (firstIn (signAt s) 0 s.length)
            isEnableTls := isHttps (slice s 0 (firstIn (signAt s) 0 s.length))
            host := slice s (hostStart s) (hostEnd s) }, ?_, rfl⟩
  simp only [authority]
  rw [if_neg (by omega), if_neg (by omega)]
  show hostAuthority s _ (hostStart s) = _
  simp only [hostAuthority]
  have hfold : firstIn (hostEndAt s) (hostStart s) s.length = hostEnd s := rfl
  rw [hfold, if_neg (by omega), if_pos hcolon]

theorem authority_badPort (h : portText s = some t) (he : stoi t = .error e) :
    authority s = .badPort e := by
  obtain ⟨f, hauth, -⟩ := authority_portText h
  obtain ⟨-, -, hlt, -, -, rfl⟩ := portText_bounds h
  have hfold : firstIn (slashAt s) (hostEnd s + 1) s.length = portEnd s := rfl
  rw [hauth]
  simp only [portAuthority, hfold, he]
  exact if_neg (Nat.ne_of_lt hlt)

theorem authority_port (h : portText s = some t) (hv : stoi t = .ok value) :
    ∃ f slash, authority s = .complete f slash ∧
      f.host = slice s (hostStart s) (hostEnd s) ∧
      f.port = some (toPort value) := by
  obtain ⟨f, hauth, hhost⟩ := authority_portText h
  obtain ⟨-, -, hlt, -, -, rfl⟩ := portText_bounds h
  have hfold : firstIn (slashAt s) (hostEnd s + 1) s.length = portEnd s := rfl
  refine ⟨{ f with port := some (toPort value) }, portEnd s, ?_, hhost, rfl⟩
  rw [hauth]
  simp only [portAuthority, hfold, hv]
  exact if_neg (Nat.ne_of_lt hlt)

/-- No port is assigned, and nothing is thrown. -/
def Authority.Portless (a : Authority) : Prop :=
  (∀ e, a ≠ .badPort e) ∧ ∀ f, a.front? = some f → f.port = none

theorem portless_of_front {a : Authority} (ha : a.front? = some f)
    (hf : f.port = none) : a.Portless := by
  constructor
  · rintro e rfl
    cases ha
  · intro g hg
    rw [ha] at hg
    cases hg
    exact hf

theorem authority_noPort (h : portText s = none) : (authority s).Portless := by
  have hstart : firstIn (signAt s) 0 s.length + 3 = hostStart s := rfl
  have hfold : firstIn (hostEndAt s) (hostStart s) s.length = hostEnd s := rfl
  have hfold' : firstIn (slashAt s) (hostEnd s + 1) s.length = portEnd s := rfl
  simp only [authority, hstart]
  split
  · exact portless_of_front rfl rfl
  split
  · constructor
    · intro e he
      cases he
    · intro f hf
      cases hf
  next hsign hroom =>
  simp only [hostAuthority, hfold]
  split
  · exact portless_of_front rfl rfl
  next hend =>
  have hle : hostEnd s ≤ s.length := firstIn_le (Nat.le_of_not_lt hroom)
  split
  · next hcolon =>
    have hle' : portEnd s ≤ s.length := firstIn_le (by omega)
    have hnot : portEnd s = s.length := by
      by_contra hne
      unfold portText at h
      rw [if_pos ⟨hcolon, by omega⟩] at h
      cases h
    simp only [portAuthority, hfold']
    rw [if_pos hnot]
    exact portless_of_front rfl rfl
  · exact portless_of_front rfl rfl

end

/-- A result of `parserBasicUrl` has the fields of the front. -/
theorem parserBasicUrl_front {p : UrlHttpParser} {r : BasicUrlParserResult}
    (h : p.parserBasicUrl = .returned r) :
    ∃ f, (authority p.parserChar).front? = some f ∧ r.addrsHost = f.host ∧
      r.addrsPort = f.port := by
  rw [parserBasicUrl_eq] at h
  cases hauth : authority p.parserChar with
  | stopped f =>
      rw [hauth] at h
      cases h
      exact ⟨f, rfl, rfl, rfl⟩
  | truncated =>
      rw [hauth] at h
      cases h
  | badPort e =>
      rw [hauth] at h
      cases h
  | complete f slash =>
      rw [hauth] at h
      cases h
      exact ⟨f, rfl, rfl, rfl⟩

theorem parserQueryUrl_front {p : UrlHttpParser} {q : QueryUrlParserResult}
    (h : p.parserQueryUrl = .returned q) :
    ∃ f, (authority p.parserChar).front? = some f ∧ q.addrsHost = f.host ∧
      q.addrsPort = f.port := by
  rw [parserQueryUrl_eq] at h
  cases hauth : authority p.parserChar with
  | stopped f =>
      rw [hauth] at h
      cases h
      exact ⟨f, rfl, rfl, rfl⟩
  | truncated =>
      rw [hauth] at h
      cases h
  | badPort e =>
      rw [hauth] at h
      cases h
  | complete f slash =>
      rw [hauth] at h
      have hfinish : queryFinish p.parserChar f slash = .returned q := h
      rcases queryFinish_returns p.fits f (authority_complete hauth).1 with
        ⟨-, hq⟩ | ⟨-, m, hq⟩
      · rw [hq] at hfinish
        cases hfinish
        exact ⟨f, rfl, rfl, rfl⟩
      · rw [hq] at hfinish
        cases hfinish
        exact ⟨f, rfl, rfl, rfl⟩

/-- Where there is a front, both parsers return it. -/
theorem parsers_return {p : UrlHttpParser} {f : Front}
    (h : (authority p.parserChar).front? = some f) :
    (∃ r, p.parserBasicUrl = .returned r ∧ r.addrsHost = f.host ∧
      r.addrsPort = f.port) ∧
    ∃ q, p.parserQueryUrl = .returned q ∧ q.addrsHost = f.host ∧
      q.addrsPort = f.port := by
  rw [parserBasicUrl_eq, parserQueryUrl_eq]
  cases hauth : authority p.parserChar with
  | stopped g =>
      rw [hauth] at h
      cases h
      exact ⟨⟨_, rfl, rfl, rfl⟩, _, rfl, rfl, rfl⟩
  | truncated =>
      rw [hauth] at h
      cases h
  | badPort e =>
      rw [hauth] at h
      cases h
  | complete g slash =>
      rw [hauth] at h
      cases h
      have hfinish : (queryMachine p.parserChar).outcome (.complete f slash) =
        queryFinish p.parserChar f slash := rfl
      rw [hfinish]
      refine ⟨⟨_, rfl, rfl, rfl⟩, ?_⟩
      rcases queryFinish_returns p.fits f (authority_complete hauth).1 with
        ⟨-, hq⟩ | ⟨-, m, hq⟩
      · exact ⟨_, hq, rfl, rfl⟩
      · exact ⟨_, hq, rfl, rfl⟩

/-! ## The cursor in front of the path -/

/-- The token starts where the one before ended, and the cursor has not passed
the separator that ends it. -/
def FrontAt (s : Text) (x : FrontPos) : Prop :=
  match x.state with
  | .sign => x.pos ≤ firstIn (signAt s) 0 s.length
  | .host => x.start = hostStart s ∧ x.start ≤ x.pos ∧ x.pos ≤ hostEnd s
  | .port => charAt s (hostEnd s) = ':' ∧ x.start = hostEnd s + 1 ∧
      x.start ≤ x.pos ∧ x.pos ≤ portEnd s

section

variable {s t : Text} {x y : FrontPos}

theorem hostEndAt_eq_false {pos : ℕ} (hcolon : charAt s pos ≠ ':')
    (hslash : charAt s pos ≠ '/') : hostEndAt s pos = false := by
  simp [hostEndAt, hcolon, hslash]

theorem frontNext_at (hlt : x.pos < s.length) (hx : FrontAt s x)
    (h : frontNext s x = some y) : FrontAt s y := by
  obtain ⟨state, pos, start⟩ := x
  dsimp only at hlt
  cases state with
  | sign =>
      simp only [frontNext] at h
      split at h
      · next hsign =>
        cases h
        have hfirst := firstIn_eq_of_hit (Nat.zero_le _) hx hsign
        refine ⟨?_, Nat.le_refl _, ?_⟩
        · rw [hostStart, hfirst]
        · rw [hostEnd, hostStart, hfirst]
          exact le_firstIn
      · next hsign =>
        cases h
        exact succ_le_firstIn hlt hx (Bool.eq_false_iff.mpr hsign)
  | host =>
      obtain ⟨hstart, hle, hend⟩ := hx
      dsimp only at hstart hle hend
      subst hstart
      simp only [frontNext] at h
      split at h
      · next hcolon =>
        cases h
        have hhit : hostEndAt s pos = true := by simp [hostEndAt, hcolon]
        have hfirst : hostEnd s = pos := firstIn_eq_of_hit hle hend hhit
        refine ⟨?_, ?_, Nat.le_refl _, ?_⟩
        · rw [hfirst]
          exact hcolon
        · rw [hfirst]
        · rw [portEnd, hfirst]
          exact le_firstIn
      · next hcolon =>
        split at h
        · cases h
        · next hslash =>
          cases h
          exact ⟨rfl, Nat.le_succ_of_le hle,
            succ_le_firstIn hlt hend (hostEndAt_eq_false hcolon hslash)⟩
  | port =>
      obtain ⟨hcolon, hstart, hle, hend⟩ := hx
      dsimp only at hstart hle hend
      simp only [frontNext] at h
      split at h
      · cases h
      · next hslash =>
        cases h
        refine ⟨hcolon, hstart, Nat.le_succ_of_le hle, succ_le_firstIn hlt hend ?_⟩
        simpa [slashAt] using hslash

/-- A cursor that leaves the port has the text of the port behind it. -/
theorem frontNext_port {pos start : ℕ} (hlt : pos < s.length)
    (hx : FrontAt s ⟨.port, pos, start⟩)
    (h : frontNext s ⟨.port, pos, start⟩ = none) :
    portText s = some (slice s start pos) := by
  obtain ⟨hcolon, hstart, hle, hend⟩ := hx
  dsimp only at hstart hle hend
  simp only [frontNext] at h
  split at h
  · next hslash =>
    have hhit : slashAt s pos = true := by simp [slashAt, hslash]
    have hfirst : portEnd s = pos :=
      firstIn_eq_of_hit (hstart ▸ hle) hend hhit
    rw [portText, if_pos ⟨hcolon, hfirst ▸ hlt⟩, hfirst, hstart]
  · cases h

end

/-! ## Leaving the port -/

/-- A run of `parserBasicUrl` leaves `M_PARSER_PORT`, with `t` as the text of
the port. -/
def UrlHttpParser.BasicPort (p : UrlHttpParser) (t : Text) : Prop :=
  ∃ n c c', after (basicStep p.parserChar) n ⟨.sign, 0, 0, {}⟩ = some c ∧
    c.state = .port ∧ basicStep p.parserChar c = .next c' ∧ c'.state ≠ .port ∧
    t = slice p.parserChar c.start c.pos

def UrlHttpParser.QueryPort (p : UrlHttpParser) (t : Text) : Prop :=
  ∃ n c c', after (queryStep p.parserChar) n ⟨.sign, 0, 0, {}⟩ = some c ∧
    c.state = .port ∧ queryStep p.parserChar c = .next c' ∧ c'.state ≠ .port ∧
    t = slice p.parserChar c.start c.ops

theorem basicStep_frontAt {s : Text} (c c' : BasicCursor)
    (hI : ∀ x, c.front? = some x → FrontAt s x)
    (h : basicStep s c = .next c') : ∀ x, c'.front? = some x → FrontAt s x := by
  intro y hy
  cases hc : c.front? with
  | some x =>
      obtain ⟨hlt, hnext, -⟩ := basicStep_front h hc
      exact frontNext_at hlt (hI x hc) (hnext ▸ hy)
  | none =>
      obtain ⟨hstate, -, -⟩ := basicStep_behind h hc
      rw [BasicCursor.front?, hstate] at hy
      cases hy

theorem queryStep_frontAt {s : Text} (c c' : QueryCursor)
    (hI : ∀ x, c.front? = some x → FrontAt s x)
    (h : queryStep s c = .next c') : ∀ x, c'.front? = some x → FrontAt s x := by
  intro y hy
  cases hc : c.front? with
  | some x =>
      obtain ⟨hlt, hnext, -⟩ := queryStep_front h hc
      exact frontNext_at hlt (hI x hc) (hnext ▸ hy)
  | none =>
      obtain ⟨hne, hne'⟩ := QueryCursor.ne_of_front hy
      obtain ⟨-, -, -, hend | hskip⟩ := queryStep_behind h hc
      · exact absurd hend.2.1 hne'
      · exact absurd hskip.1 hne

/-- From the port the cursor goes on to the port or to the path. -/
theorem frontNext_port_state {s : Text} {pos start : ℕ} {y : FrontPos}
    (h : frontNext s ⟨.port, pos, start⟩ = some y) : y.state = .port := by
  simp only [frontNext] at h
  split at h
  · cases h
  · cases h
    rfl

theorem BasicCursor.state_of_front {c : BasicCursor} {y : FrontPos}
    (h : c.front? = some y) (hy : y.state = .port) : c.state = .port := by
  obtain ⟨state, pos, start, r⟩ := c
  cases state <;> cases h <;> cases hy
  rfl

theorem QueryCursor.state_of_front {c : QueryCursor} {y : FrontPos}
    (h : c.front? = some y) (hy : y.state = .port) : c.state = .port := by
  obtain ⟨state, ops, start, r⟩ := c
  cases state <;> cases h <;> cases hy
  rfl

theorem UrlHttpParser.BasicPort.portText_eq {p : UrlHttpParser} {t : Text}
    (h : p.BasicPort t) : portText p.parserChar = some t := by
  obtain ⟨n, c, c', hrun, hstate, hstep, hleft, rfl⟩ := h
  have hinit : ∀ x, BasicCursor.front? ⟨.sign, 0, 0, {}⟩ = some x →
      FrontAt p.parserChar x := by
    intro x hx
    cases hx
    exact Nat.zero_le _
  have hat := after_invariant basicStep_frontAt hinit hrun
  obtain ⟨state, pos, start, r⟩ := c
  cases hstate
  obtain ⟨hlt, hnext, -⟩ := basicStep_front hstep rfl
  apply frontNext_port hlt (hat _ rfl)
  cases hy : frontNext p.parserChar ⟨.port, pos, start⟩ with
  | none => rfl
  | some y =>
      have hstate := BasicCursor.state_of_front (hnext.trans hy)
        (frontNext_port_state hy)
      exact absurd hstate hleft

theorem UrlHttpParser.QueryPort.portText_eq {p : UrlHttpParser} {t : Text}
    (h : p.QueryPort t) : portText p.parserChar = some t := by
  obtain ⟨n, c, c', hrun, hstate, hstep, hleft, rfl⟩ := h
  have hinit : ∀ x, QueryCursor.front? ⟨.sign, 0, 0, {}⟩ = some x →
      FrontAt p.parserChar x := by
    intro x hx
    cases hx
    exact Nat.zero_le _
  have hat := after_invariant queryStep_frontAt hinit hrun
  obtain ⟨state, ops, start, r⟩ := c
  cases hstate
  obtain ⟨hlt, hnext, -⟩ := queryStep_front hstep rfl
  apply frontNext_port hlt (hat _ rfl)
  cases hy : frontNext p.parserChar ⟨.port, ops, start⟩ with
  | none => rfl
  | some y =>
      have hstate := QueryCursor.state_of_front (hnext.trans hy)
        (frontNext_port_state hy)
      exact absurd hstate hleft

/-! ## Getting to the end of the port -/

/-- The scan of one token, as a run. -/
theorem FrontMachine.after_scan {s : Text} {σ ρ : Type}
    (M : FrontMachine s σ ρ) (st : FrontState) {a b : ℕ} (start : ℕ) (f : Front)
    (hab : a ≤ b) (hb : b ≤ s.length)
    (h : ∀ i, a ≤ i → i < b → st.stop s i = false) :
    after M.step (b - a) (M.cursor st a start f) =
      some (M.cursor st b start f) :=
  Lib.after_scan (fun i => M.cursor st i start f) hab fun i hi hlt =>
    M.step_skip st i start f (by omega) (h i hi hlt)

/-- A machine gets to the slash behind the port. -/
theorem FrontMachine.after_port {s t : Text} {σ ρ : Type}
    (M : FrontMachine s σ ρ) (h : portText s = some t) :
    ∃ n f, after M.step n (M.cursor .sign 0 0 {}) =
      some (M.cursor .port (portEnd s) (hostEnd s + 1) f) := by
  obtain ⟨hhost, hport, hlt, hcolon, -, -⟩ := portText_bounds h
  have hroom : firstIn (signAt s) 0 s.length + 3 ≤ hostEnd s := hhost
  have hsign : signAt s (firstIn (signAt s) 0 s.length) = true :=
    firstIn_hit (by omega)
  have hscan := M.after_scan .sign (b := firstIn (signAt s) 0 s.length) 0 {}
    (Nat.zero_le _) (by omega)
    (fun i _ hi => firstIn_before (P := signAt s) (Nat.zero_le _) hi)
  obtain ⟨f, hskip⟩ : ∃ f, M.step (M.cursor .sign
      (firstIn (signAt s) 0 s.length) 0 {}) =
      .next (M.cursor .host (hostStart s) (hostStart s) f) :=
    ⟨_, M.step_sign _ 0 {} (by omega) hsign⟩
  have hscan' := M.after_scan .host (hostStart s) f hhost (by omega)
    (fun i hi hi' => firstIn_before (P := hostEndAt s) hi hi')
  have hnext := M.step_colon _ (hostStart s) f (by omega) hcolon
  have hscan'' := M.after_scan .port (hostEnd s + 1)
    { f with host := slice s (hostStart s) (hostEnd s) }
    (Nat.succ_le_of_lt hport) (Nat.le_of_lt hlt)
    (fun i hi hi' => firstIn_before (P := slashAt s) hi hi')
  exact ⟨_, _, after_trans (after_trans (after_trans (after_trans hscan
    (after_single hskip)) hscan') (after_single hnext)) hscan''⟩

theorem UrlHttpParser.basicPort_of_portText {p : UrlHttpParser} {t : Text}
    {value : ℤ} (h : portText p.parserChar = some t)
    (hv : stoi t = .ok value) : p.BasicPort t := by
  obtain ⟨-, -, hlt, -, hslash, rfl⟩ := portText_bounds h
  obtain ⟨n, f, hrun⟩ := (basicMachine p.parserChar).after_port h
  refine ⟨n, _, ⟨.path, portEnd p.parserChar, portEnd p.parserChar,
    ⟨f.host, [], f.sign, some (toPort value), f.isEnableTls⟩⟩, hrun, rfl, ?_,
    (fun hstate => by cases hstate), rfl⟩
  rw [basicStep_inside hlt]
  simp [basicMachine, basicSwitch, FrontState.basic, hslash, hv]

theorem UrlHttpParser.queryPort_of_portText {p : UrlHttpParser} {t : Text}
    {value : ℤ} (h : portText p.parserChar = some t)
    (hv : stoi t = .ok value) : p.QueryPort t := by
  obtain ⟨-, -, hlt, -, hslash, rfl⟩ := portText_bounds h
  obtain ⟨n, f, hrun⟩ := (queryMachine p.parserChar).after_port h
  refine ⟨n, _, ⟨.query, portEnd p.parserChar, portEnd p.parserChar,
    Front.query { f with port := some (toPort value) }⟩, hrun, rfl, ?_,
    (fun hstate => by cases hstate), rfl⟩
  rw [queryStep_inside hlt]
  simp [queryMachine, querySwitch, FrontState.query, Front.query, hslash, hv]

/-! ## Ports that are taken for what they are -/

/-- When `parserBasicUrl` leaves the port and returns, the text is a decimal
numeral of the port it returns. -/
def UrlHttpParser.BasicPortExact (p : UrlHttpParser) : Prop :=
  ∀ t r, p.BasicPort t → p.parserBasicUrl = .returned r →
    ∃ n, IsDecimal t n ∧ r.addrsPort = some n

def UrlHttpParser.QueryPortExact (p : UrlHttpParser) : Prop :=
  ∀ t q, p.QueryPort t → p.parserQueryUrl = .returned q →
    ∃ n, IsDecimal t n ∧ q.addrsPort = some n

section

variable {p : UrlHttpParser} {t : Text} {f : Front}

/-- With a port text that `stoi` converts, the front has the port. -/
theorem front_port {value : ℤ} (h : portText p.parserChar = some t)
    (hv : stoi t = .ok value)
    (hf : (authority p.parserChar).front? = some f) :
    f.port = some (toPort value) := by
  obtain ⟨g, slash, hauth, -, hport⟩ := authority_port h hv
  rw [hauth] at hf
  cases hf
  exact hport

/-- A result of a string with a port text has the port of that text: exactly,
unless the text is misread. -/
theorem port_exact (ht : portText p.parserChar = some t)
    (hf : (authority p.parserChar).front? = some f) (hmis : ¬ Misread t) :
    ∃ n, IsDecimal t n ∧ f.port = some n := by
  cases hv : stoi t with
  | error e =>
      rw [authority_badPort ht hv] at hf
      cases hf
  | ok value =>
      have hdecimal : ∃ n, IsDecimal t n := by
        by_contra hno
        exact hmis (misread_iff.mpr ⟨⟨value, hv⟩, hno⟩)
      obtain ⟨n, hn⟩ := hdecimal
      refine ⟨n, hn, ?_⟩
      rw [front_port ht hn.stoi hf, toPort_toNat]

/-- **When no port is misread.** What a parser returns for a port is the number
its text denotes, unless that text is one that `std::stoi` converts without
its being a plain numeral of at most 65535. -/
theorem port_exact_iff (p : UrlHttpParser) :
    (p.BasicPortExact ↔
      ¬ ∃ t, portText p.parserChar = some t ∧ Misread t) ∧
    (p.QueryPortExact ↔
      ¬ ∃ t, portText p.parserChar = some t ∧ Misread t) := by
  constructor
  · constructor
    · rintro hexact ⟨t, ht, hmis⟩
      obtain ⟨⟨value, hv⟩, hno⟩ := misread_iff.mp hmis
      obtain ⟨g, slash, hauth, -, -⟩ := authority_port ht hv
      obtain ⟨⟨r, hr, -, -⟩, -⟩ := parsers_return (by rw [hauth]; rfl)
      obtain ⟨n, hn, -⟩ := hexact t r
        (UrlHttpParser.basicPort_of_portText ht hv) hr
      exact hno ⟨n, hn⟩
    · intro hno t r hport hr
      have ht := hport.portText_eq
      obtain ⟨f, hf, -, hfport⟩ := parserBasicUrl_front hr
      rw [hfport]
      exact port_exact ht hf fun hmis => hno ⟨t, ht, hmis⟩
  · constructor
    · rintro hexact ⟨t, ht, hmis⟩
      obtain ⟨⟨value, hv⟩, hno⟩ := misread_iff.mp hmis
      obtain ⟨g, slash, hauth, -, -⟩ := authority_port ht hv
      obtain ⟨-, q, hq, -, -⟩ := parsers_return (by rw [hauth]; rfl)
      obtain ⟨n, hn, -⟩ := hexact t q
        (UrlHttpParser.queryPort_of_portText ht hv) hq
      exact hno ⟨n, hn⟩
    · intro hno t q hport hq
      have ht := hport.portText_eq
      obtain ⟨f, hf, -, hfport⟩ := parserQueryUrl_front hq
      rw [hfport]
      exact port_exact ht hf fun hmis => hno ⟨t, ht, hmis⟩

end

/-- A port text with a sign and a tail is taken for a port. -/
theorem port_misread :
    ¬ ∀ p : UrlHttpParser, p.BasicPortExact ∧ p.QueryPortExact := by
  intro hall
  have hexact := (hall (UrlHttpParser.mk "a://h:+80x/".toList (by decide))).1
  obtain ⟨n, hn, -⟩ := hexact "+80x".toList
    ⟨['h'], ['/'], ['a'], some 80, false⟩
    ⟨8, ⟨.port, 10, 6, ⟨['h'], [], ['a'], none, false⟩⟩,
      ⟨.path, 10, 10, ⟨['h'], [], ['a'], some 80, false⟩⟩, rfl, rfl, rfl,
      by decide, rfl⟩ rfl
  have hdigit := hn.digits '+' (by decide)
  revert hdigit
  decide

end Mtasc
