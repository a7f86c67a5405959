import Mtasc.Parser.Cursor

/-!
# What `parserBasicUrl` accepts

A string on which the loop gets to `M_PARSER_END` is the sign, three
characters, the host, what stands for a port, and the path: nothing else is
dropped and nothing is used twice. The first two of the three characters are
`:/`; the third one is skipped unseen.
-/

namespace Mtasc

open Lib

/-- `parserBasicUrl` gets to `M_PARSER_END`. -/
def UrlHttpParser.Accepts (p : UrlHttpParser) : Prop :=
  ∃ n c, after (basicStep p.parserChar) n ⟨.sign, 0, 0, {}⟩ = some c ∧
    c.state = .finish

/-- What stands between host and path: nothing, or a colon and a text that
`std::stoi` takes for the port. -/
inductive PortPart : Text → Option UInt16 → Prop where
  | absent : PortPart [] none
  | colon {t : Text} {value : ℤ} (h : stoi t = .ok value) :
      PortPart (':' :: t) (some (toPort value))

/-- Encoding the result gives the string back. -/
structure Encodes (s : Text) (r : BasicUrlParserResult) : Prop where
  joined : ∃ portPart, PortPart portPart r.addrsPort ∧
    s = r.httpSign ++ "://".toList ++ r.addrsHost ++ portPart ++ r.addrsPath
  path_slash : r.addrsPath.head? = some '/'

/-! ## The text of an authority -/

section

variable {s : Text} {f g : Front} {start slash : ℕ}

theorem portAuthority_text (h : portAuthority s f start = .complete g slash) :
    ∃ value, stoi (slice s start slash) = .ok value ∧ start ≤ slash ∧
      g = { f with port := some (toPort value) } := by
  simp only [portAuthority] at h
  split at h
  · cases h
  · cases hport : stoi (slice s start (firstIn (slashAt s) start s.length)) with
    | error e =>
        rw [hport] at h
        cases h
    | ok value =>
        rw [hport] at h
        cases h
        exact ⟨value, hport, le_firstIn, rfl⟩

/-- From the host on, the string is host, port part and path. -/
theorem hostAuthority_text (hs : start ≤ s.length) (hf : f.port = none)
    (h : hostAuthority s f start = .complete g slash) :
    g.sign = f.sign ∧ ∃ portPart, PortPart portPart g.port ∧
      s.drop start = g.host ++ (portPart ++ s.drop slash) := by
  have hge : start ≤ firstIn (hostEndAt s) start s.length := le_firstIn
  have hle := firstIn_le (P := hostEndAt s) hs
  simp only [hostAuthority] at h
  split at h
  · cases h
  · next hj =>
    have hlt : firstIn (hostEndAt s) start s.length < s.length := by omega
    split at h
    · next hcolon =>
      obtain ⟨value, hvalue, hstart, rfl⟩ := portAuthority_text h
      refine ⟨rfl, _, .colon hvalue, ?_⟩
      have hport : s.drop (firstIn (hostEndAt s) start s.length) =
          ':' :: s.drop (firstIn (hostEndAt s) start s.length + 1) := by
        rw [List.drop_eq_getElem_cons hlt, ← hcolon, charAt,
          List.getD_eq_getElem _ _ hlt]
      rw [List.cons_append, slice_append_drop hstart, ← hport,
        slice_append_drop hge]
    · cases h
      refine ⟨rfl, [], ?_, ?_⟩
      · rw [hf]
        exact .absent
      · rw [List.nil_append, slice_append_drop hge]

/-- The string of a complete authority: the sign, `:/`, a character, and what
the host starts. -/
theorem authority_text (h : authority s = .complete g slash) :
    ∃ c b portPart, cut [':', '/'] s = some (g.sign, c :: b) ∧
      PortPart portPart g.port ∧ b = g.host ++ (portPart ++ s.drop slash) := by
  cases hcut : cut [':', '/'] s with
  | none =>
      simp only [authority, firstIn_sign_of_none hcut] at h
      cases h
  | some p =>
      obtain ⟨a, b⟩ := p
      obtain ⟨hs, -⟩ := cut_some hcut
      simp only [authority, firstIn_sign_of_cut hcut] at h
      split at h
      · cases h
      split at h
      · cases h
      next hroom =>
      have hlen : s.length = a.length + (2 + b.length) := by
        rw [hs]
        simp only [List.length_append, List.length_cons, List.length_nil]
      cases b with
      | nil =>
          rw [List.length_nil] at hlen
          omega
      | cons c b =>
          obtain ⟨hsign, portPart, hport, htext⟩ :=
            hostAuthority_text (by omega) rfl h
          have hdrop : s.drop (a.length + 3) = b := by
            rw [hs, List.drop_append]
            simp
          have htake : slice s 0 a.length = a := by
            rw [hs]
            simp [slice]
          rw [hdrop] at htext
          rw [htake] at hsign
          exact ⟨c, b, portPart, by rw [hsign], hport, htext⟩

end

/-! ## The end state -/

/-- In the end state the path is there and the cursor in front of the end. -/
def BasicFinished (s : Text) (c : BasicCursor) : Prop :=
  c.state = .finish → c.pos < s.length ∧ c.result.addrsPath ≠ []

theorem basicStep_finished {s : Text} (c c' : BasicCursor)
    (hI : BasicFinished s c) (h : basicStep s c = .next c') :
    BasicFinished s c' := by
  obtain ⟨hlt, h⟩ := basicStep_next h
  obtain ⟨state, pos, start, r⟩ := c
  intro hfinish
  cases state with
  | sign =>
      simp only [basicSwitch] at h
      split at h <;> (cases h; cases hfinish)
  | host =>
      simp only [basicSwitch] at h
      split at h
      · split at h <;> (cases h; cases hfinish)
      · cases h
        cases hfinish
  | port =>
      simp only [basicSwitch] at h
      split at h
      · split at h
        · cases h
        · cases h
          cases hfinish
      · cases h
        cases hfinish
  | path =>
      simp only [basicSwitch] at h
      cases h
      refine ⟨hlt, ?_⟩
      dsimp only
      split
      · exact List.cons_ne_nil _ _
      · assumption
  | finish =>
      simp only [basicSwitch] at h
      cases h

/-- What is accepted has a complete authority. -/
theorem UrlHttpParser.Accepts.complete {p : UrlHttpParser} (h : p.Accepts) :
    ∃ f slash, authority p.parserChar = .complete f slash := by
  obtain ⟨n, c, hc, hstate⟩ := h
  have hinit : BasicFinished p.parserChar ⟨.sign, 0, 0, {}⟩ :=
    fun hst => by cases hst
  obtain ⟨hin, hpath⟩ := after_invariant basicStep_finished hinit hc hstate
  obtain ⟨state, pos, start, r⟩ := c
  cases hstate
  have hrun := (after_reaches hc).returns (basicStep_inside hin)
    (Nat.lt_succ_self n)
  have hsame : (basicMachine p.parserChar).outcome (authority p.parserChar) =
      .returned r := loop_unique (basicMachine p.parserChar).run hrun
  cases hauth : authority p.parserChar with
  | stopped f =>
      rw [hauth] at hsame
      cases hsame
      exact absurd rfl hpath
  | truncated =>
      rw [hauth] at hsame
      cases hsame
  | badPort e =>
      rw [hauth] at hsame
      cases hsame
  | complete f slash => exact ⟨f, slash, rfl⟩

/-! ## Encoding what was accepted -/

/-- **When encoding undoes decoding.** The result of an accepted string encodes
to that string just if its first `:/` is followed by another slash. -/
theorem accepted_encodes_iff (p : UrlHttpParser) (h : p.Accepts) :
    (∃ r, p.parserBasicUrl = .returned r ∧ Encodes p.parserChar r) ↔
      ∃ a b, cut [':', '/'] p.parserChar = some (a, '/' :: b) := by
  obtain ⟨f, slash, hauth⟩ := h.complete
  obtain ⟨c, b, portPart, hcut, hport, hb⟩ := authority_text hauth
  obtain ⟨hslash, hch⟩ := authority_complete hauth
  obtain ⟨hs, -⟩ := cut_some hcut
  have hparse : p.parserBasicUrl = .returned
      ⟨f.host, p.parserChar.drop slash, f.sign, f.port, f.isEnableTls⟩ := by
    rw [parserBasicUrl_eq, hauth]
    rfl
  constructor
  · rintro ⟨r, hr, ⟨text, -, htext⟩, -⟩
    rw [hparse] at hr
    cases hr
    -- both ways to read the string start with the sign and `:/`
    have hsame := hs.symm.trans htext
    simp only [List.append_assoc] at hsame
    have htail := List.append_cancel_left hsame
    have hc : c = '/' :=
      Option.some.inj (congrArg (fun t : Text => t[2]?) htail)
    exact ⟨f.sign, b, hc ▸ hcut⟩
  · rintro ⟨a, b', hfull⟩
    have hcut' := hcut.symm.trans hfull
    cases hcut'
    refine ⟨_, hparse, ⟨portPart, hport, ?_⟩, ?_⟩
    · calc p.parserChar = f.sign ++ ([':', '/'] ++ '/' :: b) := hs
        _ = _ := by
          rw [hb]
          simp
    · rw [head_drop hslash, hch]

/-- A URL with a port and a path. -/
theorem accepted_encodes_port :
    (∃ r, (UrlHttpParser.mk "a://h:80/x".toList (by decide)).parserBasicUrl =
      .returned r ∧ Encodes "a://h:80/x".toList r) ↔
      ∃ a b, cut [':', '/'] "a://h:80/x".toList = some (a, '/' :: b) :=
  accepted_encodes_iff (UrlHttpParser.mk "a://h:80/x".toList (by decide))
    ⟨8, ⟨.finish, 8, 8, ⟨['h'], "/x".toList, ['a'], some 80, false⟩⟩, rfl,
      rfl⟩

/-- The third character of the separator is dropped, whatever it is. -/
theorem accepted_drops :
    ¬ ∀ p : UrlHttpParser, p.Accepts →
      ∃ r, p.parserBasicUrl = .returned r ∧ Encodes p.parserChar r := by
  intro hall
  obtain ⟨r, hr, ⟨portPart, -, htext⟩, -⟩ :=
    hall (UrlHttpParser.mk "a:/xh/".toList (by decide))
      ⟨5, ⟨.finish, 5, 5, ⟨['h'], ['/'], ['a'], none, false⟩⟩, rfl, rfl⟩
  have hparse : (UrlHttpParser.mk "a:/xh/".toList (by decide)).parserBasicUrl =
      .returned ⟨['h'], ['/'], ['a'], none, false⟩ := rfl
  rw [hparse] at hr
  cases hr
  have hthird := congrArg (fun t : Text => t[3]?) htext
  simp at hthird

end Mtasc
