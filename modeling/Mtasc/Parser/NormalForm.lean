import Mtasc.Parser.Accepted
import Mtasc.Parser.Agreement
import Mtasc.Parser.Port
import Mtasc.Parser.RoundTrip

/-!
# Writing a result out and parsing it again

What a parser has returned is written out as a URL: sign, `://`, host, a text
for the port if there is one, and the path. Whatever string the result came
from, with odd characters in its sign, another one than a slash in its
separator, a port with signs, blanks or letters, a fragment: if a path has been
found, the parser gives the same result again. Without a path it does so only
if there is no host, because a host is not read at the end of a URL.
-/

namespace Mtasc

open Lib

/-- The URL of a result, with a text for its port. -/
def BasicUrlParserResult.url (r : BasicUrlParserResult) (portText : Text) :
    Text :=
  r.httpSign ++ "://".toList ++ r.addrsHost ++ portText ++ r.addrsPath

def QueryUrlParserResult.url (r : QueryUrlParserResult) (portText : Text) :
    Text :=
  r.httpSign ++ "://".toList ++ r.addrsHost ++ portText ++
    (r.basicPath ++ r.queryPath)

/-! ## What can be in the fields -/

/-- The sign ends at the separator behind it, and the host has none of the
characters that end it. -/
structure Front.Read (f : Front) : Prop where
  sign : ∀ rest, cut [':', '/'] (f.sign ++ ([':', '/'] ++ rest)) =
    some (f.sign, rest)
  tls : f.isEnableTls = isHttps f.sign
  host_colon : ':' ∉ f.host
  host_slash : '/' ∉ f.host

section

variable {s t portText : Text} {f g : Front} {start : ℕ} {n : UInt16}

theorem Front.Read.port (h : f.Read) (port : Option UInt16) :
    Front.Read { f with port := port } :=
  ⟨h.sign, h.tls, h.host_colon, h.host_slash⟩

theorem portAuthority_read (h : f.Read)
    (hg : (portAuthority s f start).front? = some g) : g.Read := by
  simp only [portAuthority] at hg
  split at hg
  · cases hg
    exact h
  · split at hg
    · cases hg
    · cases hg
      exact h.port _

theorem hostAuthority_read (h : f.Read) (hstart : start ≤ s.length)
    (hg : (hostAuthority s f start).front? = some g) : g.Read := by
  have hle := firstIn_le (P := hostEndAt s) hstart
  have hbefore : ∀ c ∈ slice s start (firstIn (hostEndAt s) start s.length),
      c ≠ ':' ∧ c ≠ '/' := by
    intro c hc
    obtain ⟨i, hi, hlt, rfl⟩ := mem_slice hle hc
    have := firstIn_before (P := hostEndAt s) hi hlt
    simpa [hostEndAt] using this
  have hread : Front.Read { f with
      host := slice s start (firstIn (hostEndAt s) start s.length) } :=
    ⟨h.sign, h.tls, fun hmem => (hbefore _ hmem).1 rfl,
      fun hmem => (hbefore _ hmem).2 rfl⟩
  simp only [hostAuthority] at hg
  split at hg
  · cases hg
    exact h
  · split at hg
    · exact portAuthority_read hread hg
    · cases hg
      exact hread

/-- What a parser has found behind the first `:/`. -/
theorem authority_of_cut {a b : Text} {c : Char}
    (h : cut [':', '/'] s = some (a, c :: b)) :
    authority s = hostAuthority s { sign := a, isEnableTls := isHttps a }
      (a ++ [':', '/', c]).length := by
  obtain ⟨hs, -⟩ := cut_some h
  have hlen : s.length = a.length + (b.length + 3) := by
    rw [hs]
    simp only [List.length_append, List.length_cons, List.length_nil]
    omega
  have htoken : slice s 0 a.length = a := by
    rw [hs]
    simp [slice]
  simp only [authority, firstIn_sign_of_cut h, htoken]
  rw [if_neg (by omega), if_neg (by omega), List.length_append]
  rfl

theorem authority_read (h : (authority s).front? = some f) : f.Read := by
  cases hcut : cut [':', '/'] s with
  | none =>
      simp only [authority, firstIn_sign_of_none hcut] at h
      cases h
      exact ⟨fun _ => cut_sep, rfl, List.not_mem_nil, List.not_mem_nil⟩
  | some p =>
      obtain ⟨a, b⟩ := p
      obtain ⟨hs, -⟩ := cut_some hcut
      cases b with
      | nil =>
          -- the string ends inside the separator
          have hlen : s.length = a.length + 2 := by
            rw [hs]
            simp
          simp only [authority, firstIn_sign_of_cut hcut] at h
          rw [if_neg (by omega), if_pos (by omega)] at h
          cases h
      | cons c b =>
          rw [authority_of_cut hcut] at h
          refine hostAuthority_read ⟨cut_again hcut, rfl, List.not_mem_nil,
            List.not_mem_nil⟩ ?_ h
          rw [hs]
          simp only [List.length_append, List.length_cons]
          omega

/-! ## The authority of what is written out -/

/-- The URL starts with the sign and `://`. -/
theorem authority_url (hf : f.Read) (rest : Text) :
    authority (f.sign ++ "://".toList ++ rest) =
      hostAuthority (f.sign ++ "://".toList ++ rest)
        { sign := f.sign, isEnableTls := isHttps f.sign }
        (f.sign ++ "://".toList).length := by
  have hform : f.sign ++ "://".toList ++ rest =
      f.sign ++ ([':', '/'] ++ '/' :: rest) := by simp
  exact authority_of_cut (hform ▸ hf.sign ('/' :: rest))

/-- With a path the front comes back. -/
theorem authority_url_path (hf : f.Read) (hport : PortText portText f.port)
    (rest : Text) :
    authority (f.sign ++ "://".toList ++ f.host ++ portText ++ '/' :: rest) =
      .complete f
        (f.sign ++ "://".toList ++ f.host ++ portText).length := by
  have hform : f.sign ++ "://".toList ++ f.host ++ portText ++ '/' :: rest =
      f.sign ++ "://".toList ++ (f.host ++ (portText ++ '/' :: rest)) := by
    simp
  have hlen : (f.sign ++ "://".toList ++ f.host ++ portText).length =
      (f.sign ++ "://".toList).length + f.host.length + portText.length := by
    rw [List.length_append, List.length_append]
  rw [hform, authority_url hf,
    hostAuthority_token _ hf.host_colon hf.host_slash hport, ← hf.tls,
    Option.or_none, hlen]

/-- A host at the end of a URL is not read. -/
theorem hostAuthority_end {pre host : Text} (f : Front) (hcolon : ':' ∉ host)
    (hslash : '/' ∉ host) :
    hostAuthority (pre ++ host) f pre.length = .stopped f := by
  have hend : firstIn (hostEndAt (pre ++ (host ++ []))) pre.length
      (pre ++ (host ++ [])).length = pre.length + host.length :=
    firstIn_token (fun j hj =>
      hostEndAt_eq_false (token_ne hcolon hj) (token_ne hslash hj)) (Or.inl rfl)
  rw [List.append_nil] at hend
  rw [hostAuthority, hend, List.length_append]
  exact if_pos rfl

/-- A port at the end is not read, but the host in front of it is. -/
theorem hostAuthority_end_port {pre host t : Text} (f : Front)
    (hcolon : ':' ∉ host) (hslash : '/' ∉ host) (ht : '/' ∉ t) :
    hostAuthority (pre ++ (host ++ ':' :: t)) f pre.length =
      .stopped { f with host := host } := by
  have hend : firstIn (hostEndAt (pre ++ (host ++ ':' :: t))) pre.length
      (pre ++ (host ++ ':' :: t)).length = pre.length + host.length :=
    firstIn_token (fun j hj =>
      hostEndAt_eq_false (token_ne hcolon hj) (token_ne hslash hj)) (Or.inr (by
        rw [hostEndAt, charAt_after_token]
        rfl))
  have hport : firstIn (slashAt ((pre ++ host ++ [':']) ++ (t ++ [])))
      (pre ++ host ++ [':']).length
      ((pre ++ host ++ [':']) ++ (t ++ [])).length =
      (pre ++ host ++ [':']).length + t.length :=
    firstIn_token (fun j hj => beq_eq_false_iff_ne.mpr (token_ne ht hj))
      (Or.inl rfl)
  have hregroup : (pre ++ host ++ [':']) ++ (t ++ []) =
      pre ++ (host ++ ':' :: t) := by simp
  have hlen : (pre ++ host ++ [':']).length = pre.length + host.length + 1 := by
    simp [Nat.add_assoc]
  rw [hregroup, hlen] at hport
  have hlong : pre.length + host.length + 1 + t.length =
      (pre ++ (host ++ ':' :: t)).length := by
    simp only [List.length_append, List.length_cons]
    omega
  have hne : pre.length + host.length ≠ (pre ++ (host ++ ':' :: t)).length := by
    omega
  rw [hostAuthority, hend, if_neg hne, slice_token, charAt_after_token,
    if_pos rfl, portAuthority, hport]
  exact if_pos hlong

/-- Without a path the host comes back only with a port behind it, and the
port never. -/
theorem authority_url_open (hf : f.Read) (hport : PortText portText f.port) :
    authority (f.sign ++ "://".toList ++ f.host ++ portText) =
      .stopped { f with
        host := if f.port = none then [] else f.host
        port := none } := by
  rw [List.append_assoc _ f.host, authority_url hf, ← hf.tls]
  generalize f.port = port at hport
  cases hport with
  | absent =>
      rw [List.append_nil, hostAuthority_end _ hf.host_colon hf.host_slash]
      rfl
  | decimal ht =>
      rename_i t n
      have hslash : '/' ∉ t := fun hmem =>
        absurd (ht.digits _ hmem) (by decide)
      rw [hostAuthority_end_port _ hf.host_colon hf.host_slash hslash]
      rfl

/-! ## What the parsers return -/

theorem portAuthority_stopped (h : portAuthority s f start = .stopped g) :
    g.port = f.port := by
  simp only [portAuthority] at h
  split at h
  · cases h
    rfl
  · split at h <;> cases h

/-- A port is only stored at the slash behind it. -/
theorem authority_stopped (h : authority s = .stopped f) : f.port = none := by
  simp only [authority] at h
  split at h
  · cases h
    rfl
  split at h
  · cases h
  simp only [hostAuthority] at h
  split at h
  · cases h
    rfl
  · split at h
    · exact portAuthority_stopped h
    · cases h

/-- A result of `parserBasicUrl` is a front and a path that starts with a
slash, or none. -/
theorem parserBasicUrl_read {p : UrlHttpParser} {r : BasicUrlParserResult}
    (h : p.parserBasicUrl = .returned r) :
    ∃ (f : Front) (path : Text), f.Read ∧
      r = ⟨f.host, path, f.sign, f.port, f.isEnableTls⟩ ∧
      (path = [] ∧ f.port = none ∨ path.head? = some '/') := by
  rw [parserBasicUrl_eq] at h
  cases hauth : authority p.parserChar with
  | stopped f =>
      rw [hauth] at h
      cases h
      refine ⟨f, [], authority_read (by rw [hauth]; rfl), rfl, ?_⟩
      exact Or.inl ⟨rfl, authority_stopped hauth⟩
  | truncated =>
      rw [hauth] at h
      cases h
  | badPort e =>
      rw [hauth] at h
      cases h
  | complete f slash =>
      rw [hauth] at h
      cases h
      obtain ⟨hslash, hch⟩ := authority_complete hauth
      refine ⟨f, _, authority_read (by rw [hauth]; rfl), rfl, Or.inr ?_⟩
      rw [head_drop hslash, hch]

/-- What is taken for the query is empty or starts with its mark. -/
theorem head_queryPath {s : Text} {slash : ℕ}
    (hq : queryStart s slash < s.length)
    (hhash : '#' ∉ slice s (queryStart s slash) (queryEnd s slash)) :
    slice s (queryStart s slash) (queryEnd s slash) = [] ∨
      (slice s (queryStart s slash) (queryEnd s slash)).head? = some '?' := by
  have hhit : queryAt s (queryStart s slash) = true := firstIn_hit hq
  rw [queryAt, Bool.or_eq_true, beq_iff_eq, beq_iff_eq] at hhit
  rcases hhead : slice s (queryStart s slash) (queryEnd s slash) with _ | ⟨c, t⟩
  · exact Or.inl rfl
  · right
    have hc : (slice s (queryStart s slash) (queryEnd s slash)).head? =
        some (charAt s (queryStart s slash)) := by
      rw [← head_drop hq, slice, List.head?_take, if_neg]
      intro hzero
      rw [slice, hzero, List.take_zero] at hhead
      cases hhead
    rw [hhead] at hc hhash
    have hfirst : c = charAt s (queryStart s slash) := Option.some.inj hc
    rcases hhit with hmark | hmark
    · rw [hc, hmark]
    · rw [hfirst, hmark] at hhash
      exact absurd List.mem_cons_self hhash

/-- A result of `parserQueryUrl` is a front without paths, or a front and the
two parts of a path. -/
theorem parserQueryUrl_read {p : UrlHttpParser} {r : QueryUrlParserResult}
    (h : p.parserQueryUrl = .returned r) :
    ∃ f : Front, f.Read ∧ (r = f.query ∨
      (∃ path, PathSplit path r.basicPath r.queryPath) ∧
      (r.queryPath = [] ∨ r.queryPath.head? = some '?') ∧
      finishQuery { f.query with
        basicPath := r.basicPath, queryPath := r.queryPath } =
          .returned r) := by
  rw [parserQueryUrl_eq] at h
  cases hauth : authority p.parserChar with
  | stopped f =>
      rw [hauth] at h
      cases h
      exact ⟨f, authority_read (by rw [hauth]; rfl), Or.inl rfl⟩
  | truncated =>
      rw [hauth] at h
      cases h
  | badPort e =>
      rw [hauth] at h
      cases h
  | complete f slash =>
      have houtcome : (queryMachine p.parserChar).outcome (.complete f slash) =
          queryFinish p.parserChar f slash := rfl
      rw [hauth, houtcome] at h
      obtain ⟨hslash, hch⟩ := authority_complete hauth
      refine ⟨f, authority_read (by rw [hauth]; rfl), ?_⟩
      rcases queryFinish_returns p.fits f hslash with ⟨-, hq⟩ | ⟨hlt, m, hq⟩
      · rw [hq] at h
        cases h
        exact Or.inl rfl
      · have hsplit := pathSplit_slash hslash hch hlt
        have hfinish : queryFinish p.parserChar f slash =
            finishQuery { f.query with
              basicPath := slice p.parserChar slash
                (queryStart p.parserChar slash)
              queryPath := slice p.parserChar (queryStart p.parserChar slash)
                (queryEnd p.parserChar slash) } := if_neg (Nat.ne_of_lt hlt)
        have hr : r = { f.query with
            basicPath := slice p.parserChar slash
              (queryStart p.parserChar slash)
            queryPath := slice p.parserChar (queryStart p.parserChar slash)
              (queryEnd p.parserChar slash)
            queryParamterMap := m } := by
          rw [hq] at h
          cases h
          rfl
        rw [hfinish] at h
        subst hr
        exact Or.inr ⟨⟨_, hsplit⟩, head_queryPath hlt hsplit.query_hash, h⟩

end

/-! ## Parsing again -/

theorem parserBasicUrl_of {s : Text} {a : Authority}
    (hs : s.length < 2 ^ 63) (h : authority s = a) :
    (UrlHttpParser.mk s hs).parserBasicUrl = (basicMachine s).outcome a :=
  h ▸ parserBasicUrl_eq _

theorem parserQueryUrl_of {s : Text} {a : Authority}
    (hs : s.length < 2 ^ 63) (h : authority s = a) :
    (UrlHttpParser.mk s hs).parserQueryUrl = (queryMachine s).outcome a :=
  h ▸ parserQueryUrl_eq _

/-- **`parserBasicUrl` gives its result again** just if it has found a path,
or no host. -/
theorem parserBasicUrl_again (p : UrlHttpParser) (r : BasicUrlParserResult)
    (portText : Text) (hr : p.parserBasicUrl = .returned r)
    (hport : PortText portText r.addrsPort)
    (hfits : (r.url portText).length < 2 ^ 63) :
    (UrlHttpParser.mk (r.url portText) hfits).parserBasicUrl = .returned r ↔
      r.addrsPath ≠ [] ∨ r.addrsHost = [] := by
  obtain ⟨f, path, hf, rfl, hpath⟩ := parserBasicUrl_read hr
  rcases hpath with ⟨rfl, hnone⟩ | hhead
  · have hopen : authority (f.sign ++ "://".toList ++ f.host ++ portText ++ []) =
        .stopped { f with host := [], port := none } := by
      rw [List.append_nil, authority_url_open hf hport, if_pos hnone]
    have hagain := parserBasicUrl_of hfits hopen
    rw [hagain]
    constructor
    · intro h
      have hhost := congrArg BasicUrlParserResult.addrsHost
        (ParseEnd.returned.inj h)
      exact Or.inr hhost.symm
    · rintro (hne | hhost)
      · exact absurd rfl hne
      · change f.host = [] at hhost
        show ParseEnd.returned (BasicUrlParserResult.mk _ _ _ _ _) = _
        rw [hhost, hnone]
  · obtain ⟨rest, rfl⟩ := List.head?_eq_some_iff.mp hhead
    have hagain := parserBasicUrl_of hfits (authority_url_path hf hport rest)
    have hdrop : (f.sign ++ "://".toList ++ f.host ++ portText ++
        '/' :: rest).drop
          (f.sign ++ "://".toList ++ f.host ++ portText).length =
        '/' :: rest := List.drop_left
    refine iff_of_true ?_ (Or.inl (List.cons_ne_nil _ _))
    rw [hagain]
    exact congrArg (fun t => ParseEnd.returned
      (BasicUrlParserResult.mk f.host t f.sign f.port f.isEnableTls)) hdrop

/-- A port with a blank and a letter, and no slash behind the one of the
sign. -/
theorem parserBasicUrl_again_odd :
    let p : UrlHttpParser := ⟨"a:/xh: 80z/p#f".toList, by decide⟩
    let r : BasicUrlParserResult :=
      ⟨"h".toList, "/p#f".toList, "a".toList, some 80, false⟩
    p.parserBasicUrl = .returned r ∧
      (UrlHttpParser.mk (r.url ":80".toList) (by decide)).parserBasicUrl =
        .returned r := by
  intro p r
  have hr : p.parserBasicUrl = .returned r := by rfl
  exact ⟨hr, (parserBasicUrl_again p r _ hr (.decimal (isDecimal_toDigits 80))
    (by decide)).mpr (Or.inl (List.cons_ne_nil _ _))⟩

/-- **`parserQueryUrl` gives its result again** just if it has found a query,
or neither path nor host nor port. -/
theorem parserQueryUrl_again (p : UrlHttpParser) (r : QueryUrlParserResult)
    (portText : Text) (hr : p.parserQueryUrl = .returned r)
    (hport : PortText portText r.addrsPort)
    (hfits : (r.url portText).length < 2 ^ 63) :
    (UrlHttpParser.mk (r.url portText) hfits).parserQueryUrl = .returned r ↔
      r.queryPath ≠ [] ∨
        r.basicPath = [] ∧ r.addrsHost = [] ∧ r.addrsPort = none := by
  obtain ⟨f, hf, rfl | ⟨⟨path, hsplit⟩, hquery, hfinish⟩⟩ :=
    parserQueryUrl_read hr
  · have hopen : authority
        (f.sign ++ "://".toList ++ f.host ++ portText ++ ([] ++ [])) =
        .stopped { f with
          host := if f.port = none then [] else f.host, port := none } := by
      rw [List.append_nil, List.append_nil, authority_url_open hf hport]
    have hagain := parserQueryUrl_of hfits hopen
    rw [hagain]
    constructor
    · intro h
      have hsame := ParseEnd.returned.inj h
      have hport : none = f.port := congrArg QueryUrlParserResult.addrsPort hsame
      have hhost : (if f.port = none then [] else f.host) = f.host :=
        congrArg QueryUrlParserResult.addrsHost hsame
      rw [if_pos hport.symm] at hhost
      exact Or.inr ⟨rfl, hhost.symm, hport.symm⟩
    · rintro (hne | ⟨-, hhost, hnone⟩)
      · exact absurd rfl hne
      · change f.host = [] at hhost
        change f.port = none at hnone
        show ParseEnd.returned (Front.query _) = _
        rw [if_pos hnone, Front.query, Front.query, hhost, hnone]
  · obtain ⟨m, hm⟩ : ∃ m, r = { f.query with
        basicPath := r.basicPath
        queryPath := r.queryPath
        queryParamterMap := m } := by
      rcases finishQuery_cases { f.query with
        basicPath := r.basicPath, queryPath := r.queryPath } with
        ⟨m, hm⟩ | hm | hm
      · exact ⟨m, ParseEnd.returned.inj (hfinish.symm.trans hm)⟩
      · cases hfinish.symm.trans hm
      · cases hfinish.symm.trans hm
    obtain ⟨rest, hrest⟩ := List.head?_eq_some_iff.mp hsplit.slash
    have hurl : r.url portText =
        f.sign ++ "://".toList ++ f.host ++ portText ++
          ('/' :: (rest ++ r.queryPath)) := by
      rw [QueryUrlParserResult.url, hrest, List.cons_append, hm]
      rfl
    have hpart : '/' :: (rest ++ r.queryPath) =
        r.basicPath ++ (r.queryPath ++ []) := by
      rw [hrest, List.append_nil, List.cons_append]
    have hport' : PortText portText f.port := by
      rw [hm] at hport
      exact hport
    have hauth : authority (r.url portText) = .complete f
        (f.sign ++ "://".toList ++ f.host ++ portText).length := by
      rw [hurl]
      exact authority_url_path hf hport' _
    have hagain : (UrlHttpParser.mk (r.url portText) hfits).parserQueryUrl =
        queryFinish (r.url portText) f
          (f.sign ++ "://".toList ++ f.host ++ portText).length :=
      parserQueryUrl_of hfits hauth
    rw [hagain, queryFinish, hurl, hpart]
    rcases hquery with hnil | hhead
    · rw [hnil, List.append_nil, List.append_nil,
        queryFinishFrom_plain _ hsplit.basic_mark hsplit.basic_hash]
      refine iff_of_false ?_ ?_
      · intro h
        have hpath : [] = r.basicPath :=
          congrArg QueryUrlParserResult.basicPath (ParseEnd.returned.inj h)
        rw [hrest] at hpath
        cases hpath
      · rintro (hne | ⟨hpath, -⟩)
        · exact hne rfl
        · rw [hrest] at hpath
          cases hpath
    · obtain ⟨text, htext⟩ := List.head?_eq_some_iff.mp hhead
      have hhash := hsplit.query_hash
      rw [htext] at hhash hfinish ⊢
      rw [queryFinishFrom_token _ hsplit.basic_mark hsplit.basic_hash hhash
        (Or.inl rfl)]
      exact iff_of_true hfinish (Or.inl (List.cons_ne_nil _ _))

/-- What a parser call returns, if it passes a test. -/
def ParseEnd.passing {ρ : Type} (test : ρ → Bool) : ParseEnd ρ → Option ρ
  | .returned r => if test r then some r else none
  | _ => none

theorem ParseEnd.passing_isSome {ρ : Type} {test : ρ → Bool} {e : ParseEnd ρ}
    (h : (e.passing test).isSome = true) :
    ∃ r, e = .returned r ∧ test r = true := by
  cases e with
  | returned r =>
      by_cases hr : test r = true
      · exact ⟨r, rfl, hr⟩
      · rw [ParseEnd.passing, if_neg hr] at h
        cases h
  | _ => cases h

/-- A fragment, and a port with a sign. -/
theorem parserQueryUrl_again_odd :
    ∃ (r : QueryUrlParserResult) (hfits : (r.url ":80".toList).length < 2 ^ 63),
      (UrlHttpParser.mk "a:/xh:+80/p?b=c#f".toList
        (by decide)).parserQueryUrl = .returned r ∧
      r.url ":80".toList = "a://h:80/p?b=c".toList ∧
      (UrlHttpParser.mk (r.url ":80".toList) hfits).parserQueryUrl =
        .returned r := by
  have hread : ((UrlHttpParser.mk "a:/xh:+80/p?b=c#f".toList
      (by decide)).parserQueryUrl.passing fun r =>
        decide (r.addrsPort = some 80 ∧ r.queryPath ≠ [] ∧
          r.url ":80".toList = "a://h:80/p?b=c".toList)).isSome = true := by
    decide +kernel
  obtain ⟨r, hr, htest⟩ := ParseEnd.passing_isSome hread
  obtain ⟨hport, hquery, hurl⟩ := of_decide_eq_true htest
  have hfits : (r.url ":80".toList).length < 2 ^ 63 := by
    rw [hurl]
    decide
  have hagain := parserQueryUrl_again _ r ":80".toList hr
    (hport ▸ .decimal (isDecimal_toDigits 80)) hfits
  exact ⟨r, hfits, hr, hurl, hagain.mpr (Or.inl hquery)⟩

end Mtasc
