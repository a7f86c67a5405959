import Mtasc.Parser.Front
import Mtasc.Parser.Paramter

/-!
# The parsers read back what an encoder wrote

The encoder puts the components of a URL next to each other. Each search of
`authority` then stops at the separator behind the component it looks at.
-/

namespace Mtasc

open Lib

/-! ## The encoder -/

/-- What stands for a port between host and path: nothing, or a colon and a
decimal numeral. -/
inductive PortText : Text → Option UInt16 → Prop where
  | absent : PortText [] none
  | decimal {t : Text} {n : UInt16} (h : IsDecimal t n) :
      PortText (':' :: t) (some n)

/-- Sign, host and port of a URL to be encoded. -/
structure AuthorityParts where
  scheme : Text
  host : Text
  portText : Text
  port : Option UInt16
  scheme_colon : ':' ∉ scheme
  host_colon : ':' ∉ host
  host_slash : '/' ∉ host
  port_text : PortText portText port

namespace AuthorityParts

def encode (a : AuthorityParts) : Text :=
  a.scheme ++ "://".toList ++ a.host ++ a.portText

def front (a : AuthorityParts) : Front where
  sign := a.scheme
  isEnableTls := isHttps a.scheme
  host := a.host
  port := a.port

end AuthorityParts

/-! ## Its authority -/

theorem portAuthority_token {pre tok rest : Text} {n : UInt16} (f : Front)
    (h : IsDecimal tok n) :
    portAuthority (pre ++ (tok ++ '/' :: rest)) f pre.length =
      .complete { f with port := some n } (pre.length + tok.length) := by
  have hslash : '/' ∉ tok := fun hmem =>
    absurd (h.digits _ hmem) (by decide)
  have hk : firstIn (slashAt (pre ++ (tok ++ '/' :: rest))) pre.length
      (pre ++ (tok ++ '/' :: rest)).length = pre.length + tok.length :=
    firstIn_token (fun j hj => by simp [slashAt, token_ne hslash hj])
    (Or.inr (by simp [slashAt, charAt_after_token]))
  simp only [portAuthority, hk, slice_token, h.stoi, toPort_toNat]
  rw [if_neg (by simp)]

theorem hostAuthority_token {pre host portText rest : Text}
    {port : Option UInt16} (f : Front) (hcolon : ':' ∉ host)
    (hslash : '/' ∉ host) (hport : PortText portText port) :
    hostAuthority (pre ++ (host ++ (portText ++ '/' :: rest))) f pre.length =
      .complete { f with
        host := host
        port := port.or f.port }
        (pre.length + host.length + portText.length) := by
  have hk : ∀ (c : Char) (t : Text), c = ':' ∨ c = '/' →
      firstIn (hostEndAt (pre ++ (host ++ c :: t))) pre.length
        (pre ++ (host ++ c :: t)).length = pre.length + host.length :=
    fun c t hc => firstIn_token
      (fun j hj => by simp [hostEndAt, token_ne hcolon hj, token_ne hslash hj])
      (Or.inr (by simpa [hostEndAt, charAt_after_token] using hc))
  cases hport with
  | absent =>
      simp only [List.nil_append, hostAuthority, hk _ _ (Or.inr rfl),
        slice_token, charAt_after_token]
      rw [if_neg (by simp), if_neg (by decide)]
      simp
  | decimal h =>
      rename_i t n
      have hregroup : pre ++ (host ++ (':' :: t ++ '/' :: rest)) =
          (pre ++ host ++ [':']) ++ (t ++ '/' :: rest) := by simp
      have hlen : pre.length + host.length + 1 =
          (pre ++ host ++ [':']).length := by simp [Nat.add_assoc]
      rw [hregroup, hostAuthority, ← hregroup, List.cons_append,
        hk _ _ (Or.inl rfl)]
      simp only [slice_token, charAt_after_token]
      rw [if_neg (by simp), if_pos trivial, ← List.cons_append, hregroup, hlen,
        portAuthority_token _ h]
      simp
      omega

theorem firstIn_sign {scheme : Text} (rest : Text) (h : ':' ∉ scheme) :
    firstIn (signAt (scheme ++ ':' :: '/' :: rest)) 0
      (scheme ++ ':' :: '/' :: rest).length = scheme.length :=
  firstIn_sign_of_cut (cut_token (t := ['/']) h)

/-- **The authority of an encoded URL** is what was encoded, and its path
starts where the encoding of the authority ends. -/
theorem authority_encode (a : AuthorityParts) (rest : Text) :
    authority (a.encode ++ '/' :: rest) =
      .complete a.front a.encode.length := by
  have hform : a.encode ++ '/' :: rest = a.scheme ++ ':' :: '/' ::
      ('/' :: (a.host ++ (a.portText ++ '/' :: rest))) := by
    simp [AuthorityParts.encode]
  have hregroup : a.encode ++ '/' :: rest =
      (a.scheme ++ "://".toList) ++
        (a.host ++ (a.portText ++ '/' :: rest)) := by
    simp [AuthorityParts.encode]
  have hsign := firstIn_sign
    ('/' :: (a.host ++ (a.portText ++ '/' :: rest))) a.scheme_colon
  have htoken : slice (a.encode ++ '/' :: rest) 0 a.scheme.length = a.scheme := by
    rw [hform]
    simp [slice]
  have hlen : a.scheme.length + 3 = (a.scheme ++ "://".toList).length := by simp
  have hlong : a.scheme.length + 3 < (a.encode ++ '/' :: rest).length := by
    rw [hform]
    simp only [List.length_append, List.length_cons]
    omega
  rw [← hform] at hsign
  simp only [authority, hsign, htoken]
  rw [if_neg (by omega), if_neg (by omega), hlen, hregroup,
    hostAuthority_token _ a.host_colon a.host_slash a.port_text]
  simp [AuthorityParts.front, AuthorityParts.encode]
  omega

/-! ## `parserBasicUrl` -/

/-- A URL with a path that starts with a slash. -/
structure BasicUrl extends AuthorityParts where
  path : Text
  path_slash : path.head? = some '/'

def BasicUrl.encode (u : BasicUrl) : Text :=
  u.toAuthorityParts.encode ++ u.path

/-- **Decoding undoes encoding** for `parserBasicUrl`. -/
theorem parserBasicUrl_encode (u : BasicUrl)
    (hfits : u.encode.length < 2 ^ 63) :
    (UrlHttpParser.mk u.encode hfits).parserBasicUrl = .returned {
      httpSign := u.scheme
      addrsHost := u.host
      addrsPath := u.path
      addrsPort := u.port
      isEnableTls := decide (u.scheme = "https".toList) } := by
  obtain ⟨rest, hpath⟩ := List.head?_eq_some_iff.mp u.path_slash
  rw [parserBasicUrl_eq]
  have henc : u.encode = u.toAuthorityParts.encode ++ '/' :: rest := by
    rw [BasicUrl.encode, hpath]
  simp only [henc, authority_encode, FrontMachine.outcome, basicMachine,
    basicFinish, List.drop_left, hpath]
  rfl

theorem parserBasicUrl_encode_port :
    (UrlHttpParser.mk "https://h:80/x:y?z#w".toList (by decide)).parserBasicUrl =
      .returned {
        httpSign := "https".toList
        addrsHost := "h".toList
        addrsPath := "/x:y?z#w".toList
        addrsPort := some 80
        isEnableTls := true } :=
  parserBasicUrl_encode {
    scheme := "https".toList
    host := "h".toList
    portText := ":80".toList
    port := some 80
    scheme_colon := by decide
    host_colon := by decide
    host_slash := by decide
    port_text := .decimal (isDecimal_toDigits 80)
    path := "/x:y?z#w".toList
    path_slash := rfl } (by decide)

/-! ## `parserQueryUrl` -/

/-- A URL with a basic path, a non-empty list of parameters and a fragment. -/
structure QueryUrl extends AuthorityParts where
  path : Text
  pairs : List (Text × Text)
  fragment : Text
  path_slash : path.head? = some '/'
  path_mark : '?' ∉ path
  path_hash : '#' ∉ path
  pairs_ne_nil : pairs ≠ []
  keys : ∀ kv ∈ pairs,
    '=' ∉ kv.1 ∧ '&' ∉ kv.1 ∧ '#' ∉ kv.1 ∧ kv.1.head? ≠ some '?'
  values : ∀ kv ∈ pairs, '&' ∉ kv.2 ∧ '#' ∉ kv.2
  fragment_hash : fragment = [] ∨ fragment.head? = some '#'

namespace QueryUrl

def queryText (u : QueryUrl) : Text := '?' :: joinPairs u.pairs

def encode (u : QueryUrl) : Text :=
  u.toAuthorityParts.encode ++ u.path ++ u.queryText ++ u.fragment

theorem pairs_allowed (u : QueryUrl) : ∀ kv ∈ u.pairs, PairAllowed kv := by
  intro kv hkv
  obtain ⟨heq, hamp, -, hmark⟩ := u.keys kv hkv
  exact ⟨heq, hamp, hmark, (u.values kv hkv).1⟩

end QueryUrl

theorem hash_joinPairs : ∀ pairs : List (Text × Text),
    (∀ kv ∈ pairs, '#' ∉ kv.1 ∧ '#' ∉ kv.2) → '#' ∉ joinPairs pairs
  | [], _ => List.not_mem_nil
  | [kv], h => by
      obtain ⟨hkey, hvalue⟩ := h kv List.mem_cons_self
      simp [joinPairs, pairText, hkey, hvalue]
  | kv :: kv' :: rest, h => by
      obtain ⟨hkey, hvalue⟩ := h kv List.mem_cons_self
      have ih := hash_joinPairs (kv' :: rest)
        fun p hp => h p (List.mem_cons_of_mem _ hp)
      simp [joinPairs, pairText, hkey, hvalue, ih]

/-- Without a mark in the path `parserQueryUrl` finds none. -/
theorem queryFinishFrom_plain {pre path : Text} (r : QueryUrlParserResult)
    (hmark : '?' ∉ path) (hhash : '#' ∉ path) :
    queryFinishFrom (pre ++ path) r pre.length pre.length = .returned r := by
  have hend : firstIn (queryAt (pre ++ path)) pre.length (pre ++ path).length =
      (pre ++ path).length := by
    have htoken : firstIn (queryAt (pre ++ (path ++ []))) pre.length
        (pre ++ (path ++ [])).length = pre.length + path.length := by
      refine firstIn_token ?_ (Or.inl rfl)
      intro j hj
      simp only [queryAt, beq_eq_false_iff_ne.mpr (token_ne hmark hj),
        beq_eq_false_iff_ne.mpr (token_ne hhash hj), Bool.or_false]
    rw [List.append_nil] at htoken
    rw [htoken, List.length_append]
  exact if_pos hend

/-- The path ends at the question mark, the query at the hash or the end. -/
theorem queryFinishFrom_token {pre path query fragment : Text}
    (r : QueryUrlParserResult) (hmark : '?' ∉ path) (hhash : '#' ∉ path)
    (hquery : '#' ∉ '?' :: query)
    (hfragment : fragment = [] ∨ fragment.head? = some '#') :
    queryFinishFrom (pre ++ (path ++ ('?' :: query ++ fragment))) r
        pre.length pre.length =
      finishQuery { r with basicPath := path, queryPath := '?' :: query } := by
  have hpath : firstIn (queryAt (pre ++ (path ++ ('?' :: query ++ fragment))))
      pre.length (pre ++ (path ++ ('?' :: query ++ fragment))).length =
      pre.length + path.length := by
    refine firstIn_token (fun j hj => ?_) (Or.inr ?_)
    · simp only [queryAt, beq_eq_false_iff_ne.mpr (token_ne hmark hj),
        beq_eq_false_iff_ne.mpr (token_ne hhash hj), Bool.or_false]
    · rw [queryAt, List.cons_append, charAt_after_token]
      rfl
  have hregroup : pre ++ (path ++ ('?' :: query ++ fragment)) =
      (pre ++ path) ++ ('?' :: query ++ fragment) := by simp
  have hend : firstIn (hashAt ((pre ++ path) ++ ('?' :: query ++ fragment)))
      (pre ++ path).length ((pre ++ path) ++ ('?' :: query ++ fragment)).length =
      (pre ++ path).length + ('?' :: query).length := by
    refine firstIn_token (fun j hj => ?_) ?_
    · simp only [hashAt, beq_eq_false_iff_ne.mpr (token_ne hquery hj)]
    · rcases hfragment with rfl | hhead
      · exact Or.inl rfl
      · obtain ⟨rest, rfl⟩ := List.head?_eq_some_iff.mp hhead
        right
        rw [hashAt, charAt_after_token]
        rfl
  simp only [queryFinishFrom, hpath, slice_token]
  rw [if_neg (by simp), hregroup, ← List.length_append, hend, slice_token]

/-- **Decoding undoes encoding** for `parserQueryUrl`: the components come
back, and each key is bound to the value of its last occurrence. -/
theorem parserQueryUrl_encode (u : QueryUrl)
    (hfits : u.encode.length < 2 ^ 63) :
    ∃ m : ParamterMap,
      (UrlHttpParser.mk u.encode hfits).parserQueryUrl = .returned {
        httpSign := u.scheme
        addrsHost := u.host
        basicPath := u.path
        queryPath := u.queryText
        addrsPort := u.port
        isEnableTls := decide (u.scheme = "https".toList)
        queryParamterMap := m } ∧
      ∀ key, m.lookup key = u.pairs.reverse.lookup key := by
  refine ⟨u.pairs.foldl insertPair ∅, ?_, fun key => ?_⟩
  · obtain ⟨rest, hpath⟩ := List.head?_eq_some_iff.mp u.path_slash
    have henc : u.encode = u.toAuthorityParts.encode ++
        (u.path ++ (u.queryText ++ u.fragment)) := by
      simp [QueryUrl.encode]
    have hauth : authority u.encode =
        .complete u.front u.toAuthorityParts.encode.length := by
      rw [henc, hpath]
      exact authority_encode u.toAuthorityParts _
    have hhash : '#' ∉ u.queryText := by
      have := hash_joinPairs u.pairs fun kv hkv =>
        ⟨(u.keys kv hkv).2.2.1, (u.values kv hkv).2⟩
      simp [QueryUrl.queryText, this]
    have hquery : u.queryText.length < 2 ^ 63 := by
      rw [henc] at hfits
      simp only [List.length_append] at hfits
      omega
    rw [parserQueryUrl_eq, hauth]
    show queryFinishFrom u.encode u.front.query _ _ = _
    rw [henc]
    show queryFinishFrom (_ ++ (u.path ++ ('?' :: joinPairs u.pairs ++ _))) _ _ _ = _
    rw [queryFinishFrom_token _ u.path_mark u.path_hash hhash u.fragment_hash]
    rw [finishQuery, parserQueryParamter_joinPairs u.pairs_ne_nil
      u.pairs_allowed hquery]
    rfl
  · rw [lookup_foldl_insertPair, Finmap.lookup_empty, Option.or_none]

/-- A repeated key, an empty key, an empty value, and separators in values. -/
theorem parserQueryUrl_encode_repeated : ∃ m : ParamterMap,
    (UrlHttpParser.mk "http://h/p?a=1&=x=?&a=#f".toList
        (by decide)).parserQueryUrl = .returned {
      httpSign := "http".toList
      addrsHost := "h".toList
      basicPath := "/p".toList
      queryPath := "?a=1&=x=?&a=".toList
      addrsPort := none
      isEnableTls := false
      queryParamterMap := m } ∧
    ∀ key, m.lookup key =
      [("a".toList, []), ([], "x=?".toList), ("a".toList, "1".toList)].lookup
        key :=
  parserQueryUrl_encode {
    scheme := "http".toList
    host := "h".toList
    portText := []
    port := none
    scheme_colon := by decide
    host_colon := by decide
    host_slash := by decide
    port_text := .absent
    path := "/p".toList
    pairs := [("a".toList, "1".toList), ([], "x=?".toList), ("a".toList, [])]
    fragment := "#f".toList
    path_slash := rfl
    path_mark := by decide
    path_hash := by decide
    pairs_ne_nil := List.cons_ne_nil _ _
    keys := by decide
    values := by decide
    fragment_hash := Or.inr rfl } (by decide)

end Mtasc
