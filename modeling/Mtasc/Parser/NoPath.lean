import Mtasc.Parser.Port
import Mtasc.Parser.RoundTrip

/-!
# URLs without a path

Both parsers store the host when they meet the separator behind it, and the
port when they meet a slash. A URL that ends behind its authority, or goes on
with `?` or `#`, has no such separator of its own: the host is lost, or runs on
into the query, and the port is lost, unless the query happens to hold a slash.
-/

namespace Mtasc

open Lib

/-- A URL whose authority is followed by its end, a query or a fragment. -/
structure OpenUrl extends AuthorityParts where
  rest : Text
  host_ne_nil : host ≠ []
  host_mark : '?' ∉ host
  host_hash : '#' ∉ host
  rest_head : ∀ c ∈ rest.head?, c = '?' ∨ c = '#'

def OpenUrl.encode (u : OpenUrl) : Text := u.toAuthorityParts.encode ++ u.rest

/-- `parserBasicUrl` returns the host and the port of the URL, and `/` as the
path of one that has ended. -/
def OpenUrl.ReadBasic (u : OpenUrl) (p : UrlHttpParser) : Prop :=
  ∃ r, p.parserBasicUrl = .returned r ∧ r.addrsHost = u.host ∧
    (∀ n, u.port = some n → r.addrsPort = some n) ∧
    (u.rest = [] → r.addrsPath = ['/'])

/-- `parserQueryUrl` returns the host and the port of the URL. -/
def OpenUrl.ReadQuery (u : OpenUrl) (p : UrlHttpParser) : Prop :=
  ∃ q, p.parserQueryUrl = .returned q ∧ q.addrsHost = u.host ∧
    ∀ n, u.port = some n → q.addrsPort = some n

/-! ## Where its tokens end -/

/-- A host that is returned is empty, or all there is up to the separator. -/
theorem authority_host {s : Text} {f : Front}
    (h : (authority s).front? = some f) :
    f.host = [] ∨
      hostEnd s < s.length ∧ f.host = slice s (hostStart s) (hostEnd s) := by
  have hstart : firstIn (signAt s) 0 s.length + 3 = hostStart s := rfl
  have hfold : firstIn (hostEndAt s) (hostStart s) s.length = hostEnd s := rfl
  simp only [authority, hstart] at h
  split at h
  · cases h
    exact Or.inl rfl
  split at h
  · cases h
  next hsign hroom =>
  simp only [hostAuthority, hfold] at h
  split at h
  · cases h
    exact Or.inl rfl
  next hend =>
  have hle : hostEnd s ≤ s.length := firstIn_le (Nat.le_of_not_lt hroom)
  refine Or.inr ⟨by omega, ?_⟩
  split at h
  · simp only [portAuthority] at h
    split at h
    · cases h
      rfl
    · cases hport : stoi (slice s (hostEnd s + 1)
          (firstIn (slashAt s) (hostEnd s + 1) s.length)) with
      | error e =>
          rw [hport] at h
          cases h
      | ok value =>
          rw [hport] at h
          cases h
          rfl
  · cases h
    rfl

namespace OpenUrl

variable (u : OpenUrl)

/-- The part in front of the host. -/
def lead : Text := u.scheme ++ "://".toList

theorem encode_eq : u.encode = u.lead ++ (u.host ++ (u.portText ++ u.rest)) := by
  simp [encode, AuthorityParts.encode, lead]

theorem hostStart_eq : hostStart u.encode = u.lead.length := by
  have hform : u.encode = u.scheme ++ ':' :: '/' ::
      ('/' :: (u.host ++ (u.portText ++ u.rest))) := by
    simp [encode, AuthorityParts.encode]
  rw [hostStart, hform, firstIn_sign _ u.scheme_colon, lead,
    List.length_append]
  rfl

/-- Without a port the host runs on into the rest. -/
theorem hostEnd_of_noPort (hport : u.portText = [])
    (h : hostEnd u.encode < u.encode.length) :
    u.lead.length + u.host.length < hostEnd u.encode := by
  have hge : u.lead.length ≤ hostEnd u.encode := u.hostStart_eq ▸ le_firstIn
  have hhit : hostEndAt u.encode (hostEnd u.encode) = true := firstIn_hit h
  have heq : u.encode = u.lead ++ (u.host ++ u.rest) := by
    rw [encode_eq, hport, List.nil_append]
  by_contra hle
  obtain ⟨j, hj⟩ : ∃ j, hostEnd u.encode = u.lead.length + j :=
    ⟨hostEnd u.encode - u.lead.length, by omega⟩
  rw [hj, heq] at hhit
  rcases Nat.lt_or_ge j u.host.length with hin | hout
  · rw [hostEndAt_eq_false (token_ne u.host_colon hin)
      (token_ne u.host_slash hin)] at hhit
    cases hhit
  · -- the character behind the host is the first one of the rest
    have hjeq : j = u.host.length := by omega
    cases hrest : u.rest with
    | nil =>
        have hlen : u.encode.length = u.lead.length + u.host.length := by
          rw [heq, hrest, List.append_nil, List.length_append]
        omega
    | cons c rest =>
        have hc := u.rest_head c (by rw [hrest]; rfl)
        rw [hjeq, hrest, hostEndAt, charAt_after_token] at hhit
        rcases hc with rfl | rfl
        · exact absurd hhit (by decide)
        · exact absurd hhit (by decide)

/-- Without a port no parser returns the host. -/
theorem host_lost (hport : u.portText = []) {f : Front}
    (hf : (authority u.encode).front? = some f) : f.host ≠ u.host := by
  intro hhost
  rcases authority_host hf with hnil | ⟨hlt, hslice⟩
  · exact u.host_ne_nil (hhost.symm.trans hnil)
  · have hend := u.hostEnd_of_noPort hport hlt
    have hlen := congrArg List.length (hhost.symm.trans hslice)
    rw [slice_length (Nat.le_of_lt hlt), hostStart_eq] at hlen
    omega

section Port

variable {t : Text} {n : UInt16}

theorem encode_port (hport : u.portText = ':' :: t) :
    u.encode = u.lead ++ (u.host ++ ':' :: (t ++ u.rest)) := by
  rw [encode_eq, hport]
  simp

theorem hostEnd_of_port (hport : u.portText = ':' :: t) :
    hostEnd u.encode = u.lead.length + u.host.length := by
  rw [hostEnd, hostStart_eq, u.encode_port hport]
  apply firstIn_token
  · intro j hj
    exact hostEndAt_eq_false (token_ne u.host_colon hj)
      (token_ne u.host_slash hj)
  · right
    rw [hostEndAt, charAt_after_token]
    rfl

/-- Where the rest has no slash, no port text is found. -/
theorem portText_none (hport : u.portText = ':' :: t) (ht : IsDecimal t n)
    (hrest : '/' ∉ u.rest) : Mtasc.portText u.encode = none := by
  have hslash : '/' ∉ t ++ u.rest := by
    rw [List.mem_append]
    rintro (hmem | hmem)
    · exact absurd (ht.digits _ hmem) (by decide)
    · exact hrest hmem
  have hform : u.encode =
      (u.lead ++ u.host ++ [':']) ++ ((t ++ u.rest) ++ []) := by
    rw [u.encode_port hport]
    simp
  have hstart : hostEnd u.encode + 1 =
      (u.lead ++ u.host ++ [':']).length := by
    rw [u.hostEnd_of_port hport, List.length_append, List.length_append]
    rfl
  have hend : portEnd u.encode = u.encode.length := by
    rw [portEnd, hstart, hform, firstIn_token _ (Or.inl rfl)]
    · simp
      omega
    · intro j hj
      exact beq_eq_false_iff_ne.mpr (token_ne hslash hj)
  rw [Mtasc.portText, if_neg]
  rw [hend]
  exact fun h => Nat.lt_irrefl _ h.2

/-- Where it has one, the port text is the port and what lies between. -/
theorem portText_some (hport : u.portText = ':' :: t) (ht : IsDecimal t n)
    (hrest : '/' ∈ u.rest) :
    ∃ between, Mtasc.portText u.encode = some (t ++ between) ∧
      ∀ c ∈ between.head?, c.isDigit = false := by
  obtain ⟨between, behind, heq, hbetween⟩ := List.eq_append_cons_of_mem hrest
  have hslash : '/' ∉ t ++ between := by
    rw [List.mem_append]
    rintro (hmem | hmem)
    · exact absurd (ht.digits _ hmem) (by decide)
    · exact hbetween hmem
  have hform : u.encode =
      (u.lead ++ u.host ++ [':']) ++ ((t ++ between) ++ '/' :: behind) := by
    rw [u.encode_port hport, heq]
    simp
  have hstart : hostEnd u.encode + 1 =
      (u.lead ++ u.host ++ [':']).length := by
    rw [u.hostEnd_of_port hport, List.length_append, List.length_append]
    rfl
  have hend : portEnd u.encode =
      (u.lead ++ u.host ++ [':']).length + (t ++ between).length := by
    rw [portEnd, hstart, hform]
    apply firstIn_token
    · intro j hj
      exact beq_eq_false_iff_ne.mpr (token_ne hslash hj)
    · right
      rw [slashAt, charAt_after_token]
      rfl
  have hcolon : charAt u.encode (hostEnd u.encode) = ':' := by
    rw [u.hostEnd_of_port hport, u.encode_port hport, charAt_after_token]
  refine ⟨between, ?_, fun c hc => ?_⟩
  · rw [Mtasc.portText, if_pos, hstart, hend, hform, slice_token]
    refine ⟨hcolon, ?_⟩
    rw [hend, hform]
    simp only [List.length_append, List.length_cons]
    omega
  · -- what follows the port starts with `?` or `#`
    cases hb : between with
    | nil =>
        rw [hb] at hc
        cases hc
    | cons d rest =>
        rw [hb] at hc
        cases hc
        rcases u.rest_head c (by rw [heq, hb]; rfl) with rfl | rfl
        · rfl
        · rfl

end Port

/-- What both parsers make of the front of the URL. -/
theorem front_iff :
    (∃ f, (authority u.encode).front? = some f ∧ f.host = u.host ∧
      ∀ n, u.port = some n → f.port = some n) ↔
      u.port.isSome ∧ '/' ∈ u.rest := by
  have hportText := u.port_text
  constructor
  · rintro ⟨f, hf, hhost, hport⟩
    cases hcase : u.port with
    | none =>
        rw [hcase] at hportText
        cases htext : u.portText with
        | nil => exact absurd hhost (u.host_lost htext hf)
        | cons c t =>
            rw [htext] at hportText
            cases hportText
    | some n =>
        refine ⟨rfl, ?_⟩
        by_contra hrest
        rw [hcase] at hportText
        generalize htext : u.portText = text at hportText
        cases hportText with
        | decimal ht =>
            have hnone := u.portText_none htext ht hrest
            have hassigned := hport n hcase
            rw [(authority_noPort hnone).2 f hf] at hassigned
            cases hassigned
  · rintro ⟨hsome, hrest⟩
    obtain ⟨n, hcase⟩ := Option.isSome_iff_exists.mp hsome
    rw [hcase] at hportText
    generalize htext : u.portText = text at hportText
    cases hportText with
    | decimal ht =>
        obtain ⟨between, hfound, hbetween⟩ := u.portText_some htext ht hrest
        obtain ⟨f, slash, hauth, hhost, hport⟩ :=
          authority_port hfound (ht.stoi_append hbetween)
        refine ⟨f, by rw [hauth]; rfl, ?_, ?_⟩
        · rw [hhost, hostStart_eq, u.hostEnd_of_port htext,
            u.encode_port htext, slice_token]
        · intro m hm
          rw [hport, toPort_toNat, ← hm, hcase]

end OpenUrl

/-- **When a URL without a path is read.** Host and port come back just if
there is a port, and behind it a query or fragment that has a slash. -/
theorem openUrl_read_iff (u : OpenUrl) (hfits : u.encode.length < 2 ^ 63) :
    (u.ReadBasic ⟨u.encode, hfits⟩ ↔ u.port.isSome ∧ '/' ∈ u.rest) ∧
      (u.ReadQuery ⟨u.encode, hfits⟩ ↔ u.port.isSome ∧ '/' ∈ u.rest) := by
  rw [← u.front_iff]
  constructor
  · constructor
    · rintro ⟨r, hr, hhost, hport, -⟩
      obtain ⟨f, hf, hfhost, hfport⟩ := parserBasicUrl_front hr
      exact ⟨f, hf, hfhost ▸ hhost, fun n hn => hfport ▸ hport n hn⟩
    · intro hfront
      obtain ⟨-, hslash⟩ := u.front_iff.mp hfront
      obtain ⟨f, hf, hhost, hport⟩ := hfront
      obtain ⟨⟨r, hr, hrhost, hrport⟩, -⟩ :=
        parsers_return (p := ⟨u.encode, hfits⟩) hf
      refine ⟨r, hr, hrhost.trans hhost, fun n hn => ?_, fun hnil => ?_⟩
      · rw [hrport]
        exact hport n hn
      · rw [hnil] at hslash
        cases hslash
  · constructor
    · rintro ⟨q, hq, hhost, hport⟩
      obtain ⟨f, hf, hfhost, hfport⟩ := parserQueryUrl_front hq
      exact ⟨f, hf, hfhost ▸ hhost, fun n hn => hfport ▸ hport n hn⟩
    · rintro ⟨f, hf, hhost, hport⟩
      obtain ⟨-, q, hq, hqhost, hqport⟩ :=
        parsers_return (p := ⟨u.encode, hfits⟩) hf
      refine ⟨q, hq, hqhost.trans hhost, fun n hn => ?_⟩
      rw [hqport]
      exact hport n hn

/-- A URL with a port and a slash in its query is read. -/
theorem openUrl_read_slash :
    ∃ (u : OpenUrl) (hfits : u.encode.length < 2 ^ 63),
      u.encode = "a://h:80?x=/".toList ∧ u.ReadBasic ⟨u.encode, hfits⟩ ∧
        u.ReadQuery ⟨u.encode, hfits⟩ := by
  let u : OpenUrl := {
    scheme := "a".toList
    host := "h".toList
    portText := ":80".toList
    port := some 80
    scheme_colon := by decide
    host_colon := by decide
    host_slash := by decide
    port_text := .decimal (isDecimal_toDigits 80)
    rest := "?x=/".toList
    host_ne_nil := by decide
    host_mark := by decide
    host_hash := by decide
    rest_head := by
      intro c hc
      cases hc
      exact Or.inl rfl }
  have hfits : u.encode.length < 2 ^ 63 :=
    lt_of_eq_of_lt (show u.encode.length = 12 from rfl) (by decide)
  have hread := openUrl_read_iff u hfits
  have hcond : u.port.isSome ∧ '/' ∈ u.rest := ⟨rfl, by decide⟩
  exact ⟨u, hfits, rfl, hread.1.mpr hcond, hread.2.mpr hcond⟩

/-- The host of a URL that is sign and host is lost. -/
theorem openUrl_lost :
    ¬ ∀ (u : OpenUrl) (hfits : u.encode.length < 2 ^ 63),
      u.ReadBasic ⟨u.encode, hfits⟩ ∧ u.ReadQuery ⟨u.encode, hfits⟩ := by
  intro hall
  let u : OpenUrl := {
    scheme := "https".toList
    host := "h".toList
    portText := []
    port := none
    scheme_colon := by decide
    host_colon := by decide
    host_slash := by decide
    port_text := .absent
    rest := []
    host_ne_nil := by decide
    host_mark := by decide
    host_hash := by decide
    rest_head := by
      intro c hc
      cases hc }
  have hfits : u.encode.length < 2 ^ 63 :=
    lt_of_eq_of_lt (show u.encode.length = 9 from rfl) (by decide)
  obtain ⟨⟨r, hr, hhost, -, -⟩, -⟩ := hall u hfits
  cases hr
  cases hhost

end Mtasc
