import Mtasc.Http.HeaderOrder
import Mtasc.Parser.ClientTool
import Mtasc.Parser.NoPath
import Mtasc.Tls.Write

/-!
# A request on its way

A URL is parsed, the client tool puts a request for it together, and one of the
two writes sends it. The peer reads what has arrived: at every moment it finds
either no head yet or the head that was meant, since a head that has been read
stays what it is however the bytes go on.
-/

namespace Mtasc

open Lib

/-! ## What is meant -/

/-- The `char`s of a `std::string` as the bytes that are sent. -/
def toBytes (t : Text) : Bytes := t.map fun c => UInt8.ofNat c.toNat

def ofBytes (data : Bytes) : Text := data.map fun x => Char.ofNat x.toNat

def OneByte (t : Text) : Prop := ∀ c ∈ t, c.toNat < 256

instance : DecidablePred OneByte :=
  List.decidableBAll fun c : Char => c.toNat < 256

/-- A character for a line of the head. -/
def HeadChar (c : Char) : Prop :=
  c.toNat < 256 ∧ c ≠ '\r' ∧ c ≠ '\n' ∧ c ≠ '\x00'

instance : DecidablePred HeadChar := fun _ => inferInstanceAs (Decidable (_ ∧ _))

def HeadText (t : Text) : Prop := ∀ c ∈ t, HeadChar c

instance : DecidablePred HeadText := List.decidableBAll HeadChar

/-- The host and the path that the client tool gets from a URL. -/
inductive UrlHttpParser.Targets (p : UrlHttpParser) (m : ToolMemory) :
    Text → Text → Prop
  | basic {r : ClientParserBasicUrl} (h : p.syncParserBasicUri m = .returned r) :
      p.Targets m r.addrsHost r.addrsPath
  | query {r : ClientParserQueryUrl} (h : p.syncParserQueryUrl m = .returned r) :
      p.Targets m r.addrsHost r.fullPath

/-- The head a peer should read. An entry of the map that is not written ends
the fields. -/
def requestHead (host path body : Text) (method : HttpMethod)
    (headers : List (Text × Text)) : RequestHead where
  method := methodToStr method
  path := path
  version := "HTTP/1.1".toList
  fields := ("Host".toList, host) :: writtenEntries headers ++
    (if AllWritten headers then lengthField method body else []) ++
      [connectionField]

/-- What it should find behind the head: the two bytes too many, and the body
up to its first NUL. -/
def requestRest (body : Text) (method : HttpMethod)
    (headers : List (Text × Text)) : Text :=
  crlf ++ upTo '\x00' (if AllWritten headers then payload method body else [])

/-- What a peer reads at one moment: no head yet or `head`; and the head and
`rest` when a success has been reported. -/
structure Arriving (head : RequestHead) (rest : Text) (sent : Bytes)
    (success : Prop) : Prop where
  read : decodeHead (ofBytes sent) = none ∨
    decodeHead (ofBytes sent) = some head
  whole : success → decodeHead (ofBytes sent) = some head ∧
    behindHead (ofBytes sent) = some rest

section

variable {host path body t u : Text} {method : HttpMethod}
variable {headers : List (Text × Text)} {r : RequestParts}

/-! ## Texts and bytes -/

theorem HeadText.of_subset (hu : HeadText u) (h : t ⊆ u) : HeadText t :=
  fun c hc => hu c (h hc)

theorem HeadText.cr (ht : HeadText t) : '\r' ∉ t := fun hmem =>
  (ht _ hmem).2.1 rfl

theorem HeadText.nul (ht : HeadText t) : '\x00' ∉ t := fun hmem =>
  (ht _ hmem).2.2.2 rfl

theorem HeadText.oneByte (ht : HeadText t) : OneByte t := fun c hc =>
  (ht c hc).1

@[simp] theorem headText_append : HeadText (t ++ u) ↔ HeadText t ∧ HeadText u :=
  List.forall_mem_append

@[simp] theorem oneByte_append : OneByte (t ++ u) ↔ OneByte t ∧ OneByte u :=
  List.forall_mem_append

theorem headText_toDecimal (n : ℕ) : HeadText (toDecimal n) := by
  intro c hc
  have hdigit := Nat.isDigit_of_mem_toDigits (by decide) (by decide) hc
  refine ⟨?_, ?_, ?_, ?_⟩
  · have hnine : '9'.toNat < 256 := by decide
    rw [Char.isDigit_iff_toNat] at hdigit
    omega
  all_goals
    rintro rfl
    exact absurd hdigit (by decide)

theorem ofNat_toBytes {c : Char} (hc : c.toNat < 256) :
    Char.ofNat (UInt8.ofNat c.toNat).toNat = c := by
  rw [UInt8.toNat_ofNat', Nat.mod_eq_of_lt hc]
  exact Char.ofNat_toNat c

theorem toBytes_eq_zero {c : Char} (hc : c.toNat < 256) :
    UInt8.ofNat c.toNat = 0 ↔ c = '\x00' := by
  constructor
  · intro hzero
    rw [← ofNat_toBytes hc, hzero]
    rfl
  · rintro rfl
    rfl

/-- What `strlen` leaves of a string. -/
theorem ofBytes_cString (ht : OneByte t) :
    ofBytes (cString (toBytes t)) = upTo '\x00' t := by
  induction t with
  | nil => rfl
  | cons c t ih =>
      have hc := ht c List.mem_cons_self
      have hrest := ih fun d hd => ht d (List.mem_cons_of_mem c hd)
      by_cases hnul : c = '\x00'
      · subst hnul
        simp [toBytes, ofBytes, cString, upTo]
      · have hbyte : UInt8.ofNat c.toNat ≠ 0 :=
          (toBytes_eq_zero hc).not.mpr hnul
        have htext : cString (toBytes (c :: t)) =
            UInt8.ofNat c.toNat :: cString (toBytes t) :=
          List.takeWhile_cons_of_pos (by simpa using hbyte)
        rw [htext, upTo_cons_of_ne hnul, ← hrest, ofBytes, List.map_cons,
          ofNat_toBytes hc]
        rfl

theorem ofBytes_isPrefix {data data' : Bytes} (h : data <+: data') :
    ofBytes data <+: ofBytes data' := h.map _

/-! ## Reading while the bytes arrive -/

/-- A head that can be read in front of other bytes stays the head. -/
theorem decodeHead_of_prefix (h : t <+: u) :
    decodeHead t = none ∨ decodeHead t = decodeHead u := by
  obtain ⟨rest, rfl⟩ := h
  cases hcut : cut emptyLine t with
  | none =>
      left
      rw [decodeHead, headLines, hcut]
      rfl
  | some p =>
      right
      rw [decodeHead, decodeHead, headLines, headLines, hcut,
        cut_extend hcut rest]
      rfl

/-! ## The request up to a NUL -/

theorem upTo_render (h : ∀ line ∈ r.openLines, '\x00' ∉ line) :
    upTo '\x00' r.render =
      { r with behind := upTo '\x00' r.behind : RequestParts }.render := by
  have hlines : '\x00' ∉ r.openLines.flatMap (· ++ crlf) := by
    intro hmem
    obtain ⟨line, hline, hmem⟩ := List.mem_flatMap.mp hmem
    rcases List.mem_append.mp hmem with hmem | hmem
    · exact h line hline hmem
    · exact absurd hmem (by decide)
  have hconnection : '\x00' ∉ fieldLine connectionField := by decide
  have hempty : '\x00' ∉ emptyLine := by decide
  rw [RequestParts.render, upTo_append_of_not_mem hlines,
    upTo_append_of_not_mem hconnection, upTo_append_of_not_mem hempty]
  rfl

/-- The fields of the request, in the order of its lines. -/
theorem openLines_template (host path body : Text) (method : HttpMethod)
    (headers : List (Text × Text)) :
    (templateParts host path body method headers).openLines ++
        [fieldLine connectionField] =
      requestLine method path ::
        (requestHead host path body method headers).fields.map fieldLine := by
  by_cases hall : AllWritten headers
  · cases method with
    | get =>
        simp [templateParts, RequestParts.openLines, RequestParts.lengthLines,
          requestHead, lengthField, hall]
    | post =>
        simp [templateParts, RequestParts.openLines, RequestParts.lengthLines,
          requestHead, lengthField, hall]
  · simp [templateParts, RequestParts.openLines, RequestParts.lengthLines,
      requestHead, hall]

/-- What holds of the host, of the entries that are written, of a number and of
`Connection` holds of every field of the head. -/
theorem forall_requestHead {P : Text × Text → Prop}
    (hhost : P ("Host".toList, host))
    (hheaders : ∀ f ∈ writtenEntries headers, P f)
    (hlength : P ("Content-Length".toList, toDecimal body.length))
    (hconnection : P connectionField) :
    ∀ f ∈ (requestHead host path body method headers).fields, P f := by
  intro f hf
  rw [requestHead, List.mem_append, List.mem_append, List.mem_cons] at hf
  rcases hf with ((rfl | hf) | hf) | hf
  · exact hhost
  · exact hheaders f hf
  · split at hf
    · cases method with
      | get => exact absurd hf List.not_mem_nil
      | post => exact List.mem_singleton.mp hf ▸ hlength
    · exact absurd hf List.not_mem_nil
  · exact List.mem_singleton.mp hf ▸ hconnection

/-- The lines of a request from texts for lines. -/
theorem headText_lines (hhost : HeadText host) (hpath : HeadText path)
    (hheaders : ∀ f ∈ writtenEntries headers, HeadText f.1 ∧ HeadText f.2) :
    ∀ line ∈ requestLine method path ::
      (requestHead host path body method headers).fields.map fieldLine,
      HeadText line := by
  have hfield : ∀ f : Text × Text, HeadText f.1 → HeadText f.2 →
      HeadText (fieldLine f) := by
    intro f hkey hvalue
    have hsep : HeadText ": ".toList := by decide
    simp only [fieldLine, headText_append]
    exact ⟨⟨hkey, hsep⟩, hvalue⟩
  intro line hline
  rcases List.mem_cons.mp hline with rfl | hline
  · have hmethod : HeadText (methodToStr method) := by
      cases method with
      | get => decide
      | post => decide
    have hspace : HeadText " ".toList := by decide
    have hversion : HeadText "HTTP/1.1".toList := by decide
    simp only [requestLine, headText_append]
    exact ⟨⟨⟨⟨hmethod, hspace⟩, hpath⟩, hspace⟩, hversion⟩
  · obtain ⟨f, hf, rfl⟩ := List.mem_map.mp hline
    refine forall_requestHead (P := fun f => HeadText (fieldLine f)) ?_ ?_ ?_
      (by decide) f hf
    · exact hfield _ (show HeadText "Host".toList by decide) hhost
    · intro g hg
      exact hfield g (hheaders g hg).1 (hheaders g hg).2
    · exact hfield _ (show HeadText "Content-Length".toList by decide)
        (headText_toDecimal _)

/-- The lines of the template but the last. -/
theorem headText_openLines (hhost : HeadText host) (hpath : HeadText path)
    (hheaders : ∀ f ∈ writtenEntries headers, HeadText f.1 ∧ HeadText f.2) :
    ∀ line ∈ (templateParts host path body method headers).openLines,
      HeadText line ∧ line ≠ [] := by
  intro line hline
  have hmem : line ∈ requestLine method path ::
      (requestHead host path body method headers).fields.map fieldLine := by
    rw [← openLines_template]
    exact List.mem_append_left _ hline
  refine ⟨headText_lines hhost hpath hheaders line hmem, ?_⟩
  rcases List.mem_cons.mp hmem with rfl | hmem
  · exact requestLine_ne_nil
  · obtain ⟨f, -, rfl⟩ := List.mem_map.mp hmem
    exact fieldLine_ne_nil f

/-- **The request as it is read**: its text up to a NUL in the body. -/
theorem decodeHead_upTo (hhost : HeadText host)
    (hpath : HeadText path ∧ ' ' ∉ path)
    (hheaders : ∀ f ∈ writtenEntries headers,
      (HeadText f.1 ∧ ':' ∉ f.1) ∧ HeadText f.2) :
    let text := upTo '\x00'
      (syncCreateHttpv1template host path body method headers)
    decodeHead text = some (requestHead host path body method headers) ∧
      behindHead text = some (requestRest body method headers) := by
  have htexts : ∀ f ∈ writtenEntries headers, HeadText f.1 ∧ HeadText f.2 :=
    fun f hf => ⟨(hheaders f hf).1.1, (hheaders f hf).2⟩
  have hopen := openLines_template host path body method headers
  have hlines : ∀ line ∈ (templateParts host path body method headers).openLines,
      HeadText line ∧ line ≠ [] :=
    headText_openLines hhost hpath.1 htexts
  intro text
  have htext : text = RequestParts.render
      { templateParts host path body method headers with
        behind := requestRest body method headers } := by
    show upTo '\x00' _ = _
    rw [template_render, upTo_render fun line hline => (hlines line hline).1.nul]
    have hcrlf : '\x00' ∉ crlf := by decide
    rw [requestRest, ← upTo_append_of_not_mem hcrlf]
    rfl
  obtain ⟨hread, hbehind⟩ := RequestParts.render_read
    (r := { templateParts host path body method headers with
      behind := requestRest body method headers })
    fun line hline => ⟨(hlines line hline).1.cr, (hlines line hline).2⟩
  rw [← htext] at hread hbehind
  refine ⟨?_, hbehind⟩
  have hkeys : ∀ f ∈ (requestHead host path body method headers).fields,
      ':' ∉ f.1 :=
    forall_requestHead (P := fun f => ':' ∉ f.1)
      (show ':' ∉ "Host".toList by decide)
      (fun f hf => (hheaders f hf).1.2)
      (show ':' ∉ "Content-Length".toList by decide) (by decide)
  have hfields : headLines text = some (requestLine method path ::
      (requestHead host path body method headers).fields.map fieldLine) := by
    rw [hread, ← hopen]
    rfl
  rw [decodeHead, hfields, Option.bind_some, decodeLines,
    split_requestLine hpath.2]
  show Option.map _ (List.mapM decodeField _) = _
  rw [decodeFields_fieldLines hkeys]
  rfl

/-! ## Where host and path come from -/

theorem slice_subset (s : Text) (a b : ℕ) : slice s a b ⊆ s := fun _ hc =>
  List.mem_of_mem_drop (List.mem_of_mem_take hc)

/-- The host is a part of the string. -/
theorem authority_host_subset {s : Text} {f : Front}
    (hf : (authority s).front? = some f) : f.host ⊆ s := by
  rcases authority_host hf with hnil | ⟨-, hslice⟩
  · rw [hnil]
    exact List.nil_subset s
  · rw [hslice]
    exact slice_subset s _ _

/-- What a parser returns comes from a front that has been read. -/
theorem outcome_returned {s : Text} {σ ρ : Type} {M : FrontMachine s σ ρ}
    {a : Authority} {q : ρ} (h : M.outcome a = .returned q) :
    ∃ f, a.front? = some f ∧
      (q = M.result f ∨ ∃ slash, M.finish f slash = .returned q) := by
  cases a with
  | stopped f =>
      cases h
      exact ⟨f, rfl, Or.inl rfl⟩
  | truncated => cases h
  | badPort e => cases h
  | complete f slash => exact ⟨f, rfl, Or.inr ⟨slash, h⟩⟩

theorem parserBasicUrl_subset {p : UrlHttpParser} {q : BasicUrlParserResult}
    (h : p.parserBasicUrl = .returned q) :
    q.addrsHost ⊆ p.parserChar ∧ q.addrsPath ⊆ p.parserChar := by
  rw [parserBasicUrl_eq] at h
  obtain ⟨f, hf, rfl | ⟨slash, hfinish⟩⟩ := outcome_returned h
  · exact ⟨authority_host_subset hf, List.nil_subset _⟩
  · cases hfinish
    exact ⟨authority_host_subset hf, List.drop_subset _ _⟩

theorem finishQuery_returned {q q' : QueryUrlParserResult}
    (h : finishQuery q = .returned q') :
    q'.addrsHost = q.addrsHost ∧ q'.basicPath = q.basicPath ∧
      q'.queryPath = q.queryPath := by
  rw [finishQuery] at h
  split at h
  · cases h
    exact ⟨rfl, rfl, rfl⟩
  · cases h
  · cases h

theorem parserQueryUrl_subset {p : UrlHttpParser} {q : QueryUrlParserResult}
    (h : p.parserQueryUrl = .returned q) :
    q.addrsHost ⊆ p.parserChar ∧ q.basicPath ⊆ p.parserChar ∧
      q.queryPath ⊆ p.parserChar := by
  rw [parserQueryUrl_eq] at h
  obtain ⟨f, hf, rfl | ⟨slash, hfinish⟩⟩ := outcome_returned h
  · exact ⟨authority_host_subset hf, List.nil_subset _, List.nil_subset _⟩
  · change queryFinishFrom p.parserChar f.query slash slash = _ at hfinish
    rw [queryFinishFrom] at hfinish
    split at hfinish
    · -- a URL without a query has no path either
      cases hfinish
      exact ⟨authority_host_subset hf, List.nil_subset _, List.nil_subset _⟩
    · obtain ⟨hhost, hbasic, hquery⟩ := finishQuery_returned hfinish
      rw [hhost, hbasic, hquery]
      exact ⟨authority_host_subset hf, slice_subset _ _ _,
        slice_subset _ _ _⟩

theorem map_eq_returned {ρ ρ' : Type} {φ : ρ → ρ'} {e : ParseEnd ρ} {q' : ρ'}
    (h : e.map φ = .returned q') : ∃ q, e = .returned q ∧ φ q = q' := by
  cases e with
  | returned q =>
      cases h
      exact ⟨q, rfl, rfl⟩
  | threw e => cases h
  | pastEnd => cases h
  | terminated => cases h
  | running => cases h

/-- Host and path are made of the characters of the URL. -/
theorem UrlHttpParser.Targets.subset {p : UrlHttpParser} {m : ToolMemory}
    (h : p.Targets m host path) :
    host ⊆ p.parserChar ∧ path ⊆ p.parserChar := by
  cases h with
  | basic h =>
      rw [UrlHttpParser.syncParserBasicUri, parserBasicUrlIn_eq] at h
      obtain ⟨_, hparsed, rfl⟩ := map_eq_returned h
      obtain ⟨q, hparser, rfl⟩ := map_eq_returned hparsed
      exact parserBasicUrl_subset (q := q) hparser
  | query h =>
      rw [UrlHttpParser.syncParserQueryUrl, parserQueryUrlIn_eq] at h
      obtain ⟨_, hparsed, rfl⟩ := map_eq_returned h
      obtain ⟨q, hparser, rfl⟩ := map_eq_returned hparsed
      obtain ⟨hhost, hbasic, hquery⟩ := parserQueryUrl_subset hparser
      exact ⟨hhost, List.append_subset.mpr ⟨hbasic, hquery⟩⟩

end

/-! ## What arrives -/

section

variable {message : Bytes}

/-- What `async_write_tls` has sent so far. -/
def TextSoFar (message : Bytes) (h : TlsTrace) : Prop :=
  h.sent <+: cString message

theorem textSoFar_post : WritePost message (TextSoFar message) := by
  constructor
  · intro h hh
    exact hh.soFar
  · intro h s hh _
    rw [TextSoFar, TlsTrace.sent_snoc]
    simpa using hh.soFar

/-! ## The request -/

variable {host path body : Text} {method : HttpMethod}
variable {headers : List (Text × Text)} {sent : Bytes} {success : Prop}

theorem oneByte_template (hhost : HeadText host) (hpath : HeadText path)
    (hheaders : ∀ f ∈ writtenEntries headers, HeadText f.1 ∧ HeadText f.2)
    (hbody : OneByte body) :
    OneByte (syncCreateHttpv1template host path body method headers) := by
  have hlines : ∀ line ∈ (templateParts host path body method headers).openLines,
      HeadText line ∧ line ≠ [] :=
    headText_openLines hhost hpath hheaders
  have hcrlf : OneByte crlf := by decide
  have hempty : OneByte emptyLine := by decide
  have hclose : OneByte (fieldLine connectionField) := by decide
  rw [template_render, RequestParts.render]
  simp only [oneByte_append]
  refine ⟨?_, hclose, hempty, ?_⟩
  · intro c hc
    obtain ⟨line, hline, hc⟩ := List.mem_flatMap.mp hc
    exact oneByte_append.mpr ⟨(hlines line hline).1.oneByte, hcrlf⟩ c hc
  · rw [templateParts, oneByte_append]
    refine ⟨hcrlf, ?_⟩
    split
    · cases method with
      | get => exact fun c hc => absurd hc List.not_mem_nil
      | post => exact hbody
    · exact fun c hc => absurd hc List.not_mem_nil

/-- What has been sent of a request, read by the peer. -/
theorem arriving_of_prefix (hhost : HeadText host)
    (hpath : HeadText path ∧ ' ' ∉ path)
    (hheaders : ∀ f ∈ writtenEntries headers,
      (HeadText f.1 ∧ ':' ∉ f.1) ∧ HeadText f.2)
    (hbytes : OneByte
      (syncCreateHttpv1template host path body method headers))
    (hsent : sent <+: cString (toBytes
      (syncCreateHttpv1template host path body method headers)))
    (hall : success → sent = cString (toBytes
      (syncCreateHttpv1template host path body method headers))) :
    Arriving (requestHead host path body method headers)
      (requestRest body method headers) sent success := by
  obtain ⟨hhead, hrest⟩ : decodeHead (upTo '\x00'
        (syncCreateHttpv1template host path body method headers)) =
          some (requestHead host path body method headers) ∧
      behindHead (upTo '\x00'
        (syncCreateHttpv1template host path body method headers)) =
          some (requestRest body method headers) :=
    decodeHead_upTo hhost hpath hheaders
  have htext := ofBytes_cString hbytes
  rw [← htext] at hhead hrest
  constructor
  · rw [← hhead]
    exact decodeHead_of_prefix (ofBytes_isPrefix hsent)
  · intro hsuccess
    rw [hall hsuccess]
    exact ⟨hhead, hrest⟩

end

end Mtasc
