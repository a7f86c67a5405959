import Mtasc.Http.Template
import Mtasc.Lib.Cut

/-!
# Reading the request back

A reader of the request, as a server would have it: the head ends at the first
empty line, its lines at CRLF, the request line is cut at spaces and each other
line at its first `": "`. It recovers the head from every request. Behind the
empty line it finds two bytes too many, since the terminator of the template is
two empty lines after a line that has ended itself.
-/

namespace Mtasc

open Lib

/-! ## The reader -/

/-- CRLF CRLF. -/
def emptyLine : Text := ['\r', '\n', '\r', '\n']

/-- What follows the first empty line. -/
def behindHead (request : Text) : Option Text :=
  (cut emptyLine request).map Prod.snd

/-- The lines of the head. -/
def headLines (request : Text) : Option (List Text) :=
  (cut emptyLine request).map fun p => split crlf p.1

def decodeField (line : Text) : Option (Text × Text) := cut [':', ' '] line

structure RequestHead where
  method : Text
  path : Text
  version : Text
  fields : List (Text × Text)
deriving DecidableEq

def decodeLines : List Text → Option RequestHead
  | [] => none
  | first :: rest =>
      match split [' '] first with
      | [method, path, version] =>
          (rest.mapM decodeField).map (RequestHead.mk method path version)
      | _ => none

def decodeHead (request : Text) : Option RequestHead :=
  (headLines request).bind decodeLines

/-- The number in the `Content-Length` line. -/
def contentLength (request : Text) : Option ℕ := do
  let lines ← headLines request
  let value ← (lines.tail.filterMap decodeField).lookup "Content-Length".toList
  return Nat.ofDigitChars 10 value 0

/-- The bytes behind the head are the body, and a POST announces as many. -/
structure Framed (method : HttpMethod) (body request : Text) : Prop where
  payload_eq : behindHead request = some (payload method body)
  length_eq : method = .post →
    contentLength request = (behindHead request).map List.length

/-! ## The lines of the template -/

def OneLine (t : Text) : Prop := '\r' ∉ t ∧ '\n' ∉ t

instance (t : Text) : Decidable (OneLine t) :=
  inferInstanceAs (Decidable (_ ∧ _))

section

variable {host path body : Text} {method : HttpMethod}
variable {headers : List (Text × Text)} {f : Text × Text} {n : ℕ}

theorem toDecimal_digit {c : Char} (hc : c.isDigit = false) (n : ℕ) :
    c ∉ toDecimal n := by
  intro hmem
  have := Nat.isDigit_of_mem_toDigits (by decide) (by decide) hmem
  rw [hc] at this
  cases this

theorem fieldLine_ne_nil (f : Text × Text) : fieldLine f ≠ [] := by
  simp [fieldLine]

theorem cr_not_mem_fieldLine (hkey : '\r' ∉ f.1) (hvalue : '\r' ∉ f.2) :
    '\r' ∉ fieldLine f := by
  have hsep : '\r' ∉ ": ".toList := by decide
  simp only [fieldLine, List.mem_append, not_or]
  exact ⟨⟨hkey, hsep⟩, hvalue⟩

theorem cr_not_mem_requestLine (hpath : '\r' ∉ path) :
    '\r' ∉ requestLine method path := by
  have hmethod : '\r' ∉ methodToStr method := by
    cases method <;> decide
  have hspace : '\r' ∉ " ".toList := by decide
  have hversion : '\r' ∉ "HTTP/1.1".toList := by decide
  simp only [requestLine, List.mem_append, not_or]
  exact ⟨⟨⟨⟨hmethod, hspace⟩, hpath⟩, hspace⟩, hversion⟩

theorem requestLine_ne_nil : requestLine method path ≠ [] := by
  simp [requestLine]

/-- What holds of `Host`, of the entries of the map and of the length field
holds of every field in front of `Connection`. -/
theorem forall_openFields {P : Text × Text → Prop}
    (hhost : P ("Host".toList, host)) (hheaders : ∀ f ∈ headers, P f)
    (hlength : P ("Content-Length".toList, toDecimal body.length)) :
    ∀ f ∈ openFields host body method headers, P f := by
  intro f hf
  rw [openFields, List.mem_append, List.mem_cons] at hf
  rcases hf with (rfl | hf) | hf
  · exact hhost
  · exact hheaders f hf
  · cases method with
    | get => exact absurd hf List.not_mem_nil
    | post =>
        rw [lengthField, List.mem_singleton] at hf
        exact hf ▸ hlength

theorem cr_not_mem_openFields (hhost : '\r' ∉ host)
    (hheaders : ∀ f ∈ headers, '\r' ∉ f.1 ∧ '\r' ∉ f.2) :
    ∀ f ∈ openFields host body method headers, '\r' ∉ fieldLine f := by
  refine forall_openFields ?_ ?_ ?_
  · exact cr_not_mem_fieldLine (show '\r' ∉ "Host".toList by decide) hhost
  · intro f hf
    exact cr_not_mem_fieldLine (hheaders f hf).1 (hheaders f hf).2
  · exact cr_not_mem_fieldLine (show '\r' ∉ "Content-Length".toList by decide)
      (toDecimal_digit (by decide) _)

theorem cr_not_mem_connection : '\r' ∉ fieldLine connectionField := by decide

/-- **Where the template is cut.** The first empty line is the one that the
`Connection` line begins, and another CRLF comes before the body. -/
theorem cut_template (body : Text) (method : HttpMethod)
    (hpath : '\r' ∉ path) (hhost : '\r' ∉ host)
    (hheaders : ∀ f ∈ headers, ('\r' ∉ f.1 ∧ '\r' ∉ f.2) ∧
      f.1 ≠ [] ∧ f.2 ≠ []) :
    cut emptyLine (syncCreateHttpv1template host path body method headers) =
      some ((requestLine method path ::
          (openFields host body method headers).map fieldLine).flatMap
            (· ++ crlf) ++ fieldLine connectionField,
        crlf ++ payload method body) := by
  rw [template_eq_lines fun f hf => (hheaders f hf).2]
  refine cut_blank (by decide) ?_ ⟨cr_not_mem_connection,
    fieldLine_ne_nil _⟩ _
  intro line hline
  rcases List.mem_cons.mp hline with rfl | hline
  · exact ⟨cr_not_mem_requestLine hpath, requestLine_ne_nil⟩
  · obtain ⟨f, hf, rfl⟩ := List.mem_map.mp hline
    exact ⟨cr_not_mem_openFields hhost (fun g hg => (hheaders g hg).1) f hf,
      fieldLine_ne_nil f⟩

theorem headLines_template (body : Text) (method : HttpMethod)
    (hpath : '\r' ∉ path) (hhost : '\r' ∉ host)
    (hheaders : ∀ f ∈ headers, ('\r' ∉ f.1 ∧ '\r' ∉ f.2) ∧
      f.1 ≠ [] ∧ f.2 ≠ []) :
    headLines (syncCreateHttpv1template host path body method headers) =
      some (requestLine method path ::
        (openFields host body method headers ++ [connectionField]).map
          fieldLine) := by
  rw [headLines, cut_template body method hpath hhost hheaders,
    Option.map_some]
  show some (split ('\r' :: ['\n']) _) = _
  have hlines : ∀ line ∈ requestLine method path ::
      (openFields host body method headers).map fieldLine, '\r' ∉ line := by
    intro line hline
    rcases List.mem_cons.mp hline with rfl | hline
    · exact cr_not_mem_requestLine hpath
    · obtain ⟨f, hf, rfl⟩ := List.mem_map.mp hline
      exact cr_not_mem_openFields hhost (fun g hg => (hheaders g hg).1) f hf
  have hsplit := split_join (t := ['\n']) hlines cr_not_mem_connection
  simpa [crlf] using hsplit

/-! ## Framing -/

/-- **Two bytes too many.** Behind the first empty line there is a CRLF and
then the body, so that no request is framed. -/
theorem template_not_framed (host path body : Text) (method : HttpMethod)
    (headers : List (Text × Text)) (hhost : OneLine host)
    (hpath : OneLine path)
    (hheaders : ∀ f ∈ headers, (f.1 ≠ [] ∧ OneLine f.1) ∧
      (f.2 ≠ [] ∧ OneLine f.2) ∧ f.1 ∉ ["Host".toList, "Connection".toList,
        "Content-Length".toList]) :
    let request := syncCreateHttpv1template host path body method headers
    behindHead request = some (crlf ++ payload method body) ∧
      ¬ Framed method body request := by
  have hcut := cut_template body method hpath.1 hhost.1
    fun f hf => ⟨⟨(hheaders f hf).1.2.1, (hheaders f hf).2.1.2.1⟩,
      (hheaders f hf).1.1, (hheaders f hf).2.1.1⟩
  have hbehind : behindHead
      (syncCreateHttpv1template host path body method headers) =
        some (crlf ++ payload method body) := by
    rw [behindHead, hcut]
    rfl
  refine ⟨hbehind, fun hframed => ?_⟩
  have hpayload := hframed.payload_eq
  rw [hbehind] at hpayload
  have hnil : crlf = [] := List.append_left_eq_self.mp
    (Option.some.inj hpayload)
  exact absurd hnil (by decide)

/-- A body of four bytes: the length field says 4, and six bytes follow. -/
theorem template_not_framed_post :
    let request := syncCreateHttpv1template "h".toList "/".toList
      "a=bc".toList .post [("A".toList, "b".toList)]
    (contentLength request = some 4 ∧
      behindHead request = some "\r\na=bc".toList) ∧
      ¬ Framed .post "a=bc".toList request :=
  ⟨by decide +kernel, (template_not_framed _ _ _ _ _ (by decide) (by decide)
    (by decide)).2⟩

/-- So it is not the case that every request is framed: a POST without headers
is not. -/
theorem template_misframes :
    ¬ ∀ (host path body : Text) (method : HttpMethod)
      (headers : List (Text × Text)), OneLine host → OneLine path →
      (∀ f ∈ headers, (f.1 ≠ [] ∧ OneLine f.1) ∧ (f.2 ≠ [] ∧ OneLine f.2) ∧
        f.1 ∉ ["Host".toList, "Connection".toList,
          "Content-Length".toList]) →
      Framed method body
        (syncCreateHttpv1template host path body method headers) := by
  intro hall
  have hframed := hall "h".toList "/".toList "a=bc".toList .post []
    (by decide) (by decide) (by decide)
  have hpayload := hframed.payload_eq
  revert hpayload
  decide +kernel

/-! ## The head -/

theorem split_requestLine (hpath : ' ' ∉ path) :
    split [' '] (requestLine method path) =
      [methodToStr method, path, "HTTP/1.1".toList] := by
  have hmethod : ' ' ∉ methodToStr method := by
    cases method <;> decide
  have hparts : ∀ part ∈ [methodToStr method, path], ' ' ∉ part := by
    intro part hpart
    rcases List.mem_cons.mp hpart with rfl | hpart
    · exact hmethod
    · exact List.mem_singleton.mp hpart ▸ hpath
  have hsplit := split_join (c := ' ') (t := []) hparts
    (l := "HTTP/1.1".toList) (by decide)
  simpa [requestLine] using hsplit

theorem decodeField_fieldLine (hkey : ':' ∉ f.1) :
    decodeField (fieldLine f) = some f := by
  have hcut := cut_token (t := [' ']) (b := f.2) hkey
  simpa [decodeField, fieldLine] using hcut

theorem decodeFields_fieldLines {fields : List (Text × Text)}
    (h : ∀ f ∈ fields, ':' ∉ f.1) :
    (fields.map fieldLine).mapM decodeField = some fields := by
  induction fields with
  | nil => rfl
  | cons f fields ih =>
      rw [List.map_cons, List.mapM_cons,
        decodeField_fieldLine (h f List.mem_cons_self),
        ih fun g hg => h g (List.mem_cons_of_mem _ hg)]
      rfl

/-- **The head of a request can be read back**, whatever the body is and in
whatever order the header map is iterated: the method, the path, the version,
and each field just once. -/
theorem decodeHead_template (host path body : Text) (method : HttpMethod)
    (headers : List (Text × Text)) (hhost : OneLine host)
    (hpath : OneLine path ∧ ' ' ∉ path)
    (hheaders : ∀ f ∈ headers, (f.1 ≠ [] ∧ ':' ∉ f.1 ∧ OneLine f.1) ∧
      f.2 ≠ [] ∧ OneLine f.2) :
    ∃ fields,
      decodeHead (syncCreateHttpv1template host path body method headers) =
        some ⟨methodToStr method, path, "HTTP/1.1".toList, fields⟩ ∧
      (fields : Multiset (Text × Text)) =
        ("Host".toList, host) ::ₘ ("Connection".toList, "close".toList) ::ₘ
          (headers + lengthField method body : Multiset (Text × Text)) := by
  refine ⟨openFields host body method headers ++ [connectionField], ?_, ?_⟩
  · have hlines := headLines_template body method
      hpath.1.1 hhost.1 fun f hf =>
        ⟨⟨(hheaders f hf).1.2.2.1, (hheaders f hf).2.2.1⟩,
          (hheaders f hf).1.1, (hheaders f hf).2.1⟩
    have hkeys : ∀ f ∈ openFields host body method headers ++
        [connectionField], ':' ∉ f.1 := by
      intro f hf
      rcases List.mem_append.mp hf with hf | hf
      · exact forall_openFields (P := fun f => ':' ∉ f.1)
          (show ':' ∉ "Host".toList by decide)
          (fun g hg => (hheaders g hg).1.2.1)
          (show ':' ∉ "Content-Length".toList by decide) f hf
      · rw [List.mem_singleton.mp hf]
        decide
    rw [decodeHead, hlines, Option.bind_some, decodeLines,
      split_requestLine hpath.2]
    show Option.map _ (List.mapM decodeField _) = _
    rw [decodeFields_fieldLines hkeys]
    rfl
  · -- the `Connection` line is the last of the head
    rw [openFields, ← Multiset.coe_add, List.cons_append, ← Multiset.cons_coe,
      ← Multiset.coe_add, Multiset.coe_singleton, Multiset.cons_add,
      Multiset.add_comm _ ({connectionField} : Multiset (Text × Text)),
      Multiset.singleton_add]
    rfl

/-- A POST with two headers and CRLF in its body. -/
theorem decodeHead_template_post : ∃ fields,
    decodeHead (syncCreateHttpv1template "h:80".toList "/p?q".toList
        "\r\n\r\n".toList .post
        [("A".toList, "b: c".toList), ("D".toList, "e".toList)]) =
      some ⟨"POST".toList, "/p?q".toList, "HTTP/1.1".toList, fields⟩ ∧
    (fields : Multiset (Text × Text)) =
      ("Host".toList, "h:80".toList) ::ₘ
        ("Connection".toList, "close".toList) ::ₘ
        (([("A".toList, "b: c".toList), ("D".toList, "e".toList)] :
            List (Text × Text)) +
          lengthField .post "\r\n\r\n".toList : Multiset (Text × Text)) :=
  decodeHead_template _ _ _ .post _ (by decide) (by decide) (by decide)

end

end Mtasc
