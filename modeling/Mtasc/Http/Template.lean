import Mtasc.Client.Context
import Mtasc.Parser.Stoi

/-!
# `syncCreateHttpv1template`

The request the client tool writes. The entries of the header map are a list,
in the order in which the iteration meets them.
-/

namespace Mtasc

inductive HttpMethod where
  | get
  | post
deriving DecidableEq, Repr

/-- `methodTool::methodToStr`. -/
def methodToStr : HttpMethod → Text
  | .get => "GET".toList
  | .post => "POST".toList

def crlf : Text := ['\r', '\n']

/-- `std::to_string` of a `size_t`. -/
def toDecimal (n : ℕ) : Text := Nat.toDigits 10 n

/-- The loop over the header map. An entry with an empty key or value ends the
request, without a body. -/
def appendHeaders : Text → List (Text × Text) → Flow Text Text
  | template, [] => .fall template
  | template, (key, value) :: rest =>
      if key ≠ [] ∧ value ≠ [] then
        appendHeaders (template ++ (key ++ ": ".toList ++ value ++ crlf)) rest
      else
        .return (template ++ "Connection: close\r\n".toList ++
          "\r\n\r\n".toList)

def syncCreateHttpv1template (host path body : Text) (method : HttpMethod)
    (headers : List (Text × Text)) : Text :=
  let template := methodToStr method ++ " ".toList ++ path ++ " ".toList ++
    "HTTP/1.1\r\n".toList
  let template := template ++ ("Host: ".toList ++ host ++ crlf)
  match appendHeaders template headers with
  | .return template => template
  | .fall template =>
      if method = .get then
        template ++ "Connection: close\r\n".toList ++ "\r\n\r\n".toList
      else
        template ++ ("Content-Length: ".toList ++ toDecimal body.length ++ crlf) ++
          "Connection: close\r\n".toList ++ "\r\n\r\n".toList ++ body

/-! ## The request as a join of lines -/

/-- `key: value`. -/
def fieldLine (field : Text × Text) : Text :=
  field.1 ++ ": ".toList ++ field.2

def requestLine (method : HttpMethod) (path : Text) : Text :=
  methodToStr method ++ " ".toList ++ path ++ " ".toList ++ "HTTP/1.1".toList

/-- The length field, which only a POST has. -/
def lengthField : HttpMethod → Text → List (Text × Text)
  | .get, _ => []
  | .post, body => [("Content-Length".toList, toDecimal body.length)]

/-- The body a request with this method has. -/
def payload : HttpMethod → Text → Text
  | .get, _ => []
  | .post, body => body

/-- The fields in front of `Connection: close`. -/
def openFields (host body : Text) (method : HttpMethod)
    (headers : List (Text × Text)) : List (Text × Text) :=
  ("Host".toList, host) :: headers ++ lengthField method body

def connectionField : Text × Text := ("Connection".toList, "close".toList)

section

variable {host path body template : Text} {method : HttpMethod}
variable {headers : List (Text × Text)}

theorem appendHeaders_eq (h : ∀ f ∈ headers, f.1 ≠ [] ∧ f.2 ≠ []) :
    appendHeaders template headers =
      .fall (template ++ (headers.map fieldLine).flatMap (· ++ crlf)) := by
  induction headers generalizing template with
  | nil => simp [appendHeaders]
  | cons f headers ih =>
      obtain ⟨key, value⟩ := f
      have hf := h (key, value) List.mem_cons_self
      rw [appendHeaders, if_pos hf,
        ih fun g hg => h g (List.mem_cons_of_mem _ hg)]
      simp [fieldLine]

/-- **The request as lines.** The `Connection` line ends itself, and the
terminator `"\r\n\r\n"` is two more empty lines. -/
theorem template_eq_lines (h : ∀ f ∈ headers, f.1 ≠ [] ∧ f.2 ≠ []) :
    syncCreateHttpv1template host path body method headers =
      (requestLine method path ::
          (openFields host body method headers).map fieldLine).flatMap
            (· ++ crlf) ++
        (fieldLine connectionField ++
          (['\r', '\n', '\r', '\n'] ++ (crlf ++ payload method body))) := by
  have hversion : "HTTP/1.1\r\n".toList = "HTTP/1.1".toList ++ crlf := rfl
  have hhost : "Host: ".toList = "Host".toList ++ ": ".toList := rfl
  have hlength : "Content-Length: ".toList =
    "Content-Length".toList ++ ": ".toList := rfl
  have hclose : "Connection: close\r\n".toList =
    fieldLine connectionField ++ crlf := rfl
  have hend : "\r\n\r\n".toList = crlf ++ crlf := rfl
  have hblank : ['\r', '\n', '\r', '\n'] = crlf ++ crlf := rfl
  rw [syncCreateHttpv1template, appendHeaders_eq h, hversion, hhost, hlength,
    hclose, hend, hblank]
  cases method with
  | get =>
      simp [requestLine, openFields, lengthField, payload, fieldLine]
  | post =>
      simp [requestLine, openFields, lengthField, payload, fieldLine]

end

end Mtasc
