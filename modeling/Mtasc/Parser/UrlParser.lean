import Mtasc.Lib.Word
import Mtasc.Lib.Splice
import Mtasc.Lib.Loop
import Mtasc.Parser.Stoi

/-!
# `urlHttpParser`

The two URL parsers of the client tool and the query-parameter scan. Each
parser is a `while (pos != end)` loop over a `switch`, modelled as one
iteration (`basicStep`, `queryStep`) run by `loop`. Cursors are offsets into
the string; reading at the end gives the terminating NUL.

The comparison of the loops is `!=`, so a cursor that has been moved past the
end is never caught. From there on the source reads outside the string; the
model ends such a run with `pastEnd`.
-/

namespace Mtasc

open Lib

/-! ## Strings -/

/-- `*(data() + i)`, the terminating NUL included. -/
def charAt (s : Text) (i : ℕ) : Char := s.getD i '\x00'

/-- `std::string::npos`. -/
def npos : ℕ := 2 ^ 64 - 1

/-- `std::string::find` of a one-character string. -/
def find (s : Text) (c : Char) (pos : ℕ) : ℕ :=
  let i := firstIn (fun i => charAt s i == c) pos s.length
  if i < s.length then i else npos

/-- `std::string::substr`; `none` is the thrown `std::out_of_range`. -/
def substr (s : Text) (pos count : ℕ) : Option Text :=
  if pos ≤ s.length then some ((s.drop pos).take count) else none

/-! ## Results -/

structure BasicUrlParserResult where
  addrsHost : Text := []
  addrsPath : Text := []
  httpSign : Text := []
  /-- No default initialiser in the source: `none` until it is assigned. -/
  addrsPort : Option UInt16 := none
  isEnableTls : Bool := false
deriving DecidableEq

/-- `std::map<std::string, std::string>`. -/
abbrev ParamterMap : Type := Finmap fun _ : Text => Text

structure QueryUrlParserResult where
  addrsHost : Text := []
  basicPath : Text := []
  httpSign : Text := []
  queryPath : Text := []
  /-- No default initialiser in the source: `none` until it is assigned. -/
  addrsPort : Option UInt16 := none
  isEnableTls : Bool := false
  queryParamterMap : ParamterMap := ∅

/-- How a parser call ends. -/
inductive ParseEnd (ρ : Type) where
  | returned (r : ρ)
  | threw (e : StoiError)
  /-- The cursor has passed the end of the string. -/
  | pastEnd
  /-- An exception met a `noexcept` boundary: `std::terminate`. -/
  | terminated
  /-- The iterations granted to the loop are used up. -/
  | running

/-- `urlHttpParser`: the string it parses, of a size a string can have. -/
structure UrlHttpParser where
  parserChar : Text
  fits : parserChar.length < 2 ^ 63

/-! ## `M_parserQueryParamter` -/

/-- The value bound to a key without `=`. -/
def emptyParamter : Text := "[EMPYTY-PARAMTER]".toList

structure ParamterCursor where
  ops : ℕ
  map : ParamterMap

/-- One iteration of the loop; the result `none` is an exception, which ends
the process because the function is `noexcept`. -/
def paramterStep (s : Text) (c : ParamterCursor) :
    Iter ParamterCursor (Option ParamterMap) :=
  if c.ops < s.length then
    let ops := if charAt s c.ops = '?' then c.ops + 1 else c.ops
    let eqOps := find s '=' ops
    let ampFound := find s '&' ops
    let ampOps := if ampFound = npos then s.length else ampFound
    match substr s ops (wsub 64 eqOps ops) with
    | none => .done none
    | some queryKey =>
        if eqOps ≠ npos ∧ eqOps < ampOps then
          match substr s (wadd 64 eqOps 1) (wsub 64 (wsub 64 ampOps eqOps) 1) with
          | none => .done none
          | some queryValue =>
              .next ⟨wadd 64 ampOps 1, c.map.insert queryKey queryValue⟩
        else
          .next ⟨wadd 64 ampOps 1, c.map.insert queryKey emptyParamter⟩
  else
    .done (some c.map)

def parserQueryParamter (fullUrlPath : Text) : Option (Option ParamterMap) :=
  if fullUrlPath = [] then some (some ∅)
  else loop (paramterStep fullUrlPath) (fullUrlPath.length + 1) ⟨0, ∅⟩

/-! ## `parserBasicUrl` -/

inductive BasicParserState where
  | sign
  | host
  | port
  | path
  | finish
deriving DecidableEq

structure BasicCursor where
  state : BasicParserState
  pos : ℕ
  start : ℕ
  result : BasicUrlParserResult

/-- The `switch` of `parserBasicUrl`, with the cursor on a character. -/
def basicSwitch (s : Text) (c : BasicCursor) :
    Iter BasicCursor (ParseEnd BasicUrlParserResult) :=
  let ch := charAt s c.pos
  let token := slice s c.start c.pos
  match c.state with
  | .sign =>
      if ch = ':' ∧ charAt s (c.pos + 1) = '/' then
        .next ⟨.host, c.pos + 3, c.pos + 3,
          { c.result with
            httpSign := token, isEnableTls := token = "https".toList }⟩
      else .next { c with pos := c.pos + 1 }
  | .host =>
      if ch = ':' ∨ ch = '/' then
        if ch = ':' then
          .next ⟨.port, c.pos + 1, c.pos + 1,
            { c.result with addrsHost := token }⟩
        else
          .next ⟨.path, c.pos, c.pos, { c.result with addrsHost := token }⟩
      else .next { c with pos := c.pos + 1 }
  | .port =>
      if ch = '/' then
        match stoi token with
        | .error e => .done (.threw e)
        | .ok value =>
            .next ⟨.path, c.pos, c.pos,
              { c.result with addrsPort := some (toPort value) }⟩
      else .next { c with pos := c.pos + 1 }
  | .path =>
      let path := s.drop c.start
      .next { c with
        state := .finish
        result := { c.result with
          addrsPath := if path = [] then ['/'] else path } }
  | .finish => .done (.returned c.result)

/-- One iteration of the loop of `parserBasicUrl`. -/
def basicStep (s : Text) (c : BasicCursor) :
    Iter BasicCursor (ParseEnd BasicUrlParserResult) :=
  if c.pos = s.length then .done (.returned c.result)
  else if s.length < c.pos then .done .pastEnd
  else basicSwitch s c

/-- The iterations granted to the loop of either parser. -/
def parserBudget (s : Text) : ℕ := s.length + 8

def UrlHttpParser.parserBasicUrl (p : UrlHttpParser) :
    ParseEnd BasicUrlParserResult :=
  (loop (basicStep p.parserChar) (parserBudget p.parserChar)
    ⟨.sign, 0, 0, {}⟩).getD .running

/-! ## `parserQueryUrl` -/

inductive QueryParserState where
  | sign
  | host
  | port
  | query
  | finish
deriving DecidableEq

structure QueryCursor where
  state : QueryParserState
  ops : ℕ
  start : ℕ
  result : QueryUrlParserResult

/-- The `switch` of `parserQueryUrl`, with the cursor on a character. -/
def querySwitch (s : Text) (c : QueryCursor) :
    Iter QueryCursor (ParseEnd QueryUrlParserResult) :=
  let ch := charAt s c.ops
  let token := slice s c.start c.ops
  match c.state with
  | .sign =>
      if ch = ':' ∧ charAt s (c.ops + 1) = '/' then
        .next ⟨.host, c.ops + 3, c.ops + 3,
          { c.result with
            httpSign := token, isEnableTls := token = "https".toList }⟩
      else .next { c with ops := c.ops + 1 }
  | .host =>
      if ch = ':' ∨ ch = '/' then
        if ch = ':' then
          .next ⟨.port, c.ops + 1, c.ops + 1,
            { c.result with addrsHost := token }⟩
        else
          -- unlike `parserBasicUrl`, this case breaks: the slash is skipped
          .next ⟨.query, c.ops + 1, c.ops,
            { c.result with addrsHost := token }⟩
      else .next { c with ops := c.ops + 1 }
  | .port =>
      if ch = '/' then
        match stoi token with
        | .error e => .done (.threw e)
        | .ok value =>
            .next ⟨.query, c.ops, c.ops,
              { c.result with addrsPort := some (toPort value) }⟩
      else .next { c with ops := c.ops + 1 }
  | .query =>
      if ch = '?' ∨ ch = '#' then
        let queryEnd := firstIn (fun i => charAt s i == '#') c.ops s.length
        .next { c with
          state := .finish
          result := { c.result with
            basicPath := token, queryPath := slice s c.ops queryEnd } }
      else .next { c with ops := c.ops + 1 }
  | .finish =>
      match parserQueryParamter c.result.queryPath with
      | some (some m) =>
          .done (.returned { c.result with queryParamterMap := m })
      | some none => .done .terminated
      | none => .done .running

/-- One iteration of the loop of `parserQueryUrl`. -/
def queryStep (s : Text) (c : QueryCursor) :
    Iter QueryCursor (ParseEnd QueryUrlParserResult) :=
  if c.ops = s.length then .done (.returned c.result)
  else if s.length < c.ops then .done .pastEnd
  else querySwitch s c

def UrlHttpParser.parserQueryUrl (p : UrlHttpParser) :
    ParseEnd QueryUrlParserResult :=
  (loop (queryStep p.parserChar) (parserBudget p.parserChar)
    ⟨.sign, 0, 0, {}⟩).getD .running

end Mtasc
