import Mtasc.Parser.Port
import Mtasc.Parser.RoundTrip

/-!
# The parsers behind `clientTool`

`addrs_port` has no default initialiser, neither in the results of the parsers
nor in those of the tool: what lies in memory when a parser is called stays
there until a port is assigned, and is copied from one result to the next. The
loops are run from such contents (`parserBasicUrlIn`, `parserQueryUrlIn`), and
`stored` says what comes out.

The asynchronous calls run a parser in a task of the pool. Neither the task nor
the loop of the worker has a handler.
-/

namespace Mtasc

open Lib

def ParseEnd.map {ρ ρ' : Type} (φ : ρ → ρ') : ParseEnd ρ → ParseEnd ρ'
  | .returned r => .returned (φ r)
  | .threw e => .threw e
  | .pastEnd => .pastEnd
  | .terminated => .terminated
  | .running => .running

/-! ## What lies in memory -/

/-- `parserBasicUrl` when `addrs_port` of its result starts as `stored`. -/
def UrlHttpParser.parserBasicUrlIn (p : UrlHttpParser) (stored : UInt16) :
    ParseEnd BasicUrlParserResult :=
  (loop (basicStep p.parserChar) (parserBudget p.parserChar)
    ⟨.sign, 0, 0, { addrsPort := some stored }⟩).getD .running

def UrlHttpParser.parserQueryUrlIn (p : UrlHttpParser) (stored : UInt16) :
    ParseEnd QueryUrlParserResult :=
  (loop (queryStep p.parserChar) (parserBudget p.parserChar)
    ⟨.sign, 0, 0, { addrsPort := some stored }⟩).getD .running

/-- The result over the memory it was written to. -/
def BasicUrlParserResult.over (stored : UInt16) (r : BasicUrlParserResult) :
    BasicUrlParserResult :=
  { r with addrsPort := r.addrsPort.or (some stored) }

def QueryUrlParserResult.over (stored : UInt16) (r : QueryUrlParserResult) :
    QueryUrlParserResult :=
  { r with addrsPort := r.addrsPort.or (some stored) }

def BasicCursor.over (stored : UInt16) (c : BasicCursor) : BasicCursor :=
  { c with result := c.result.over stored }

def QueryCursor.over (stored : UInt16) (c : QueryCursor) : QueryCursor :=
  { c with result := c.result.over stored }

section

variable {s : Text} {stored : UInt16}

/-- No iteration of `parserBasicUrl` reads the port. -/
theorem basicStep_over (c : BasicCursor) :
    basicStep s (c.over stored) =
      (basicStep s c).map (·.over stored) (·.map (·.over stored)) := by
  obtain ⟨state, pos, start, r⟩ := c
  have hover : BasicCursor.over stored ⟨state, pos, start, r⟩ =
    ⟨state, pos, start, r.over stored⟩ := rfl
  rw [hover, basicStep, basicStep]
  dsimp only
  by_cases hend : pos = s.length
  · simp only [if_pos hend]
    rfl
  by_cases hpast : s.length < pos
  · simp only [if_neg hend, if_pos hpast]
    rfl
  simp only [if_neg hend, if_neg hpast]
  cases state with
  | sign =>
      simp only [basicSwitch]
      by_cases hsign : charAt s pos = ':' ∧ charAt s (pos + 1) = '/'
      · simp only [if_pos hsign]
        rfl
      · simp only [if_neg hsign]
        rfl
  | host =>
      simp only [basicSwitch]
      by_cases hsep : charAt s pos = ':' ∨ charAt s pos = '/'
      · by_cases hcolon : charAt s pos = ':'
        · simp only [if_pos hsep, if_pos hcolon]
          rfl
        · simp only [if_pos hsep, if_neg hcolon]
          rfl
      · simp only [if_neg hsep]
        rfl
  | port =>
      simp only [basicSwitch]
      by_cases hslash : charAt s pos = '/'
      · simp only [if_pos hslash]
        cases stoi (slice s start pos) with
        | error e => rfl
        | ok value => rfl
      · simp only [if_neg hslash]
        rfl
  | path => rfl
  | finish => rfl

theorem queryStep_over (c : QueryCursor) :
    queryStep s (c.over stored) =
      (queryStep s c).map (·.over stored) (·.map (·.over stored)) := by
  obtain ⟨state, ops, start, r⟩ := c
  have hover : QueryCursor.over stored ⟨state, ops, start, r⟩ =
    ⟨state, ops, start, r.over stored⟩ := rfl
  rw [hover, queryStep, queryStep]
  dsimp only
  by_cases hend : ops = s.length
  · simp only [if_pos hend]
    rfl
  by_cases hpast : s.length < ops
  · simp only [if_neg hend, if_pos hpast]
    rfl
  simp only [if_neg hend, if_neg hpast]
  cases state with
  | sign =>
      simp only [querySwitch]
      by_cases hsign : charAt s ops = ':' ∧ charAt s (ops + 1) = '/'
      · simp only [if_pos hsign]
        rfl
      · simp only [if_neg hsign]
        rfl
  | host =>
      simp only [querySwitch]
      by_cases hsep : charAt s ops = ':' ∨ charAt s ops = '/'
      · by_cases hcolon : charAt s ops = ':'
        · simp only [if_pos hsep, if_pos hcolon]
          rfl
        · simp only [if_pos hsep, if_neg hcolon]
          rfl
      · simp only [if_neg hsep]
        rfl
  | port =>
      simp only [querySwitch]
      by_cases hslash : charAt s ops = '/'
      · simp only [if_pos hslash]
        cases stoi (slice s start ops) with
        | error e => rfl
        | ok value => rfl
      · simp only [if_neg hslash]
        rfl
  | query =>
      simp only [querySwitch]
      by_cases hmark : charAt s ops = '?' ∨ charAt s ops = '#'
      · simp only [if_pos hmark]
        rfl
      · simp only [if_neg hmark]
        rfl
  | finish =>
      simp only [querySwitch, QueryUrlParserResult.over]
      cases parserQueryParamter r.queryPath with
      | none => rfl
      | some m => cases m <;> rfl

end

/-- What was in memory shows where the parser assigns no port. -/
theorem parserBasicUrlIn_eq (p : UrlHttpParser) (stored : UInt16) :
    p.parserBasicUrlIn stored = p.parserBasicUrl.map (·.over stored) := by
  have hrun := loop_map (BasicCursor.over stored)
    (ParseEnd.map (BasicUrlParserResult.over stored))
    (basicStep_over (s := p.parserChar)) (parserBudget p.parserChar)
    ⟨.sign, 0, 0, {}⟩
  have hinit : BasicCursor.over stored ⟨.sign, 0, 0, {}⟩ =
    ⟨.sign, 0, 0, { addrsPort := some stored }⟩ := rfl
  rw [hinit] at hrun
  rw [UrlHttpParser.parserBasicUrlIn, hrun, UrlHttpParser.parserBasicUrl]
  cases loop (basicStep p.parserChar) (parserBudget p.parserChar)
    ⟨.sign, 0, 0, {}⟩ with
  | none => rfl
  | some e => rfl

theorem parserQueryUrlIn_eq (p : UrlHttpParser) (stored : UInt16) :
    p.parserQueryUrlIn stored = p.parserQueryUrl.map (·.over stored) := by
  have hrun := loop_map (QueryCursor.over stored)
    (ParseEnd.map (QueryUrlParserResult.over stored))
    (queryStep_over (s := p.parserChar)) (parserBudget p.parserChar)
    ⟨.sign, 0, 0, {}⟩
  have hinit : QueryCursor.over stored ⟨.sign, 0, 0, {}⟩ =
    ⟨.sign, 0, 0, { addrsPort := some stored }⟩ := rfl
  rw [hinit] at hrun
  rw [UrlHttpParser.parserQueryUrlIn, hrun, UrlHttpParser.parserQueryUrl]
  cases loop (queryStep p.parserChar) (parserBudget p.parserChar)
    ⟨.sign, 0, 0, {}⟩ with
  | none => rfl
  | some e => rfl

/-! ## The synchronous calls -/

/-- `client_parser_basic_url`. -/
structure ClientParserBasicUrl where
  addrsHost : Text := []
  addrsPath : Text := []
  addrsPort : Option UInt16
  thisUrlEnableTls : Bool

/-- `client_parser_query_url`. -/
structure ClientParserQueryUrl where
  addrsHost : Text := []
  addrsQueryPath : Text := []
  addrsPort : Option UInt16
  thisUrlEnableTls : Bool
  addrsBasicPath : Text := []
  fullPath : Text := []
  queryParamterMap : ParamterMap := ∅

/-- What lies where the parser and the tool put their results. The parser's
result is copied whole into one of the tool's, which is read only then. -/
structure ToolMemory where
  parserPort : UInt16
  clientPort : UInt16
  clientTls : Bool

def UrlHttpParser.syncParserBasicUri (p : UrlHttpParser) (m : ToolMemory) :
    ParseEnd ClientParserBasicUrl :=
  (p.parserBasicUrlIn m.parserPort).map fun parsed =>
    let client : ClientParserBasicUrl :=
      { addrsPort := some m.clientPort, thisUrlEnableTls := m.clientTls }
    { client with
      addrsHost := parsed.addrsHost
      addrsPath := parsed.addrsPath
      addrsPort := parsed.addrsPort
      thisUrlEnableTls := parsed.isEnableTls }

def UrlHttpParser.syncParserQueryUrl (p : UrlHttpParser) (m : ToolMemory) :
    ParseEnd ClientParserQueryUrl :=
  (p.parserQueryUrlIn m.parserPort).map fun parsed =>
    let client : ClientParserQueryUrl :=
      { addrsPort := some m.clientPort, thisUrlEnableTls := m.clientTls }
    let client := { client with
      addrsQueryPath := parsed.queryPath
      addrsBasicPath := parsed.basicPath
      queryParamterMap := parsed.queryParamterMap }
    { client with
      fullPath := client.addrsBasicPath ++ client.addrsQueryPath
      addrsHost := parsed.addrsHost
      addrsPort := parsed.addrsPort
      thisUrlEnableTls := parsed.isEnableTls }

/-! ## Where the contents of memory show -/

/-- A port is assigned just if there is a port text. -/
theorem front_port_isSome {s : Text} {f : Front}
    (hf : (authority s).front? = some f) :
    f.port.isSome ↔ (portText s).isSome := by
  cases ht : portText s with
  | none =>
      rw [(authority_noPort ht).2 f hf]
      rfl
  | some t =>
      cases hv : stoi t with
      | error e =>
          rw [authority_badPort ht hv] at hf
          cases hf
      | ok value =>
          obtain ⟨g, slash, hauth, -, hport⟩ := authority_port ht hv
          rw [hauth] at hf
          cases hf
          rw [hport]
          rfl

/-- Two pieces of memory make no difference to a value that is assigned, and
some two make one to a value that is not. -/
theorem or_stored_iff {o : Option UInt16} :
    (∀ v v' : UInt16, o.or (some v) = o.or (some v')) ↔ o.isSome := by
  cases o with
  | none =>
      constructor
      · intro h
        have hvalue := Option.some.inj (h 0 1)
        exact absurd hvalue (by decide)
      · intro h
        cases h
  | some n => exact iff_of_true (fun _ _ => rfl) rfl

section

variable {p : UrlHttpParser} {r : BasicUrlParserResult}
  {q : QueryUrlParserResult}

theorem parserBasicUrlIn_alike (hr : p.parserBasicUrl = .returned r) :
    (∀ v v', p.parserBasicUrlIn v = p.parserBasicUrlIn v') ↔
      r.addrsPort.isSome := by
  simp only [parserBasicUrlIn_eq, hr, ParseEnd.map, BasicUrlParserResult.over]
  rw [← or_stored_iff]
  constructor
  · intro h v v'
    injection h v v' with hsame
    exact congrArg BasicUrlParserResult.addrsPort hsame
  · intro h v v'
    rw [h v v']

theorem parserQueryUrlIn_alike (hq : p.parserQueryUrl = .returned q) :
    (∀ v v', p.parserQueryUrlIn v = p.parserQueryUrlIn v') ↔
      q.addrsPort.isSome := by
  simp only [parserQueryUrlIn_eq, hq, ParseEnd.map, QueryUrlParserResult.over]
  rw [← or_stored_iff]
  constructor
  · intro h v v'
    injection h v v' with hsame
    exact congrArg QueryUrlParserResult.addrsPort hsame
  · intro h v v'
    rw [h v v']

theorem syncParserBasicUri_alike (hr : p.parserBasicUrl = .returned r) :
    (∀ m m', p.syncParserBasicUri m = p.syncParserBasicUri m') ↔
      r.addrsPort.isSome := by
  simp only [UrlHttpParser.syncParserBasicUri, parserBasicUrlIn_eq, hr,
    ParseEnd.map, BasicUrlParserResult.over]
  rw [← or_stored_iff]
  constructor
  · intro h v v'
    injection h ⟨v, 0, false⟩ ⟨v', 0, false⟩ with hsame
    exact congrArg ClientParserBasicUrl.addrsPort hsame
  · intro h m m'
    rw [h m.parserPort m'.parserPort]

theorem syncParserQueryUrl_alike (hq : p.parserQueryUrl = .returned q) :
    (∀ m m', p.syncParserQueryUrl m = p.syncParserQueryUrl m') ↔
      q.addrsPort.isSome := by
  simp only [UrlHttpParser.syncParserQueryUrl, parserQueryUrlIn_eq, hq,
    ParseEnd.map, QueryUrlParserResult.over]
  rw [← or_stored_iff]
  constructor
  · intro h v v'
    injection h ⟨v, 0, false⟩ ⟨v', 0, false⟩ with hsame
    exact congrArg ClientParserQueryUrl.addrsPort hsame
  · intro h m m'
    rw [h m.parserPort m'.parserPort]

end

/-- **Where the result is one of the URL alone.** The four calls give the same
result whatever lies in memory, just if the URL has a port between a colon and
a slash. -/
theorem result_alike_iff (p : UrlHttpParser)
    (h : ∃ r, p.parserBasicUrl = .returned r) :
    ((∀ v v', p.parserBasicUrlIn v = p.parserBasicUrlIn v') ↔
      (portText p.parserChar).isSome) ∧
    ((∀ v v', p.parserQueryUrlIn v = p.parserQueryUrlIn v') ↔
      (portText p.parserChar).isSome) ∧
    ((∀ m m', p.syncParserBasicUri m = p.syncParserBasicUri m') ↔
      (portText p.parserChar).isSome) ∧
    ((∀ m m', p.syncParserQueryUrl m = p.syncParserQueryUrl m') ↔
      (portText p.parserChar).isSome) := by
  obtain ⟨r, hr⟩ := h
  obtain ⟨f, hf, -, hport⟩ := parserBasicUrl_front hr
  obtain ⟨-, q, hq, -, hqport⟩ := parsers_return hf
  have hsome := front_port_isSome hf
  refine ⟨?_, ?_, ?_, ?_⟩
  · rw [parserBasicUrlIn_alike hr, hport, hsome]
  · rw [parserQueryUrlIn_alike hq, hqport, hsome]
  · rw [syncParserBasicUri_alike hr, hport, hsome]
  · rw [syncParserQueryUrl_alike hq, hqport, hsome]

theorem result_alike_port :
    let p := UrlHttpParser.mk "a://h:80/".toList (by decide)
    ((∀ v v', p.parserBasicUrlIn v = p.parserBasicUrlIn v') ↔
      (portText p.parserChar).isSome) ∧
    ((∀ v v', p.parserQueryUrlIn v = p.parserQueryUrlIn v') ↔
      (portText p.parserChar).isSome) ∧
    ((∀ m m', p.syncParserBasicUri m = p.syncParserBasicUri m') ↔
      (portText p.parserChar).isSome) ∧
    ((∀ m m', p.syncParserQueryUrl m = p.syncParserQueryUrl m') ↔
      (portText p.parserChar).isSome) :=
  result_alike_iff (UrlHttpParser.mk "a://h:80/".toList (by decide))
    ⟨⟨['h'], ['/'], ['a'], some 80, false⟩, rfl⟩

/-- The port of a URL without one is whatever was there before. -/
theorem result_differs :
    ¬ ∀ p : UrlHttpParser, (∃ r, p.parserBasicUrl = .returned r) →
      (∀ v v', p.parserBasicUrlIn v = p.parserBasicUrlIn v') ∧
      (∀ v v', p.parserQueryUrlIn v = p.parserQueryUrlIn v') ∧
      (∀ m m', p.syncParserBasicUri m = p.syncParserBasicUri m') ∧
      ∀ m m', p.syncParserQueryUrl m = p.syncParserQueryUrl m' := by
  intro hall
  have hreturns : (UrlHttpParser.mk "http://h/".toList (by decide)).parserBasicUrl
      = .returned ⟨['h'], ['/'], "http".toList, none, false⟩ := rfl
  have hbasic := (hall _ ⟨_, hreturns⟩).1
  have hsome := (parserBasicUrlIn_alike hreturns).mp hbasic
  cases hsome

/-! ## A URL without query -/

/-- A URL with a path, but without query and fragment. -/
structure PlainUrl extends BasicUrl where
  path_mark : '?' ∉ path
  path_hash : '#' ∉ path

/-- `parserQueryUrl` returns the path as basic path, and nothing as query, and
the full path of the tool is the path that its other call returns. -/
structure PlainUrl.KeepsPath (u : PlainUrl) (p : UrlHttpParser) : Prop where
  parsed : ∃ q, p.parserQueryUrl = .returned q ∧ q.basicPath = u.path ∧
    q.queryPath = [] ∧ q.queryParamterMap = ∅
  full : ∀ m m' c c', p.syncParserQueryUrl m = .returned c →
    p.syncParserBasicUri m' = .returned c' → c.fullPath = c'.addrsPath

/-- What `parserQueryUrl` makes of it: the front, and no path. -/
theorem parserQueryUrl_plain (u : PlainUrl) (hfits : u.encode.length < 2 ^ 63) :
    (UrlHttpParser.mk u.encode hfits).parserQueryUrl =
      .returned u.front.query := by
  obtain ⟨rest, hpath⟩ := List.head?_eq_some_iff.mp u.path_slash
  have henc : u.encode = u.toAuthorityParts.encode ++ u.path := rfl
  have hauth : authority u.encode =
      .complete u.front u.toAuthorityParts.encode.length := by
    rw [henc, hpath]
    exact authority_encode u.toAuthorityParts rest
  rw [parserQueryUrl_eq, hauth]
  show queryFinishFrom u.encode u.front.query _ _ = _
  rw [henc]
  exact queryFinishFrom_plain _ u.path_mark u.path_hash

/-- **The path of a URL without query is lost.** `parserQueryUrl` returns
neither basic path nor query, and the full path of the tool is empty. -/
theorem plain_path_lost (u : PlainUrl) (hfits : u.encode.length < 2 ^ 63) :
    (∃ q, (UrlHttpParser.mk u.encode hfits).parserQueryUrl = .returned q ∧
      q.basicPath = [] ∧ q.queryPath = [] ∧ q.queryParamterMap = ∅) ∧
    (∀ m c, (UrlHttpParser.mk u.encode hfits).syncParserQueryUrl m =
      .returned c → c.fullPath = []) ∧
    ¬ u.KeepsPath (UrlHttpParser.mk u.encode hfits) := by
  have hparse := parserQueryUrl_plain u hfits
  refine ⟨⟨_, hparse, rfl, rfl, rfl⟩, ?_, ?_⟩
  · intro m c hc
    simp only [UrlHttpParser.syncParserQueryUrl, parserQueryUrlIn_eq, hparse,
      ParseEnd.map] at hc
    cases hc
    rfl
  · rintro ⟨⟨q, hq, hpath, -, -⟩, -⟩
    rw [hparse] at hq
    cases hq
    have hslash := u.path_slash
    rw [← hpath] at hslash
    cases hslash

theorem plain_path_lost_http :
    ∃ (u : PlainUrl) (hfits : u.encode.length < 2 ^ 63),
      u.encode = "http://h/p".toList ∧
      (∃ q, (UrlHttpParser.mk u.encode hfits).parserQueryUrl = .returned q ∧
        q.basicPath = [] ∧ q.queryPath = [] ∧ q.queryParamterMap = ∅) ∧
      (∀ m c, (UrlHttpParser.mk u.encode hfits).syncParserQueryUrl m =
        .returned c → c.fullPath = []) ∧
      ¬ u.KeepsPath (UrlHttpParser.mk u.encode hfits) := by
  let u : PlainUrl := {
    scheme := "http".toList
    host := "h".toList
    portText := []
    port := none
    scheme_colon := by decide
    host_colon := by decide
    host_slash := by decide
    port_text := .absent
    path := "/p".toList
    path_slash := rfl
    path_mark := by decide
    path_hash := by decide }
  have hfits : u.encode.length < 2 ^ 63 :=
    lt_of_eq_of_lt (show u.encode.length = 10 from rfl) (by decide)
  exact ⟨u, hfits, rfl, plain_path_lost u hfits⟩

theorem plain_path_not_kept :
    ¬ ∀ (u : PlainUrl) (hfits : u.encode.length < 2 ^ 63),
      u.KeepsPath ⟨u.encode, hfits⟩ := by
  intro hall
  let u : PlainUrl := {
    scheme := "http".toList
    host := "h".toList
    portText := []
    port := none
    scheme_colon := by decide
    host_colon := by decide
    host_slash := by decide
    port_text := .absent
    path := "/p".toList
    path_slash := rfl
    path_mark := by decide
    path_hash := by decide }
  have hfits : u.encode.length < 2 ^ 63 :=
    lt_of_eq_of_lt (show u.encode.length = 10 from rfl) (by decide)
  obtain ⟨⟨q, hq, hpath, -, -⟩, -⟩ := hall u hfits
  rw [parserQueryUrl_plain u hfits] at hq
  cases hq
  cases hpath

/-! ## The asynchronous calls -/

/-- A run of a task: the arguments of the callbacks it has submitted, and how
it ends. -/
structure TaskRun (ρ : Type) where
  submitted : List ρ
  ends : ParseEnd Unit

/-- The task of both calls: parse, then submit the callback with the result. -/
def parserTask {ρ : Type} : ParseEnd ρ → TaskRun ρ
  | .returned r => ⟨[r], .returned ()⟩
  | .threw e => ⟨[], .threw e⟩
  | .pastEnd => ⟨[], .pastEnd⟩
  | .terminated => ⟨[], .terminated⟩
  | .running => ⟨[], .running⟩

/-- What becomes of the worker that runs a task. -/
inductive WorkerEnd (ρ : Type) where
  /-- It goes on with its loop. -/
  | goesOn (submitted : List ρ)
  /-- An exception leaves its thread function: `std::terminate`. -/
  | processEnds
  | hangs

/-- `_task()` in the loop of a worker, which has no handler. -/
def workerRun {ρ : Type} (run : TaskRun ρ) : WorkerEnd ρ :=
  match run.ends with
  | .returned _ => .goesOn run.submitted
  | .threw _ => .processEnds
  | .terminated => .processEnds
  | .pastEnd => .hangs
  | .running => .hangs

def UrlHttpParser.asyncParserBasicUri (p : UrlHttpParser) (m : ToolMemory) :
    TaskRun ClientParserBasicUrl :=
  parserTask (p.syncParserBasicUri m)

def UrlHttpParser.asyncParserQueryUri (p : UrlHttpParser) (m : ToolMemory) :
    TaskRun ClientParserQueryUrl :=
  parserTask (p.syncParserQueryUrl m)

/-- The worker goes on, and the callback has been submitted once, with what the
synchronous call returns. -/
def TaskRun.Completes {ρ : Type} (run : TaskRun ρ) (sync : ParseEnd ρ) : Prop :=
  (∃ r, workerRun run = .goesOn [r]) ∧
    ∀ r, sync = .returned r → workerRun run = .goesOn [r]

theorem parserTask_completes {ρ : Type} {sync : ParseEnd ρ} :
    (parserTask sync).Completes sync ↔ ∃ r, sync = .returned r := by
  constructor
  · rintro ⟨⟨r, hr⟩, -⟩
    cases sync with
    | returned r => exact ⟨r, rfl⟩
    | threw e => cases hr
    | pastEnd => cases hr
    | terminated => cases hr
    | running => cases hr
  · rintro ⟨r, rfl⟩
    refine ⟨⟨r, rfl⟩, fun r' hr' => ?_⟩
    cases hr'
    rfl

theorem ParseEnd.map_returned {ρ ρ' : Type} {φ : ρ → ρ'} {e : ParseEnd ρ} :
    (∃ r, e.map φ = .returned r) ↔ ∃ r, e = .returned r := by
  constructor
  · rintro ⟨r, hr⟩
    cases e with
    | returned r => exact ⟨r, rfl⟩
    | threw e => cases hr
    | pastEnd => cases hr
    | terminated => cases hr
    | running => cases hr
  · rintro ⟨r, rfl⟩
    exact ⟨φ r, rfl⟩

/-- The strings on which the parsers return: none of the three characters of
the separator is missing, and what stands for a port is converted. -/
def Parses (s : Text) : Prop :=
  ¬ EndsInSign s ∧ ∀ t, portText s = some t →
    ∃ parts : StoiParts, parts.text = t ∧ parts.InRange

theorem front_exists_iff {s : Text} :
    (∃ f, (authority s).front? = some f) ↔ Parses s := by
  constructor
  · rintro ⟨f, hf⟩
    constructor
    · intro hsign
      rw [authority_truncated hsign] at hf
      cases hf
    · intro t ht
      cases hv : stoi t with
      | error e =>
          rw [authority_badPort ht hv] at hf
          cases hf
      | ok value =>
          obtain ⟨parts, htext, -, hrange⟩ := stoi_ok_iff.mp hv
          exact ⟨parts, htext, hrange⟩
  · rintro ⟨hsign, hport⟩
    cases hauth : authority s with
    | stopped f => exact ⟨f, rfl⟩
    | truncated => exact absurd hauth (authority_ne_truncated hsign)
    | complete f slash => exact ⟨f, rfl⟩
    | badPort e =>
        cases ht : portText s with
        | none => exact absurd hauth ((authority_noPort ht).1 e)
        | some t =>
            obtain ⟨parts, htext, hrange⟩ := hport t ht
            have hv := stoi_ok_iff.mpr ⟨parts, htext, rfl, hrange⟩
            obtain ⟨f, slash, hcomplete, -, -⟩ := authority_port ht hv
            rw [hauth] at hcomplete
            cases hcomplete

theorem parserBasicUrl_returns_iff (p : UrlHttpParser) :
    (∃ r, p.parserBasicUrl = .returned r) ↔ Parses p.parserChar := by
  rw [← front_exists_iff]
  constructor
  · rintro ⟨r, hr⟩
    obtain ⟨f, hf, -, -⟩ := parserBasicUrl_front hr
    exact ⟨f, hf⟩
  · rintro ⟨f, hf⟩
    obtain ⟨⟨r, hr, -, -⟩, -⟩ := parsers_return hf
    exact ⟨r, hr⟩

theorem parserQueryUrl_returns_iff (p : UrlHttpParser) :
    (∃ q, p.parserQueryUrl = .returned q) ↔ Parses p.parserChar := by
  rw [← front_exists_iff]
  constructor
  · rintro ⟨q, hq⟩
    obtain ⟨f, hf, -, -⟩ := parserQueryUrl_front hq
    exact ⟨f, hf⟩
  · rintro ⟨f, hf⟩
    obtain ⟨-, q, hq, -, -⟩ := parsers_return hf
    exact ⟨q, hq⟩

/-- **When an asynchronous parse completes.** The worker survives the task, and
the callback is submitted once with the result, just if the string does not end
with its first `:/` and its port text, if it has one, is a number that fits
into an `int`, with whatever follows it. The result is that of the synchronous
call that the task itself makes, on the same storage `m`. -/
theorem asyncParser_completes_iff (p : UrlHttpParser) (m : ToolMemory) :
    ((p.asyncParserBasicUri m).Completes (p.syncParserBasicUri m) ↔
      ¬ EndsInSign p.parserChar ∧ ∀ t, portText p.parserChar = some t →
        ∃ parts : StoiParts, parts.text = t ∧ parts.InRange) ∧
    ((p.asyncParserQueryUri m).Completes (p.syncParserQueryUrl m) ↔
      ¬ EndsInSign p.parserChar ∧ ∀ t, portText p.parserChar = some t →
        ∃ parts : StoiParts, parts.text = t ∧ parts.InRange) := by
  constructor
  · rw [UrlHttpParser.asyncParserBasicUri, parserTask_completes,
      UrlHttpParser.syncParserBasicUri, ParseEnd.map_returned,
      parserBasicUrlIn_eq, ParseEnd.map_returned, parserBasicUrl_returns_iff]
    exact Iff.rfl
  · rw [UrlHttpParser.asyncParserQueryUri, parserTask_completes,
      UrlHttpParser.syncParserQueryUrl, ParseEnd.map_returned,
      parserQueryUrlIn_eq, ParseEnd.map_returned, parserQueryUrl_returns_iff]
    exact Iff.rfl

/-- A port without digits ends the process. -/
theorem asyncParser_ends_process :
    ¬ ∀ (p : UrlHttpParser) (m : ToolMemory),
      (p.asyncParserBasicUri m).Completes (p.syncParserBasicUri m) ∧
      (p.asyncParserQueryUri m).Completes (p.syncParserQueryUrl m) := by
  intro hall
  obtain ⟨⟨⟨r, hr⟩, -⟩, -⟩ :=
    hall (UrlHttpParser.mk "a://h:/".toList (by decide)) ⟨0, 0, false⟩
  have hends : workerRun ((UrlHttpParser.mk "a://h:/".toList
      (by decide)).asyncParserBasicUri ⟨0, 0, false⟩) = .processEnds := rfl
  rw [hends] at hr
  cases hr

end Mtasc
