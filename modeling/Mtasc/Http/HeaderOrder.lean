import Mtasc.Http.RequestHead
import Mtasc.Lib.Lines

/-!
# The order of the header map

A header map is a multiset of entries, and its iteration may meet them in any
order. The loop returns at the first entry with an empty key or value, so what
a request says depends on what was met before. Without such an entry it
depends on the order where a path, a host or an entry brings line breaks of
its own: at a blank line of theirs the reader takes the head to end.
-/

namespace Mtasc

open Lib

/-! ## Entries that end the loop -/

/-- The entry becomes a header line; any other one ends the request. -/
def Written (f : Text × Text) : Prop := f.1 ≠ [] ∧ f.2 ≠ []

instance : DecidablePred Written := fun _ => inferInstanceAs (Decidable (_ ∧ _))

/-- The loop comes to its end. -/
def AllWritten (headers : List (Text × Text)) : Prop :=
  ∀ f ∈ headers, Written f

instance : DecidablePred AllWritten :=
  fun _ => inferInstanceAs (Decidable (∀ _ ∈ _, _))

/-- The entries in front of the first one that ends the request. -/
def writtenEntries (headers : List (Text × Text)) : List (Text × Text) :=
  headers.takeWhile (decide <| Written ·)

/-! ## The parts of a request -/

structure RequestParts where
  requestLine : Text
  /-- The lines in front of `Content-Length` and `Connection`. -/
  headerLines : List Text
  contentLength : Option ℕ
  /-- What follows the first empty line. -/
  behind : Text
deriving DecidableEq

namespace RequestParts

def lengthLines (r : RequestParts) : List Text :=
  r.contentLength.toList.map fun n =>
    fieldLine ("Content-Length".toList, toDecimal n)

/-- The lines of the head but the last, which is `Connection: close`. -/
def openLines (r : RequestParts) : List Text :=
  r.requestLine :: r.headerLines ++ r.lengthLines

/-- The text of the request. -/
def render (r : RequestParts) : Text :=
  r.openLines.flatMap (· ++ crlf) ++
    (fieldLine connectionField ++ (emptyLine ++ r.behind))

end RequestParts

def templateParts (host path body : Text) (method : HttpMethod)
    (headers : List (Text × Text)) : RequestParts where
  requestLine := requestLine method path
  headerLines := (("Host".toList, host) :: writtenEntries headers).map fieldLine
  contentLength :=
    if AllWritten headers ∧ method = .post then some body.length else none
  behind := crlf ++ if AllWritten headers then payload method body else []

section

variable {host path body template : Text} {method : HttpMethod}
variable {headers : List (Text × Text)}

/-! ## The parts of the template -/

theorem writtenEntries_of_all (h : AllWritten headers) :
    writtenEntries headers = headers := by
  apply List.takeWhile_eq_self_iff.mpr
  intro f hf
  exact decide_eq_true (h f hf)

theorem writtenEntries_of_none (h : ∀ f ∈ headers, ¬ Written f) :
    writtenEntries headers = [] := by
  cases headers with
  | nil => rfl
  | cons f rest =>
      apply List.takeWhile_cons_of_neg
      simpa using h f List.mem_cons_self

/-- The early return: what was written so far, and the end of the request. -/
theorem appendHeaders_return (h : ¬ AllWritten headers) :
    appendHeaders template headers = .return (template ++
      ((writtenEntries headers).map fieldLine).flatMap (· ++ crlf) ++
        "Connection: close\r\n".toList ++ "\r\n\r\n".toList) := by
  induction headers generalizing template with
  | nil => exact absurd (fun f hf => absurd hf List.not_mem_nil) h
  | cons f rest ih =>
      obtain ⟨key, value⟩ := f
      by_cases hf : Written (key, value)
      · have hrest : ¬ AllWritten rest := by
          intro hall
          apply h
          intro g hg
          rcases List.mem_cons.mp hg with rfl | hg
          · exact hf
          · exact hall g hg
        have htake : writtenEntries ((key, value) :: rest) =
            (key, value) :: writtenEntries rest :=
          List.takeWhile_cons_of_pos (decide_eq_true hf)
        rw [appendHeaders, if_pos (show key ≠ [] ∧ value ≠ [] from hf),
          ih hrest, htake]
        simp [fieldLine]
      · have htake : writtenEntries ((key, value) :: rest) = [] := by
          apply List.takeWhile_cons_of_neg
          simpa using hf
        rw [appendHeaders, if_neg (show ¬ (key ≠ [] ∧ value ≠ []) from hf),
          htake]
        simp

theorem template_render (host path body : Text) (method : HttpMethod)
    (headers : List (Text × Text)) :
    syncCreateHttpv1template host path body method headers =
      (templateParts host path body method headers).render := by
  by_cases hall : AllWritten headers
  · rw [template_eq_lines hall]
    cases method with
    | get =>
        simp [templateParts, RequestParts.render, RequestParts.openLines,
          RequestParts.lengthLines, openFields, lengthField, emptyLine,
          writtenEntries_of_all hall, hall]
    | post =>
        simp [templateParts, RequestParts.render, RequestParts.openLines,
          RequestParts.lengthLines, openFields, lengthField, emptyLine,
          writtenEntries_of_all hall, hall]
  · have hversion : "HTTP/1.1\r\n".toList = "HTTP/1.1".toList ++ crlf := rfl
    have hhost : "Host: ".toList = "Host".toList ++ ": ".toList := rfl
    have hclose : "Connection: close\r\n".toList =
      fieldLine connectionField ++ crlf := rfl
    have hend : "\r\n\r\n".toList = crlf ++ crlf := rfl
    have hblank : emptyLine = crlf ++ crlf := rfl
    rw [syncCreateHttpv1template, appendHeaders_return hall, hversion, hhost,
      hclose, hend]
    simp [templateParts, RequestParts.render, RequestParts.openLines,
      RequestParts.lengthLines, requestLine, fieldLine, hblank, hall]

/-- A reader finds the lines and the bytes behind them, when the lines have
no line break of their own. -/
theorem RequestParts.render_read {r : RequestParts}
    (h : ∀ line ∈ r.openLines, '\r' ∉ line ∧ line ≠ []) :
    headLines r.render = some (r.openLines ++ [fieldLine connectionField]) ∧
      behindHead r.render = some r.behind := by
  have hcut : cut emptyLine r.render =
      some (r.openLines.flatMap (· ++ crlf) ++ fieldLine connectionField,
        r.behind) :=
    cut_blank (by decide) h ⟨cr_not_mem_connection, fieldLine_ne_nil _⟩ r.behind
  constructor
  · rw [headLines, hcut, Option.map_some]
    exact congrArg some
      (split_join (t := ['\n']) (fun line hline => (h line hline).1)
        cr_not_mem_connection)
  · rw [behindHead, hcut]
    rfl

/-- A reader finds the end of the head of every request. -/
theorem template_cut (host path body : Text) (method : HttpMethod)
    (headers : List (Text × Text)) : ∃ p, cut emptyLine
      (syncCreateHttpv1template host path body method headers) = some p := by
  rw [template_render, RequestParts.render, ← List.append_assoc]
  obtain ⟨a, b, hcut⟩ := cut_exists emptyLine _ _
  exact ⟨(a, b), hcut⟩

end

/-! ## What a reader finds -/

/-- What a reader finds in two requests is the same. -/
structure SameRead (request request' : Text) : Prop where
  requestLine : (headLines request).bind List.head? =
    (headLines request').bind List.head?
  headerLines : (headLines request).map (fun ls => (ls.tail : Multiset Text)) =
    (headLines request').map (fun ls => (ls.tail : Multiset Text))
  contentLength : contentLength request = contentLength request'
  behind : behindHead request = behindHead request'

theorem SameRead.refl (request : Text) : SameRead request request :=
  ⟨rfl, rfl, rfl, rfl⟩

/-- Heads of the same lines are of the same length. -/
theorem SameRead.cut_eq {request request' : Text} {p p' : Text × Text}
    (hsame : SameRead request request') (h : cut emptyLine request = some p)
    (h' : cut emptyLine request' = some p') :
    p.1.length = p'.1.length ∧ p.2 = p'.2 := by
  obtain ⟨hfirst, htail, -, hbehind⟩ := hsame
  simp only [headLines, behindHead, h, h', Option.map_some, Option.bind_some,
    Option.some.injEq] at hfirst htail hbehind
  refine ⟨?_, hbehind⟩
  obtain ⟨x, ls, hls⟩ := List.exists_cons_of_ne_nil (split_ne_nil crlf p.1)
  obtain ⟨x', ls', hls'⟩ := List.exists_cons_of_ne_nil (split_ne_nil crlf p'.1)
  rw [hls, hls'] at hfirst htail
  have hperm : (split crlf p.1).Perm (split crlf p'.1) := by
    rw [hls, hls', Option.some.inj hfirst]
    exact (Multiset.coe_eq_coe.mp htail).cons x'
  have hsum := (hperm.map fun line => line.length + 2).sum_eq
  have hlen : ((split crlf p.1).map fun line => line.length + 2).sum =
    p.1.length + 2 := split_length p.1
  have hlen' : ((split crlf p'.1).map fun line => line.length + 2).sum =
    p'.1.length + 2 := split_length p'.1
  omega

theorem SameRead.length_eq {request request' : Text} {p p' : Text × Text}
    (hsame : SameRead request request') (h : cut emptyLine request = some p)
    (h' : cut emptyLine request' = some p') :
    request.length = request'.length := by
  obtain ⟨hlen, hbehind⟩ := hsame.cut_eq h h'
  rw [(cut_some h).1, (cut_some h').1, hbehind]
  simp [hlen]

/-- The number in the first `Content-Length` line. -/
def announced (lines : List Text) : Option ℕ :=
  ((lines.filterMap decodeField).lookup "Content-Length".toList).map
    (Nat.ofDigitChars 10 · 0)

theorem contentLength_eq (request : Text) :
    contentLength request =
      (headLines request).bind fun ls => announced ls.tail := by
  rw [contentLength]
  cases headLines request with
  | none => rfl
  | some ls =>
      rw [Option.bind_some, announced]
      simp only [Option.bind_eq_bind, Option.bind_some]
      cases (ls.tail.filterMap decodeField).lookup "Content-Length".toList with
      | none => rfl
      | some value => rfl

theorem announced_append (ls ls' : List Text) :
    announced (ls ++ ls') = (announced ls).or (announced ls') := by
  rw [announced, List.filterMap_append, List.lookup_append, Option.map_or]
  rfl

theorem announced_flatMap (ls : List Text) (g : Text → List Text) :
    announced (ls.flatMap g) = ls.findSome? (announced <| g ·) := by
  induction ls with
  | nil => rfl
  | cons l ls ih =>
      rw [List.flatMap_cons, announced_append, ih, List.findSome?_cons]
      cases announced (g l) with
      | none => rfl
      | some n => rfl

/-! ## Texts in lines -/

/-- There is no blank line in the text and the line break behind it. -/
def Unbroken (t : Text) : Prop := ¬ emptyLine <:+: t ++ crlf

instance : DecidablePred Unbroken := fun _ => inferInstanceAs (Decidable (¬ _))

/-- What comes before the entries. -/
def openText (host path : Text) (method : HttpMethod) : Text :=
  requestLine method path ++ crlf ++ fieldLine ("Host".toList, host)

/-- The lines behind the entries. -/
def closingLines (body : Text) (method : HttpMethod) : List Text :=
  (lengthField method body ++ [connectionField]).map fieldLine

/-- The two header lines give the same text in both orders. -/
def Interchangeable (f g : Text × Text) : Prop :=
  fieldLine f ++ crlf ++ fieldLine g = fieldLine g ++ crlf ++ fieldLine f

/-- Line breaks of the path, of the host and of the entries make no blank line,
and no two entries announce different lengths, unless a length is announced
before them. -/
structure InLines (host path : Text) (method : HttpMethod)
    (entries : Multiset (Text × Text)) : Prop where
  opening : Unbroken (openText host path method)
  entry : ∀ f ∈ entries, Unbroken (crlf ++ fieldLine f)
  length : announced (split crlf (openText host path method)).tail = none →
    ∀ f ∈ entries, ∀ g ∈ entries, ∀ m n,
      announced (split crlf (fieldLine f)) = some m →
      announced (split crlf (fieldLine g)) = some n → m = n

section

variable {host path body : Text} {method : HttpMethod}
variable {l l' : List (Text × Text)} {entries : Multiset (Text × Text)}

theorem template_lines (host path body : Text) (method : HttpMethod)
    (h : AllWritten l) :
    syncCreateHttpv1template host path body method l =
      openText host path method ++
        (l.map fieldLine ++ closingLines body method).flatMap (crlf ++ ·) ++
        (emptyLine ++ (crlf ++ payload method body)) := by
  rw [template_eq_lines h, ← List.append_assoc, join_lines]
  simp [openText, closingLines, openFields, emptyLine]

/-- Two entries and what is behind them. -/
theorem template_pair (host path body : Text) (method : HttpMethod)
    {rest : List (Text × Text)} (h : AllWritten rest) :
    ∃ t, ∀ f g, Written f → Written g →
      syncCreateHttpv1template host path body method (f :: g :: rest) =
        openText host path method ++ (crlf ++ fieldLine f ++
          (crlf ++ fieldLine g ++ (crlf ++ t))) := by
  obtain ⟨first, others, hlines⟩ : ∃ first others,
      rest.map fieldLine ++ closingLines body method = first :: others := by
    apply List.exists_cons_of_ne_nil
    simp [closingLines]
  refine ⟨first ++ others.flatMap (crlf ++ ·) ++
    (emptyLine ++ (crlf ++ payload method body)), fun f g hf hg => ?_⟩
  have hall : AllWritten (f :: g :: rest) := by
    intro e he
    rcases List.mem_cons.mp he with rfl | he
    · exact hf
    rcases List.mem_cons.mp he with rfl | he
    · exact hg
    · exact h e he
  rw [template_lines host path body method hall, List.map_cons, List.map_cons,
    List.cons_append, List.cons_append, hlines]
  simp

/-! ## Orders that are read alike -/

theorem AllWritten.of_perm (hperm : l.Perm l') (h : AllWritten l) :
    AllWritten l' :=
  fun f hf => h f (hperm.mem_iff.mpr hf)

/-- Maps of which no entry is written give one text. -/
theorem template_of_none (h : ∀ f ∈ l, ¬ Written f) (h' : ∀ f ∈ l', ¬ Written f)
    (hall : AllWritten l ↔ AllWritten l') :
    syncCreateHttpv1template host path body method l =
      syncCreateHttpv1template host path body method l' := by
  rw [template_render, template_render, templateParts, templateParts,
    writtenEntries_of_none h, writtenEntries_of_none h']
  simp only [hall]

/-- Interchangeable entries give one text. -/
theorem template_of_interchangeable (hperm : l.Perm l') (h : AllWritten l)
    (hcomm : ∀ f ∈ l, ∀ g ∈ l, Interchangeable f g) :
    syncCreateHttpv1template host path body method l =
      syncCreateHttpv1template host path body method l' := by
  have hfold : ∀ k : List (Text × Text),
      (k.map fieldLine).flatMap (crlf ++ ·) =
        k.foldr (fun f t => crlf ++ fieldLine f ++ t) [] := by
    intro k
    induction k with
    | nil => rfl
    | cons f k ih =>
        rw [List.map_cons, List.flatMap_cons, ih]
        rfl
  have hlines : (l.map fieldLine).flatMap (crlf ++ ·) =
      (l'.map fieldLine).flatMap (crlf ++ ·) := by
    rw [hfold, hfold]
    apply hperm.foldr_eq'
    intro f hf g hg t
    have hswap := congrArg (crlf ++ · ++ t) (hcomm g hg f hf)
    simpa using hswap
  rw [template_lines host path body method h,
    template_lines host path body method (h.of_perm hperm),
    List.flatMap_append, List.flatMap_append, hlines]

theorem unbroken_closingLines :
    ∀ line ∈ closingLines body method, Unbroken (crlf ++ line) := by
  intro line hline
  obtain ⟨f, hf, rfl⟩ := List.mem_map.mp hline
  apply unbroken_of_not_mem (by decide) _ (fieldLine_ne_nil f)
  rcases List.mem_append.mp hf with hf | hf
  · cases method with
    | get => exact absurd hf List.not_mem_nil
    | post =>
        rw [lengthField, List.mem_singleton] at hf
        rw [hf]
        exact cr_not_mem_fieldLine (show '\r' ∉ "Content-Length".toList by decide)
          (toDecimal_digit (by decide) _)
  · rw [List.mem_singleton.mp hf]
    exact cr_not_mem_connection

/-- Without a blank line of its entries, the request is read line by line. -/
theorem cut_unbroken_template (h : AllWritten l)
    (hopen : Unbroken (openText host path method))
    (hentry : ∀ f ∈ l, Unbroken (crlf ++ fieldLine f)) :
    cut emptyLine (syncCreateHttpv1template host path body method l) =
      some (openText host path method ++
        (l.map fieldLine ++ closingLines body method).flatMap (crlf ++ ·),
        crlf ++ payload method body) := by
  rw [template_lines host path body method h]
  apply cut_unbroken_lines (by decide) hopen
  intro line hline
  rcases List.mem_append.mp hline with hline | hline
  · obtain ⟨f, hf, rfl⟩ := List.mem_map.mp hline
    exact hentry f hf
  · exact unbroken_closingLines line hline

theorem headLines_unbroken (h : AllWritten l)
    (hopen : Unbroken (openText host path method))
    (hentry : ∀ f ∈ l, Unbroken (crlf ++ fieldLine f)) :
    headLines (syncCreateHttpv1template host path body method l) =
      some (split crlf (openText host path method) ++
        ((l.map fieldLine).flatMap (split crlf) ++
          (closingLines body method).flatMap (split crlf))) := by
  rw [headLines, cut_unbroken_template h hopen hentry, Option.map_some]
  have hsplit := split_lines (c := '\r') (d := '\n') (by decide)
    (openText host path method) (l.map fieldLine ++ closingLines body method)
  rw [List.flatMap_append (f := split ['\r', '\n'])] at hsplit
  exact congrArg some hsplit

/-- The length in front of the entries, else the first of theirs, else the one
the template puts behind them. -/
theorem contentLength_unbroken (h : AllWritten l)
    (hopen : Unbroken (openText host path method))
    (hentry : ∀ f ∈ l, Unbroken (crlf ++ fieldLine f)) :
    contentLength (syncCreateHttpv1template host path body method l) =
      ((announced (split crlf (openText host path method)).tail).or
        (l.findSome? (announced <| split crlf <| fieldLine ·))).or
          (announced ((closingLines body method).flatMap (split crlf))) := by
  rw [contentLength_eq, headLines_unbroken h hopen hentry, Option.bind_some,
    List.tail_append_of_ne_nil (split_ne_nil _ _), announced_append,
    announced_append, announced_flatMap, List.findSome?_map, Option.or_assoc]
  rfl

theorem sameRead_of_inLines (hperm : l.Perm l') (h : AllWritten l)
    (hlines : InLines host path method l) :
    SameRead (syncCreateHttpv1template host path body method l)
      (syncCreateHttpv1template host path body method l') := by
  have h' := h.of_perm hperm
  have hentry : ∀ f ∈ l, Unbroken (crlf ++ fieldLine f) := hlines.entry
  have hentry' : ∀ f ∈ l', Unbroken (crlf ++ fieldLine f) :=
    fun f hf => hentry f (hperm.mem_iff.mpr hf)
  obtain ⟨first, others, hfirst⟩ := List.exists_cons_of_ne_nil
    (split_ne_nil crlf (openText host path method))
  constructor
  · rw [headLines_unbroken h hlines.opening hentry,
      headLines_unbroken h' hlines.opening hentry', hfirst]
    rfl
  · rw [headLines_unbroken h hlines.opening hentry,
      headLines_unbroken h' hlines.opening hentry', hfirst]
    refine congrArg some (Multiset.coe_eq_coe.mpr ?_)
    exact (((hperm.map fieldLine).flatMap_right _).append_right _).append_left _
  · rw [contentLength_unbroken h hlines.opening hentry,
      contentLength_unbroken h' hlines.opening hentry']
    cases hbefore : announced (split crlf (openText host path method)).tail with
    | some n => rfl
    | none =>
        rw [findSome_perm hperm fun f hf g hg m n hm hn =>
          hlines.length hbefore f hf g hg m n hm hn]
  · rw [behindHead, cut_unbroken_template h hlines.opening hentry, behindHead,
      cut_unbroken_template h' hlines.opening hentry']
    rfl

/-! ## Orders that are read differently -/

/-- An entry that ends the request comes first in one order and second in the
other: one request is longer by a header line. -/
theorem template_length_lt {f g : Text × Text} {rest : List (Text × Text)}
    (hf : Written f) (hg : ¬ Written g) :
    (syncCreateHttpv1template host path body method (g :: f :: rest)).length <
      (syncCreateHttpv1template host path body method
        (f :: g :: rest)).length := by
  have hfirst : writtenEntries (f :: g :: rest) = [f] := by
    simp [writtenEntries, hf, hg]
  have hsecond : writtenEntries (g :: f :: rest) = [] := by
    simp [writtenEntries, hg]
  have hends : ¬ AllWritten (f :: g :: rest) := fun h => hg (h g (by simp))
  have hends' : ¬ AllWritten (g :: f :: rest) := fun h => hg (h g (by simp))
  rw [template_render, template_render, templateParts, templateParts, hfirst,
    hsecond]
  simp [RequestParts.render, RequestParts.openLines, RequestParts.lengthLines,
    hends, hends', crlf]
  omega

/-- Two entries are next to each other in two orders of the map. -/
theorem exists_orders {f g : Text × Text} (hf : f ∈ entries)
    (hg : g ∈ entries) (hne : f ≠ g) :
    ∃ rest : List (Text × Text),
      ((f :: g :: rest : List (Text × Text)) : Multiset (Text × Text)) =
        entries ∧
      ((g :: f :: rest : List (Text × Text)) : Multiset (Text × Text)) =
        entries := by
  obtain ⟨others, rfl⟩ := Multiset.exists_cons_of_mem hf
  have hother : g ∈ others :=
    (Multiset.mem_cons.mp hg).resolve_left (Ne.symm hne)
  obtain ⟨rest, rfl⟩ := Multiset.exists_cons_of_mem hother
  induction rest using Quotient.inductionOn with
  | h rest => exact ⟨rest, rfl, Multiset.cons_swap g f rest⟩

/-- Two entries that are not interchangeable, read alike in both orders: there
is no blank line up to their end. -/
theorem unbroken_of_sameRead {f g : Text × Text} {rest : List (Text × Text)}
    (h : AllWritten (f :: g :: rest))
    (hsame : SameRead
      (syncCreateHttpv1template host path body method (f :: g :: rest))
      (syncCreateHttpv1template host path body method (g :: f :: rest)))
    (hfg : ¬ Interchangeable f g) :
    Unbroken (openText host path method) ∧ Unbroken (crlf ++ fieldLine f) ∧
      Unbroken (crlf ++ fieldLine g) := by
  have hf : Written f := h f (by simp)
  have hg : Written g := h g (by simp)
  have hrest : AllWritten rest := fun e he => h e (by simp [he])
  obtain ⟨t, ht⟩ := template_pair host path body method hrest
  obtain ⟨⟨k, b⟩, hcut⟩ :=
    template_cut host path body method (f :: g :: rest)
  obtain ⟨⟨k', b'⟩, hcut'⟩ :=
    template_cut host path body method (g :: f :: rest)
  obtain ⟨hlen, rfl⟩ := hsame.cut_eq hcut hcut'
  rw [ht f g hf hg] at hcut
  rw [ht g f hg hf] at hcut'
  exact (blank_pair (by decide) hcut hcut' hlen).resolve_left hfg

/-- All orders are read alike and some two entries are not interchangeable. -/
theorem inLines_of_sameRead (hall : ∀ f ∈ entries, Written f)
    (hsame : ∀ l l' : List (Text × Text),
      (l : Multiset (Text × Text)) = entries →
      (l' : Multiset (Text × Text)) = entries →
      SameRead (syncCreateHttpv1template host path body method l)
        (syncCreateHttpv1template host path body method l'))
    {f g : Text × Text} (hf : f ∈ entries) (hg : g ∈ entries)
    (hfg : ¬ Interchangeable f g) : InLines host path method entries := by
  have hwritten : ∀ l : List (Text × Text),
      (l : Multiset (Text × Text)) = entries → AllWritten l := by
    rintro l rfl
    exact hall
  have hpair : ∀ f ∈ entries, ∀ g ∈ entries, ¬ Interchangeable f g →
      Unbroken (openText host path method) ∧ Unbroken (crlf ++ fieldLine f) ∧
        Unbroken (crlf ++ fieldLine g) := by
    intro f hf g hg hfg
    have hne : f ≠ g := by
      rintro rfl
      exact hfg rfl
    obtain ⟨rest, hl, hl'⟩ := exists_orders hf hg hne
    exact unbroken_of_sameRead (hwritten _ hl) (hsame _ _ hl hl') hfg
  obtain ⟨hopen, hfBreak, -⟩ := hpair f hf g hg hfg
  have hentry : ∀ e ∈ entries, Unbroken (crlf ++ fieldLine e) := by
    intro e he
    by_cases hfe : Interchangeable f e
    · exact unbroken_of_comm (by decide) hfe hfBreak
    · exact (hpair f hf e he hfe).2.2
  refine ⟨hopen, hentry, fun hbefore e he e' he' m n hm hn => ?_⟩
  -- each of the two lengths is announced first in one order
  by_cases hne : e = e'
  · rw [hne, hn] at hm
    exact (Option.some.inj hm).symm
  obtain ⟨rest, hl, hl'⟩ := exists_orders he he' hne
  have hread := (hsame _ _ hl hl').contentLength
  have hentries : ∀ l : List (Text × Text),
      (l : Multiset (Text × Text)) = entries →
      ∀ f ∈ l, Unbroken (crlf ++ fieldLine f) := by
    rintro l rfl
    exact hentry
  rw [contentLength_unbroken (hwritten _ hl) hopen (hentries _ hl),
    contentLength_unbroken (hwritten _ hl') hopen (hentries _ hl'), hbefore,
    List.findSome?_cons_of_isSome (by rw [hm]; rfl), hm,
    List.findSome?_cons_of_isSome (by rw [hn]; rfl), hn] at hread
  exact Option.some.inj hread

/-- **Which header maps leave the request to the iteration order.** A reader
finds the same in all orders of a map just if no entry becomes a header line,
or all do and either any two of them are interchangeable or the reader meets no
blank line and no second length among them. -/
theorem headerOrder_iff (host path body : Text) (method : HttpMethod)
    (entries : Multiset (Text × Text)) :
    (∀ l l' : List (Text × Text), (l : Multiset (Text × Text)) = entries →
      (l' : Multiset (Text × Text)) = entries →
      SameRead (syncCreateHttpv1template host path body method l)
        (syncCreateHttpv1template host path body method l')) ↔
      (∀ f ∈ entries, f.1 = [] ∨ f.2 = []) ∨
      (∀ f ∈ entries, f.1 ≠ [] ∧ f.2 ≠ []) ∧
        ((∀ f ∈ entries, ∀ g ∈ entries, Interchangeable f g) ∨
          InLines host path method entries) := by
  constructor
  · intro hsame
    by_cases hnone : ∀ f ∈ entries, f.1 = [] ∨ f.2 = []
    · exact Or.inl hnone
    right
    push Not at hnone
    obtain ⟨f, hf, hfKey, hfValue⟩ := hnone
    have hfw : Written f := ⟨hfKey, hfValue⟩
    have hall : ∀ g ∈ entries, Written g := by
      intro g hg
      by_contra hgw
      have hne : f ≠ g := by
        rintro rfl
        exact hgw hfw
      obtain ⟨rest, hl, hl'⟩ := exists_orders hf hg hne
      obtain ⟨p, hcut⟩ := template_cut host path body method (f :: g :: rest)
      obtain ⟨p', hcut'⟩ := template_cut host path body method (g :: f :: rest)
      have hlen := (hsame _ _ hl hl').length_eq hcut hcut'
      exact absurd hlen (template_length_lt hfw hgw).ne'
    refine ⟨hall, ?_⟩
    by_cases hcomm : ∀ f ∈ entries, ∀ g ∈ entries, Interchangeable f g
    · exact Or.inl hcomm
    · push Not at hcomm
      obtain ⟨g, hg, e, he, hge⟩ := hcomm
      exact Or.inr (inLines_of_sameRead hall hsame hg he hge)
  · rintro hentries l l' rfl hl'
    have hperm : l.Perm l' := (Multiset.coe_eq_coe.mp hl').symm
    rcases hentries with hnone | ⟨hall, hcomm | hlines⟩
    · have hends : ∀ f ∈ l, ¬ Written f := by
        rintro f hf ⟨hkey, hvalue⟩
        rcases hnone f hf with hempty | hempty
        · exact hkey hempty
        · exact hvalue hempty
      have hends' : ∀ f ∈ l', ¬ Written f :=
        fun f hf => hends f (hperm.mem_iff.mpr hf)
      rw [template_of_none hends hends'
        ⟨AllWritten.of_perm hperm, AllWritten.of_perm hperm.symm⟩]
      exact SameRead.refl _
    · rw [template_of_interchangeable hperm hall hcomm]
      exact SameRead.refl _
    · exact sameRead_of_inLines hperm hall hlines

end

/-! ## The two requests of one map -/

/-- A map with an entry and an entry without value, in its two orders. -/
theorem headerOrder_matters :
    ¬ ∀ (host path body : Text) (method : HttpMethod)
      (l l' : List (Text × Text)), l.Perm l' → (l.map Prod.fst).Nodup →
      SameRead (syncCreateHttpv1template host path body method l)
        (syncCreateHttpv1template host path body method l') := by
  intro hall
  have hsame := hall "h".toList "/".toList "x".toList .post
    [("A".toList, "b".toList), ("C".toList, [])]
    [("C".toList, []), ("A".toList, "b".toList)]
    (List.Perm.swap _ _ _) (by decide)
  have hlines := hsame.headerLines
  revert hlines
  decide +kernel

end Mtasc
