import Mtasc.Lib.Cut
import Mtasc.Lib.Loop
import Mtasc.Buffer.Queue
import Mtasc.Parser.UrlParser

/-!
# The size line of a chunk

`M_findChunkedsize` copies the readable bytes up to the first NUL, converts
what lies in front of the first line end, and takes the line from the buffer.
It does so in a loop over the copy, but neither the copy nor the index into it
changes: the first iteration has the size and leaves what lies behind the line
(`chunkedStep_line`), and no iteration leaves the loop
(`findChunkedsize_diverges`).
-/

namespace Mtasc

open Lib

/-! ## `std::stoul`, base 16 -/

/-- The value of a hexadecimal digit. -/
def hexValue (x : UInt8) : Option ℕ :=
  if 48 ≤ x ∧ x ≤ 57 then some (x.toNat - 48)
  else if 65 ≤ x ∧ x ≤ 70 then some (x.toNat - 55)
  else if 97 ≤ x ∧ x ≤ 102 then some (x.toNat - 87)
  else none

def isHexDigit (x : UInt8) : Bool := (hexValue x).isSome

/-- The number of a string of hexadecimal digits. -/
def ofHexDigits (digits : Bytes) : ℕ :=
  digits.foldl (fun n x => 16 * n + (hexValue x).getD 0) 0

/-- `std::isspace` in the C locale. -/
def isSpaceByte (x : UInt8) : Bool := x = 32 || (9 ≤ x && x ≤ 13)

/-- The optional sign: whether it is a minus, and what follows it. -/
def splitSignByte (s : Bytes) : Bool × Bytes :=
  if s.head? = some 45 then (true, s.tail)
  else if s.head? = some 43 then (false, s.tail)
  else (false, s)

/-- The optional `0x`, which counts in front of a digit only. -/
def dropHexPrefix (s : Bytes) : Bytes :=
  if s[0]? = some 48 ∧ (s[1]? = some 120 ∨ s[1]? = some 88) ∧
      (s[2]?.bind hexValue).isSome then s.drop 2
  else s

/-- `std::stoul(s, nullptr, 16)` with a 64-bit `unsigned long`; a minus negates
the number modulo `2 ^ 64`. -/
def stoul (s : Bytes) : Except StoiError ℕ :=
  let (negative, rest) := splitSignByte (s.dropWhile isSpaceByte)
  let digits := (dropHexPrefix rest).takeWhile isHexDigit
  let magnitude := ofHexDigits digits
  if digits = [] then .error .invalidArgument
  else if magnitude < 2 ^ 64 then
    .ok (if negative then wsub 64 0 magnitude else magnitude)
  else .error .outOfRange

/-! ## `M_findChunkedsize` -/

def lineEnd : Bytes := [13, 10]

/-- `std::string::find("\r\n", pos)`. -/
def findLineEnd (s : Bytes) (pos : ℕ) : ℕ :=
  match cut lineEnd (s.drop pos) with
  | none => npos
  | some (line, _) => pos + line.length

structure ChunkedCursor where
  buffer : ReadBuffer
  findStrPointer : ℤ
  /-- `none` until it has been assigned. -/
  chunkedSize : Option ℕ
deriving DecidableEq

inductive ChunkedEnd where
  | returned (size : ℕ) (b : ReadBuffer)
  | threw (e : StoiError) (b : ReadBuffer)
  /-- The variable that is returned has no value. -/
  | unassigned
  /-- There is no NUL in the vector for the copy to stop at. -/
  | readPastEnd

/-- One iteration of the loop over the copy. -/
def chunkedStep (totalData : Bytes) (c : ChunkedCursor) :
    Iter ChunkedCursor ChunkedEnd :=
  let pos := toSizeT c.findStrPointer
  if pos < totalData.length then
    let findFirst := findLineEnd totalData pos
    if findFirst = npos then .done (.returned (toSizeT (-1)) c.buffer)
    else
      let sizeStr := (totalData.drop pos).take (wsub 64 findFirst pos)
      if sizeStr = [] then .done (.returned (toSizeT (-1)) c.buffer)
      else
        match stoul sizeStr with
        | .error e => .done (.threw e c.buffer)
        | .ok size =>
            .next { c with
              buffer := c.buffer.retrieveData (wadd 64 findFirst 2)
              chunkedSize := some size }
  else
    match c.chunkedSize with
    | some size => .done (.returned size c.buffer)
    | none => .done .unassigned

/-- `std::string M_toal_data = peekData()`: up to the first NUL. -/
def totalData (b : ReadBuffer) : Bytes := b.peekData.takeWhile (· != 0)

def findChunkedsize (fuel : ℕ) (b : ReadBuffer) : Option ChunkedEnd :=
  if 0 ∈ b.peekData then loop (chunkedStep (totalData b)) fuel ⟨b, 0, none⟩
  else some .readPastEnd

/-! ## Size lines -/

/-- The readable bytes of `b` are a size line with the digits `h`, and `rest`;
the first NUL stands behind them. -/
structure SizeLine (b : ReadBuffer) (h rest : Bytes) : Prop where
  wellFormed : b.WellFormed
  readable : b.readable = h ++ (lineEnd ++ rest)
  terminated : b.buffer[b.writePointer]? = some 0
  nulFree : 0 ∉ b.readable
  digits_ne_nil : h ≠ []
  digits : ∀ x ∈ h, isHexDigit x = true
  value_lt : ofHexDigits h < 2 ^ 64

/-- `M_findChunkedsize` returns the number of the line, and leaves `rest`. -/
def DecodesLine (b : ReadBuffer) (h rest : Bytes) : Prop :=
  ∃ fuel b', findChunkedsize fuel b = some (.returned (ofHexDigits h) b') ∧
    b'.readable = rest ∧ b'.readPointer ≤ b'.writePointer

section

variable {b : ReadBuffer} {h rest s : Bytes} {x : UInt8}

/-! ### The digits -/

theorem isHexDigit_ne {y : UInt8} (hx : isHexDigit x = true)
    (hy : isHexDigit y = false) : x ≠ y := by
  rintro rfl
  rw [hx] at hy
  cases hy

theorem not_mem_of_digits {y : UInt8} (hdigits : ∀ x ∈ h, isHexDigit x = true)
    (hy : isHexDigit y = false) : y ∉ h := by
  intro hmem
  exact isHexDigit_ne (hdigits y hmem) hy rfl

theorem le_of_isHexDigit (hx : isHexDigit x = true) : 48 ≤ x.toNat := by
  unfold isHexDigit hexValue at hx
  simp only [UInt8.le_iff_toNat_le, UInt8.toNat_ofNat] at hx
  split at hx
  · omega
  · split at hx
    · omega
    · split at hx
      · omega
      · cases hx

/-- No digit is white space. -/
theorem isSpaceByte_of_isHexDigit (hx : isHexDigit x = true) :
    isSpaceByte x = false := by
  have hle := le_of_isHexDigit hx
  have hblank : x ≠ 32 := isHexDigit_ne hx (by decide)
  have hcontrol : ¬ x ≤ 13 := by
    intro hx13
    have hnat : x.toNat ≤ 13 := UInt8.le_iff_toNat_le.mp hx13
    omega
  simp [isSpaceByte, hblank, hcontrol]

/-- Digits alone have no `0x` in front of them. -/
theorem dropHexPrefix_digits (hdigits : ∀ x ∈ h, isHexDigit x = true) :
    dropHexPrefix h = h := by
  apply if_neg
  rintro ⟨-, hx, -⟩
  rcases hx with hx | hx
  · exact not_mem_of_digits hdigits (by decide) (List.mem_of_getElem? hx)
  · exact not_mem_of_digits hdigits (by decide) (List.mem_of_getElem? hx)

/-- Digits are converted to their number. -/
theorem stoul_digits (hne : h ≠ []) (hdigits : ∀ x ∈ h, isHexDigit x = true)
    (hlt : ofHexDigits h < 2 ^ 64) : stoul h = .ok (ofHexDigits h) := by
  obtain ⟨x, tail, rfl⟩ := List.exists_cons_of_ne_nil hne
  have hx := hdigits x List.mem_cons_self
  have hspace : (x :: tail).dropWhile isSpaceByte = x :: tail := by
    rw [List.dropWhile_cons, isSpaceByte_of_isHexDigit hx]
    rfl
  have hsign : splitSignByte (x :: tail) = (false, x :: tail) := by
    have hminus : x ≠ 45 := isHexDigit_ne hx (by decide)
    have hplus : x ≠ 43 := isHexDigit_ne hx (by decide)
    simp [splitSignByte, hminus, hplus]
  have hall : (x :: tail).takeWhile isHexDigit = x :: tail :=
    List.takeWhile_eq_self_iff.mpr hdigits
  simp only [stoul, hspace, hsign, dropHexPrefix_digits hdigits, hall]
  rw [if_neg hne, if_pos hlt]
  rfl

/-! ### The first iteration -/

theorem findLineEnd_line (hdigits : ∀ x ∈ h, isHexDigit x = true) :
    findLineEnd (h ++ (lineEnd ++ rest)) 0 = h.length := by
  have hcut : cut lineEnd (h ++ (lineEnd ++ rest)) = some (h, rest) :=
    cut_token (not_mem_of_digits hdigits (by decide))
  simp only [findLineEnd, List.drop_zero, hcut, Nat.zero_add]

/-- The copy is what is readable. -/
theorem SizeLine.totalData (hline : SizeLine b h rest) :
    totalData b = h ++ (lineEnd ++ rest) ∧ 0 ∈ b.peekData := by
  have hwf := hline.wellFormed
  have hread := hwf.read_le
  have hstop : b.peekData[b.readableBytes]? = some 0 := by
    rw [ReadBuffer.peekData, List.getElem?_drop, hwf.readableBytes_eq]
    have hsum : b.readPointer + (b.writePointer - b.readPointer) =
        b.writePointer := by omega
    rw [hsum]
    exact hline.terminated
  obtain ⟨hlt, hget⟩ := List.getElem?_eq_some_iff.mp hstop
  have hparts : b.peekData =
      b.readable ++ 0 :: b.peekData.drop (b.readableBytes + 1) := by
    rw [ReadBuffer.readable, ← hget, ← List.drop_eq_getElem_cons hlt,
      List.take_append_drop]
  constructor
  · have hnul : ∀ x ∈ b.readable, (x != 0) = true := by
      intro x hx
      have hne : x ≠ 0 := fun h0 => hline.nulFree (h0 ▸ hx)
      simpa using hne
    rw [← hline.readable, Mtasc.totalData, hparts,
      List.takeWhile_append_of_pos hnul]
    simp
  · exact List.mem_of_getElem? hstop

/-- Every iteration finds the same line again. -/
theorem chunkedStep_again (hdigits : ∀ x ∈ h, isHexDigit x = true)
    (hne : h ≠ []) (hlt : ofHexDigits h < 2 ^ 64)
    (hfits : h.length < 2 ^ 63) {c : ChunkedCursor}
    (hc : c.findStrPointer = 0) :
    chunkedStep (h ++ (lineEnd ++ rest)) c = .next
      ⟨c.buffer.retrieveData (h.length + 2), 0, some (ofHexDigits h)⟩ := by
  have hpos : toSizeT 0 = 0 := rfl
  have hlong : 0 < (h ++ (lineEnd ++ rest)).length := by
    rw [List.length_append]
    have := List.length_pos_of_ne_nil hne
    omega
  have hfound : h.length ≠ npos := by
    unfold npos
    omega
  have hcount : wsub 64 h.length 0 = h.length := by
    rw [wsub_of_le (Nat.zero_le _) (by omega), Nat.sub_zero]
  have hwidth : wadd 64 h.length 2 = h.length + 2 := wadd_of_lt (by omega)
  have htake : (h ++ (lineEnd ++ rest)).take h.length = h := List.take_left
  have hstoul := stoul_digits hne hdigits hlt
  simp only [chunkedStep, hc, hpos, if_pos hlong, findLineEnd_line hdigits,
    if_neg hfound, List.drop_zero, hcount, htake, if_neg hne, hstoul, hwidth]

theorem SizeLine.readableBytes_eq (hline : SizeLine b h rest) :
    b.readableBytes = h.length + 2 + rest.length := by
  rw [← hline.wellFormed.readable_length, hline.readable]
  simp only [lineEnd, List.length_append, List.length_cons, List.length_nil]
  omega

theorem SizeLine.length_lt (hline : SizeLine b h rest) : h.length < 2 ^ 63 := by
  have hlen := hline.readableBytes_eq
  have hwrite := hline.wellFormed.write_le
  have hmax := hline.wellFormed.size_le
  rw [hline.wellFormed.readableBytes_eq] at hlen
  unfold maxSize at hmax
  omega

/-- **The first iteration decodes the line**: it has the number, and leaves
what lies behind the line. -/
theorem chunkedStep_line (hline : SizeLine b h rest) :
    ∃ b', chunkedStep (totalData b) ⟨b, 0, none⟩ =
        .next ⟨b', 0, some (ofHexDigits h)⟩ ∧
      b'.readable = rest ∧ b'.WellFormed := by
  have hlen := hline.readableBytes_eq
  obtain ⟨hwf, hleft⟩ := hline.wellFormed.retrieveData_spec
    (n := h.length + 2) (by omega)
  refine ⟨b.retrieveData (h.length + 2), ?_, ?_, hwf⟩
  · rw [hline.totalData.1]
    exact chunkedStep_again hline.digits hline.digits_ne_nil hline.value_lt
      hline.length_lt rfl
  · have hassoc : h ++ (lineEnd ++ rest) = (h ++ lineEnd) ++ rest :=
      (List.append_assoc _ _ _).symm
    rw [hleft, hline.readable, hassoc]
    exact List.drop_left' (by simp [lineEnd])

/-! ### The loop -/

/-- **`M_findChunkedsize` does not end on a size line**: the index into the
copy stays where it is, so every iteration is followed by another. -/
theorem findChunkedsize_diverges (hline : SizeLine b h rest) (fuel : ℕ) :
    findChunkedsize fuel b = none := by
  obtain ⟨hdata, hnul⟩ := hline.totalData
  have hfits : h.length < 2 ^ 63 := hline.length_lt
  have hstep : ∀ c : ChunkedCursor, c.findStrPointer = 0 →
      ∃ c', chunkedStep (totalData b) c = .next c' ∧
        c'.findStrPointer = 0 := by
    intro c hc
    refine ⟨⟨c.buffer.retrieveData (h.length + 2), 0, some (ofHexDigits h)⟩,
      ?_, rfl⟩
    rw [hdata]
    exact chunkedStep_again hline.digits hline.digits_ne_nil hline.value_lt
      hfits hc
  unfold findChunkedsize
  rw [if_pos hnul]
  exact loop_diverges hstep fuel rfl

theorem SizeLine.not_decodesLine (hline : SizeLine b h rest) :
    ¬ DecodesLine b h rest := by
  rintro ⟨fuel, b', hreturned, -⟩
  rw [findChunkedsize_diverges hline fuel] at hreturned
  cases hreturned

end

/-- The first line of the source's own example: a chunk `Wiki` of four bytes. -/
theorem sizeLine_wiki :
    SizeLine ⟨[52, 13, 10, 87, 105, 107, 105, 13, 10, 0], 0, 9⟩
      [52] [87, 105, 107, 105, 13, 10] where
  wellFormed := ⟨by decide, by decide, by decide⟩
  readable := by decide
  terminated := by decide
  nulFree := by decide
  digits_ne_nil := by decide
  digits := List.forall_mem_singleton.mpr rfl
  value_lt := by decide

/-- **No size line is decoded**: whatever its number is and whatever stands
behind it, no number of iterations is enough. -/
theorem findChunkedsize_never (b : ReadBuffer) (h rest : Bytes)
    (hline : SizeLine b h rest) :
    (∀ fuel, findChunkedsize fuel b = none) ∧ ¬ DecodesLine b h rest :=
  ⟨findChunkedsize_diverges hline, hline.not_decodesLine⟩

theorem findChunkedsize_never_wiki :
    (∀ fuel, findChunkedsize fuel
        ⟨[52, 13, 10, 87, 105, 107, 105, 13, 10, 0], 0, 9⟩ = none) ∧
      ¬ DecodesLine ⟨[52, 13, 10, 87, 105, 107, 105, 13, 10, 0], 0, 9⟩
        [52] [87, 105, 107, 105, 13, 10] :=
  findChunkedsize_never _ _ _ sizeLine_wiki

theorem not_findChunkedsize_decodes :
    ¬ ∀ (b : ReadBuffer) (h rest : Bytes), SizeLine b h rest →
      DecodesLine b h rest := by
  intro hall
  exact sizeLine_wiki.not_decodesLine (hall _ _ _ sizeLine_wiki)

end Mtasc
