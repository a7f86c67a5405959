import Mathlib

/-!
# `std::stoi`

The conversion the parsers use for ports, base 10: leading white space is
skipped, one sign is accepted, the number ends at the first character that is
no digit. Without any digit it throws `std::invalid_argument`, outside the
range of `int` it throws `std::out_of_range`.
-/

namespace Mtasc

abbrev Text : Type := List Char

inductive StoiError where
  | invalidArgument
  | outOfRange
deriving DecidableEq, Repr

/-- `std::isspace` in the C locale. -/
def isSpace (c : Char) : Bool :=
  c = ' ' || ('\t' ≤ c && c ≤ '\r')

/-- The optional sign: whether it is a minus, and what follows it. -/
def splitSignChar : Text → Bool × Text
  | '-' :: rest => (true, rest)
  | '+' :: rest => (false, rest)
  | rest => (false, rest)

def stoi (s : Text) : Except StoiError ℤ :=
  let (negative, rest) := splitSignChar (s.dropWhile isSpace)
  let digits := rest.takeWhile Char.isDigit
  let magnitude : ℤ := Nat.ofDigitChars 10 digits 0
  let value := if negative then -magnitude else magnitude
  if digits = [] then .error .invalidArgument
  else if -2 ^ 31 ≤ value ∧ value < 2 ^ 31 then .ok value
  else .error .outOfRange

/-- The conversion of an `int` to `uint16_t`. -/
def toPort (value : ℤ) : UInt16 := UInt16.ofInt value

/-! ## Decimal port texts -/

/-- `t` is a decimal numeral of `n`, leading zeros allowed. -/
structure IsDecimal (t : Text) (n : UInt16) : Prop where
  ne_nil : t ≠ []
  digits : ∀ c ∈ t, c.isDigit = true
  value : Nat.ofDigitChars 10 t 0 = n.toNat

theorem isDecimal_toDigits (n : UInt16) :
    IsDecimal (Nat.toDigits 10 n.toNat) n where
  ne_nil := Nat.toDigits_ne_nil
  digits := fun _ hc => Nat.isDigit_of_mem_toDigits (by omega) (by omega) hc
  value := Nat.ofDigitChars_toDigits (by omega) (by omega)

theorem isDigit_ne {c d : Char} (h : c.isDigit = true)
    (hd : d.isDigit = false) : c ≠ d := by
  rintro rfl
  rw [h] at hd
  exact Bool.noConfusion hd

theorem isSpace_of_isDigit {c : Char} (h : c.isDigit = true) :
    isSpace c = false := by
  have hc : '0' ≤ c := by
    simp only [Char.isDigit, Bool.and_eq_true, decide_eq_true_eq] at h
    exact h.1
  have hr : ¬ c ≤ '\r' := fun hle => absurd (Char.le_trans hc hle) (by decide)
  simp [isSpace, hr, isDigit_ne h]

theorem toPort_toNat (n : UInt16) : toPort (n.toNat : ℤ) = n := by
  unfold toPort UInt16.ofInt
  have hn := n.toNat_lt
  have hmod : ((n.toNat : ℤ) % 2 ^ 16).toNat = n.toNat := by omega
  rw [hmod, UInt16.ofNat_toNat]

/-! ## What `std::stoi` converts -/

theorem splitSignChar_of_ne {c : Char} {rest : Text} (hminus : c ≠ '-')
    (hplus : c ≠ '+') : splitSignChar (c :: rest) = (false, c :: rest) := by
  unfold splitSignChar
  split
  · next heq => exact absurd (List.cons.inj heq).1 hminus
  · next heq => exact absurd (List.cons.inj heq).1 hplus
  · rfl

/-- White space, a sign, digits and something that does not go on with a
digit. -/
structure StoiParts where
  space : Text
  sign : Text
  digits : Text
  tail : Text
  space_all : ∀ c ∈ space, isSpace c = true
  sign_mem : sign ∈ [[], ['-'], ['+']]
  digits_ne_nil : digits ≠ []
  digits_all : ∀ c ∈ digits, c.isDigit = true
  tail_head : ∀ c ∈ tail.head?, c.isDigit = false

namespace StoiParts

def text (p : StoiParts) : Text := p.space ++ (p.sign ++ (p.digits ++ p.tail))

def value (p : StoiParts) : ℤ :=
  if p.sign = ['-'] then -(Nat.ofDigitChars 10 p.digits 0 : ℤ)
  else Nat.ofDigitChars 10 p.digits 0

/-- The value fits into an `int`. -/
def InRange (p : StoiParts) : Prop := -2 ^ 31 ≤ p.value ∧ p.value < 2 ^ 31

theorem digits_cons (p : StoiParts) :
    ∃ c rest, p.digits = c :: rest ∧ c.isDigit = true := by
  obtain ⟨c, rest, hdigits⟩ := List.exists_cons_of_ne_nil p.digits_ne_nil
  refine ⟨c, rest, hdigits, p.digits_all c ?_⟩
  rw [hdigits]
  exact List.mem_cons_self

theorem takeWhile_digits (p : StoiParts) :
    (p.digits ++ p.tail).takeWhile Char.isDigit = p.digits := by
  rw [List.takeWhile_append_of_pos p.digits_all]
  have htail : p.tail.takeWhile Char.isDigit = [] := by
    cases htail : p.tail with
    | nil => rfl
    | cons c rest =>
        have hc := p.tail_head c (by rw [htail]; rfl)
        rw [List.takeWhile_cons_of_neg (by simp [hc])]
  rw [htail, List.append_nil]

theorem splitSignChar_text (p : StoiParts) :
    splitSignChar (p.text.dropWhile isSpace) =
      (decide (p.sign = ['-']), p.digits ++ p.tail) := by
  obtain ⟨c, rest, hdigits, hc⟩ := p.digits_cons
  rw [text, List.dropWhile_append_of_pos p.space_all]
  have hsign := p.sign_mem
  simp only [List.mem_cons, List.not_mem_nil, or_false] at hsign
  rcases hsign with hnil | hminus | hplus
  · rw [hnil, hdigits, List.nil_append, List.cons_append,
      List.dropWhile_cons_of_neg (by simp [isSpace_of_isDigit hc]),
      splitSignChar_of_ne (isDigit_ne hc (by decide))
        (isDigit_ne hc (by decide))]
    rfl
  · rw [hminus]
    rfl
  · rw [hplus]
    rfl

theorem stoi_text (p : StoiParts) :
    stoi p.text = if -2 ^ 31 ≤ p.value ∧ p.value < 2 ^ 31 then .ok p.value
      else .error .outOfRange := by
  simp only [stoi, splitSignChar_text, takeWhile_digits,
    if_neg p.digits_ne_nil, decide_eq_true_eq]
  rfl

end StoiParts

/-- Where `std::stoi` finds a digit, the text has the parts of a number. -/
theorem exists_stoiParts {t : Text}
    (h : (splitSignChar (t.dropWhile isSpace)).2.takeWhile Char.isDigit ≠ []) :
    ∃ p : StoiParts, p.text = t := by
  have hspace := List.takeWhile_append_dropWhile (p := isSpace) (l := t)
  have hall : ∀ c ∈ t.takeWhile isSpace, isSpace c = true :=
    fun c hc => List.mem_takeWhile_imp hc
  have hparts : ∀ sign rest : Text, sign ∈ [[], ['-'], ['+']] →
      t.dropWhile isSpace = sign ++ rest → rest.takeWhile Char.isDigit ≠ [] →
      ∃ p : StoiParts, p.text = t := by
    intro sign rest hsign hdrop hdigits
    refine ⟨⟨t.takeWhile isSpace, sign, rest.takeWhile Char.isDigit,
      rest.dropWhile Char.isDigit, hall, hsign, hdigits,
      fun c hc => List.mem_takeWhile_imp hc, ?_⟩, ?_⟩
    · intro c hc
      have := List.head?_dropWhile_not Char.isDigit rest
      rw [hc] at this
      simpa using this
    · rw [StoiParts.text]
      dsimp only
      rw [List.takeWhile_append_dropWhile, ← hdrop, hspace]
  cases hdrop : t.dropWhile isSpace with
  | nil =>
      rw [hdrop] at h
      exact absurd rfl h
  | cons c rest =>
      rw [hdrop] at h
      by_cases hminus : c = '-'
      · subst hminus
        exact hparts ['-'] rest (by simp) hdrop h
      · by_cases hplus : c = '+'
        · subst hplus
          exact hparts ['+'] rest (by simp) hdrop h
        · rw [splitSignChar_of_ne hminus hplus] at h
          exact hparts [] (c :: rest) (by simp) hdrop h

/-- **What `std::stoi` converts**: a number behind white space, with whatever
follows it, if it fits into an `int`. -/
theorem stoi_ok_iff {t : Text} {value : ℤ} :
    stoi t = .ok value ↔
      ∃ p : StoiParts, p.text = t ∧ p.value = value ∧ p.InRange := by
  constructor
  · intro h
    have hdigits : (splitSignChar (t.dropWhile isSpace)).2.takeWhile
        Char.isDigit ≠ [] := by
      intro hnil
      simp only [stoi, hnil, if_true] at h
      cases h
    obtain ⟨p, rfl⟩ := exists_stoiParts hdigits
    rw [p.stoi_text] at h
    split at h
    · next hrange => exact ⟨p, rfl, Except.ok.inj h, hrange⟩
    · cases h
  · rintro ⟨p, rfl, rfl, hrange⟩
    rw [p.stoi_text]
    exact if_pos hrange

/-! ## Texts converted to some port -/

/-- A text that `std::stoi` converts although it is no plain numeral of a
port: with white space, a sign or a tail, or too large. -/
def Misread (t : Text) : Prop :=
  ∃ p : StoiParts, p.text = t ∧ p.InRange ∧
    (p.space ≠ [] ∨ p.sign ≠ [] ∨ p.tail ≠ [] ∨ 65535 < p.value)

/-- The parts of a decimal numeral are its digits. -/
theorem IsDecimal.parts {p : StoiParts} {n : UInt16} (h : IsDecimal p.text n) :
    p.space = [] ∧ p.sign = [] ∧ p.tail = [] ∧ p.digits = p.text := by
  have hmem : ∀ c, c ∈ p.space ∨ c ∈ p.sign ∨ c ∈ p.tail → c.isDigit = true := by
    intro c hc
    apply h.digits c
    simp only [StoiParts.text, List.mem_append]
    tauto
  have hspace : p.space = [] := by
    apply List.eq_nil_iff_forall_not_mem.mpr
    intro c hc
    have hdigit := isSpace_of_isDigit (hmem c (Or.inl hc))
    rw [p.space_all c hc] at hdigit
    cases hdigit
  have hsign : p.sign = [] := by
    have hsign := p.sign_mem
    simp only [List.mem_cons, List.not_mem_nil, or_false] at hsign
    rcases hsign with hnil | hminus | hplus
    · exact hnil
    · have hdigit := hmem '-' (Or.inr (Or.inl (by rw [hminus]; simp)))
      exact absurd hdigit (by decide)
    · have hdigit := hmem '+' (Or.inr (Or.inl (by rw [hplus]; simp)))
      exact absurd hdigit (by decide)
  have htail : p.tail = [] := by
    cases htail : p.tail with
    | nil => rfl
    | cons c rest =>
        have hdigit := hmem c (Or.inr (Or.inr (by rw [htail]; simp)))
        rw [p.tail_head c (by rw [htail]; rfl)] at hdigit
        cases hdigit
  refine ⟨hspace, hsign, htail, ?_⟩
  rw [StoiParts.text, hspace, hsign, htail]
  simp

theorem misread_iff {t : Text} :
    Misread t ↔ (∃ value, stoi t = .ok value) ∧ ¬ ∃ n, IsDecimal t n := by
  constructor
  · rintro ⟨p, rfl, hrange, hodd⟩
    refine ⟨⟨p.value, stoi_ok_iff.mpr ⟨p, rfl, rfl, hrange⟩⟩, ?_⟩
    rintro ⟨n, hn⟩
    obtain ⟨hspace, hsign, htail, hdigits⟩ := hn.parts
    have hvalue : p.value = n.toNat := by
      rw [StoiParts.value, hsign, if_neg (by decide), hdigits, hn.value]
    have hlt := n.toNat_lt
    rcases hodd with h | h | h | h
    · exact h hspace
    · exact h hsign
    · exact h htail
    · omega
  · rintro ⟨⟨value, hvalue⟩, hno⟩
    obtain ⟨p, rfl, rfl, hrange⟩ := stoi_ok_iff.mp hvalue
    refine ⟨p, rfl, hrange, ?_⟩
    by_contra hplain
    simp only [not_or, not_not, not_lt] at hplain
    obtain ⟨hspace, hsign, htail, hle⟩ := hplain
    have htext : p.text = p.digits := by
      rw [StoiParts.text, hspace, hsign, htail]
      simp
    rw [StoiParts.value, hsign, if_neg (by decide)] at hle
    refine hno ⟨UInt16.ofNat (Nat.ofDigitChars 10 p.digits 0), ?_, ?_, ?_⟩
    · rw [htext]
      exact p.digits_ne_nil
    · rw [htext]
      exact p.digits_all
    · rw [htext, UInt16.toNat_ofNat']
      exact (Nat.mod_eq_of_lt (by omega)).symm

/-- What follows a decimal numeral does not matter, if it starts with no
digit. -/
theorem IsDecimal.stoi_append {t tail : Text} {n : UInt16} (h : IsDecimal t n)
    (htail : ∀ c ∈ tail.head?, c.isDigit = false) :
    Mtasc.stoi (t ++ tail) = .ok (n.toNat : ℤ) := by
  have hn := n.toNat_lt
  apply stoi_ok_iff.mpr
  refine ⟨⟨[], [], t, tail, by simp, by simp, h.ne_nil, h.digits, htail⟩, rfl,
    ?_, ?_⟩
  · simp [StoiParts.value, h.value]
  · simp only [StoiParts.InRange, StoiParts.value, h.value]
    rw [if_neg (by decide)]
    omega

/-- `std::stoi` reads a decimal numeral of a port back. -/
theorem IsDecimal.stoi {t : Text} {n : UInt16} (h : IsDecimal t n) :
    stoi t = .ok (n.toNat : ℤ) := by
  have hend : ∀ c ∈ ([] : Text).head?, c.isDigit = false := by
    intro c hc
    cases hc
  have hstoi := h.stoi_append hend
  rwa [List.append_nil] at hstoi

end Mtasc
