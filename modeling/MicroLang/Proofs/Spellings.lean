import Mathlib.Data.Nat.Digits.Defs
import MicroLang.Proofs.Operands

/-!
# Ways to write an integer

A spelling is a sign, which may be missing, and a magnitude: a number in decimal without leading
zeros, or digits behind a mark for the radix, with letters of either case. It has a text and a
value, and `Numeral.read` takes the one to the other:

> `read_spelling`: the text of a spelling is read as its value, unless it is a decimal of more than
> `digitLimit` digits.

Digits behind a mark are not limited, and may start with zeros.
-/

namespace MicroLang.Text.Numeral

/-! ## Spellings -/

/-- The notations that are marked. -/
inductive Radix where
  | hexadecimal
  | octal
  | binary

namespace Radix

/-- The number of digits in a notation. -/
def base : Radix → Nat
  | hexadecimal => 16
  | octal => 8
  | binary => 2

/-- The letter behind the zero of a mark, as a small or as a capital letter. -/
def letter : Radix → Bool → Char
  | hexadecimal, false => 'x'
  | hexadecimal, true => 'X'
  | octal, false => 'o'
  | octal, true => 'O'
  | binary, false => 'b'
  | binary, true => 'B'

end Radix

/-- A digit of a marked notation, and whether its letter is a capital one. -/
structure Digit (radix : Radix) where
  value : Fin radix.base
  capital : Bool := false

/-- The character of a digit. -/
def Digit.char {radix : Radix} (d : Digit radix) : Char :=
  if d.capital then (Nat.digitChar d.value).toUpper else Nat.digitChar d.value

/-- What may stand in front of a magnitude. -/
inductive Sign where
  | missing
  | plus
  | minus
deriving DecidableEq

namespace Sign

/-- The text of a sign. -/
def text : Sign → List Char
  | missing => []
  | plus => ['+']
  | minus => ['-']

/-- The integer with a sign and a magnitude. -/
def apply (sign : Sign) (n : Nat) : Int :=
  if sign = minus then -(n : Int) else n

end Sign

/-- A number in decimal, or digits behind a mark. -/
inductive Magnitude where
  | decimal (n : Nat)
  | marked (radix : Radix) (capital : Bool) (first : Digit radix) (more : List (Digit radix))

namespace Magnitude

/-- The text of a magnitude. -/
def text : Magnitude → List Char
  | decimal n => Nat.toDigits 10 n
  | marked radix capital first more => '0' :: radix.letter capital :: (first :: more).map Digit.char

/-- The number that a magnitude stands for. -/
def value : Magnitude → Nat
  | decimal n => n
  | marked radix _ first more =>
    Nat.ofDigits radix.base ((first :: more).map fun d => (d.value : Nat)).reverse

/-- The number of decimal digits, for which there is a limit. -/
def decimals : Magnitude → Nat
  | decimal n => (Nat.toDigits 10 n).length
  | marked .. => 0

end Magnitude

/-- An integer as it is written. -/
structure Spelling where
  sign : Sign
  magnitude : Magnitude

namespace Spelling

/-- The text of a spelling. -/
def text (s : Spelling) : List Char :=
  s.sign.text ++ s.magnitude.text

/-- The integer that is written. -/
def value (s : Spelling) : Int :=
  s.sign.apply s.magnitude.value

/-- A spelling with at most as many decimal digits as are read. -/
def Short (s : Spelling) : Prop :=
  s.magnitude.decimals ≤ digitLimit

instance (s : Spelling) : Decidable s.Short :=
  inferInstanceAs (Decidable (_ ≤ _))

end Spelling

/-! ## The characters of a spelling -/

/-- A sign, or a digit or letter of ASCII. -/
def IsNumeralChar (c : Char) : Prop :=
  c.toNat = 43 ∨ c.toNat = 45 ∨ 48 ≤ c.toNat ∧ c.toNat ≤ 57 ∨ 65 ≤ c.toNat ∧ c.toNat ≤ 90
    ∨ 97 ≤ c.toNat ∧ c.toNat ≤ 122

instance (c : Char) : Decidable (IsNumeralChar c) :=
  inferInstanceAs (Decidable (_ ∨ _))

/-- Such a character is none of the others. -/
theorem IsNumeralChar.ne {c d : Char} (h : IsNumeralChar c) (hd : ¬IsNumeralChar d) : c ≠ d := by
  intro he
  rw [he] at h
  exact hd h

/-- Such a character is not blank. -/
theorem IsNumeralChar.not_isBlank {c : Char} (h : IsNumeralChar c) : isBlank c = false := by
  unfold IsNumeralChar at h
  simp only [isBlank, isWhiteSpace, Bool.or_eq_false_iff, Bool.and_eq_false_imp,
    decide_eq_true_eq, decide_eq_false_iff_not, beq_eq_false_iff_ne]
  omega

theorem isNumeralChar_of_isDigit {c : Char} (h : c.isDigit = true) : IsNumeralChar c := by
  have hrange := toNat_of_isDigit h
  unfold IsNumeralChar
  omega

theorem isNumeralChar_digit {radix : Radix} (d : Digit radix) : IsNumeralChar d.char := by
  obtain ⟨value, capital⟩ := d
  cases radix <;> revert value capital <;> decide

theorem Magnitude.isNumeralChar (m : Magnitude) : ∀ c ∈ m.text, IsNumeralChar c := by
  intro c hc
  cases m with
  | decimal n => exact isNumeralChar_of_isDigit (isDigit_of_mem_toDigits c hc)
  | marked radix capital first more =>
    rcases List.mem_cons.mp hc with rfl | hc
    · decide
    rcases List.mem_cons.mp hc with rfl | hc
    · cases radix <;> cases capital <;> decide
    · obtain ⟨d, _, rfl⟩ := List.mem_map.mp hc
      exact isNumeralChar_digit d

theorem Spelling.isNumeralChar (s : Spelling) : ∀ c ∈ s.text, IsNumeralChar c := by
  intro c hc
  rcases List.mem_append.mp hc with hsign | hmagnitude
  · cases hs : s.sign with
    | missing => rw [hs] at hsign; exact absurd hsign List.not_mem_nil
    | plus => rw [hs] at hsign; rw [List.mem_singleton.mp hsign]; decide
    | minus => rw [hs] at hsign; rw [List.mem_singleton.mp hsign]; decide
  · exact s.magnitude.isNumeralChar c hmagnitude

/-- A magnitude starts with a digit of ASCII. -/
theorem Magnitude.exists_head (m : Magnitude) :
    ∃ c rest, m.text = c :: rest ∧ c.isDigit = true := by
  cases m with
  | decimal n =>
    obtain ⟨c, rest, htext⟩ := List.exists_cons_of_ne_nil (Nat.toDigits_ne_nil (b := 10) (n := n))
    exact ⟨c, rest, htext, isDigit_of_mem_toDigits c (by rw [htext]; exact List.mem_cons_self)⟩
  | marked radix capital first more => exact ⟨'0', _, rfl, by decide⟩

theorem Spelling.text_ne_nil (s : Spelling) : s.text ≠ [] := by
  obtain ⟨c, rest, htext, _⟩ := s.magnitude.exists_head
  unfold text
  rw [htext]
  exact List.append_ne_nil_of_right_ne_nil _ (List.cons_ne_nil c rest)

/-! ## Reading a spelling -/

/-- A text of such characters is seen as it is. -/
theorem dropWhile_plain_of_isNumeralChar {cs : List Char} (h : ∀ c ∈ cs, IsNumeralChar c) :
    (cs.map plain).dropWhile isPadding = cs := by
  have hplain : ∀ c ∈ cs, plain c = c := by
    intro c hc
    have hc := h c hc
    unfold IsNumeralChar at hc
    unfold plain
    rw [if_pos (by omega)]
  rw [List.map_congr_left hplain, List.map_id']
  cases cs with
  | nil => rfl
  | cons c cs =>
    have hpadding : isPadding c = false := by
      have hc := h c List.mem_cons_self
      have hspace : c ≠ ' ' := hc.ne (by decide)
      unfold IsNumeralChar at hc
      unfold isPadding
      rw [beq_false_of_ne hspace, Bool.false_or, Bool.and_eq_false_imp, decide_eq_true_eq,
        decide_eq_false_iff_not]
      omega
    exact List.dropWhile_cons_of_neg (by simp [hpadding])

/-- The sign and the magnitude of a spelling apart. -/
theorem dropSign_text (s : Spelling) :
    dropSign s.text = (decide (s.sign = .minus), s.magnitude.text) := by
  obtain ⟨sign, m⟩ := s
  obtain ⟨c, rest, htext, hc⟩ := m.exists_head
  cases sign with
  | plus => rfl
  | minus => rfl
  | missing =>
    show dropSign ([] ++ m.text) = _
    rw [List.nil_append, htext]
    unfold dropSign
    split
    · next heq =>
      cases heq
      exact absurd hc (by decide)
    · next heq =>
      cases heq
      exact absurd hc (by decide)
    · rfl

/-- A digit is read as its value. -/
theorem digitIn?_char {radix : Radix} (d : Digit radix) :
    digitIn? radix.base d.char = some (d.value : Nat) := by
  obtain ⟨value, capital⟩ := d
  cases radix <;> revert value capital <;> decide

theorem ofDigits_eq (radix : Nat) (digits : List Nat) :
    ofDigits radix digits = Nat.ofDigits radix digits.reverse := by
  rw [ofDigits, Nat.ofDigits_eq_foldr, List.foldr_reverse]
  congr 1
  funext n d
  simp [Nat.mul_comm, Nat.add_comm]

/-- The mark of a magnitude is dropped with the radix that it stands for. -/
theorem dropRadix_marked (radix : Radix) (capital : Bool) (first : Digit radix)
    (more : List (Digit radix)) :
    dropRadix (Magnitude.marked radix capital first more).text
      = (radix.base, (first :: more).map Digit.char) := by
  have hmark : markedRadix? (radix.letter capital) = some radix.base := by
    cases radix <;> cases capital <;> rfl
  have hfirst : (((first :: more).map Digit.char).head? == some '_') = false := by
    have hchar := isNumeralChar_digit first
    rw [List.map_cons, List.head?_cons]
    exact beq_false_of_ne fun he => hchar.ne (by decide) (Option.some.inj he)
  unfold Magnitude.text dropRadix
  simp only [hmark, hfirst]
  rfl

/-- All digits behind a mark are taken, however many there are. -/
theorem readDigits_marked (text : String) (radix : Radix) (first : Digit radix)
    (more : List (Digit radix)) :
    readDigits text radix.base ((first :: more).map Digit.char)
      = .ok (Nat.ofDigits radix.base ((first :: more).map fun d => (d.value : Nat)).reverse,
        []) := by
  have hpart : ∀ c ∈ (first :: more).map Digit.char,
      (c == '_' || (digitIn? radix.base c).isSome) = true := by
    intro c hc
    obtain ⟨d, _, rfl⟩ := List.mem_map.mp hc
    rw [digitIn?_char, Option.isSome_some, Bool.or_true]
  have htake := List.takeWhile_eq_self_iff.mpr hpart
  have hdrop := List.dropWhile_eq_nil_iff.mpr hpart
  have hvalues : ((first :: more).map Digit.char).filterMap (digitIn? radix.base)
      = (first :: more).map fun d => (d.value : Nat) := by
    rw [List.filterMap_map, ← List.filterMap_eq_map]
    exact List.filterMap_congr fun d _ => digitIn?_char d
  have hsplit : splitWhere (· == '_') ((first :: more).map Digit.char)
      = [(first :: more).map Digit.char] := by
    refine splitWhere_eq_singleton fun c hc => beq_false_of_ne ?_
    obtain ⟨d, _, rfl⟩ := List.mem_map.mp hc
    exact (isNumeralChar_digit d).ne (by decide)
  have hradix : (radix.base == 10) = false := by
    cases radix <;> rfl
  unfold readDigits
  simp only [htake, hdrop, hvalues, hsplit, hradix, ofDigits_eq]
  rfl

/-- Digits in decimal are read with their sign, or are too many. -/
theorem readUnsigned_decimal (text : String) (sign : Sign) (n : Nat) :
    readUnsigned text (decide (sign = .minus)) 10 (Nat.toDigits 10 n)
      = if (Nat.toDigits 10 n).length ≤ digitLimit then .ok (sign.apply n)
        else .error (.tooLong (Nat.toDigits 10 n).length) := by
  by_cases hshort : (Nat.toDigits 10 n).length ≤ digitLimit
  · rw [if_pos hshort, readUnsigned_of_isDigit _ Nat.toDigits_ne_nil isDigit_of_mem_toDigits hshort,
      Nat.ofDigitChars_ten_toDigits]
    simp only [decide_eq_true_eq, Sign.apply]
  · rw [if_neg hshort]
    unfold readUnsigned
    rw [readDigits_eq_ite Nat.toDigits_ne_nil isDigit_of_mem_toDigits,
      if_pos (Nat.not_le.mp hshort)]
    rfl

/-- Digits behind a mark are read with their sign. -/
theorem readUnsigned_marked (text : String) (sign : Sign) (radix : Radix) (first : Digit radix)
    (more : List (Digit radix)) :
    readUnsigned text (decide (sign = .minus)) radix.base ((first :: more).map Digit.char)
      = .ok (sign.apply
        (Nat.ofDigits radix.base ((first :: more).map fun d => (d.value : Nat)).reverse)) := by
  unfold readUnsigned
  rw [readDigits_marked]
  simp only [bind, Except.bind, List.all_nil, if_true, pure, Except.pure, decide_eq_true_eq,
    Sign.apply]

/-- The text of a spelling is read as its value, or has too many decimal digits. -/
theorem read_spelling (s : Spelling) :
    read (String.ofList s.text)
      = if s.Short then .ok s.value else .error (.tooLong s.magnitude.decimals) := by
  unfold read
  rw [String.toList_ofList, dropWhile_plain_of_isNumeralChar s.isNumeralChar, dropSign_text]
  obtain ⟨sign, m⟩ := s
  cases m with
  | decimal n =>
    have hradix : dropRadix (Magnitude.decimal n).text = (10, Nat.toDigits 10 n) :=
      dropRadix_of_isDigit isDigit_of_mem_toDigits
    simp only [hradix, readUnsigned_decimal]
    by_cases hshort : (Nat.toDigits 10 n).length ≤ digitLimit
    · rw [if_pos hshort, if_pos (show Spelling.Short ⟨sign, .decimal n⟩ from hshort)]
      -- only zero starts with a zero
      refine if_neg fun hzero => ?_
      simp only [beq_self_eq_true, Bool.true_and, Bool.and_eq_true, beq_iff_eq, bne_iff_ne] at hzero
      apply hzero.2
      rw [head?_toDigits hzero.1]
      cases sign <;> rfl
    · rw [if_neg hshort, if_neg (show ¬Spelling.Short ⟨sign, .decimal n⟩ from hshort)]
      rfl
  | marked radix capital first more =>
    have hradix : (radix.base == 10) = false := by
      cases radix <;> rfl
    have hshort : Spelling.Short ⟨sign, .marked radix capital first more⟩ := Nat.zero_le _
    simp only [dropRadix_marked, readUnsigned_marked, hradix, bind, Except.bind, pure, Except.pure]
    rw [if_pos hshort]
    rfl

end MicroLang.Text.Numeral
