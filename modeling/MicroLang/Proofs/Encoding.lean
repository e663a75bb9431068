import MicroLang.Machine.InputFile

/-!
# Texts that files give back

A text that is written to a file and read again is the same text, for every text whose lines end in
line feeds only. The decoder takes one byte at a time, so what is said here about the bytes of one
character is said with any bytes after them; the law of a whole text is an induction over its
characters. An input file that is copied as a text holds the same integers as before: its line ends
may change, its values do not.
-/

namespace MicroLang.Text.Utf8

theorem toNat_toUInt8 {n : Nat} (h : n < 256) : n.toUInt8.toNat = n := by
  rw [Nat.toUInt8, UInt8.toNat_ofNat']
  exact Nat.mod_eq_of_lt h

/-- The characters in front of what a decoder gives. -/
def prepend (c : Char) (result : List Char × Option Fault) : List Char × Option Fault :=
  (c :: result.1, result.2)

theorem decodeFrom_ascii (pos : Nat) {n : Nat} (h : n < 0x80) (rest : List UInt8) :
    decodeFrom pos .fresh (n.toUInt8 :: rest)
      = prepend (Char.ofNat n) (decodeFrom (pos + 1) .fresh rest) := by
  have hn : n.toUInt8.toNat = n := toNat_toUInt8 (by omega)
  have hlow : n.toUInt8 < 0x80 := UInt8.lt_iff_toNat_lt.2 (by rw [hn]; exact h)
  show (if n.toUInt8 < 0x80 then _ else _) = _
  rw [if_pos hlow, hn]
  rfl

/-- A byte inside a sequence, if it is in the range that the sequence goes on in. -/
theorem decodeFrom_inside (pos start more : Nat) {lo hi : UInt8} (bits : Nat) {n : Nat}
    (hlo : lo.toNat ≤ n) (hhi : n ≤ hi.toNat) (rest : List UInt8) :
    decodeFrom pos (.inside start more lo hi bits) (n.toUInt8 :: rest)
      = if more ≤ 1 then
          prepend (Char.ofNat (bits * 64 + (n - 0x80))) (decodeFrom (pos + 1) .fresh rest)
        else
          decodeFrom (pos + 1) (.inside start (more - 1) 0x80 0xBF (bits * 64 + (n - 0x80)))
            rest := by
  have hn : n.toUInt8.toNat = n := toNat_toUInt8 (by have := hi.toNat_lt; omega)
  have hin : (lo ≤ n.toUInt8 && n.toUInt8 ≤ hi) = true := by
    simp [UInt8.le_iff_toNat_le, hn, hlo, hhi]
  rw [decodeFrom, if_pos hin, hn]
  rfl

theorem decodeFrom_last (pos start : Nat) {lo hi : UInt8} (bits : Nat) {n : Nat}
    (hlo : lo.toNat ≤ n) (hhi : n ≤ hi.toNat) (rest : List UInt8) :
    decodeFrom pos (.inside start 1 lo hi bits) (n.toUInt8 :: rest)
      = prepend (Char.ofNat (bits * 64 + (n - 0x80))) (decodeFrom (pos + 1) .fresh rest) := by
  rw [decodeFrom_inside pos start 1 bits hlo hhi rest, if_pos (Nat.le_refl 1)]

theorem decodeFrom_more (pos start more : Nat) {lo hi : UInt8} (bits : Nat) {n : Nat}
    (hlo : lo.toNat ≤ n) (hhi : n ≤ hi.toNat) (rest : List UInt8) :
    decodeFrom pos (.inside start (more + 2) lo hi bits) (n.toUInt8 :: rest)
      = decodeFrom (pos + 1) (.inside start (more + 1) 0x80 0xBF (bits * 64 + (n - 0x80)))
          rest := by
  rw [decodeFrom_inside pos start (more + 2) bits hlo hhi rest, if_neg (by omega)]
  rfl

theorem decodeFrom_open (pos : Nat) {n : Nat} (hlow : 0x80 ≤ n) (hhigh : n < 256)
    {pending : Pending} (h : openSequence pos n.toUInt8 = some pending) (rest : List UInt8) :
    decodeFrom pos .fresh (n.toUInt8 :: rest) = decodeFrom (pos + 1) pending rest := by
  have hn : n.toUInt8.toNat = n := toNat_toUInt8 hhigh
  have hnot : ¬ n.toUInt8 < 0x80 := by
    rw [UInt8.lt_iff_toNat_lt, hn]
    exact Nat.not_lt.2 hlow
  show (if n.toUInt8 < 0x80 then _ else _) = _
  rw [if_neg hnot, h]

theorem openSequence_two (start : Nat) {n : Nat} (hlow : 0xC2 ≤ n) (hhigh : n ≤ 0xDF) :
    openSequence start n.toUInt8 = some (.inside start 1 0x80 0xBF (n - 0xC0)) := by
  have hn : n.toUInt8.toNat = n := toNat_toUInt8 (by omega)
  simp [openSequence, UInt8.le_iff_toNat_le, hn, hlow, hhigh]

/-- The first of three bytes. It narrows the second one where the sequence would otherwise be too
long for its character, or a surrogate. -/
theorem openSequence_three (start : Nat) {n : Nat} (hlow : 0xE0 ≤ n) (hhigh : n ≤ 0xEF) :
    openSequence start n.toUInt8
      = some (.inside start 2 (if n = 0xE0 then 0xA0 else 0x80) (if n = 0xED then 0x9F else 0xBF)
          (n - 0xE0)) := by
  have hn : n.toUInt8.toNat = n := toNat_toUInt8 (by omega)
  simp only [openSequence, UInt8.le_iff_toNat_le, ← UInt8.toNat_inj, beq_iff_eq, hn,
    Bool.and_eq_true, decide_eq_true_eq]
  by_cases h0 : n = 0xE0
  · subst h0
    rfl
  by_cases hd : n = 0xED
  · subst hd
    rfl
  have h1 : ¬ n ≤ 0xDF := by omega
  have h2 : 0xE1 ≤ n := by omega
  simp [h0, hd, h1, h2, hhigh]

/-- The first of four bytes. It narrows the second one where the sequence would otherwise be too
long for its character, or past the last character. -/
theorem openSequence_four (start : Nat) {n : Nat} (hlow : 0xF0 ≤ n) (hhigh : n ≤ 0xF4) :
    openSequence start n.toUInt8
      = some (.inside start 3 (if n = 0xF0 then 0x90 else 0x80) (if n = 0xF4 then 0x8F else 0xBF)
          (n - 0xF0)) := by
  obtain rfl | rfl | rfl | rfl | rfl :
      n = 0xF0 ∨ n = 0xF1 ∨ n = 0xF2 ∨ n = 0xF3 ∨ n = 0xF4 := by omega
  all_goals rfl

/-- The bytes of a character are read as that character, whatever follows them. -/
theorem decodeFrom_encodeChar (pos : Nat) (c : Char) (rest : List UInt8) :
    decodeFrom pos .fresh (encodeChar c ++ rest)
      = prepend c (decodeFrom (pos + (encodeChar c).length) .fresh rest) := by
  -- The value of a character is no surrogate, which is what the second of three bytes rests on.
  have hvalid : c.toNat < 0xD800 ∨ 0xDFFF < c.toNat ∧ c.toNat < 0x110000 := c.valid
  have hc : Char.ofNat c.toNat = c := Char.ofNat_toNat c
  generalize hn : c.toNat = n at hvalid hc
  simp only [encodeChar, hn]
  by_cases h1 : n < 0x80
  · rw [if_pos h1, List.singleton_append, decodeFrom_ascii pos h1, hc]
    rfl
  by_cases h2 : n < 0x800
  · rw [if_neg h1, if_pos h2, List.cons_append, List.singleton_append,
      decodeFrom_open pos (by omega) (by omega) (openSequence_two pos (by omega) (by omega)),
      decodeFrom_last _ _ _ (show 0x80 ≤ _ by omega) (show _ ≤ 0xBF by omega)]
    rw [show (0xC0 + n / 64 - 0xC0) * 64 + (0x80 + n % 64 - 0x80) = n by omega, hc]
    rfl
  by_cases h3 : n < 0x10000
  · have hlow : (if 0xE0 + n / 4096 = 0xE0 then 0xA0 else 0x80 : UInt8).toNat
        ≤ 0x80 + n / 64 % 64 := by
      split
      · show 0xA0 ≤ _
        omega
      · show 0x80 ≤ _
        omega
    have hhigh : 0x80 + n / 64 % 64
        ≤ (if 0xE0 + n / 4096 = 0xED then 0x9F else 0xBF : UInt8).toNat := by
      split
      · show _ ≤ 0x9F
        omega
      · show _ ≤ 0xBF
        omega
    rw [if_neg h1, if_neg h2, if_pos h3, List.cons_append, List.cons_append, List.singleton_append,
      decodeFrom_open pos (by omega) (by omega) (openSequence_three pos (by omega) (by omega)),
      decodeFrom_more _ _ 0 _ hlow hhigh,
      decodeFrom_last _ _ _ (show 0x80 ≤ _ by omega) (show _ ≤ 0xBF by omega)]
    rw [show ((0xE0 + n / 4096 - 0xE0) * 64 + (0x80 + n / 64 % 64 - 0x80)) * 64
      + (0x80 + n % 64 - 0x80) = n by omega, hc]
    rfl
  · have hlow : (if 0xF0 + n / 262144 = 0xF0 then 0x90 else 0x80 : UInt8).toNat
        ≤ 0x80 + n / 4096 % 64 := by
      split
      · show 0x90 ≤ _
        omega
      · show 0x80 ≤ _
        omega
    have hhigh : 0x80 + n / 4096 % 64
        ≤ (if 0xF0 + n / 262144 = 0xF4 then 0x8F else 0xBF : UInt8).toNat := by
      split
      · show _ ≤ 0x8F
        omega
      · show _ ≤ 0xBF
        omega
    rw [if_neg h1, if_neg h2, if_neg h3, List.cons_append, List.cons_append, List.cons_append,
      List.singleton_append,
      decodeFrom_open pos (by omega) (by omega) (openSequence_four pos (by omega) (by omega)),
      decodeFrom_more _ _ 1 _ hlow hhigh,
      decodeFrom_more _ _ 0 _ (show 0x80 ≤ _ by omega) (show _ ≤ 0xBF by omega),
      decodeFrom_last _ _ _ (show 0x80 ≤ _ by omega) (show _ ≤ 0xBF by omega)]
    rw [show (((0xF0 + n / 262144 - 0xF0) * 64 + (0x80 + n / 4096 % 64 - 0x80)) * 64
      + (0x80 + n / 64 % 64 - 0x80)) * 64 + (0x80 + n % 64 - 0x80) = n by omega, hc]
    rfl

theorem decodeFrom_encode (cs : List Char) (pos : Nat) :
    decodeFrom pos .fresh (cs.flatMap encodeChar) = (cs, none) := by
  induction cs generalizing pos with
  | nil => rfl
  | cons c cs ih =>
    rw [List.flatMap_cons, decodeFrom_encodeChar, ih]
    rfl

/-- A text is read back from its bytes. -/
theorem decode_encode (text : String) : decode (encode text) = .ok text.toList := by
  rw [decode, encode, decodeFrom_encode]

/-- Different texts have different bytes. -/
theorem encode_inj {text text' : String} (h : encode text = encode text') : text = text' := by
  have hdecode := decode_encode text
  rw [h, decode_encode] at hdecode
  exact String.toList_inj.1 (Except.ok.inj hdecode).symm

theorem decode_eq_ok {bytes : List UInt8} {cs : List Char} :
    decode bytes = .ok cs ↔ decodeFrom 0 .fresh bytes = (cs, none) := by
  rw [decode]
  constructor
  · intro h
    split at h
    case h_1 found heq =>
      rw [heq, Except.ok.inj h]
    case h_2 => exact nomatch h
  · intro h
    rw [h]

end MicroLang.Text.Utf8

namespace MicroLang.Text

/-- A text whose lines end in line feeds only keeps its line ends. -/
theorem unixNewlines_eq_self {cs : List Char} (h : '\r' ∉ cs) : unixNewlines cs = cs := by
  fun_induction unixNewlines cs with
  | case1 | case2 => exact absurd (List.mem_cons_self ..) h
  | case3 c cs _ _ ih => rw [ih fun hmem => h (List.mem_cons_of_mem _ hmem)]
  | case4 => rfl

theorem not_mem_unixNewlines (cs : List Char) : '\r' ∉ unixNewlines cs := by
  fun_induction unixNewlines cs with
  | case1 cs ih | case2 cs _ ih =>
    rw [List.mem_cons]
    exact fun h => h.elim (by decide) ih
  | case3 c cs _ hne ih =>
    rw [List.mem_cons]
    rintro (rfl | h)
    · exact hne rfl
    · exact ih h
  | case4 => exact List.not_mem_nil

end MicroLang.Text

namespace MicroLang.Machine.InputFile

open MicroLang.Text

/-- An input file that is copied as a text holds the same integers. -/
theorem read_encode {bytes : List UInt8} {cs : List Char} (h : Utf8.decode bytes = .ok cs) :
    read (Utf8.encode (String.ofList (unixNewlines cs))) = read bytes := by
  have hcopy : lines (Utf8.encode (String.ofList (unixNewlines cs))) = lines bytes := by
    rw [lines, lines, Utf8.decode_eq_ok.1 h, Utf8.decode_eq_ok.1 (Utf8.decode_encode _),
      String.toList_ofList]
    dsimp only
    rw [unixNewlines_eq_self (not_mem_unixNewlines cs)]
  rw [read, read, hcopy]

end MicroLang.Machine.InputFile
