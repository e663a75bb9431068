import Mathlib.Algebra.Group.Int.Defs
import Mathlib.Algebra.Group.Nat.Defs
import MicroLang.Machine.State
import MicroLang.Proofs.Lines

/-!
# Operands read back

Generated code holds integers in decimal, and the machine reads them again: `li` with `readWord`,
`addi` with `readInteger`, and the offset of a memory operand with `Numeral.readDecimal`. All of
them give back the integer that was written, as long as it has at most `digitLimit` digits:

> `read_signed`, `readDecimal_signed`: decimal digits behind an optional minus sign read as the
> number with that sign.

The argument is the same for both. A run of ASCII digits passes through `plain` and the blanks
untouched, announces no radix, and `readUnsigned` takes all of it; its value is the number whose
digits were written.
-/

namespace MicroLang.Text.Numeral

/-! ## Runs of ASCII digits -/

/-- The code of an ASCII digit. -/
theorem toNat_of_isDigit {c : Char} (hc : c.isDigit = true) : 48 ≤ c.toNat ∧ c.toNat ≤ 57 := by
  rw [Char.isDigit_iff_toNat] at hc
  exact hc

/-- An ASCII digit is plain already. -/
theorem plain_of_isDigit {c : Char} (hc : c.isDigit = true) : plain c = c := by
  have hrange := toNat_of_isDigit hc
  unfold plain
  rw [if_pos (by omega)]

/-- An ASCII digit is no padding. -/
theorem isPadding_of_isDigit {c : Char} (hc : c.isDigit = true) : isPadding c = false := by
  have hrange := toNat_of_isDigit hc
  have hne : c ≠ ' ' := by
    intro he
    subst he
    exact absurd hc (by decide)
  unfold isPadding
  rw [beq_false_of_ne hne]
  simp only [Bool.false_or, Bool.and_eq_false_imp, decide_eq_true_eq, decide_eq_false_iff_not]
  omega

/-- The value of an ASCII digit in radix ten. -/
theorem digitIn?_of_isDigit {c : Char} (hc : c.isDigit = true) :
    digitIn? 10 c = some (c.toNat - 48) := by
  have hrange := toNat_of_isDigit hc
  have hle : ('0' ≤ c && c ≤ '9') = true := by
    simp only [Bool.and_eq_true, decide_eq_true_eq, Char.le_def, UInt32.le_iff_toNat_le]
    exact hrange
  unfold digitIn?
  rw [if_pos hle, if_pos (show c.toNat - 0x30 < 10 by omega)]

/-- The digits of a run, as the core library reads them. -/
theorem ofDigits_map_eq (cs : List Char) :
    ofDigits 10 (cs.map fun c => c.toNat - 48) = Nat.ofDigitChars 10 cs 0 := by
  rw [ofDigits, Nat.ofDigitChars_eq_foldl, List.foldl_map]
  congr 1
  funext n c
  rw [Nat.mul_comm]
  rfl

/-- All of a run of ASCII digits is taken, or it is too long. -/
theorem readDigits_eq_ite {text : String} {cs : List Char} (hne : cs ≠ [])
    (hcs : ∀ c ∈ cs, c.isDigit = true) :
    readDigits text 10 cs
      = if digitLimit < cs.length then .error (.tooLong cs.length)
        else .ok (Nat.ofDigitChars 10 cs 0, []) := by
  have hpart : ∀ c ∈ cs, (c == '_' || (digitIn? 10 c).isSome) = true := by
    intro c hc
    rw [digitIn?_of_isDigit (hcs c hc), Option.isSome_some, Bool.or_true]
  have htake : cs.takeWhile (fun c => c == '_' || (digitIn? 10 c).isSome) = cs :=
    List.takeWhile_eq_self_iff.mpr hpart
  have hdrop : cs.dropWhile (fun c => c == '_' || (digitIn? 10 c).isSome) = [] :=
    List.dropWhile_eq_nil_iff.mpr hpart
  have hdigits : cs.filterMap (digitIn? 10) = cs.map fun c => c.toNat - 48 := by
    rw [← List.filterMap_eq_map]
    exact List.filterMap_congr fun c hc => digitIn?_of_isDigit (hcs c hc)
  have hsplit : splitWhere (· == '_') cs = [cs] := by
    refine splitWhere_eq_singleton fun c hc => beq_false_of_ne ?_
    intro he
    have := hcs c hc
    rw [he] at this
    exact absurd this (by decide)
  unfold readDigits
  simp only [htake, hdrop, hdigits, hsplit, ofDigits_map_eq, List.length_map]
  rw [if_neg (by simpa using hne)]
  simp only [beq_self_eq_true, Bool.true_and, decide_eq_true_eq]

theorem readDigits_of_isDigit {text : String} {cs : List Char} (hne : cs ≠ [])
    (hcs : ∀ c ∈ cs, c.isDigit = true) (hlen : cs.length ≤ digitLimit) :
    readDigits text 10 cs = .ok (Nat.ofDigitChars 10 cs 0, []) := by
  rw [readDigits_eq_ite hne hcs, if_neg (Nat.not_lt.2 hlen)]

/-- A run of ASCII digits is a number with either sign. -/
theorem readUnsigned_of_isDigit {text : String} {cs : List Char} (negative : Bool) (hne : cs ≠ [])
    (hcs : ∀ c ∈ cs, c.isDigit = true) (hlen : cs.length ≤ digitLimit) :
    readUnsigned text negative 10 cs
      = .ok (if negative then -(Nat.ofDigitChars 10 cs 0 : Int) else Nat.ofDigitChars 10 cs 0) := by
  unfold readUnsigned
  rw [readDigits_of_isDigit hne hcs hlen]
  rfl

/-- A run of ASCII digits announces no radix. -/
theorem dropRadix_of_isDigit {cs : List Char} (hcs : ∀ c ∈ cs, c.isDigit = true) :
    dropRadix cs = (10, cs) := by
  unfold dropRadix
  split
  · next mark rest =>
    have hmark : mark.isDigit = true := hcs mark (by simp)
    have hnone : markedRadix? mark = none := by
      have hx : ∀ d : Char, d.isDigit = false → (mark == d) = false := by
        intro d hd
        refine beq_false_of_ne ?_
        intro he
        rw [he, hd] at hmark
        exact absurd hmark (by decide)
      unfold markedRadix?
      simp [hx]
    rw [hnone]
  · rfl

/-- A run of ASCII digits has no sign. -/
theorem dropSign_of_isDigit {cs : List Char} (hcs : ∀ c ∈ cs, c.isDigit = true) :
    dropSign cs = (false, cs) := by
  unfold dropSign
  split
  · exact absurd (hcs '-' (by simp)) (by decide)
  · exact absurd (hcs '+' (by simp)) (by decide)
  · rfl

/-- Nothing is dropped in front of a run of ASCII digits. -/
theorem dropWhile_plain_of_isDigit {cs : List Char} (hcs : ∀ c ∈ cs, c.isDigit = true) :
    (cs.map plain).dropWhile isPadding = cs := by
  have hmap : cs.map plain = cs := by
    rw [List.map_congr_left fun c hc => plain_of_isDigit (hcs c hc), List.map_id']
  rw [hmap]
  cases cs with
  | nil => rfl
  | cons c cs =>
    exact List.dropWhile_cons_of_neg (by simp [isPadding_of_isDigit (hcs c List.mem_cons_self)])

/-! ## The digits of a number -/

/-- The decimal digits of a number are ASCII digits. -/
theorem isDigit_of_mem_toDigits {n : Nat} : ∀ c ∈ Nat.toDigits 10 n, c.isDigit = true :=
  fun _ hc => Nat.isDigit_of_mem_toDigits (by decide) (by decide) hc

/-- The digits of a number are the characters of numbers below the radix. -/
theorem exists_digit_of_mem_toDigits {radix n : Nat} (hradix : 1 < radix) {c : Char}
    (h : c ∈ Nat.toDigits radix n) : ∃ d < radix, c = Nat.digitChar d := by
  induction n using Nat.strongRecOn with
  | _ n ih =>
    rcases Nat.lt_or_ge n radix with hlt | hge
    · rw [Nat.toDigits_of_lt_base hlt] at h
      exact ⟨n, hlt, List.mem_singleton.mp h⟩
    · rw [Nat.toDigits_of_base_le hradix hge] at h
      rcases List.mem_append.mp h with hfront | hlast
      · exact ih (n / radix) (Nat.div_lt_self (by omega) hradix) hfront
      · exact ⟨n % radix, Nat.mod_lt n (by omega), List.mem_singleton.mp hlast⟩

/-- Only zero is written with a leading zero. -/
theorem head?_toDigits {n : Nat} (h : (Nat.toDigits 10 n).head? = some '0') : n = 0 := by
  induction n using Nat.strongRecOn with
  | _ n ih =>
    rcases Nat.lt_or_ge n 10 with hlt | hge
    · rw [Nat.toDigits_of_lt_base hlt, List.head?_cons, Option.some.injEq] at h
      have hcode := congrArg Char.toNat h
      rw [Nat.toNat_digitChar_of_lt_ten hlt] at hcode
      have hzero : '0'.toNat = 48 := rfl
      omega
    · -- the leading digit is that of `n / 10`, which is not zero
      rw [Nat.toDigits_of_base_le (by decide) hge,
        List.head?_append_of_ne_nil _ Nat.toDigits_ne_nil] at h
      have := ih (n / 10) (by omega) h
      omega

/-- The characters of an integer in decimal. -/
theorem toList_toString (n : Int) :
    (toString n).toList = (if n < 0 then ['-'] else []) ++ Nat.toDigits 10 n.natAbs := by
  cases n with
  | ofNat n =>
    rw [if_neg (by simp)]
    show (Nat.repr n).toList = _
    rw [Nat.toList_repr]
    rfl
  | negSucc n =>
    rw [if_pos (Int.negSucc_lt_zero n)]
    show ("-" ++ Nat.repr (n + 1)).toList = _
    rw [String.toList_append, Nat.toList_repr]
    rfl

/-- Different integers have different texts. -/
theorem toString_inj {n m : Int} (h : toString n = toString m) : n = m := by
  have hchars := congrArg String.toList h
  rw [toList_toString, toList_toString] at hchars
  have hdigits : Nat.toDigits 10 n.natAbs = Nat.toDigits 10 m.natAbs → n.natAbs = m.natAbs := by
    intro heq
    rw [← Nat.ofDigitChars_ten_toDigits (n := n.natAbs), heq, Nat.ofDigitChars_ten_toDigits]
  have hminus : ∀ k, ∀ rest : List Char, '-' :: rest ≠ Nat.toDigits 10 k := by
    intro k rest heq
    exact absurd (isDigit_of_mem_toDigits '-' (heq ▸ List.mem_cons_self)) (by decide)
  by_cases hn : n < 0
  · by_cases hm : m < 0
    · rw [if_pos hn, if_pos hm] at hchars
      have habs := hdigits (List.append_cancel_left hchars)
      omega
    · rw [if_pos hn, if_neg hm] at hchars
      exact absurd hchars (hminus _ _)
  · by_cases hm : m < 0
    · rw [if_neg hn, if_pos hm] at hchars
      exact absurd hchars.symm (hminus _ _)
    · rw [if_neg hn, if_neg hm] at hchars
      have habs := hdigits hchars
      omega

/-- A minus sign in front of a run of ASCII digits is dropped as its sign. -/
theorem dropSign_minus {cs : List Char} (hcs : ∀ c ∈ cs, c.isDigit = true) :
    dropSign ((('-' :: cs).map plain).dropWhile isPadding) = (true, cs) := by
  have hmap : ('-' :: cs).map plain = '-' :: cs := by
    rw [List.map_cons, List.map_congr_left fun c hc => plain_of_isDigit (hcs c hc), List.map_id']
    rfl
  rw [hmap, List.dropWhile_cons_of_neg (by decide)]
  rfl

/-- Decimal digits behind an optional minus sign: the sign and the digits apart. -/
theorem dropSign_signed {n : Nat} (negative : Bool) :
    dropSign (((((if negative then ['-'] else []) ++ Nat.toDigits 10 n).map plain)).dropWhile
      isPadding) = (negative, Nat.toDigits 10 n) := by
  cases negative with
  | true => exact dropSign_minus isDigit_of_mem_toDigits
  | false =>
    show dropSign (((Nat.toDigits 10 n).map plain).dropWhile isPadding) = _
    rw [dropWhile_plain_of_isDigit isDigit_of_mem_toDigits,
      dropSign_of_isDigit isDigit_of_mem_toDigits]

/-- Decimal digits behind an optional minus sign read as the number, whatever the radix may be. -/
theorem read_signed {text : String} {n : Nat} (negative : Bool)
    (htext : text.toList = (if negative then ['-'] else []) ++ Nat.toDigits 10 n)
    (hlen : (Nat.toDigits 10 n).length ≤ digitLimit) :
    read text = .ok (if negative then -(n : Int) else n) := by
  unfold read
  rw [htext, dropSign_signed]
  simp only [dropRadix_of_isDigit isDigit_of_mem_toDigits,
    readUnsigned_of_isDigit negative Nat.toDigits_ne_nil isDigit_of_mem_toDigits hlen,
    Nat.ofDigitChars_ten_toDigits, bind, Except.bind, pure, Except.pure]
  rw [if_neg]
  intro h
  simp only [beq_self_eq_true, Bool.true_and, Bool.and_eq_true, beq_iff_eq, bne_iff_ne] at h
  have hzero := head?_toDigits h.1
  apply h.2
  rw [hzero]
  cases negative <;> rfl

/-- Decimal digits behind an optional minus sign read as the number. -/
theorem readDecimal_signed {text : String} {n : Nat} (negative : Bool)
    (htext : text.toList = (if negative then ['-'] else []) ++ Nat.toDigits 10 n)
    (hlen : (Nat.toDigits 10 n).length ≤ digitLimit) :
    readDecimal text = .ok (if negative then -(n : Int) else n) := by
  unfold readDecimal
  rw [htext, dropSign_signed]
  simp only [readUnsigned_of_isDigit negative Nat.toDigits_ne_nil isDigit_of_mem_toDigits hlen,
    Nat.ofDigitChars_ten_toDigits]

/-- The sign and the absolute value of an integer. -/
theorem signed_natAbs (n : Int) :
    (if decide (n < 0) = true then -(n.natAbs : Int) else n.natAbs) = n := by
  by_cases hn : n < 0
  · rw [if_pos (decide_eq_true hn)]
    omega
  · rw [if_neg (by simpa using hn)]
    omega

/-- An integer is written as its sign and its digits. -/
theorem toList_toString_signed (n : Int) : (toString n).toList
    = (if decide (n < 0) = true then ['-'] else []) ++ Nat.toDigits 10 n.natAbs := by
  rw [toList_toString]
  simp only [decide_eq_true_eq]

/-- An integer is read back from its decimal text. -/
theorem read_toString (n : Int) (hlen : (Nat.toDigits 10 n.natAbs).length ≤ digitLimit) :
    read (toString n) = .ok n := by
  rw [read_signed _ (toList_toString_signed n) hlen, signed_natAbs]

/-- An integer is read back from its decimal text, also where only decimals are read. -/
theorem readDecimal_toString (n : Int) (hlen : (Nat.toDigits 10 n.natAbs).length ≤ digitLimit) :
    readDecimal (toString n) = .ok n := by
  rw [readDecimal_signed _ (toList_toString_signed n) hlen, signed_natAbs]

/-- An integer with too many digits is not read back. -/
theorem readDecimal_of_long (n : Int) (hlen : digitLimit < (Nat.toDigits 10 n.natAbs).length) :
    readDecimal (toString n) = .error (.tooLong (Nat.toDigits 10 n.natAbs).length) := by
  unfold readDecimal
  rw [toList_toString_signed, dropSign_signed]
  unfold readUnsigned
  simp only [readDigits_eq_ite Nat.toDigits_ne_nil isDigit_of_mem_toDigits, if_pos hlen]
  rfl

/-- Numbers of 32 bits have few enough digits to be read. -/
theorem length_toDigits_le {n : Nat} (h : n < 2 ^ 32) :
    (Nat.toDigits 10 n).length ≤ digitLimit := by
  have hten : (Nat.toDigits 10 n).length ≤ 10 :=
    (Nat.length_toDigits_le_iff (by decide) (by decide)).mpr (Nat.lt_trans h (by decide))
  exact Nat.le_trans hten (by decide)

/-- The integers that can be written in decimal are those below `10 ^ digitLimit`. -/
theorem isShort_iff {n : Int} : IsShort n ↔ n.natAbs < 10 ^ digitLimit :=
  Nat.length_toDigits_le_iff (by decide) (by decide)

/-- Integers of 32 bits can be written. -/
theorem isShort_of_lt {n : Int} (h : n.natAbs < 2 ^ 32) : IsShort n :=
  length_toDigits_le h

/-- The least number that cannot be written. -/
theorem not_isShort_pow : ¬ IsShort (10 ^ digitLimit) := by
  rw [isShort_iff, Int.natAbs_pow, show (10 : Int).natAbs = 10 from rfl]
  exact Nat.lt_irrefl _

theorem neg_pow_nonpos : -(10 : Int) ^ digitLimit ≤ 0 :=
  Int.neg_nonpos_of_nonneg (Int.pow_nonneg (by decide))

/-- A sign does not count. -/
theorem not_isShort_neg_pow : ¬ IsShort (-10 ^ digitLimit) := by
  unfold IsShort
  rw [Int.natAbs_neg]
  exact not_isShort_pow

end MicroLang.Text.Numeral

namespace MicroLang.Assembly

open MicroLang.Text

/-! ## Words -/

/-- The integer operand of `addi`. -/
theorem readInteger_toString (n : Int)
    (hlen : (Nat.toDigits 10 n.natAbs).length ≤ Numeral.digitLimit) :
    readInteger (toString n) = .ok n := by
  unfold readInteger
  rw [Numeral.read_toString n hlen]

/-- The integer operand of `addi` with a minus sign put in front of it: one that has no sign of its
own becomes negative, and `-0` is zero. -/
theorem readInteger_minus {n : Int} (hn : 0 ≤ n)
    (hlen : (Nat.toDigits 10 n.natAbs).length ≤ Numeral.digitLimit) :
    readInteger ("-" ++ toString n) = .ok (-n) := by
  have htext : ("-" ++ toString n).toList
      = (if true then ['-'] else []) ++ Nat.toDigits 10 n.natAbs := by
    rw [String.toList_append, Numeral.toList_toString, if_neg (Int.not_lt.2 hn)]
    rfl
  unfold readInteger
  rw [Numeral.read_signed true htext hlen]
  simp only [if_true, Int.natAbs_of_nonneg hn]

/-- The word operand of `li`: a decimal text is no character between quotes. -/
theorem readWord_toString (n : Int)
    (hlen : (Nat.toDigits 10 n.natAbs).length ≤ Numeral.digitLimit) :
    readWord (toString n) = .ok n := by
  have hhead : ∀ c ∈ (toString n).toList.head?, c ≠ '\'' := by
    intro c hc he
    have hmem := List.mem_of_mem_head? hc
    rw [Numeral.toList_toString, he] at hmem
    rcases List.mem_append.mp hmem with hsign | hdigit
    · split at hsign <;> simp at hsign
    · exact absurd (Numeral.isDigit_of_mem_toDigits _ hdigit) (by decide)
  have hquote : unquoted? (toString n).toList = none := by
    unfold unquoted?
    split
    · next heq =>
      rw [heq] at hhead
      exact absurd rfl (hhead _ rfl)
    · rfl
  unfold readWord
  rw [hquote]
  exact readInteger_toString n hlen

end MicroLang.Assembly

namespace MicroLang.Machine

open MicroLang.Assembly
open MicroLang.Text

/-! ## Memory operands -/

/-- An ASCII digit is a decimal digit. -/
theorem isDecimalDigit_of_isDigit {c : Char} (hc : c.isDigit = true) :
    isDecimalDigit c = true := by
  have hrange := Numeral.toNat_of_isDigit hc
  unfold isDecimalDigit digitValue?
  simp only
  rw [if_pos (by omega), if_pos (by simp; omega)]
  rfl

/-- The name of a register is a dollar sign and word characters. -/
theorem Register.name_eq (r : Register) : ∃ name : List Char,
    r.name.toList = '$' :: name ∧ name ≠ [] ∧ name.all isWordChar = true := by
  cases r <;> exact ⟨_, rfl, by decide, by decide⟩

/-- A memory operand is taken apart into its offset and its register. -/
theorem indexed?_memoryOperand (n : Int) (r : Register) :
    indexed? (memoryOperand n r.name) = some (toString n, r.name) := by
  obtain ⟨name, hname, hne, hword⟩ := r.name_eq
  have hchars : (memoryOperand n r.name).toList = (if n < 0 then ['-'] else []) ++
      (Nat.toDigits 10 n.natAbs ++ '(' :: '$' :: (name ++ [')'])) := by
    unfold memoryOperand
    rw [String.toList_append, String.toList_append, String.toList_append, hname,
      Numeral.toList_toString]
    simp
  have htake : (Nat.toDigits 10 n.natAbs ++ '(' :: '$' :: (name ++ [')'])).takeWhile
      isDecimalDigit = Nat.toDigits 10 n.natAbs := by
    rw [List.takeWhile_append_of_pos fun c hc =>
      isDecimalDigit_of_isDigit (Numeral.isDigit_of_mem_toDigits c hc),
      List.takeWhile_cons_of_neg (by decide), List.append_nil]
  have hdrop : (Nat.toDigits 10 n.natAbs ++ '(' :: '$' :: (name ++ [')'])).dropWhile
      isDecimalDigit = '(' :: '$' :: (name ++ [')']) := by
    rw [List.dropWhile_append_of_pos fun c hc =>
      isDecimalDigit_of_isDigit (Numeral.isDigit_of_mem_toDigits c hc),
      List.dropWhile_cons_of_neg (by decide)]
  have hlast : (memoryOperand n r.name).toList.getLast? ≠ some '\n' := by
    rw [hchars, ← List.cons_append, ← List.cons_append, ← List.append_assoc, ← List.append_assoc,
      List.getLast?_append]
    simp
  have hhead : ((Nat.toDigits 10 n.natAbs ++ '(' :: '$' :: (name ++ [')'])).head? = some '-')
      = False := by
    rw [List.head?_append_of_ne_nil _ Nat.toDigits_ne_nil, eq_iff_iff, iff_false]
    intro hminus
    have hdigit := Numeral.isDigit_of_mem_toDigits _ (List.mem_of_mem_head? hminus)
    exact absurd hdigit (by decide)
  have hbase : String.ofList ('$' :: name) = r.name := by
    rw [← hname, String.ofList_toList]
  have htext : String.ofList ((if n < 0 then ['-'] else []) ++ Nat.toDigits 10 n.natAbs)
      = toString n := by
    rw [← Numeral.toList_toString, String.ofList_toList]
  have hform : (!(Nat.toDigits 10 n.natAbs).isEmpty && !name.isEmpty && name.all isWordChar
      && decide ((name ++ [')']).getLast? = some ')')) = true := by
    simp [hne, hword]
  unfold indexed?
  simp only [if_neg hlast]
  rw [hchars]
  by_cases hn : n < 0
  · rw [if_pos hn] at htext
    simp only [if_pos hn, List.cons_append, List.nil_append, List.head?_cons, if_true,
      List.drop_one, List.tail_cons, htake, hdrop, List.dropLast_concat]
    rw [if_pos hform, hbase, ← htext]
    rfl
  · rw [if_neg hn] at htext
    simp only [if_neg hn, List.nil_append, hhead, if_false, htake, hdrop, List.dropLast_concat]
    rw [if_pos hform, hbase, ← htext]
    rfl

/-- The address of a memory operand is its offset from the value of its register. -/
theorem address_memoryOperand (m : Machine) (n : Int) (r : Register)
    (hlen : (Nat.toDigits 10 n.natAbs).length ≤ Numeral.digitLimit) :
    m.address (memoryOperand n r.name) = .ok (m.storage.regs.get r + n) := by
  unfold address
  rw [indexed?_memoryOperand]
  simp only [Numeral.readDecimal_toString n hlen, Storage.readRegister, Storage.register,
    Register.ofName?_name, bind, Except.bind, pure, Except.pure]

end MicroLang.Machine
