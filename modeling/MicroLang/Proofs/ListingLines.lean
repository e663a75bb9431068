import MicroLang.Proofs.ListingRoundTrip

/-!
# What is written in the line of a listing

A line is read by cutting it at its comment, trimming it, and trying one form after the other: a
label, the opening of a section, a directive, data words, and last an instruction. Here each form is
said by the text alone, without the order in which they are tried: a line holds some content between
blanks, in front of a comment (`HasContent`), and

> `readsAsWritten`: a line says an instruction exactly if its content is a mnemonic with operands,
> data words exactly if it is their directive with pieces between commas and no label, a label
> exactly if it is a name with a colon, and the opening of a section exactly if it is its directive.
-/

namespace MicroLang.Assembly

open MicroLang.Text

/-! ## The content of a line -/

/-- A line has some content, with blanks around it and a comment behind it. -/
structure HasContent (line content : List Char) : Prop where
  written : ∃ front back behind : List Char, line = front ++ (content ++ (back ++ behind))
    ∧ (∀ c ∈ front, isBlank c = true) ∧ (∀ c ∈ back, isBlank c = true)
    ∧ ∀ c ∈ behind.head?, c = '#'
  uncommented : '#' ∉ content
  first : ∀ c ∈ content.head?, isBlank c = false
  last : ∀ c ∈ content.getLast?, isBlank c = false

/-- A text that starts with a comment is all comment. -/
theorem beforeComment_eq_nil {back : List Char} (h : ∀ c ∈ back.head?, c = '#') :
    beforeComment back = [] := by
  cases back with
  | nil => rfl
  | cons c back =>
    rw [h c rfl]
    rfl

/-- Nothing of the class is left at the end of a text that was trimmed there. -/
theorem getLast?_trimRight (p : Char → Bool) (cs : List Char) :
    ∀ c ∈ (trimRight p cs).getLast?, p c = false := by
  intro c hc
  unfold trimRight at hc
  rw [List.getLast?_reverse] at hc
  have hstop := List.head?_dropWhile_not p cs.reverse
  rw [hc] at hstop
  simpa using hstop

/-- The content of a line is what reading looks at. -/
theorem hasContent_iff {line content : List Char} :
    HasContent line content ↔ trim isBlank (beforeComment line) = content := by
  constructor
  · rintro ⟨⟨front, back, behind, rfl, hfront, hback, hbehind⟩, hsharp, hfirst, hlast⟩
    rw [beforeComment_append (not_mem_of_isBlank hfront), beforeComment_append hsharp,
      beforeComment_append (not_mem_of_isBlank hback), beforeComment_eq_nil hbehind,
      List.append_nil, trim_front hfront, trim_back hback]
    exact trim_append (List.forall_mem_nil _) hfirst hlast
  · rintro rfl
    -- the line is cut where reading stops: at the comment, and at the blanks on both sides
    obtain ⟨body, behind, hline, _, hbehind, hbody, _⟩ := exists_run (· != '#') line
    obtain ⟨front, rest, hrest, hfront, hfirst, _, hdrop⟩ := exists_run isBlank body
    obtain ⟨back, hback, hkept⟩ := exists_trimRight_append isBlank rest
    have hcontent : trim isBlank (beforeComment line) = trimRight isBlank rest := by
      rw [hdrop, hbody]
      rfl
    rw [hcontent]
    refine ⟨⟨front, back, behind, ?_, hfront, hback, fun c hc => by simpa using hbehind c hc⟩,
      ?_, ?_, getLast?_trimRight _ _⟩
    · rw [← List.append_assoc (trimRight isBlank rest), ← hkept, ← List.append_assoc, ← hrest]
      exact hline
    · rw [← hcontent]
      exact fun hmem => not_mem_beforeComment line (mem_of_mem_trim hmem)
    · intro c hc
      apply hfirst
      rw [hkept, List.head?_append_of_ne_nil _ (by intro hnil; rw [hnil] at hc; cases hc)]
      exact hc

/-! ## Blanks are in no label -/

/-- The ranges of the blanks. -/
def blankRanges : List (Nat × Nat) := [
  (0x09, 0x0D), (0x1C, 0x20), (0x85, 0x85), (0xA0, 0xA0), (0x1680, 0x1680), (0x2000, 0x200A),
  (0x2028, 0x2029), (0x202F, 0x202F), (0x205F, 0x205F), (0x3000, 0x3000)]

theorem exists_blankRange {c : Char} (h : isBlank c = true) :
    ∃ range ∈ blankRanges, range.1 ≤ c.toNat ∧ c.toNat ≤ range.2 := by
  simp only [isBlank, isWhiteSpace, Bool.or_eq_true, Bool.and_eq_true, decide_eq_true_eq,
    beq_iff_eq] at h
  simp only [blankRanges, List.exists_mem_cons_iff, List.not_mem_nil, false_and, exists_false,
    or_false]
  omega

/-- The characters up to the space are no letters or numbers. -/
theorem isAsciiAlphanumeric_of_le {c : Char} (h : c.toNat ≤ 0x20) :
    (isAsciiAlphanumeric c || c == '_') = false := by
  have hlow (d : Char) (hd : 0x20 < d.toNat) : decide (d ≤ c) = false := by
    rw [decide_eq_false_iff_not, Char.le_def, UInt32.le_iff_toNat_le]
    exact Nat.not_le.2 (Nat.lt_of_le_of_lt h hd)
  have hne : c ≠ '_' := by
    intro he
    rw [he] at h
    exact absurd h (by decide)
  rw [isAsciiAlphanumeric, hlow '0' (by decide), hlow 'A' (by decide), hlow 'a' (by decide),
    beq_false_of_ne hne]
  rfl

/-- A blank is no letter or number. -/
theorem isWordChar_of_isBlank {c : Char} (h : isBlank c = true) : isWordChar c = false := by
  have hascii : ∀ blank ∈ blankRanges, blank.2 ≤ 0x20 ∨ 0x80 ≤ blank.1 := by decide
  have hapart : ∀ wide ∈ wideAlphanumerics.ranges, ∀ blank ∈ blankRanges,
      wide.2 < blank.1 ∨ blank.2 < wide.1 := by decide +kernel
  obtain ⟨blank, hblank, hlow, hhigh⟩ := exists_blankRange h
  unfold isWordChar
  split
  · have := hascii blank hblank
    exact isAsciiAlphanumeric_of_le (by omega)
  · unfold CodePoints.contains
    rw [List.any_eq_false]
    intro wide hwide hin
    simp only [Bool.and_eq_true, decide_eq_true_eq] at hin
    have := hapart wide hwide blank hblank
    omega

theorem isBlank_of_isLabelChar {c : Char} (h : Entry.isLabelChar c = true) :
    isBlank c = false := by
  by_contra hblank
  have hword := isWordChar_of_isBlank (Bool.not_eq_false _ ▸ hblank)
  unfold Entry.isLabelChar at h
  rw [hword, Bool.false_or, Bool.or_eq_true, beq_iff_eq, beq_iff_eq] at h
  rcases h with rfl | rfl
  · exact hblank (by decide)
  · exact hblank (by decide)

/-- Behind its first character, a label with its colon holds no blank. -/
theorem labelName?_eq_none_of_isBlank {first c : Char} {line : List Char} (hc : c ∈ line)
    (hblank : isBlank c = true) : Entry.labelName? (first :: line) = none := by
  have hne : line ≠ [] := List.ne_nil_of_mem hc
  unfold Entry.labelName?
  rw [List.dropLast_cons_of_ne_nil hne, List.getLast?_cons_of_ne_nil hne]
  by_cases hcolon : line.getLast? = some ':'
  · rw [if_pos hcolon]
    refine if_neg fun hlabel => ?_
    rw [Bool.and_eq_true, List.all_eq_true] at hlabel
    obtain ⟨front, rfl⟩ := List.getLast?_eq_some_iff.mp hcolon
    rw [List.dropLast_concat] at hlabel
    rcases List.mem_append.mp hc with hfront | hlast
    · rw [isBlank_of_isLabelChar (hlabel.2 c hfront)] at hblank
      exact absurd hblank (by decide)
    · rw [List.mem_singleton.mp hlast] at hblank
      exact absurd hblank (by decide)
  · rw [if_neg hcolon]

/-! ## Instruction lines -/

/-- Operands, each behind a gap of commas and blanks, and such a run at the end. -/
inductive Spaced : List (List Char) → List Char → Prop where
  | done {run : List Char} (hrun : ∀ c ∈ run, Entry.isSeparator c = true) : Spaced [] run
  | operand {gap operand text : List Char} {operands : List (List Char)} (hgap : gap ≠ [])
      (hseparators : ∀ c ∈ gap, Entry.isSeparator c = true) (hoperand : operand ≠ [])
      (hchars : ∀ c ∈ operand, Entry.isSeparator c = false ∧ c ≠ '#') (h : Spaced operands text) :
    Spaced (operand :: operands) (gap ++ (operand ++ text))

/-- A line with a mnemonic and operands, which may have blanks in front of it and a comment behind
it. A gap behind the mnemonic starts with a blank. -/
structure InstrLine (op : Opcode) (operands : List (List Char)) (line : List Char) : Prop where
  written : ∃ front text back : List Char,
    line = front ++ (op.mnemonic.toList ++ (text ++ back))
      ∧ (∀ c ∈ front, isBlank c = true) ∧ Spaced operands text
      ∧ (∀ c ∈ text.head?, isBlank c = true) ∧ ∀ c ∈ back.head?, c = '#'

/-- A comma or a blank starts no comment. -/
theorem ne_of_isSeparator {c : Char} (h : Entry.isSeparator c = true) : c ≠ '#' := by
  rintro rfl
  exact absurd h (by decide)

theorem isSeparator_of_isBlank {c : Char} (h : isBlank c = true) : Entry.isSeparator c = true := by
  rw [Entry.isSeparator, h, Bool.or_true]

namespace Spaced

variable {operands : List (List Char)} {text : List Char}

theorem not_mem (h : Spaced operands text) : '#' ∉ text := by
  induction h with
  | done hrun => exact fun hmem => ne_of_isSeparator (hrun _ hmem) rfl
  | operand _ hseparators _ hchars _ ih =>
    intro hmem
    rcases List.mem_append.mp hmem with hgap | hmem
    · exact ne_of_isSeparator (hseparators _ hgap) rfl
    · rcases List.mem_append.mp hmem with hoperand | htext
      · exact (hchars _ hoperand).2 rfl
      · exact ih htext

/-- What stands behind an operand does not extend it. -/
theorem head (h : Spaced operands text) : ∀ c ∈ text.head?, Entry.isSeparator c = true := by
  intro c hc
  cases h with
  | done hrun => exact hrun c (List.mem_of_mem_head? hc)
  | operand hgap hseparators _ _ _ =>
    rw [List.head?_append_of_ne_nil _ hgap] at hc
    exact hseparators c (List.mem_of_mem_head? hc)

/-- The fields of a spaced text are its operands. -/
theorem fieldsWhere_eq (h : Spaced operands text) :
    fieldsWhere Entry.isSeparator text = operands := by
  induction h with
  | done hrun => exact fieldsWhere_eq_nil hrun
  | @operand gap operand text operands hgap hseparators hoperand hchars h ih =>
    have hinside : ∀ c ∈ operand, Entry.isSeparator c = false := fun c hc => (hchars c hc).1
    rw [fieldsWhere_front hseparators, fieldsWhere_append hoperand hinside h.head, ih]

end Spaced

/-- A mnemonic is all of the word that it starts, if a blank or nothing follows it. -/
theorem takeWhile_mnemonic (op : Opcode) {body : List Char}
    (hbody : ∀ c ∈ body.head?, isBlank c = true) :
    (op.mnemonic.toList ++ body).takeWhile (fun c => !isBlank c) = op.mnemonic.toList
      ∧ (op.mnemonic.toList ++ body).dropWhile (fun c => !isBlank c) = body := by
  have hword : ∀ c ∈ op.mnemonic.toList, (!isBlank c) = true := by
    intro c hc
    rw [(op.mnemonic_chars.2 c hc).1]
    rfl
  rw [List.takeWhile_append_of_pos hword, List.dropWhile_append_of_pos hword]
  cases body with
  | nil => exact ⟨List.append_nil _, rfl⟩
  | cons c body =>
    have hc : ¬(!isBlank c) = true := by simp [hbody c rfl]
    rw [List.takeWhile_cons_of_neg (p := fun c => !isBlank c) hc,
      List.dropWhile_cons_of_neg (p := fun c => !isBlank c) hc, List.append_nil]
    exact ⟨rfl, rfl⟩

/-- A mnemonic does not start with a blank. -/
theorem dropWhile_mnemonic (op : Opcode) (body : List Char) :
    (op.mnemonic.toList ++ body).dropWhile isBlank = op.mnemonic.toList ++ body := by
  obtain ⟨hne, hchars⟩ := op.mnemonic_chars
  obtain ⟨first, letters, hletters⟩ := List.exists_cons_of_ne_nil hne
  have hfirst := (hchars first (by rw [hletters]; exact List.mem_cons_self)).1
  rw [hletters, List.cons_append, List.dropWhile_cons_of_neg (by simp [hfirst])]

/-- A mnemonic, alone or with a blank behind it, starts an instruction. -/
theorem readContent_append (op : Opcode) {body : List Char}
    (hbody : ∀ c ∈ body.head?, isBlank c = true) :
    Entry.readContent (op.mnemonic.toList ++ body)
      = .instr ⟨op, (fieldsWhere Entry.isSeparator body).map String.ofList⟩ := by
  obtain ⟨hne, hchars⟩ := op.mnemonic_chars
  obtain ⟨first, letters, hletters⟩ := List.exists_cons_of_ne_nil hne
  have hfirst := hchars first (by rw [hletters]; exact List.mem_cons_self)
  have hlabel : Entry.labelName? (op.mnemonic.toList ++ body) = none := by
    cases body with
    | nil => cases op <;> decide
    | cons c body =>
      rw [hletters, List.cons_append]
      exact labelName?_eq_none_of_isBlank (List.mem_append_right _ List.mem_cons_self) (hbody c rfl)
  have hdot : (op.mnemonic.toList ++ body).head? ≠ some '.' := by
    rw [hletters, List.cons_append, List.head?_cons]
    intro hdot
    exact hfirst.2.2 (Option.some.inj hdot)
  rw [readContent_eq_readInstr (by simp [hne]) hlabel hdot]
  unfold Entry.readInstr
  rw [(takeWhile_mnemonic op hbody).1, (takeWhile_mnemonic op hbody).2]
  simp only [String.ofList_toList, Opcode.ofMnemonic?_mnemonic]

/-- An instruction line without its comment. -/
theorem InstrLine.content {op : Opcode} {operands : List (List Char)} {line : List Char}
    (h : InstrLine op operands line) :
    ∃ front text, beforeComment line = front ++ (op.mnemonic.toList ++ text)
      ∧ (∀ c ∈ front, isBlank c = true) ∧ Spaced operands text
      ∧ ∀ c ∈ text.head?, isBlank c = true := by
  obtain ⟨front, text, back, rfl, hfront, hspaced, hhead, hback⟩ := h.written
  refine ⟨front, text, ?_, hfront, hspaced, hhead⟩
  rw [beforeComment_append (not_mem_of_isBlank hfront),
    beforeComment_append fun hmem => (op.mnemonic_chars.2 _ hmem).2.1 rfl,
    beforeComment_append hspaced.not_mem, beforeComment_eq_nil hback, List.append_nil]

/-- An instruction line says its mnemonic and its operands, however they are spaced. -/
theorem InstrLine.read_eq {op : Opcode} {operands : List (List Char)} {line : List Char}
    (h : InstrLine op operands line) :
    Entry.read line = .instr ⟨op, operands.map String.ofList⟩ := by
  obtain ⟨front, text, hcontent, hfront, hspaced, hhead⟩ := h.content
  obtain ⟨hne, hchars⟩ := op.mnemonic_chars
  have htrim : trim isBlank (front ++ (op.mnemonic.toList ++ text))
      = op.mnemonic.toList ++ trimRight isBlank text := by
    rw [trim_front hfront]
    unfold trim
    rw [dropWhile_mnemonic]
    exact trimRight_append (List.getLast?_eq_some_getLast hne)
      (hchars _ (List.getLast_mem hne)).1 text
  -- blanks at the end are in no operand
  obtain ⟨blanks, hblanks, htext⟩ := exists_trimRight_append isBlank text
  have hfields : fieldsWhere Entry.isSeparator (trimRight isBlank text) = operands := by
    rw [← hspaced.fieldsWhere_eq]
    conv => rhs; rw [htext]
    exact (fieldsWhere_back (fun c hc => isSeparator_of_isBlank (hblanks c hc)) _).symm
  have hbody : ∀ c ∈ (trimRight isBlank text).head?, isBlank c = true := by
    intro c hc
    apply hhead
    rw [htext, List.head?_append_of_ne_nil _ (by intro hnil; rw [hnil] at hc; cases hc)]
    exact hc
  unfold Entry.read
  rw [hcontent, htrim, readContent_append op hbody, hfields]

/-- Every text behind a mnemonic is operands with gaps. -/
theorem exists_spaced (text : List Char) (hsharp : '#' ∉ text)
    (hhead : ∀ c ∈ text.head?, Entry.isSeparator c = true) :
    ∃ operands, Spaced operands text := by
  obtain ⟨gap, rest, htext, hgap, hrest, _⟩ := exists_run Entry.isSeparator text
  cases rest with
  | nil =>
    rw [htext, List.append_nil]
    exact ⟨[], .done hgap⟩
  | cons c rest =>
    have hc : Entry.isSeparator c = false := hrest c rfl
    have hne : gap ≠ [] := by
      intro hnil
      rw [htext, hnil] at hhead
      rw [hhead c rfl] at hc
      exact absurd hc (by decide)
    obtain ⟨word, tail, hoperand, hword, htail, _⟩ :=
      exists_run (fun d => !Entry.isSeparator d) rest
    rw [hoperand, ← List.cons_append] at htext
    have hshorter : tail.length < text.length := by
      rw [htext]
      simp
      omega
    rw [htext] at hsharp
    obtain ⟨operands, hspaced⟩ := exists_spaced tail
      (fun hmem => hsharp (List.mem_append_right _ (List.mem_append_right _ hmem)))
      (fun d hd => by simpa using htail d hd)
    refine ⟨(c :: word) :: operands, ?_⟩
    rw [htext]
    refine .operand hne hgap (List.cons_ne_nil c word) ?_ hspaced
    intro d hd
    refine ⟨?_, fun he => hsharp (List.mem_append_right _ (List.mem_append_left _ (he ▸ hd)))⟩
    rcases List.mem_cons.mp hd with rfl | hd
    · exact hc
    · simpa using hword d hd
termination_by text.length

/-- The first word of a text: what stands before its first blank, blanks in front of it aside. -/
def firstWord (text : List Char) : List Char :=
  (text.dropWhile isBlank).takeWhile fun c => !isBlank c

/-- The first word of an instruction line is its mnemonic. -/
theorem InstrLine.firstWord_eq {op : Opcode} {operands : List (List Char)} {line : List Char}
    (h : InstrLine op operands line) : firstWord (beforeComment line) = op.mnemonic.toList := by
  obtain ⟨front, text, hcontent, hfront, _, hhead⟩ := h.content
  unfold firstWord
  rw [hcontent, List.dropWhile_append_of_pos hfront, dropWhile_mnemonic,
    (takeWhile_mnemonic op hhead).1]

/-- A line whose first word is a mnemonic is an instruction line. -/
theorem exists_instrLine {op : Opcode} {line : List Char}
    (h : firstWord (beforeComment line) = op.mnemonic.toList) :
    ∃ operands, InstrLine op operands line := by
  have hsharp := not_mem_beforeComment line
  obtain ⟨body, back, hline, _, hback, hbody, _⟩ := exists_run (· != '#') line
  obtain ⟨front, rest, hrest, hfront, _, _, hdrop⟩ := exists_run isBlank body
  obtain ⟨word, text, htext, _, hhead, hword, _⟩ := exists_run (fun c => !isBlank c) rest
  have hbody : body = beforeComment line := hbody
  have hmnemonic : word = op.mnemonic.toList := by
    rw [← h, hword, hdrop, hbody]
    rfl
  have hblank : ∀ c ∈ text.head?, isBlank c = true := fun c hc => by simpa using hhead c hc
  rw [← hbody, hrest, htext] at hsharp
  obtain ⟨operands, hspaced⟩ := exists_spaced text
    (fun hmem => hsharp (List.mem_append_right _ (List.mem_append_right _ hmem)))
    (fun c hc => isSeparator_of_isBlank (hblank c hc))
  refine ⟨operands, ⟨front, text, back, ?_, hfront, hspaced, hblank, ?_⟩⟩
  · rw [hline, hrest, htext, hmnemonic, List.append_assoc, List.append_assoc]
  · intro c hc
    simpa using hback c hc

/-! ## The forms of a content -/

/-- A name that can be a label. -/
def IsLabel (name : List Char) : Prop :=
  ∃ c cs, name = c :: cs ∧ Entry.isLabelStart c = true ∧ ∀ d ∈ cs, Entry.isLabelChar d = true

/-- A line with a label and its colon. -/
structure LabelLine (name line : List Char) : Prop where
  content : HasContent line (name ++ [':'])
  label : IsLabel name

/-- A line with data words: their directive, and pieces with commas between them. -/
structure WordLine (pieces : List (List Char)) (line : List Char) : Prop where
  content : HasContent line (".word".toList ++ [','].intercalate pieces)
  nonempty : pieces ≠ []
  pieces : ∀ piece ∈ pieces, ',' ∉ piece
  unlabelled : ∀ name, ¬ LabelLine name line

theorem labelName?_eq_some_iff {content name : List Char} :
    Entry.labelName? content = some name ↔ content = name ++ [':'] ∧ IsLabel name := by
  unfold Entry.labelName?
  constructor
  · intro h
    split at h
    · rename_i hcolon
      obtain ⟨front, rfl⟩ := List.getLast?_eq_some_iff.mp hcolon
      rw [List.dropLast_concat] at h
      split at h
      · rename_i c cs
        split at h
        · rename_i hlabel
          rw [Bool.and_eq_true, List.all_eq_true] at hlabel
          cases h
          exact ⟨rfl, c, cs, rfl, hlabel⟩
        · cases h
      · cases h
    · cases h
  · rintro ⟨rfl, c, cs, rfl, hstart, hchars⟩
    rw [if_pos (List.getLast?_concat ..), List.dropLast_concat]
    exact if_pos (Bool.and_eq_true_iff.mpr ⟨hstart, List.all_eq_true.mpr hchars⟩)

/-- What the content of a line says, by the first form that it has. -/
inductive Entry.Form (content : List Char) : Entry → Prop where
  | nothing (h : content = []) : Form content .nothing
  | label {name : List Char} (h : Entry.labelName? content = some name) :
      Form content (.label (String.ofList name))
  | opening {s : Section} (h : content = s.directive.toList) : Form content (.opening s)
  | global : Form content .global
  | words {rest : List Char} (hlabel : Entry.labelName? content = none)
      (h : content = ".word".toList ++ rest) :
      Form content (.words ((splitWhere (· == ',') rest).map fun item =>
        String.ofList (trim isBlank item)))
  | instr {op : Opcode}
      (h : Opcode.ofMnemonic? (String.ofList (content.takeWhile fun c => !isBlank c)) = some op)
      (args : List String) : Form content (.instr ⟨op, args⟩)
  | unknown (word : String) : Form content (.unknown word)

theorem form_readContent (content : List Char) :
    Entry.Form content (Entry.readContent content) := by
  unfold Entry.readContent
  -- one split for each form, in the order in which they are tried
  split
  · rename_i hempty
    exact .nothing (List.isEmpty_iff.mp hempty)
  split
  · rename_i hlabel
    exact .label hlabel
  rename_i hlabel
  split
  · rename_i hopening
    exact .opening hopening
  split
  · rename_i hopening
    exact .opening hopening
  split
  · exact .global
  split
  · rename_i rest hwords
    unfold Entry.afterDirective? at hwords
    split at hwords
    · rename_i hprefix
      obtain ⟨more, rfl⟩ := List.isPrefixOf_iff_prefix.mp hprefix
      cases hwords
      exact .words hlabel rfl
    · cases hwords
  · unfold Entry.readInstr
    dsimp only
    split
    · rename_i hop
      exact .instr hop _
    · exact .unknown _

/-! ## What a line says -/

section

variable {line : List Char}

theorem form_read (line : List Char) :
    Entry.Form (trim isBlank (beforeComment line)) (Entry.read line) :=
  form_readContent _

theorem read_eq_label_iff {text : String} :
    Entry.read line = .label text ↔ ∃ name, LabelLine name line ∧ text = String.ofList name := by
  constructor
  · intro h
    have hform := form_read line
    rw [h] at hform
    cases hform with
    | @label name hname =>
      obtain ⟨hcontent, hlabel⟩ := labelName?_eq_some_iff.mp hname
      exact ⟨name, ⟨hasContent_iff.mpr hcontent, hlabel⟩, rfl⟩
  · rintro ⟨name, ⟨hcontent, hlabel⟩, rfl⟩
    have hname := labelName?_eq_some_iff.mpr ⟨rfl, hlabel⟩
    unfold Entry.read Entry.readContent
    rw [hasContent_iff.mp hcontent, hname, if_neg (by simp)]

theorem read_eq_opening_iff {s : Section} :
    Entry.read line = .opening s ↔ HasContent line s.directive.toList := by
  rw [hasContent_iff]
  constructor
  · intro h
    have hform := form_read line
    rw [h] at hform
    cases hform with
    | opening hcontent => exact hcontent
  · intro hcontent
    unfold Entry.read
    rw [hcontent]
    cases s with
    | text => rfl
    | data => rfl

theorem read_eq_words_iff {items : List String} :
    Entry.read line = .words items ↔ ∃ pieces, WordLine pieces line
      ∧ items = pieces.map fun piece => String.ofList (trim isBlank piece) := by
  constructor
  · intro h
    have hform := form_read line
    -- labels are tried first
    have hunlabelled : ∀ name, ¬ LabelLine name line := by
      intro name hlabel
      rw [read_eq_label_iff.mpr ⟨name, hlabel, rfl⟩] at h
      cases h
    rw [h] at hform
    cases hform with
    | @words rest _ hcontent =>
      refine ⟨_, ⟨hasContent_iff.mpr ?_, splitWhere_ne_nil _ _, ?_, hunlabelled⟩, rfl⟩
      · rw [intercalate_splitWhere]
        exact hcontent
      · intro piece hpiece hcomma
        exact absurd (mem_of_mem_splitWhere hpiece hcomma).2 (by decide)
  · rintro ⟨pieces, ⟨hcontent, hne, hpieces, hunlabelled⟩, rfl⟩
    have hlabel : Entry.labelName? (".word".toList ++ [','].intercalate pieces) = none := by
      rw [Option.eq_none_iff_forall_ne_some]
      intro name hname
      obtain ⟨heq, hlabel⟩ := labelName?_eq_some_iff.mp hname
      exact hunlabelled name ⟨heq ▸ hcontent, hlabel⟩
    have hsplit : splitWhere (· == ',') ([','].intercalate pieces) = pieces := by
      refine splitWhere_intercalate rfl hne fun piece hpiece c hc => beq_false_of_ne ?_
      rintro rfl
      exact hpieces piece hpiece hc
    unfold Entry.read
    rw [hasContent_iff.mp hcontent]
    unfold Entry.readContent
    rw [hlabel]
    show Entry.words ((splitWhere (· == ',') ([','].intercalate pieces)).map _) = _
    rw [hsplit]

/-- Blanks at the end do not change the first word. -/
theorem takeWhile_trimRight (cs : List Char) :
    (trimRight isBlank cs).takeWhile (fun c => !isBlank c) = cs.takeWhile fun c => !isBlank c := by
  obtain ⟨back, hback, hcs⟩ := exists_trimRight_append isBlank cs
  have hnone : back.takeWhile (fun c => !isBlank c) = [] := by
    rw [List.takeWhile_eq_nil_iff]
    intro hpos
    simp [hback _ (List.getElem_mem hpos)]
  conv => rhs; rw [hcs, List.takeWhile_append, hnone, List.append_nil]
  split
  · rename_i hlength
    exact (List.takeWhile_prefix _).eq_of_length hlength
  · rfl

/-- A line says an instruction exactly if its first word is a mnemonic. -/
theorem read_eq_instr_iff {i : Instr} :
    Entry.read line = .instr i ↔ ∃ operands, InstrLine i.opcode operands line
      ∧ i.args = operands.map String.ofList := by
  constructor
  · intro h
    have hform := form_read line
    rw [h] at hform
    cases hform with
    | @instr op hop args =>
      -- the line is written as an instruction, so its operands are those of `InstrLine.read_eq`
      have hword := List.find?_some (p := fun op : Opcode => op.mnemonic == _) hop
      have hfirst : firstWord (beforeComment line) = op.mnemonic.toList := by
        rw [beq_iff_eq.mp hword, String.toList_ofList]
        exact (takeWhile_trimRight _).symm
      obtain ⟨operands, hline⟩ := exists_instrLine hfirst
      rw [hline.read_eq] at h
      cases h
      exact ⟨operands, hline, rfl⟩
  · rintro ⟨operands, hline, hargs⟩
    rw [hline.read_eq, ← hargs]

end

/-- What a line says is what is written in it. -/
structure ReadsAsWritten (line : List Char) : Prop where
  instr : ∀ i, Entry.read line = .instr i ↔ ∃ operands, InstrLine i.opcode operands line
    ∧ i.args = operands.map String.ofList
  words : ∀ items, Entry.read line = .words items ↔ ∃ pieces, WordLine pieces line
    ∧ items = pieces.map fun piece => String.ofList (trim isBlank piece)
  label : ∀ text, Entry.read line = .label text ↔ ∃ name, LabelLine name line
    ∧ text = String.ofList name
  opening : ∀ s, Entry.read line = .opening s ↔ HasContent line s.directive.toList

theorem readsAsWritten (line : List Char) : ReadsAsWritten line where
  instr := fun _ => read_eq_instr_iff
  words := fun _ => read_eq_words_iff
  label := fun _ => read_eq_label_iff
  opening := fun _ => read_eq_opening_iff

end MicroLang.Assembly
