import MicroLang.Assembly.Image
import MicroLang.Proofs.Operands

/-!
# A listing is read back

`Listing.render` writes a program's listing as text, and `Image.ofListing` reads a text line by
line. The two know nothing of each other: one puts commas, blanks, remarks and directives in, and
the other cuts comments, strips blanks and tells labels, directives and instructions apart by their
spelling.

The line of an item is `Readable` if it says what the item is. For instructions this needs operands
that are `Plain` (`readable_instr`); all other items of a program's listing are fixed. A listing of
readable items loads item by item (`ofListing_text`), and the image of a program follows:

> `ofListing_render`: the image of `render body frameSize` has the prologue, the body, the epilogue
> and the routines as its code, the labels of these places, and the newline as its one data word.
-/

namespace MicroLang.Assembly

open MicroLang.Text

/-! ## Plain operands -/

/-- An operand survives as text: it is not empty and holds no blank, comma or number sign. -/
def PlainOperand (arg : String) : Prop :=
  arg ≠ "" ∧ ∀ c ∈ arg.toList, isBlank c = false ∧ c ≠ ',' ∧ c ≠ '#'

instance (arg : String) : Decidable (PlainOperand arg) :=
  inferInstanceAs (Decidable (arg ≠ "" ∧ ∀ c ∈ arg.toList, isBlank c = false ∧ c ≠ ',' ∧ c ≠ '#'))

/-- All operands of an instruction survive as text. -/
def Instr.Plain (i : Instr) : Prop :=
  ∀ arg ∈ i.args, PlainOperand arg

instance (i : Instr) : Decidable i.Plain :=
  inferInstanceAs (Decidable (∀ arg ∈ i.args, PlainOperand arg))

/-- Plain operands can be put together. -/
theorem PlainOperand.append {a b : String} (ha : PlainOperand a) (hb : PlainOperand b) :
    PlainOperand (a ++ b) := by
  refine ⟨?_, ?_⟩
  · intro hempty
    rw [String.append_eq_empty_iff] at hempty
    exact ha.1 hempty.1
  · intro c hc
    rw [String.toList_append, List.mem_append] at hc
    rcases hc with hc | hc
    · exact ha.2 c hc
    · exact hb.2 c hc

/-- A digit is a plain character. -/
theorem plain_of_isDigit {c : Char} (hc : c.isDigit = true) :
    isBlank c = false ∧ c ≠ ',' ∧ c ≠ '#' := by
  have hrange := Numeral.toNat_of_isDigit hc
  refine ⟨?_, ?_, ?_⟩
  · simp only [isBlank, isWhiteSpace, Bool.or_eq_false_iff, Bool.and_eq_false_imp,
      decide_eq_true_eq, decide_eq_false_iff_not, beq_eq_false_iff_ne]
    omega
  · intro he
    rw [he] at hc
    exact absurd hc (by decide)
  · intro he
    rw [he] at hc
    exact absurd hc (by decide)

/-- Integers in decimal are plain. -/
theorem plain_toString (n : Int) : PlainOperand (toString n) := by
  refine ⟨?_, ?_⟩
  · intro hempty
    have hnil := String.toList_eq_nil_iff.mpr hempty
    rw [Numeral.toList_toString, List.append_eq_nil_iff] at hnil
    exact Nat.toDigits_ne_nil hnil.2
  · intro c hc
    rw [Numeral.toList_toString, List.mem_append] at hc
    rcases hc with hsign | hdigit
    · split at hsign
      · rw [List.mem_singleton.mp hsign]
        decide
      · exact absurd hsign List.not_mem_nil
    · exact plain_of_isDigit (Numeral.isDigit_of_mem_toDigits c hdigit)

/-- Memory operands are plain. -/
theorem plain_memoryOperand (offset : Int) {base : String} (hbase : PlainOperand base) :
    PlainOperand (memoryOperand offset base) := by
  unfold memoryOperand
  exact (((plain_toString offset).append (by decide)).append hbase).append (by decide)

/-! ## The line of an instruction -/

/-- A mnemonic is a word of letters. -/
theorem Opcode.mnemonic_chars (op : Opcode) : op.mnemonic.toList ≠ [] ∧
    ∀ c ∈ op.mnemonic.toList, isBlank c = false ∧ c ≠ '#' ∧ c ≠ '.' := by
  cases op <;> decide

/-- The characters of an instruction with operands. -/
theorem Instr.toList_text (op : Opcode) {args : List String} (hne : args ≠ []) :
    (Instr.text ⟨op, args⟩).toList
      = op.mnemonic.toList ++ ' ' :: [',', ' '].intercalate (args.map String.toList) := by
  unfold Instr.text
  rw [if_neg (by simpa using hne), String.toList_append, String.toList_append,
    String.toList_intercalate, List.append_assoc]
  rfl

/-- Fields that are put together start with the first of them. -/
theorem intercalate_ne_nil {sep field : List Char} {fields : List (List Char)} (h : field ≠ []) :
    sep.intercalate (field :: fields) ≠ [] := by
  cases fields with
  | nil => rw [List.intercalate_singleton]; exact h
  | cons next fields => rw [List.intercalate_cons_cons]; simp [h]

/-- The characters of fields that are put together. -/
theorem mem_intercalate {sep : List Char} {c : Char} :
    ∀ {fields : List (List Char)}, c ∈ sep.intercalate fields →
      c ∈ sep ∨ ∃ field ∈ fields, c ∈ field
  | [], hc => by simp at hc
  | [field], hc => by
    rw [List.intercalate_singleton] at hc
    exact Or.inr ⟨field, by simp, hc⟩
  | field :: next :: fields, hc => by
    rw [List.intercalate_cons_cons, List.mem_append, List.mem_append] at hc
    rcases hc with (hfield | hsep) | hrest
    · exact Or.inr ⟨field, by simp, hfield⟩
    · exact Or.inl hsep
    · rcases mem_intercalate hrest with hsep | ⟨found, hmem, hfound⟩
      · exact Or.inl hsep
      · exact Or.inr ⟨found, List.mem_cons_of_mem _ hmem, hfound⟩

/-- The last character of fields that are put together is one of theirs. -/
theorem mem_getLast?_intercalate {sep : List Char} {c : Char} :
    ∀ {fields : List (List Char)}, (∀ field ∈ fields, field ≠ []) →
      c ∈ (sep.intercalate fields).getLast? → ∃ field ∈ fields, c ∈ field
  | [], _, hc => by simp at hc
  | [field], _, hc => by
    rw [List.intercalate_singleton] at hc
    exact ⟨field, by simp, List.mem_of_mem_getLast? hc⟩
  | field :: next :: fields, hne, hc => by
    have hrest : sep.intercalate (next :: fields) ≠ [] := intercalate_ne_nil (hne next (by simp))
    rw [List.intercalate_cons_cons, List.getLast?_append_of_ne_nil _ hrest] at hc
    obtain ⟨found, hmem, hfound⟩ :=
      mem_getLast?_intercalate (fun f hf => hne f (List.mem_cons_of_mem _ hf)) hc
    exact ⟨found, List.mem_cons_of_mem _ hmem, hfound⟩

/-- A name with a blank inside is no label. -/
theorem labelName?_eq_none {line : List Char} (h : ' ' ∈ line.dropLast) :
    Entry.labelName? line = none := by
  unfold Entry.labelName?
  split
  · split
    · next c cs heq =>
      rw [heq] at h
      rw [if_neg]
      intro hall
      rw [Bool.and_eq_true, List.all_eq_true] at hall
      rcases List.mem_cons.mp h with hc | hcs
      · rw [← hc] at hall
        exact absurd hall.1 (by decide)
      · exact absurd (hall.2 _ hcs) (by decide)
    · rfl
  · rfl

/-- A line that does not start with a dot is no directive. -/
theorem afterDirective?_eq_none {line : List Char} {name : List Char}
    (h : line.head? ≠ some '.') :
    Entry.afterDirective? (String.ofList ('.' :: name)) line = none := by
  unfold Entry.afterDirective?
  rw [if_neg]
  intro hprefix
  rw [String.toList_ofList, List.isPrefixOf_iff_prefix] at hprefix
  obtain ⟨rest, hrest⟩ := hprefix
  rw [← hrest] at h
  exact h rfl

/-- A line that starts with neither a dot nor a label is an instruction. -/
theorem readContent_eq_readInstr {line : List Char} (hne : line ≠ [])
    (hlabel : Entry.labelName? line = none) (hdot : line.head? ≠ some '.') :
    Entry.readContent line = Entry.readInstr line := by
  have htext : line ≠ Section.text.directive.toList := by
    intro he
    exact hdot (by rw [he]; rfl)
  have hdata : line ≠ Section.data.directive.toList := by
    intro he
    exact hdot (by rw [he]; rfl)
  have hglobal : Entry.afterDirective? ".globl" line = none := afterDirective?_eq_none hdot
  have hword : Entry.afterDirective? ".word" line = none := afterDirective?_eq_none hdot
  unfold Entry.readContent
  rw [if_neg (by simpa using hne), hlabel]
  simp only [if_neg htext, if_neg hdata, hglobal, hword]
  rfl

/-- The operands of a plain instruction as lists of characters. -/
theorem Instr.Plain.fields {i : Instr} (h : i.Plain) : ∀ field ∈ i.args.map String.toList,
    field ≠ [] ∧ ∀ c ∈ field, isBlank c = false ∧ c ≠ ',' ∧ c ≠ '#' := by
  intro field hfield
  obtain ⟨arg, harg, rfl⟩ := List.mem_map.mp hfield
  refine ⟨?_, (h arg harg).2⟩
  intro hnil
  exact (h arg harg).1 (String.toList_eq_nil_iff.mp hnil)

/-- A character that is not blank breaks no line. -/
theorem isLineBreak_of_not_isBlank {c : Char} (h : isBlank c = false) : isLineBreak c = false := by
  by_contra hbreak
  rw [isBlank_of_isLineBreak (by simpa using hbreak)] at h
  exact absurd h (by decide)

/-- The text of a plain instruction has no comment and no line break. -/
theorem Instr.Plain.text_chars {i : Instr} (h : i.Plain) :
    ∀ c ∈ i.text.toList, c ≠ '#' ∧ isLineBreak c = false := by
  obtain ⟨op, args⟩ := i
  intro c hc
  have hop := op.mnemonic_chars.2
  cases args with
  | nil => exact ⟨(hop c hc).2.1, isLineBreak_of_not_isBlank (hop c hc).1⟩
  | cons arg args =>
    rw [Instr.toList_text op (by simp), List.mem_append, List.mem_cons] at hc
    rcases hc with hc | rfl | hc
    · exact ⟨(hop c hc).2.1, isLineBreak_of_not_isBlank (hop c hc).1⟩
    · decide
    · rcases mem_intercalate hc with hsep | ⟨field, hfield, hmem⟩
      · have hboth : ∀ d ∈ [',', ' '], d ≠ '#' ∧ isLineBreak d = false := by decide
        exact hboth c hsep
      · have hchar := (h.fields field hfield).2 c hmem
        exact ⟨hchar.2.2, isLineBreak_of_not_isBlank hchar.1⟩

/-- The line of an instruction is its text behind the indent. -/
theorem toList_instr_line (i : Instr) :
    (Item.instr i).line.toList = [' ', ' ', ' ', ' '] ++ i.text.toList := by
  show (indent ++ i.text).toList = _
  rw [String.toList_append]
  rfl

/-- What stands before the first blank of an instruction is its mnemonic, and the fields behind it
are its operands. -/
theorem readInstr_text (op : Opcode) {args : List String} (hne : args ≠ [])
    (h : Instr.Plain ⟨op, args⟩) :
    Entry.readInstr (Instr.text ⟨op, args⟩).toList = .instr ⟨op, args⟩ := by
  have hword : ∀ c ∈ op.mnemonic.toList, (!isBlank c) = true := by
    intro c hc
    rw [(op.mnemonic_chars.2 c hc).1]
    rfl
  have htake : ∀ rest, (op.mnemonic.toList ++ ' ' :: rest).takeWhile (fun c => !isBlank c)
      = op.mnemonic.toList := by
    intro rest
    rw [List.takeWhile_append_of_pos hword, List.takeWhile_cons_of_neg (by decide), List.append_nil]
  have hdrop : ∀ rest, (op.mnemonic.toList ++ ' ' :: rest).dropWhile (fun c => !isBlank c)
      = ' ' :: rest := by
    intro rest
    rw [List.dropWhile_append_of_pos hword, List.dropWhile_cons_of_neg (by decide)]
  have hfields : ∀ field ∈ args.map String.toList,
      field ≠ [] ∧ ∀ c ∈ field, Entry.isSeparator c = false := by
    intro field hfield
    refine ⟨(h.fields field hfield).1, ?_⟩
    intro c hc
    have hchar := (h.fields field hfield).2 c hc
    unfold Entry.isSeparator
    rw [hchar.1, beq_false_of_ne hchar.2.1]
    rfl
  have hargs : fieldsWhere Entry.isSeparator
      (' ' :: [',', ' '].intercalate (args.map String.toList)) = args.map String.toList := by
    rw [fieldsWhere_cons (by decide), fieldsWhere_intercalate (by decide) (by decide) hfields]
  unfold Entry.readInstr
  rw [Instr.toList_text op hne, htake, hdrop]
  simp only [hargs, String.ofList_toList, Opcode.ofMnemonic?_mnemonic, List.map_map]
  simp

/-- The line of a plain instruction says that instruction. -/
theorem read_instr_line {i : Instr} (h : i.Plain) :
    Entry.read (Item.instr i).line.toList = .instr i := by
  obtain ⟨op, args⟩ := i
  cases args with
  | nil => cases op <;> rfl
  | cons arg args =>
    have hne : arg :: args ≠ [] := List.cons_ne_nil arg args
    obtain ⟨hop, hchars⟩ := op.mnemonic_chars
    obtain ⟨first, letters, hletters⟩ := List.exists_cons_of_ne_nil hop
    have htext := Instr.toList_text op hne
    have hhead : (Instr.text ⟨op, arg :: args⟩).toList.head? = some first := by
      rw [htext, hletters]
      rfl
    have hfirst := hchars first (by rw [hletters]; exact List.mem_cons_self)
    have hargs : [',', ' '].intercalate ((arg :: args).map String.toList) ≠ [] :=
      intercalate_ne_nil (h.fields arg.toList (by simp)).1
    have hcomment : '#' ∉ (Item.instr ⟨op, arg :: args⟩).line.toList := by
      intro hmem
      rw [toList_instr_line, List.mem_append] at hmem
      rcases hmem with hmem | hmem
      · exact absurd hmem (by decide)
      · exact (h.text_chars _ hmem).1 rfl
    -- a mnemonic is not blank in front, and an operand is not blank behind
    have htrim : trim isBlank (Item.instr ⟨op, arg :: args⟩).line.toList
        = (Instr.text ⟨op, arg :: args⟩).toList := by
      rw [toList_instr_line]
      refine trim_append (by decide) ?_ ?_
      · intro c hc
        rw [hhead] at hc
        rw [← Option.some.inj hc]
        exact hfirst.1
      · intro c hc
        rw [htext, List.getLast?_append_of_ne_nil _ (by simp), List.getLast?_cons_of_ne_nil hargs]
          at hc
        obtain ⟨field, hfield, hmem⟩ :=
          mem_getLast?_intercalate (fun f hf => (h.fields f hf).1) hc
        exact ((h.fields field hfield).2 c hmem).1
    have hlabel : Entry.labelName? (Instr.text ⟨op, arg :: args⟩).toList = none := by
      apply labelName?_eq_none
      rw [htext, List.dropLast_append_of_ne_nil (by simp), List.dropLast_cons_of_ne_nil hargs]
      simp
    unfold Entry.read
    rw [beforeComment_eq_self hcomment, htrim, readContent_eq_readInstr _ hlabel,
      readInstr_text op hne h]
    · rw [hhead]
      intro he
      exact hfirst.2.2 (Option.some.inj he)
    · intro hnil
      rw [hnil] at hhead
      exact absurd hhead (by simp)

/-! ## Readable items -/

namespace Item

/-- What the line of an item says. -/
def entry : Item → Entry
  | title _ | remark _ => .nothing
  | opening s => .opening s
  | global _ => .global
  | label name => .label name
  | word value => .words [value]
  | instr i => .instr i

/-- The item is one line, and the line says what the item is. -/
def Readable (item : Item) : Prop :=
  Entry.read item.line.toList = item.entry ∧ ∀ c ∈ item.line.toList, isLineBreak c = false

deriving instance DecidableEq for Entry

instance (item : Item) : Decidable item.Readable :=
  inferInstanceAs (Decidable (Entry.read item.line.toList = item.entry ∧
    ∀ c ∈ item.line.toList, isLineBreak c = false))

/-- Plain instructions are readable. -/
theorem readable_instr {i : Instr} (h : i.Plain) : (Item.instr i).Readable := by
  refine ⟨read_instr_line h, ?_⟩
  intro c hc
  rw [toList_instr_line, List.mem_append] at hc
  rcases hc with hindent | htext
  · have hspace : ∀ d ∈ [' ', ' ', ' ', ' '], isLineBreak d = false := by decide
    exact hspace c hindent
  · exact (h.text_chars c htext).2

end Item

/-! ## Loading what the lines say -/

namespace Loader

/-- Adds what lines say, the first of which has the given number. -/
def addEntries (l : Loader) (line : Nat) : List Entry → Except ListingError Loader
  | [] => .ok l
  | entry :: entries => do
    let l ← l.add line entry
    l.addEntries (line + 1) entries

/-- Adding lines is adding what each of them says. -/
theorem addLines_eq_addEntries (l : Loader) (line : Nat) (texts : List (List Char)) :
    l.addLines line texts = l.addEntries line (texts.map Entry.read) := by
  induction texts generalizing l line with
  | nil => rfl
  | cons text texts ih =>
    rw [addLines, List.map_cons, addEntries]
    congr 1
    funext next
    exact ih next (line + 1)

/-- One line, and then the others. -/
theorem addEntries_cons {l next : Loader} {line : Nat} {entry : Entry} (rest : List Entry)
    (hadd : l.add line entry = .ok next) :
    l.addEntries line (entry :: rest) = next.addEntries (line + 1) rest := by
  rw [addEntries, hadd]
  rfl

theorem addEntries_nothing (l : Loader) (line : Nat) (rest : List Entry) :
    l.addEntries line (.nothing :: rest) = l.addEntries (line + 1) rest :=
  addEntries_cons rest rfl

theorem addEntries_global (l : Loader) (line : Nat) (rest : List Entry) :
    l.addEntries line (.global :: rest) = l.addEntries (line + 1) rest :=
  addEntries_cons rest rfl

theorem addEntries_opening (l : Loader) (line : Nat) (s : Section) (rest : List Entry) :
    l.addEntries line (.opening s :: rest)
      = ({ l with current := s } : Loader).addEntries (line + 1) rest :=
  addEntries_cons rest rfl

theorem addEntries_label (l : Loader) (line : Nat) (name : String) (rest : List Entry) :
    l.addEntries line (.label name :: rest) = (l.define name).addEntries (line + 1) rest :=
  addEntries_cons rest rfl

/-- A line with one word of data. -/
theorem addEntries_word {l : Loader} {line : Nat} {item : String} {value : Int} {rest : List Entry}
    (hdata : l.current = .data) (hread : readWord item = .ok value) :
    l.addEntries line (.words [item] :: rest) = (l.addWord value).addEntries (line + 1) rest := by
  have hadd : l.add line (.words [item]) = .ok (l.addWord value) := by
    simp only [add, if_pos hdata, addWords, hread]
    rfl
  exact addEntries_cons rest hadd

/-- Adds instructions at the end of the code. -/
def addCode (l : Loader) (code : List Instr) : Loader :=
  { l with image := { l.image with code := l.image.code ++ code.toArray } }

/-- Lines that say instructions extend the code. -/
theorem addEntries_instr (l : Loader) (line : Nat) (code : List Instr) (rest : List Entry) :
    l.addEntries line (code.map .instr ++ rest)
      = (l.addCode code).addEntries (line + code.length) rest := by
  induction code generalizing l line with
  | nil => simp [addCode]
  | cons i code ih =>
    have hpush : l.image.code.push i ++ code.toArray = l.image.code ++ (i :: code).toArray := by
      rw [← Array.toList_inj]
      simp
    have hcode : (l.addInstr i).addCode code = l.addCode (i :: code) := by
      simp only [addCode, addInstr, hpush]
    have hadd : l.add line (.instr i) = .ok (l.addInstr i) := rfl
    rw [List.map_cons, List.cons_append, addEntries_cons _ hadd, ih, hcode, List.length_cons,
      Nat.add_assoc, Nat.add_comm 1]

end Loader

/-- A listing of readable items loads item by item. -/
theorem ofListing_text {items : List Item} (h : ∀ item ∈ items, item.Readable) :
    Image.ofListing (Listing.text items)
      = (Loader.addEntries {} 1 (items.map Item.entry)).map Loader.image := by
  have hbreak : ∀ line ∈ items.map Item.line, ∀ c ∈ line.toList, isLineBreak c = false := by
    intro line hline
    obtain ⟨item, hitem, rfl⟩ := List.mem_map.mp hline
    exact (h item hitem).2
  have hlines : splitLines (Listing.text items).toList = (items.map Item.line).map String.toList :=
    splitLines_unlines hbreak
  have hentries : ((items.map Item.line).map String.toList).map Entry.read
      = items.map Item.entry := by
    rw [List.map_map, List.map_map]
    apply List.map_congr_left
    intro item hitem
    rw [← (h item hitem).1]
    rfl
  unfold Image.ofListing
  rw [hlines, Loader.addLines_eq_addEntries, hentries]
  cases Loader.addEntries {} 1 (items.map Item.entry) <;> rfl

/-! ## The listing of a program -/

namespace Listing

/-- The instructions that open the frame. -/
def prologueCode (frameSize : Int) : List Instr := [
  ⟨.addi, ["$sp", "$sp", "-" ++ toString frameSize]⟩,
  ⟨.sw, ["$ra", "20($sp)"]⟩,
  ⟨.sw, ["$fp", "28($sp)"]⟩,
  ⟨.move, ["$fp", "$sp"]⟩]

/-- The instructions that close the frame and exit. -/
def epilogueCode (frameSize : Int) : List Instr := [
  ⟨.move, ["$sp", "$fp"]⟩,
  ⟨.lw, ["$fp", "28($sp)"]⟩,
  ⟨.lw, ["$ra", "20($sp)"]⟩,
  ⟨.addi, ["$sp", "$sp", toString frameSize]⟩,
  ⟨.li, ["$v0", "10"]⟩,
  ⟨.syscall, []⟩]

/-- The instructions of the routine `read`. -/
def readCode : List Instr := [
  ⟨.li, ["$v0", "5"]⟩,
  ⟨.syscall, []⟩,
  ⟨.jr, ["$ra"]⟩]

/-- The instructions of the routine `write`. -/
def writeCode : List Instr := [
  ⟨.lw, ["$t0", "newline"]⟩,
  ⟨.li, ["$v0", "1"]⟩,
  ⟨.syscall, []⟩,
  ⟨.move, ["$a0", "$t0"]⟩,
  ⟨.li, ["$v0", "11"]⟩,
  ⟨.syscall, []⟩,
  ⟨.jr, ["$ra"]⟩]

/-- The image of a program with the given body and frame size. -/
def image (body : List Instr) (frameSize : Int) : Image where
  code :=
    (prologueCode frameSize ++ body ++ epilogueCode frameSize ++ (readCode ++ writeCode)).toArray
  textLabels :=
    .ofList [("main", (0 : Int)), ("read", body.length + 10), ("write", body.length + 13)]
  dataLabels := .ofList [("newline", dataBase)]
  data := .ofList [(dataBase, (10 : Int))]

/-- The lines in front of the prologue. -/
def mainHeading : List Item :=
  [.title "Module : main", .opening .text, .global "main", .label "main", .remark "prologue area"]

/-- The lines in front of the routine `read`. -/
def readHeading : List Item :=
  [.opening .text, .global "read", .label "read", .remark "call read integer"]

/-- The lines in front of the routine `write`, with the newline that it prints. -/
def writeHeading : List Item :=
  [.opening .data, .label "newline", .word "'\\n'", .opening .text, .global "write", .label "write"]

/-- The items of a program's listing, with its instructions gathered. -/
theorem items_eq (body : List Instr) (frameSize : Int) :
    items body frameSize
      = mainHeading ++ ((prologueCode frameSize ++ body).map .instr
        ++ (.remark "epilogue area" :: ((epilogueCode frameSize).map .instr
        ++ (readHeading ++ (readCode.map .instr
        ++ (writeHeading ++ (writeCode.map .instr ++ []))))))) := by
  unfold items
  rw [List.append_nil, List.map_append, List.append_assoc, List.append_assoc, List.append_assoc]
  rfl

/-- Moving the stack pointer by a plain operand is plain. -/
theorem plain_addi {size : String} (h : PlainOperand size) :
    Instr.Plain ⟨.addi, ["$sp", "$sp", size]⟩ := by
  intro arg harg
  simp only [List.mem_cons, List.not_mem_nil, or_false] at harg
  rcases harg with rfl | rfl | rfl
  · decide
  · decide
  · exact h

/-- The instructions in front of the body are plain. -/
theorem plain_prologueCode (frameSize : Int) : ∀ i ∈ prologueCode frameSize, i.Plain := by
  have hopen := plain_addi (PlainOperand.append (a := "-") (by decide) (plain_toString frameSize))
  unfold prologueCode
  simp only [List.forall_mem_cons]
  exact ⟨hopen, by decide, by decide, by decide, by simp⟩

/-- The instructions behind the body are plain. -/
theorem plain_epilogueCode (frameSize : Int) : ∀ i ∈ epilogueCode frameSize, i.Plain := by
  have hclose := plain_addi (plain_toString frameSize)
  unfold epilogueCode
  simp only [List.forall_mem_cons]
  exact ⟨by decide, by decide, by decide, hclose, by decide, by decide, by simp⟩

/-- All items of a program's listing are readable. -/
theorem readable_items {body : List Instr} (frameSize : Int) (hbody : ∀ i ∈ body, i.Plain) :
    ∀ item ∈ items body frameSize, item.Readable := by
  have hinstr : ∀ {code : List Instr}, (∀ i ∈ code, i.Plain) →
      ∀ item ∈ code.map Item.instr, item.Readable := by
    intro code hcode item hitem
    obtain ⟨i, hi, rfl⟩ := List.mem_map.mp hitem
    exact Item.readable_instr (hcode i hi)
  have hbefore : ∀ i ∈ prologueCode frameSize ++ body, i.Plain := by
    intro i hi
    rcases List.mem_append.mp hi with hi | hi
    · exact plain_prologueCode frameSize i hi
    · exact hbody i hi
  rw [items_eq]
  simp only [List.forall_mem_append, List.forall_mem_cons]
  exact ⟨by decide +kernel, hinstr hbefore, by decide +kernel,
    hinstr (plain_epilogueCode frameSize), by decide +kernel, hinstr (by decide),
    by decide +kernel, hinstr (by decide), by simp⟩

/-- What the lines of a program's listing say makes its image. -/
theorem addEntries_items (body : List Instr) (frameSize : Int) :
    Loader.addEntries {} 1 ((items body frameSize).map Item.entry)
      = .ok ⟨image body frameSize, .text, dataBase + 4⟩ := by
  have hinstr : ∀ code : List Instr, (code.map Item.instr).map Item.entry = code.map .instr := by
    intro code
    rw [List.map_map]
    rfl
  have hnewline : readWord "'\\n'" = .ok 10 := rfl
  have hcode : #[] ++ (prologueCode frameSize ++ body).toArray ++ (epilogueCode frameSize).toArray
      ++ readCode.toArray ++ writeCode.toArray = (image body frameSize).code := by
    rw [← Array.toList_inj]
    simp [image]
  have hread : ((#[] ++ (prologueCode frameSize ++ body).toArray
      ++ (epilogueCode frameSize).toArray).size : Int) = body.length + 10 := by
    simp [prologueCode, epilogueCode]
    omega
  have hwrite : ((#[] ++ (prologueCode frameSize ++ body).toArray
      ++ (epilogueCode frameSize).toArray ++ readCode.toArray).size : Int) = body.length + 13 := by
    simp [prologueCode, epilogueCode, readCode]
    omega
  rw [items_eq]
  simp only [mainHeading, readHeading, writeHeading, List.map_append, hinstr, List.map_cons,
    List.map_nil, Item.entry, List.cons_append, List.nil_append]
  rw [← List.map_append]
  simp only [Loader.addEntries_nothing, Loader.addEntries_global, Loader.addEntries_opening,
    Loader.addEntries_label, Loader.addEntries_instr]
  rw [Loader.addEntries_word rfl hnewline]
  simp only [Loader.addEntries_global, Loader.addEntries_opening, Loader.addEntries_label,
    Loader.addEntries_instr]
  simp only [Loader.addEntries, Loader.addCode, Loader.define, Loader.addWord]
  rw [hcode, hread, hwrite]
  rfl

/-- **A listing is read back.** -/
theorem ofListing_render {body : List Instr} (frameSize : Int) (hbody : ∀ i ∈ body, i.Plain) :
    Image.ofListing (render body frameSize) = .ok (image body frameSize) := by
  unfold render
  rw [ofListing_text (readable_items frameSize hbody), addEntries_items]
  rfl

end Listing

end MicroLang.Assembly
