import Mathlib.Logic.Relation
import MicroLang.Proofs.ImageLayout

/-!
# Listings written in another way

A line is cut at its comment, trimmed, and only then looked at, and the operands of an instruction
are cut out at runs of commas and blanks. So a listing has many spellings, and they have the same
image:

> `ofListing_reformatted`: lines that say nothing may be put anywhere, a line may get blanks around
> its content and a comment behind it, and the operands of an instruction may be spaced in any other
> way; the listing has the same image as before, or still none.

`LineChange` is one such change of a line. It does not change what the line says
(`LineChange.read_eq`); lines that say nothing only move the numbers of the lines below them, which
no image shows (`toOption_addEntries_filter`).
-/

namespace MicroLang.Assembly

open MicroLang.Text

/-! ## Changes -/

/-- Blanks that end no line. -/
def Spacing (text : List Char) : Prop :=
  ∀ c ∈ text, isBlank c = true ∧ isLineBreak c = false

instance (text : List Char) : Decidable (Spacing text) :=
  inferInstanceAs (Decidable (∀ c ∈ text, isBlank c = true ∧ isLineBreak c = false))

/-- A change of a line that keeps what it says. -/
inductive LineChange : List Char → List Char → Prop where
  /-- More blanks in front of what a line says. -/
  | before {front spacing rest : List Char} (hfront : ∀ c ∈ front, isBlank c = true)
      (hspacing : Spacing spacing) : LineChange (front ++ rest) (front ++ (spacing ++ rest))
  /-- More blanks behind it, in front of the comment. -/
  | behind {rest spacing back comment : List Char} (hspacing : Spacing spacing)
      (hback : ∀ c ∈ back, isBlank c = true) (hcomment : ∀ c ∈ comment.head?, c = '#') :
    LineChange (rest ++ (back ++ comment)) (rest ++ (spacing ++ (back ++ comment)))
  | comment {line text : List Char} (htext : Unbroken text) : LineChange line (line ++ '#' :: text)
  /-- The same instruction with other gaps. -/
  | respace {op : Opcode} {operands : List (List Char)} {line line' : List Char}
      (h : InstrLine op operands line) (h' : InstrLine op operands line')
      (hline : Unbroken line') : LineChange line line'

/-- A line of blanks, a comment alone, or nothing. -/
def Silent (line : List Char) : Prop :=
  ∃ front comment, line = front ++ comment ∧ (∀ c ∈ front, isBlank c = true)
    ∧ ∀ c ∈ comment.head?, c = '#'

/-- Any number of changes in the lines of a listing, and of silent lines between them. -/
inductive Reformats : List (List Char) → List (List Char) → Prop where
  | nil : Reformats [] []
  | insert {line : List Char} {lines lines' : List (List Char)} (hsilent : Silent line)
      (hline : Unbroken line) (h : Reformats lines lines') : Reformats lines (line :: lines')
  | change {line line' : List Char} {lines lines' : List (List Char)}
      (hline : Relation.ReflTransGen LineChange line line') (h : Reformats lines lines') :
    Reformats (line :: lines) (line' :: lines')

/-- Nothing behind a comment belongs to the line. -/
theorem beforeComment_append_of_mem {front : List Char} (h : '#' ∈ front) (back : List Char) :
    beforeComment (front ++ back) = beforeComment front := by
  obtain ⟨content, comment, rfl, hcontent⟩ := List.eq_append_cons_of_mem h
  rw [List.append_assoc, beforeComment_append hcontent, beforeComment_append hcontent]
  rfl

theorem Spacing.not_mem {spacing : List Char} (h : Spacing spacing) : '#' ∉ spacing :=
  not_mem_of_isBlank fun c hc => (h c hc).1

/-- A change does not change what a line says. -/
theorem LineChange.read_eq {line line' : List Char} (h : LineChange line line') :
    Entry.read line' = Entry.read line := by
  cases h with
  | @before front spacing rest hfront hspacing =>
    have hsharp := not_mem_of_isBlank hfront
    unfold Entry.read
    rw [beforeComment_append hsharp, beforeComment_append hsharp,
      beforeComment_append hspacing.not_mem, trim_front hfront, trim_front hfront,
      trim_front fun c hc => (hspacing c hc).1]
  | @behind rest spacing back comment hspacing hback hcomment =>
    unfold Entry.read
    by_cases hsharp : '#' ∈ rest
    · rw [beforeComment_append_of_mem hsharp, beforeComment_append_of_mem hsharp]
    · rw [beforeComment_append hsharp, beforeComment_append hsharp,
        beforeComment_append hspacing.not_mem, beforeComment_append (not_mem_of_isBlank hback),
        beforeComment_eq_nil hcomment, List.append_nil, ← List.append_assoc, trim_back hback,
        trim_back hback, trim_back fun c hc => (hspacing c hc).1]
  | @comment _ text htext =>
    unfold Entry.read
    by_cases hsharp : '#' ∈ line
    · rw [beforeComment_append_of_mem hsharp]
    · rw [beforeComment_append hsharp, beforeComment_eq_self hsharp]
      have hnil : beforeComment ('#' :: text) = [] := rfl
      rw [hnil, List.append_nil]
  | respace h h' => rw [h.read_eq, h'.read_eq]

theorem LineChange.unbroken {line line' : List Char} (h : LineChange line line')
    (hline : Unbroken line) : Unbroken line' := by
  cases h with
  | before hfront hspacing =>
    obtain ⟨hfront, hrest⟩ := List.forall_mem_append.mp hline
    exact List.forall_mem_append.mpr
      ⟨hfront, List.forall_mem_append.mpr ⟨fun c hc => (hspacing c hc).2, hrest⟩⟩
  | behind hspacing =>
    obtain ⟨hrest, hback⟩ := List.forall_mem_append.mp hline
    exact List.forall_mem_append.mpr
      ⟨hrest, List.forall_mem_append.mpr ⟨fun c hc => (hspacing c hc).2, hback⟩⟩
  | comment htext =>
    exact List.forall_mem_append.mpr ⟨hline, List.forall_mem_cons.mpr ⟨by decide, htext⟩⟩
  | respace _ _ hline' => exact hline'

theorem Silent.read_eq {line : List Char} (h : Silent line) : Entry.read line = .nothing := by
  obtain ⟨front, comment, rfl, hfront, hcomment⟩ := h
  unfold Entry.read
  rw [beforeComment_append (not_mem_of_isBlank hfront), beforeComment_eq_nil hcomment,
    trim_front hfront]
  rfl

/-- What lines say, those that say nothing left out. -/
def significant (entries : List Entry) : List Entry :=
  entries.filter (· ≠ .nothing)

namespace Reformats

variable {lines lines' : List (List Char)}

theorem unbroken (h : Reformats lines lines') (hlines : ∀ line ∈ lines, Unbroken line) :
    ∀ line ∈ lines', Unbroken line := by
  induction h with
  | nil => exact hlines
  | insert _ hline _ ih => exact List.forall_mem_cons.mpr ⟨hline, ih hlines⟩
  | change hchanges _ ih =>
    obtain ⟨hline, hlines⟩ := List.forall_mem_cons.mp hlines
    refine List.forall_mem_cons.mpr ⟨?_, ih hlines⟩
    induction hchanges with
    | refl => exact hline
    | tail _ hchange hmid => exact hchange.unbroken hmid

theorem significant_eq (h : Reformats lines lines') :
    significant (lines'.map Entry.read) = significant (lines.map Entry.read) := by
  unfold significant
  induction h with
  | nil => rfl
  | insert hsilent _ _ ih =>
    rw [List.map_cons, List.filter_cons_of_neg (by simp [hsilent.read_eq]), ih]
  | @change line line' _ _ hchanges _ ih =>
    have hread : Entry.read line' = Entry.read line := by
      induction hchanges with
      | refl => rfl
      | tail _ hchange hmid => rw [hchange.read_eq, hmid]
    rw [List.map_cons, List.map_cons, hread, List.filter_cons, List.filter_cons, ih]

end Reformats

/-! ## Listings -/

/-- The text of lines with a line feed between any two of them. -/
def joinLines (lines : List (List Char)) : String :=
  String.ofList (['\n'].intercalate lines)

/-- The lines of a joined text, but for an empty last one. -/
theorem splitLines_joinLines {lines : List (List Char)} (h : ∀ line ∈ lines, Unbroken line) :
    splitLines (joinLines lines).toList = lines
      ∨ lines = splitLines (joinLines lines).toList ++ [[]] := by
  have hreturn : '\r' ∉ ['\n'].intercalate lines := by
    intro hmem
    rcases mem_intercalate hmem with hfeed | ⟨line, hline, hin⟩
    · exact absurd hfeed (by decide)
    · exact absurd (h line hline _ hin) (by decide)
  unfold splitLines joinLines
  rw [String.toList_ofList, joinCrLf_eq_self hreturn]
  cases lines with
  | nil => exact .inl rfl
  | cons line lines =>
    rw [splitWhere_intercalate (by decide) (List.cons_ne_nil _ _) h]
    by_cases hlast : (line :: lines).getLast? = some []
    · right
      rw [if_pos (by rw [hlast]; rfl)]
      obtain ⟨front, hfront⟩ := List.getLast?_eq_some_iff.mp hlast
      rw [hfront, List.dropLast_concat]
    · left
      exact if_neg fun hempty => hlast (beq_iff_eq.mp hempty)

theorem significant_entriesOf {lines : List (List Char)} (h : ∀ line ∈ lines, Unbroken line) :
    significant (entriesOf (joinLines lines)) = significant (lines.map Entry.read) := by
  unfold entriesOf
  rcases splitLines_joinLines h with hsame | hsame
  · rw [hsame]
  · conv => rhs; rw [hsame]
    unfold significant
    rw [List.map_append, List.filter_append]
    exact (List.append_nil _).symm

theorem toOption_bind {ε α β : Type} {x x' : Except ε α} {f f' : α → Except ε β}
    (hx : x.toOption = x'.toOption) (hf : ∀ a, (f a).toOption = (f' a).toOption) :
    (x >>= f).toOption = (x' >>= f').toOption := by
  cases x with
  | error e =>
    cases x' with
    | error e' => rfl
    | ok a' => cases hx
  | ok a =>
    cases x' with
    | error e' => cases hx
    | ok a' =>
      cases hx
      exact hf a

namespace Loader

/-- The number of a line is only in errors. -/
theorem toOption_add (l : Loader) (line line' : Nat) (entry : Entry) :
    (l.add line entry).toOption = (l.add line' entry).toOption := by
  cases entry with
  | words items =>
    simp only [add]
    by_cases hdata : l.current = .data
    · rw [if_pos hdata, if_pos hdata]
    · rw [if_neg hdata, if_neg hdata]
      rfl
  | _ => rfl

/-- Lines that say nothing do not count. -/
theorem toOption_addEntries_filter (l : Loader) (line line' : Nat) (entries : List Entry) :
    (l.addEntries line entries).toOption
      = (l.addEntries line' (significant entries)).toOption := by
  induction entries generalizing l line line' with
  | nil => rfl
  | cons entry entries ih =>
    by_cases hentry : entry = .nothing
    · rw [hentry, addEntries_nothing]
      exact ih l (line + 1) line'
    · have hkept : significant (entry :: entries) = entry :: significant entries :=
        List.filter_cons_of_pos (by simp [hentry])
      rw [hkept]
      exact toOption_bind (toOption_add l line line' entry)
        fun next => ih next (line + 1) (line' + 1)

end Loader

/-- The image of a listing depends on what its lines say, in their order. -/
theorem toOption_ofListing (listing : String) : (Image.ofListing listing).toOption
    = ((Loader.addEntries {} 1 (significant (entriesOf listing))).toOption).map Loader.image := by
  unfold Image.ofListing
  rw [Loader.addLines_eq_addEntries, ← Loader.toOption_addEntries_filter {} 1]
  show Except.toOption (Loader.addEntries {} 1 (entriesOf listing) >>= _) = _
  cases Loader.addEntries {} 1 (entriesOf listing) with
  | error e => rfl
  | ok l => rfl

/-- **Formatting does not matter.** A listing with other blanks, gaps, comments and silent lines has
the same image, or none if it had none. Gaps can be changed in every line whose first word is a
mnemonic. -/
theorem ofListing_reformatted :
    (∀ lines lines' : List (List Char), (∀ line ∈ lines, Unbroken line) → Reformats lines lines' →
      (Image.ofListing (joinLines lines')).toOption = (Image.ofListing (joinLines lines)).toOption)
      ∧ ∀ (op : Opcode) (line : List Char),
        firstWord (beforeComment line) = op.mnemonic.toList ↔
          ∃ operands, InstrLine op operands line := by
  refine ⟨?_, ?_⟩
  · intro lines lines' hlines h
    rw [toOption_ofListing, toOption_ofListing, significant_entriesOf hlines,
      significant_entriesOf (h.unbroken hlines), h.significant_eq]
  · intro op line
    refine ⟨exists_instrLine, ?_⟩
    intro h
    obtain ⟨operands, hline⟩ := h
    exact hline.firstWord_eq

/-- Three lines, and the same three with silent lines, a comment, and other blanks and gaps. -/
theorem ofListing_reformatted_wide :
    (Image.ofListing (joinLines ["  # start".toList, "\tmain: # entry".toList, [],
      "li\u3000,,$v0 , 10,\xa0".toList, "syscall".toList])).toOption
        = (Image.ofListing (joinLines ["main:".toList, "li $v0 10".toList,
          "syscall".toList])).toOption
      ∧ (Image.ofListing (joinLines ["main:".toList, "li $v0 10".toList, "syscall".toList])).isOk
        = true := by
  have hbefore : LineChange ([] ++ "main:".toList) ([] ++ ("\t".toList ++ "main:".toList)) :=
    .before (by decide) (by decide)
  have hbehind : LineChange ("\tmain:".toList ++ ([] ++ []))
      ("\tmain:".toList ++ (" ".toList ++ ([] ++ []))) :=
    .behind (by decide) (by decide) (by decide)
  have hcomment : LineChange "\tmain: ".toList ("\tmain: ".toList ++ '#' :: " entry".toList) :=
    .comment (by decide)
  have hspaced (gap gap' run : List Char) (hgap : gap ≠ []) (hgap' : gap' ≠ [])
      (h : ∀ text ∈ [gap, gap', run], ∀ c ∈ text, Entry.isSeparator c = true) :
      Spaced ["$v0".toList, "10".toList]
        (gap ++ ("$v0".toList ++ (gap' ++ ("10".toList ++ run)))) :=
    .operand hgap (h gap (by simp)) (by decide) (by decide)
      (.operand hgap' (h gap' (by simp)) (by decide) (by decide) (.done (h run (by simp))))
  have hnarrow : InstrLine .li ["$v0".toList, "10".toList] "li $v0 10".toList :=
    ⟨[], _, [], rfl, by decide, hspaced " ".toList " ".toList [] (by decide) (by decide)
      (by decide), by decide, by decide⟩
  have hwide : InstrLine .li ["$v0".toList, "10".toList] "li\u3000,,$v0 , 10,\xa0".toList :=
    ⟨[], _, [], rfl, by decide, hspaced "\u3000,,".toList " , ".toList ",\xa0".toList (by decide)
      (by decide) (by decide), by decide, by decide⟩
  have hlabel : Relation.ReflTransGen LineChange "main:".toList "\tmain: # entry".toList :=
    ((Relation.ReflTransGen.single hbefore).tail hbehind).tail hcomment
  have hreformats : Reformats ["main:".toList, "li $v0 10".toList, "syscall".toList]
      ["  # start".toList, "\tmain: # entry".toList, [], "li\u3000,,$v0 , 10,\xa0".toList,
        "syscall".toList] := by
    refine .insert ⟨"  ".toList, "# start".toList, rfl, by decide, by decide⟩ (by decide) ?_
    refine .change hlabel (.insert ⟨[], [], rfl, by decide, by decide⟩ (by decide) ?_)
    exact .change (.single (.respace hnarrow hwide (by decide))) (.change .refl .nil)
  exact ⟨ofListing_reformatted.1 _ _ (by decide) hreformats, by decide +kernel⟩

end MicroLang.Assembly
