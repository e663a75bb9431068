import MicroLang.Proofs.ListingLines
import MicroLang.Proofs.Sequencing

/-!
# The code of a listing

A line of a listing says at most one instruction, whatever section it is in, and the instructions of
a loaded image are those of the lines, one after the other (`code_of_ofListing`). Operands are cut
out of a line at blanks and commas, and a comment is gone by then:

> `plain_of_ofListing`: every instruction of a loaded image could be written down again as it was
> read.
-/

namespace MicroLang.Assembly

open MicroLang.Sequencing
open MicroLang.Text

/-! ## Instructions in order -/

/-- The instruction that a line says. -/
def Entry.instr? : Entry → Option Instr
  | .instr i => some i
  | _ => none

namespace Loader

variable {l last : Loader}

theorem code_addWords {items : List String} (h : l.addWords items = .ok last) :
    last.image.code = l.image.code := by
  induction items generalizing l with
  | nil =>
    cases h
    rfl
  | cons item items ih =>
    obtain ⟨_, _, hrest⟩ := except_bind_eq_ok.mp h
    have hkept := ih hrest
    exact hkept

theorem code_define (l : Loader) (name : String) :
    (l.define name).image.code = l.image.code := by
  unfold define
  split
  · rfl
  · rfl

/-- Data words are added in a data section only. -/
theorem add_words_eq_ok {line : Nat} {items : List String} :
    l.add line (.words items) = .ok last ↔ l.current = .data ∧ l.addWords items = .ok last := by
  simp only [add]
  by_cases hdata : l.current = .data
  · rw [if_pos hdata]
    cases l.addWords items with
    | error e => simp
    | ok next => simp [hdata]
  · rw [if_neg hdata]
    simp [hdata]

/-- A line adds the instruction that it says, if it says one. -/
theorem code_add {line : Nat} {entry : Entry} (h : l.add line entry = .ok last) :
    last.image.code.toList = l.image.code.toList ++ entry.instr?.toList := by
  have hsame (hcode : last.image.code = l.image.code) :
      last.image.code.toList = l.image.code.toList ++ [] := by
    rw [hcode, List.append_nil]
  cases entry with
  | nothing =>
    cases h
    exact hsame rfl
  | global =>
    cases h
    exact hsame rfl
  | label name =>
    cases h
    exact hsame (code_define l name)
  | opening s =>
    cases h
    exact hsame rfl
  | words items =>
    exact hsame (code_addWords (add_words_eq_ok.mp h).2)
  | instr i =>
    cases h
    exact Array.toList_push
  | unknown word => cases h

theorem code_addEntries {line : Nat} {entries : List Entry}
    (h : l.addEntries line entries = .ok last) :
    last.image.code.toList = l.image.code.toList ++ entries.filterMap Entry.instr? := by
  induction entries generalizing l line with
  | nil =>
    cases h
    rw [List.filterMap_nil, List.append_nil]
  | cons entry entries ih =>
    obtain ⟨next, hadd, hrest⟩ := except_bind_eq_ok.mp h
    rw [ih hrest, code_add hadd, List.append_assoc]
    cases hentry : entry.instr? with
    | none => rw [List.filterMap_cons_none hentry, Option.toList_none, List.nil_append]
    | some i => rw [List.filterMap_cons_some hentry, Option.toList_some, List.singleton_append]

end Loader

/-- The instructions of an image are those that the lines of its listing say, in their order. -/
theorem code_of_ofListing {listing : String} {image : Image}
    (h : Image.ofListing listing = .ok image) :
    image.code.toList
      = ((splitLines listing.toList).map Entry.read).filterMap Entry.instr? := by
  obtain ⟨last, hload, himage⟩ := except_bind_eq_ok.mp h
  cases himage
  rw [Loader.addLines_eq_addEntries] at hload
  rw [Loader.code_addEntries hload]
  rfl

/-! ## Instructions as they are read -/

theorem Spaced.plain {operands : List (List Char)} {text : List Char} (h : Spaced operands text) :
    ∀ operand ∈ operands, PlainOperand (String.ofList operand) := by
  induction h with
  | done _ => exact fun _ hmem => absurd hmem List.not_mem_nil
  | @operand _ operand _ _ _ _ hne hchars _ ih =>
    rw [List.forall_mem_cons]
    refine ⟨⟨fun hempty => hne (String.ofList_eq_empty_iff.mp hempty), ?_⟩, ih⟩
    intro c hc
    rw [String.toList_ofList] at hc
    obtain ⟨hinside, hsharp⟩ := hchars c hc
    simp only [Entry.isSeparator, Bool.or_eq_false_iff, beq_eq_false_iff_ne] at hinside
    exact ⟨hinside.2, hinside.1, hsharp⟩

/-- The operands of an instruction line are plain. -/
theorem plain_of_read {line : List Char} {i : Instr} (h : Entry.read line = .instr i) :
    i.Plain := by
  obtain ⟨operands, hline, hargs⟩ := read_eq_instr_iff.mp h
  obtain ⟨_, _, _, _, hspaced, _⟩ := hline.content
  unfold Instr.Plain
  rw [hargs, List.forall_mem_map]
  exact hspaced.plain

/-- An instruction of a loaded image is plain. -/
theorem plain_of_ofListing {listing : String} {image : Image}
    (h : Image.ofListing listing = .ok image) {i : Instr} (hi : i ∈ image.code) : i.Plain := by
  rw [← Array.mem_toList_iff, code_of_ofListing h] at hi
  obtain ⟨entry, hentry, hinstr⟩ := List.mem_filterMap.mp hi
  obtain ⟨line, _, rfl⟩ := List.mem_map.mp hentry
  unfold Entry.instr? at hinstr
  split at hinstr
  · rename_i hread
    cases hinstr
    exact plain_of_read hread
  · cases hinstr

end MicroLang.Assembly
