import Mathlib.Data.List.Induction
import MicroLang.Proofs.Lines
import MicroLang.Source.Scanner

/-!
# Places of a source text

A scanner counts lines and columns as it goes, one character after the other. What it has counted
can be read off the text behind it: the line is the number of line feeds there, and the column the
number of characters after the last of them, both counted from one (`after_eq`). So a line and a
column belong to one place of a text only (`prefix_unique`).

The lines of a whole text, cut at its line feeds, agree with this count:

> `getElem?_splitWhere`: of the lines of a text, the one that a place is on is made up of what
> stands before the place, back to the line feed, and what stands behind it, up to the next one.
-/

namespace MicroLang.Text

/-! ## Pieces at a place -/

/-- What stands in a text behind the last character of a class. -/
def lastPiece (p : Char → Bool) (text : List Char) : List Char :=
  (text.reverse.takeWhile fun c => !p c).reverse

section

variable (p : Char → Bool) (text : List Char)

theorem lastPiece_concat (c : Char) :
    lastPiece p (text ++ [c]) = if p c then [] else lastPiece p text ++ [c] := by
  unfold lastPiece
  rw [List.reverse_append, List.reverse_singleton, List.singleton_append, List.takeWhile_cons]
  cases p c with
  | true => rfl
  | false => exact List.reverse_cons

theorem lastPiece_append {more : List Char} (h : ∀ c ∈ more, p c = false) :
    lastPiece p (text ++ more) = lastPiece p text ++ more := by
  unfold lastPiece
  rw [List.reverse_append, List.takeWhile_append_of_pos, List.reverse_append, List.reverse_reverse]
  intro c hc
  rw [h c (List.mem_reverse.mp hc)]
  rfl

/-- The first piece of a text goes up to the first separator. -/
theorem splitWhere_eq_cons :
    ∃ pieces, splitWhere p text = (text.takeWhile fun c => !p c) :: pieces := by
  induction text with
  | nil => exact ⟨[], rfl⟩
  | cons c text ih =>
    obtain ⟨pieces, hpieces⟩ := ih
    by_cases hc : p c = true
    · refine ⟨splitWhere p text, ?_⟩
      rw [splitWhere, if_pos hc, List.takeWhile_cons_of_neg (by rw [hc]; exact Bool.false_ne_true)]
    · refine ⟨pieces, ?_⟩
      rw [splitWhere, if_neg hc, hpieces,
        List.takeWhile_cons_of_pos (by rw [Bool.eq_false_iff.mpr hc]; rfl)]

/-- The pieces of a text from a place on: only the first of them reaches back before the place. -/
theorem drop_splitWhere {rest piece : List Char} {pieces : List (List Char)}
    (h : splitWhere p rest = piece :: pieces) :
    (splitWhere p (text ++ rest)).drop (text.countP p) = (lastPiece p text ++ piece) :: pieces := by
  induction text using List.reverseRecOn generalizing rest piece pieces with
  | nil => exact h
  | append_singleton text c ih =>
    rw [List.append_assoc, List.singleton_append, List.countP_append, List.countP_singleton,
      lastPiece_concat]
    by_cases hc : p c = true
    · -- the separator ends a piece, and the next one starts behind it
      have hsplit : splitWhere p (c :: rest) = [] :: piece :: pieces := by
        rw [splitWhere, if_pos hc, h]
      rw [if_pos hc, if_pos hc, ← List.drop_drop, ih hsplit]
      rfl
    · have hsplit : splitWhere p (c :: rest) = (c :: piece) :: pieces := by
        rw [splitWhere, if_neg hc, h]
      rw [if_neg hc, if_neg hc, Nat.add_zero, ih hsplit, List.append_assoc]
      rfl

/-- The piece that a place is in, as many separators behind the start as stand before the place. -/
theorem getElem?_splitWhere (rest : List Char) :
    (splitWhere p (text ++ rest))[text.countP p]?
      = some (lastPiece p text ++ rest.takeWhile fun c => !p c) := by
  obtain ⟨pieces, hpieces⟩ := splitWhere_eq_cons p rest
  rw [← List.head?_drop, drop_splitWhere p text hpieces]
  rfl

end

end MicroLang.Text

namespace MicroLang.Source.Position

open MicroLang.Text

/-! ## Lines and columns -/

/-- Whether a character ends a line of a source text. -/
def endsLine (c : Char) : Bool :=
  c == '\n'

theorem after_append (pos : Position) (text more : List Char) :
    pos.after (text ++ more) = (pos.after text).after more :=
  List.foldl_append

/-- What is counted while a text is passed. -/
theorem after_eq (text : List Char) :
    after {} text
      = ⟨text.length, text.countP endsLine + 1, (lastPiece endsLine text).length + 1⟩ := by
  induction text using List.reverseRecOn with
  | nil => rfl
  | append_singleton text c ih =>
    rw [after_append, ih, lastPiece_concat, List.countP_append, List.countP_singleton,
      List.length_append]
    show next _ c = _
    unfold next
    by_cases hc : c = '\n'
    · have hends : endsLine c = true := beq_iff_eq.mpr hc
      rw [if_pos hc, if_pos hends, if_pos hends]
      rfl
    · have hends : ¬ endsLine c = true := fun h => hc (beq_iff_eq.mp h)
      rw [if_neg hc, if_neg hends, if_neg hends, List.length_append]
      rfl

/-- Going on from a place, another line or another column is reached. -/
theorem eq_nil_of_after_append {text more : List Char}
    (hline : (after {} (text ++ more)).line = (after {} text).line)
    (hcol : (after {} (text ++ more)).col = (after {} text).col) : more = [] := by
  rw [after_eq, after_eq] at hline hcol
  dsimp only at hline hcol
  rw [List.countP_append] at hline
  have hnone : ∀ c ∈ more, endsLine c = false := by
    intro c hc
    have hzero : more.countP endsLine = 0 := by omega
    exact Bool.eq_false_iff.mpr (List.countP_eq_zero.mp hzero c hc)
  rw [lastPiece_append _ _ hnone, List.length_append] at hcol
  exact List.length_eq_zero_iff.mp (by omega)

/-- A line and a column determine a place of a text. -/
theorem prefix_unique {text text' rest rest' : List Char} (h : text ++ rest = text' ++ rest')
    (hline : (after {} text).line = (after {} text').line)
    (hcol : (after {} text).col = (after {} text').col) : text = text' := by
  rcases List.append_eq_append_iff.mp h with ⟨more, rfl, _⟩ | ⟨more, rfl, _⟩
  · rw [eq_nil_of_after_append hline.symm hcol.symm, List.append_nil]
  · rw [eq_nil_of_after_append hline hcol, List.append_nil]

end MicroLang.Source.Position
