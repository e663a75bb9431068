import Mathlib.Data.List.Basic
import Mathlib.Data.List.TakeWhile
import MicroLang.Text.Blank
import MicroLang.Text.Lines

/-!
# Cutting texts and putting them together

`splitWhere` cuts a text at the characters of a class. Everything here follows from three equations:
a text without a separator is one piece (`splitWhere_eq_singleton`), the pieces of a text with a
separator are those of what stands before it, followed by those of the rest (`splitWhere_append`),
and the pieces together are the text without its separators (`flatten_splitWhere`).

The main statement is that the lines of a text that was put together from lines are those lines:

> `splitLines_unlines`: `splitLines (unlines lines)` is `lines`, if none of them holds a line break.
-/

namespace MicroLang.Text

/-- What holds of all characters of a text is checked along the text, and not for each character
that there is. -/
instance (priority := 2000) decidableForallMem (p : Char → Prop) [DecidablePred p]
    (cs : List Char) : Decidable (∀ c ∈ cs, p c) :=
  List.decidableBAll p cs

instance (priority := 2000) decidableForallMemOption (p : Char → Prop) [DecidablePred p]
    (found : Option Char) : Decidable (∀ c ∈ found, p c) :=
  Option.decidableForallMem found

/-- A text starts with a longest run of characters of a class. -/
theorem exists_run (p : Char → Bool) (cs : List Char) :
    ∃ run rest, cs = run ++ rest ∧ (∀ c ∈ run, p c = true) ∧ (∀ c ∈ rest.head?, p c = false)
      ∧ run = cs.takeWhile p ∧ rest = cs.dropWhile p := by
  refine ⟨_, _, List.takeWhile_append_dropWhile.symm, ?_, ?_, rfl, rfl⟩
  · exact List.all_eq_true.mp List.all_takeWhile
  · intro c hc
    have hstop := List.head?_dropWhile_not p cs
    rw [hc] at hstop
    exact hstop

/-! ## Pieces -/

/-- A text without a separator is one piece. -/
theorem splitWhere_eq_singleton {p : Char → Bool} :
    ∀ {cs : List Char}, (∀ c ∈ cs, p c = false) → splitWhere p cs = [cs]
  | [], _ => rfl
  | c :: cs, h => by
    unfold splitWhere
    rw [h c List.mem_cons_self,
      splitWhere_eq_singleton fun d hd => h d (List.mem_cons_of_mem _ hd)]
    rfl

/-- There is at least one piece. -/
theorem splitWhere_ne_nil (p : Char → Bool) (cs : List Char) : splitWhere p cs ≠ [] := by
  cases cs with
  | nil => exact List.cons_ne_nil _ _
  | cons c cs =>
    rw [splitWhere]
    split
    · exact List.cons_ne_nil _ _
    · split
      · exact List.cons_ne_nil _ _
      · exact List.cons_ne_nil _ _

/-- A separator ends a piece. -/
theorem splitWhere_append {p : Char → Bool} {sep : Char} (hsep : p sep = true) (rest : List Char) :
    ∀ cs : List Char, splitWhere p (cs ++ sep :: rest) = splitWhere p cs ++ splitWhere p rest
  | [] => by
    simp only [List.nil_append, splitWhere, hsep, if_true, List.singleton_append]
  | c :: cs => by
    rw [List.cons_append, splitWhere, splitWhere, splitWhere_append hsep rest cs]
    obtain ⟨piece, pieces, hpieces⟩ := List.exists_cons_of_ne_nil (splitWhere_ne_nil p cs)
    rw [hpieces]
    split
    · rfl
    · rfl

/-- The piece in front of the first separator. -/
theorem splitWhere_append_cons {p : Char → Bool} {sep : Char} (hsep : p sep = true)
    (rest : List Char) {cs : List Char} (h : ∀ c ∈ cs, p c = false) :
    splitWhere p (cs ++ sep :: rest) = cs :: splitWhere p rest := by
  rw [splitWhere_append hsep, splitWhere_eq_singleton h, List.singleton_append]

/-- Characters that are no separators extend the last piece. -/
theorem exists_splitWhere_back {p : Char → Bool} {back : List Char}
    (hback : ∀ c ∈ back, p c = false) (cs : List Char) :
    ∃ front last, splitWhere p cs = front ++ [last]
      ∧ splitWhere p (cs ++ back) = front ++ [last ++ back] := by
  induction cs with
  | nil => exact ⟨[], [], rfl, splitWhere_eq_singleton hback⟩
  | cons c cs ih =>
    obtain ⟨front, last, hcs, hboth⟩ := ih
    rw [List.cons_append, splitWhere, splitWhere, hcs, hboth]
    by_cases hc : p c = true
    · rw [if_pos hc, if_pos hc]
      exact ⟨[] :: front, last, rfl, rfl⟩
    · rw [if_neg hc, if_neg hc]
      cases front with
      | nil => exact ⟨[], c :: last, rfl, rfl⟩
      | cons piece front => exact ⟨(c :: piece) :: front, last, rfl, rfl⟩

/-- The pieces hold the characters that are no separators, in their order. -/
theorem flatten_splitWhere (p : Char → Bool) (cs : List Char) :
    (splitWhere p cs).flatten = cs.filter fun c => !p c := by
  induction cs with
  | nil => rfl
  | cons c cs ih =>
    rw [splitWhere]
    by_cases hc : p c = true
    · rw [if_pos hc, List.filter_cons_of_neg (by simp [hc]), ← ih]
      rfl
    · rw [if_neg hc, List.filter_cons_of_pos (by simp [hc]), ← ih]
      split
      · rename_i hnil
        exact absurd hnil (splitWhere_ne_nil p cs)
      · rename_i hsplit
        rw [hsplit]
        rfl

/-- A character of a piece is one of the text, and no separator. -/
theorem mem_of_mem_splitWhere {p : Char → Bool} {cs piece : List Char} (h : piece ∈ splitWhere p cs)
    {c : Char} (hc : c ∈ piece) : c ∈ cs ∧ p c = false := by
  have hmem : c ∈ (splitWhere p cs).flatten := List.mem_flatten_of_mem h hc
  rw [flatten_splitWhere, List.mem_filter, Bool.not_eq_true'] at hmem
  exact hmem

/-- Pieces with one separator between them are cut apart again. -/
theorem splitWhere_intercalate {p : Char → Bool} {sep : Char} (hsep : p sep = true) :
    ∀ {pieces : List (List Char)}, pieces ≠ [] → (∀ piece ∈ pieces, ∀ c ∈ piece, p c = false) →
      splitWhere p ([sep].intercalate pieces) = pieces
  | [], hne, _ => absurd rfl hne
  | [piece], _, h => by
    rw [List.intercalate_singleton]
    exact splitWhere_eq_singleton (h piece List.mem_cons_self)
  | piece :: next :: pieces, _, h => by
    rw [List.intercalate_cons_cons, List.append_assoc, List.singleton_append,
      splitWhere_append_cons hsep _ (h piece List.mem_cons_self),
      splitWhere_intercalate hsep (List.cons_ne_nil _ _)
        fun q hq => h q (List.mem_cons_of_mem _ hq)]

/-- What was cut apart at one character is put together with it again. -/
theorem intercalate_splitWhere (sep : Char) (cs : List Char) :
    [sep].intercalate (splitWhere (· == sep) cs) = cs := by
  induction cs with
  | nil => rfl
  | cons c cs ih =>
    obtain ⟨piece, pieces, hpieces⟩ := List.exists_cons_of_ne_nil (splitWhere_ne_nil (· == sep) cs)
    rw [hpieces] at ih
    rw [splitWhere, hpieces]
    split
    · rename_i hsep
      rw [List.intercalate_cons_cons, ih, beq_iff_eq.mp hsep]
      rfl
    · cases pieces with
      | nil => simpa [List.intercalate_singleton] using ih
      | cons next pieces =>
        rw [List.intercalate_cons_cons] at ih ⊢
        rw [List.cons_append, List.cons_append, ih]

/-- A separator in front of a text starts no field. -/
theorem fieldsWhere_cons {p : Char → Bool} {sep : Char} (hsep : p sep = true) (rest : List Char) :
    fieldsWhere p (sep :: rest) = fieldsWhere p rest := by
  unfold fieldsWhere
  rw [splitWhere, if_pos hsep]
  rfl

/-- The field in front of the first separator. -/
theorem fieldsWhere_append_cons {p : Char → Bool} {sep : Char} {cs : List Char}
    (hsep : p sep = true) (rest : List Char) (hne : cs ≠ []) (hcs : ∀ c ∈ cs, p c = false) :
    fieldsWhere p (cs ++ sep :: rest) = cs :: fieldsWhere p rest := by
  unfold fieldsWhere
  rw [splitWhere_append_cons hsep rest hcs, List.filter_cons_of_pos (by simpa using hne)]

/-- A text without a separator is one field. -/
theorem fieldsWhere_eq_singleton {p : Char → Bool} {cs : List Char} (hne : cs ≠ [])
    (hcs : ∀ c ∈ cs, p c = false) : fieldsWhere p cs = [cs] := by
  unfold fieldsWhere
  rw [splitWhere_eq_singleton hcs, List.filter_cons_of_pos (by simpa using hne)]
  rfl

/-- A separator ends a field. -/
theorem fieldsWhere_append_sep {p : Char → Bool} {sep : Char} (hsep : p sep = true)
    (cs rest : List Char) :
    fieldsWhere p (cs ++ sep :: rest) = fieldsWhere p cs ++ fieldsWhere p rest := by
  unfold fieldsWhere
  rw [splitWhere_append hsep, List.filter_append]

/-- Separators in front of a text are in no field. -/
theorem fieldsWhere_front {p : Char → Bool} {front : List Char} (hfront : ∀ c ∈ front, p c = true)
    (rest : List Char) : fieldsWhere p (front ++ rest) = fieldsWhere p rest := by
  induction front with
  | nil => rfl
  | cons sep front ih =>
    obtain ⟨hsep, hfront⟩ := List.forall_mem_cons.mp hfront
    rw [List.cons_append, fieldsWhere_cons hsep, ih hfront]

/-- Separators alone are no fields. -/
theorem fieldsWhere_eq_nil {p : Char → Bool} {cs : List Char} (hcs : ∀ c ∈ cs, p c = true) :
    fieldsWhere p cs = [] := by
  have hempty := fieldsWhere_front hcs []
  rw [List.append_nil] at hempty
  exact hempty

/-- Separators behind a text are in no field. -/
theorem fieldsWhere_back {p : Char → Bool} {back : List Char} (hback : ∀ c ∈ back, p c = true)
    (cs : List Char) : fieldsWhere p (cs ++ back) = fieldsWhere p cs := by
  cases back with
  | nil => rw [List.append_nil]
  | cons sep back =>
    obtain ⟨hsep, hback⟩ := List.forall_mem_cons.mp hback
    rw [fieldsWhere_append_sep hsep, fieldsWhere_eq_nil hback, List.append_nil]

/-- A field ends where a separator or nothing follows. -/
theorem fieldsWhere_append {p : Char → Bool} {cs rest : List Char} (hne : cs ≠ [])
    (hcs : ∀ c ∈ cs, p c = false) (hrest : ∀ c ∈ rest.head?, p c = true) :
    fieldsWhere p (cs ++ rest) = cs :: fieldsWhere p rest := by
  cases rest with
  | nil =>
    rw [List.append_nil]
    exact fieldsWhere_eq_singleton hne hcs
  | cons sep rest =>
    have hsep := hrest sep rfl
    rw [fieldsWhere_append_cons hsep rest hne hcs, fieldsWhere_cons hsep]

/-- Fields with two separators between them are read back. -/
theorem fieldsWhere_intercalate {p : Char → Bool} {first second : Char} (hfirst : p first = true)
    (hsecond : p second = true) :
    ∀ {fields : List (List Char)},
      (∀ field ∈ fields, field ≠ [] ∧ ∀ c ∈ field, p c = false) →
      fieldsWhere p ([first, second].intercalate fields) = fields
  | [], _ => rfl
  | [field], h => by
    rw [List.intercalate_singleton]
    exact fieldsWhere_eq_singleton (h field (by simp)).1 (h field (by simp)).2
  | field :: next :: fields, h => by
    have hfield := h field (by simp)
    rw [List.intercalate_cons_cons]
    show fieldsWhere p ((field ++ [first, second]) ++ _) = _
    rw [List.append_assoc, List.cons_append, fieldsWhere_append_cons hfirst _ hfield.1 hfield.2,
      List.cons_append, fieldsWhere_cons hsecond, List.nil_append,
      fieldsWhere_intercalate hfirst hsecond fun f hf => h f (List.mem_cons_of_mem _ hf)]

/-! ## Blanks at the ends -/

/-- Nothing is trimmed at an end that is not of the class. -/
theorem trimRight_concat {p : Char → Bool} (cs : List Char) {last : Char} (hlast : p last = false) :
    trimRight p (cs ++ [last]) = cs ++ [last] := by
  unfold trimRight
  rw [List.reverse_append, List.reverse_singleton, List.singleton_append,
    List.dropWhile_cons_of_neg (by simp [hlast]), List.reverse_cons, List.reverse_reverse]

/-- Nothing is trimmed before the last character that is not of the class. -/
theorem trimRight_append {p : Char → Bool} {cs : List Char} {last : Char}
    (hlast : cs.getLast? = some last) (hp : p last = false) (rest : List Char) :
    trimRight p (cs ++ rest) = cs ++ trimRight p rest := by
  obtain ⟨front, rfl⟩ := List.getLast?_eq_some_iff.mp hlast
  have hkeep : (last :: front.reverse).dropWhile p = last :: front.reverse :=
    List.dropWhile_cons_of_neg (by simp [hp])
  unfold trimRight
  rw [List.reverse_append, List.dropWhile_append, List.reverse_append, List.reverse_singleton,
    List.singleton_append, hkeep]
  split
  · rename_i hnil
    rw [List.isEmpty_iff.mp hnil]
    simp
  · simp

/-- Trimming adds no character. -/
theorem mem_of_mem_trim {p : Char → Bool} {c : Char} {cs : List Char} (h : c ∈ trim p cs) :
    c ∈ cs := by
  unfold trim trimRight at h
  have hkept := (List.dropWhile_suffix p).subset (List.mem_reverse.mp h)
  exact (List.dropWhile_suffix p).subset (List.mem_reverse.mp hkept)

/-- A text with nothing of the class at its two ends is what is left when such characters are put in
front of it. -/
theorem trim_append {p : Char → Bool} {front cs : List Char} (hfront : ∀ c ∈ front, p c = true)
    (hhead : ∀ c ∈ cs.head?, p c = false) (hlast : ∀ c ∈ cs.getLast?, p c = false) :
    trim p (front ++ cs) = cs := by
  have hdrop : (front ++ cs).dropWhile p = cs := by
    rw [List.dropWhile_append_of_pos hfront]
    cases cs with
    | nil => rfl
    | cons c cs => exact List.dropWhile_cons_of_neg (by simp [hhead c rfl])
  unfold trim
  rw [hdrop]
  rcases List.eq_nil_or_concat cs with hnil | ⟨init, last, hconcat⟩
  · rw [hnil]
    rfl
  · rw [List.concat_eq_append] at hconcat
    subst hconcat
    exact trimRight_concat init (hlast last (by simp))

/-- Characters of the class in front of a text are trimmed. -/
theorem trim_front {p : Char → Bool} {front : List Char} (hfront : ∀ c ∈ front, p c = true)
    (cs : List Char) : trim p (front ++ cs) = trim p cs := by
  unfold trim
  rw [List.dropWhile_append_of_pos hfront]

/-- Characters of the class behind a text are trimmed. -/
theorem trimRight_back {p : Char → Bool} {back : List Char} (hback : ∀ c ∈ back, p c = true)
    (cs : List Char) : trimRight p (cs ++ back) = trimRight p cs := by
  have hreverse : ∀ c ∈ back.reverse, p c = true := fun c hc => hback c (List.mem_reverse.mp hc)
  unfold trimRight
  rw [List.reverse_append, List.dropWhile_append_of_pos hreverse]

theorem trim_back {p : Char → Bool} {back : List Char} (hback : ∀ c ∈ back, p c = true)
    (cs : List Char) : trim p (cs ++ back) = trim p cs := by
  unfold trim
  rw [List.dropWhile_append]
  split
  · rename_i hempty
    rw [List.isEmpty_iff.mp hempty, List.dropWhile_eq_nil_iff.mpr hback]
  · exact trimRight_back hback _

/-- What is trimmed at the end, and what is left. -/
theorem exists_trimRight_append (p : Char → Bool) (cs : List Char) :
    ∃ back, (∀ c ∈ back, p c = true) ∧ cs = trimRight p cs ++ back := by
  obtain ⟨run, rest, hcs, hrun, _, _, hrest⟩ := exists_run p cs.reverse
  refine ⟨run.reverse, fun c hc => hrun c (List.mem_reverse.mp hc), ?_⟩
  unfold trimRight
  rw [← hrest, ← List.reverse_append, ← hcs, List.reverse_reverse]

/-! ## Lines -/

/-- A text without line breaks. -/
def Unbroken (text : List Char) : Prop :=
  ∀ c ∈ text, isLineBreak c = false

instance (text : List Char) : Decidable (Unbroken text) :=
  inferInstanceAs (Decidable (∀ c ∈ text, isLineBreak c = false))

/-- A line break is blank. -/
theorem isBlank_of_isLineBreak {c : Char} (h : isLineBreak c = true) : isBlank c = true := by
  simp only [isLineBreak, Bool.or_eq_true, Bool.and_eq_true, decide_eq_true_eq, beq_iff_eq] at h
  simp only [isBlank, isWhiteSpace, Bool.or_eq_true, Bool.and_eq_true, decide_eq_true_eq,
    beq_iff_eq]
  omega

/-- Without a carriage return there is no pair to join. -/
theorem joinCrLf_eq_self {cs : List Char} (h : '\r' ∉ cs) : joinCrLf cs = cs := by
  fun_induction joinCrLf cs with
  | case1 cs ih => exact absurd List.mem_cons_self h
  | case2 c cs hpair ih => rw [ih fun hmem => h (List.mem_cons_of_mem _ hmem)]
  | case3 => rfl

/-- The pieces of a text that was put together from lines: the lines, and nothing after the last
line feed. -/
theorem splitWhere_flatMap_lines :
    ∀ {lines : List (List Char)}, (∀ line ∈ lines, ∀ c ∈ line, isLineBreak c = false) →
      splitWhere isLineBreak (lines.flatMap fun line => line ++ ['\n']) = lines ++ [[]]
  | [], _ => rfl
  | line :: lines, h => by
    have hline := h line List.mem_cons_self
    have hlines : ∀ l ∈ lines, ∀ c ∈ l, isLineBreak c = false :=
      fun l hl => h l (List.mem_cons_of_mem _ hl)
    rw [List.flatMap_cons, List.append_assoc, List.singleton_append,
      splitWhere_append_cons (by decide) _ hline, splitWhere_flatMap_lines hlines,
      List.cons_append]

theorem unlines_cons (line : String) (lines : List String) :
    unlines (line :: lines) = line ++ "\n" ++ unlines lines := by
  rw [← String.toList_inj]
  simp [unlines]

theorem unlines_append (lines lines' : List String) :
    unlines (lines ++ lines') = unlines lines ++ unlines lines' := by
  unfold unlines
  rw [List.flatMap_append, String.ofList_append]

/-- The lines of a text that was put together from lines without line breaks are those lines. -/
theorem splitLines_unlines {lines : List String}
    (h : ∀ line ∈ lines, ∀ c ∈ line.toList, isLineBreak c = false) :
    splitLines (unlines lines).toList = lines.map String.toList := by
  have hchars : (unlines lines).toList
      = (lines.map String.toList).flatMap fun line => line ++ ['\n'] := by
    rw [unlines, String.toList_ofList, List.flatMap_map]
  have hlines : ∀ line ∈ lines.map String.toList, ∀ c ∈ line, isLineBreak c = false := by
    intro line hline
    obtain ⟨text, htext, rfl⟩ := List.mem_map.mp hline
    exact h text htext
  have hreturn : '\r' ∉ (lines.map String.toList).flatMap fun line => line ++ ['\n'] := by
    intro hmem
    obtain ⟨line, hline, hchar⟩ := List.mem_flatMap.mp hmem
    rcases List.mem_append.mp hchar with hin | hfeed
    · exact absurd (hlines line hline _ hin) (by decide)
    · exact absurd hfeed (by decide)
  unfold splitLines
  rw [hchars, joinCrLf_eq_self hreturn, splitWhere_flatMap_lines hlines]
  simp

/-- What is left of a line holds no number sign. -/
theorem not_mem_beforeComment (line : List Char) : '#' ∉ beforeComment line := by
  intro h
  have hkept := List.all_takeWhile (p := (· != '#')) (l := line)
  exact absurd (List.all_eq_true.mp hkept '#' h) (by decide)

/-- Blanks start no comment. -/
theorem not_mem_of_isBlank {cs : List Char} (h : ∀ c ∈ cs, isBlank c = true) : '#' ∉ cs :=
  fun hmem => absurd (h _ hmem) (by decide)

/-- A comment starts at the first number sign. -/
theorem beforeComment_append {front : List Char} (h : '#' ∉ front) (back : List Char) :
    beforeComment (front ++ back) = front ++ beforeComment back := by
  refine List.takeWhile_append_of_pos fun c hc => bne_iff_ne.mpr ?_
  rintro rfl
  exact h hc

/-- A line without a number sign has no comment. -/
theorem beforeComment_eq_self {line : List Char} (h : '#' ∉ line) : beforeComment line = line := by
  unfold beforeComment
  rw [List.takeWhile_eq_self_iff]
  intro c hc
  simp only [bne_iff_ne, ne_eq]
  intro he
  exact h (he ▸ hc)

end MicroLang.Text
