import MicroLang.Proofs.Reformatting
import MicroLang.Proofs.Spellings

/-!
# Lists of data words

A data word is written as an integer or as a character between quotes, and `readWord` reads both.
But a line of words is cut at its comment and at its commas before any word is read, and quotes do
not keep a number sign or a comma from that:

> `ofListing_words`: the words of a data section, with commas between them and in any number of
> lines, are stored one after the other with their values; the section has no image exactly if one
> of the words is a comma or a number sign between quotes, or a decimal with too many digits.
-/

namespace MicroLang.Assembly

open MicroLang.Sequencing
open MicroLang.Text

/-! ## Words as they are written -/

/-- A data word: an integer, or a character between quotes. -/
inductive WordText where
  | integer (s : Numeral.Spelling)
  | character (c : Char) (hc : isLineBreak c = false)

namespace WordText

/-- The text of a word. -/
def text : WordText → List Char
  | integer s => s.text
  | character c _ => ['\'', c, '\'']

/-- The integer, or the code of the character. -/
def value : WordText → Int
  | integer s => s.value
  | character c _ => c.toNat

/-- The word is not cut apart, and not too long. -/
def Whole : WordText → Prop
  | integer s => s.Short
  | character c _ => c ≠ ',' ∧ c ≠ '#'

instance : DecidablePred Whole
  | integer s => inferInstanceAs (Decidable s.Short)
  | character .. => inferInstanceAs (Decidable (_ ∧ _))

/-- A character between quotes is a word, whatever it is. -/
theorem readWord_character (c : Char) : readWord (String.ofList ['\'', c, '\'']) = .ok c.toNat := by
  unfold readWord
  rw [String.toList_ofList]
  rfl

/-- An integer is no character between quotes. -/
theorem readWord_integer (s : Numeral.Spelling) :
    readWord (String.ofList s.text)
      = if s.Short then .ok s.value
        else .error (.badInteger (.tooLong s.magnitude.decimals)) := by
  have hquote : unquoted? (String.ofList s.text).toList = none := by
    rw [String.toList_ofList]
    unfold unquoted?
    split
    · next heq =>
      have hchar := s.isNumeralChar '\'' (by rw [heq]; exact List.mem_cons_self)
      exact absurd rfl (hchar.ne (by decide))
    · rfl
  unfold readWord
  rw [hquote]
  show readInteger _ = _
  unfold readInteger
  rw [Numeral.read_spelling]
  by_cases hshort : s.Short
  · rw [if_pos hshort, if_pos hshort]
  · rw [if_neg hshort, if_neg hshort]

theorem readWord_of_whole {w : WordText} (h : w.Whole) :
    readWord (String.ofList w.text) = .ok w.value := by
  cases w with
  | integer s =>
    show readWord (String.ofList s.text) = _
    rw [readWord_integer, if_pos (show s.Short from h)]
    rfl
  | character c => exact readWord_character c

end WordText

/-! ## What is left of the words of a line -/

namespace WordText

/-- The word holds nothing that its line is cut at. -/
def Intact : WordText → Prop
  | integer _ => True
  | character c _ => c ≠ ',' ∧ c ≠ '#'

theorem Whole.intact {w : WordText} (h : w.Whole) : w.Intact := by
  cases w with
  | integer s => trivial
  | character c => exact h

/-- An intact word that can be read is whole. -/
theorem whole_of_readWord {w : WordText} {v : Int} (h : w.Intact)
    (hread : readWord (String.ofList w.text) = .ok v) : w.Whole := by
  cases w with
  | integer s =>
    rw [show (integer s).text = s.text from rfl, readWord_integer] at hread
    by_contra hlong
    rw [if_neg (show ¬s.Short from hlong)] at hread
    cases hread
  | character c => exact h

/-- The characters of an intact word. -/
theorem Intact.chars {w : WordText} (h : w.Intact) : ∀ c ∈ w.text, c ≠ ',' ∧ c ≠ '#' := by
  intro c hc
  cases w with
  | integer s =>
    have hchar := s.isNumeralChar c hc
    exact ⟨hchar.ne (by decide), hchar.ne (by decide)⟩
  | character d =>
    have hquote : '\'' ≠ ',' ∧ '\'' ≠ '#' := by decide
    rcases List.mem_cons.mp hc with rfl | hc
    · exact hquote
    rcases List.mem_cons.mp hc with rfl | hc
    · exact h
    · rw [List.mem_singleton.mp hc]
      exact hquote

theorem unbroken (w : WordText) : Unbroken w.text := by
  cases w with
  | integer s =>
    intro c hc
    exact isLineBreak_of_not_isBlank (s.isNumeralChar c hc).not_isBlank
  | character c hc =>
    have hquote : isLineBreak '\'' = false := by decide
    exact List.forall_mem_cons.mpr ⟨hquote, List.forall_mem_cons.mpr ⟨hc,
      List.forall_mem_singleton.mpr hquote⟩⟩

/-- A word that is not intact is a comma or a number sign between quotes. -/
theorem eq_of_not_intact {w : WordText} (h : ¬w.Intact) :
    w.text = ['\'', ',', '\''] ∨ w.text = ['\'', '#', '\''] := by
  cases w with
  | integer s => exact absurd trivial h
  | character c =>
    by_cases hcomma : c = ','
    · left
      rw [← hcomma]
      rfl
    · right
      have hsharp : c = '#' := Classical.not_not.mp fun hsharp => h ⟨hcomma, hsharp⟩
      rw [← hsharp]
      rfl

/-- A word neither starts nor ends with a blank, and does not end with a colon. -/
theorem exists_ends (w : WordText) : ∃ init last, w.text = init ++ [last] ∧ last ≠ ':'
    ∧ isBlank last = false ∧ ∀ c ∈ w.text.head?, isBlank c = false := by
  cases w with
  | integer s =>
    have hne := s.text_ne_nil
    have hlast := s.isNumeralChar _ (List.getLast_mem hne)
    exact ⟨s.text.dropLast, s.text.getLast hne, (List.dropLast_concat_getLast hne).symm,
      hlast.ne (by decide), hlast.not_isBlank,
      fun c hc => (s.isNumeralChar c (List.mem_of_mem_head? hc)).not_isBlank⟩
  | character c =>
    refine ⟨['\'', c], '\'', rfl, by decide, by decide, ?_⟩
    intro d hd
    cases hd
    decide

end WordText

/-- Blanks hold nothing that a line is cut at. -/
theorem Spacing.chars {spacing : List Char} (h : Spacing spacing) :
    ∀ c ∈ spacing, c ≠ ',' ∧ c ≠ '#' := by
  intro c hc
  have hblank := (h c hc).1
  refine ⟨?_, ?_⟩
  · rintro rfl
    exact absurd hblank (by decide)
  · rintro rfl
    exact absurd hblank (by decide)

/-- A word with blanks around it. -/
structure PaddedWord where
  before : List Char
  word : WordText
  behind : List Char
  before_spacing : Spacing before
  behind_spacing : Spacing behind

namespace PaddedWord

/-- The text of a word and of the blanks around it. -/
def text (p : PaddedWord) : List Char :=
  p.before ++ (p.word.text ++ p.behind)

theorem unbroken (p : PaddedWord) : Unbroken p.text :=
  List.forall_mem_append.mpr ⟨fun c hc => (p.before_spacing c hc).2,
    List.forall_mem_append.mpr ⟨p.word.unbroken, fun c hc => (p.behind_spacing c hc).2⟩⟩

/-- The words of a line, as they are cut out of it. -/
def items (ps : List PaddedWord) : List String :=
  (splitWhere (· == ',') (beforeComment ([','].intercalate (ps.map text)))).map fun item =>
    String.ofList (trim isBlank item)

theorem trim_text (p : PaddedWord) : trim isBlank p.text = p.word.text := by
  obtain ⟨init, last, hword, _, hlast, hhead⟩ := p.word.exists_ends
  unfold text
  rw [← List.append_assoc, trim_back fun c hc => (p.behind_spacing c hc).1]
  refine trim_append (fun c hc => (p.before_spacing c hc).1) hhead ?_
  intro c hc
  rw [hword, List.getLast?_concat, Option.mem_some_iff] at hc
  rw [← hc]
  exact hlast

/-- The characters of an intact word and of the blanks around it. -/
theorem chars {p : PaddedWord} (h : p.word.Intact) : ∀ c ∈ p.text, c ≠ ',' ∧ c ≠ '#' :=
  List.forall_mem_append.mpr ⟨p.before_spacing.chars,
    List.forall_mem_append.mpr ⟨h.chars, p.behind_spacing.chars⟩⟩

variable {p next : PaddedWord} {ps more : List PaddedWord}

theorem items_singleton (h : p.word.Intact) : items [p] = [String.ofList p.word.text] := by
  unfold items
  rw [List.map_singleton, List.intercalate_singleton,
    beforeComment_eq_self fun hmem => (chars h _ hmem).2 rfl,
    splitWhere_eq_singleton fun c hc => beq_false_of_ne (chars h c hc).1, List.map_singleton,
    trim_text]

/-- An intact word is an item of its own. -/
theorem items_cons (h : p.word.Intact) :
    items (p :: next :: more) = String.ofList p.word.text :: items (next :: more) := by
  unfold items
  rw [List.map_cons, List.map_cons, List.intercalate_cons_cons, List.append_assoc,
    beforeComment_append fun hmem => (chars h _ hmem).2 rfl, List.singleton_append]
  show List.map _ (splitWhere _ (p.text ++ ',' :: beforeComment _)) = _
  rw [splitWhere_append_cons (by decide) _ fun c hc => beq_false_of_ne (chars h c hc).1,
    List.map_cons, trim_text]

/-- The texts of words with commas between them start with the first one. -/
theorem exists_rest (p : PaddedWord) (more : List PaddedWord) :
    ∃ rest, [','].intercalate ((p :: more).map text) = p.text ++ rest
      ∧ (more = [] ∧ rest = [] ∨ more ≠ [] ∧ rest = ',' :: [','].intercalate (more.map text)) := by
  cases more with
  | nil =>
    refine ⟨[], ?_, .inl ⟨rfl, rfl⟩⟩
    rw [List.map_singleton, List.intercalate_singleton, List.append_nil]
  | cons next more =>
    refine ⟨_, ?_, .inr ⟨List.cons_ne_nil next more, rfl⟩⟩
    rw [List.map_cons, List.map_cons, List.intercalate_cons_cons, List.append_assoc]
    rfl

/-- The text of a character, up to its first quote, and what follows. -/
theorem text_append {c : Char} (hword : p.word.text = ['\'', c, '\'']) (rest : List Char) :
    p.text ++ rest = (p.before ++ ['\'']) ++ c :: '\'' :: (p.behind ++ rest) := by
  unfold text
  rw [hword]
  simp

/-- Of a word that is not intact, the first quote is left as an item. -/
theorem quote_mem_items (h : ¬p.word.Intact) : String.ofList ['\''] ∈ items (p :: more) := by
  have hfront : ∀ c ∈ p.before ++ ['\''], c ≠ ',' ∧ c ≠ '#' :=
    List.forall_mem_append.mpr ⟨p.before_spacing.chars, by decide⟩
  have hsharp : '#' ∉ p.before ++ ['\''] := fun hmem => (hfront _ hmem).2 rfl
  have hcomma : ∀ c ∈ p.before ++ ['\''], (c == ',') = false :=
    fun c hc => beq_false_of_ne (hfront c hc).1
  have htrim : trim isBlank (p.before ++ ['\'']) = ['\''] :=
    trim_append (fun c hc => (p.before_spacing c hc).1) (by decide) (by decide)
  obtain ⟨rest, hrest, _⟩ := exists_rest p more
  unfold items
  rw [hrest]
  rcases WordText.eq_of_not_intact h with hword | hword
  · rw [text_append hword, beforeComment_append hsharp]
    show _ ∈ List.map _ (splitWhere _ (_ ++ ',' :: beforeComment _))
    rw [splitWhere_append_cons (by decide) _ hcomma, List.map_cons, htrim]
    exact List.mem_cons_self
  · rw [text_append hword, beforeComment_append hsharp]
    show _ ∈ List.map _ (splitWhere _ (_ ++ []))
    rw [List.append_nil, splitWhere_eq_singleton hcomma, List.map_singleton, htrim]
    exact List.mem_singleton_self _

theorem quote_mem_items_of_mem (hp : p ∈ ps) (h : ¬p.word.Intact) :
    String.ofList ['\''] ∈ items ps := by
  induction ps with
  | nil => exact absurd hp List.not_mem_nil
  | cons q ps ih =>
    by_cases hq : q.word.Intact
    · rcases List.mem_cons.mp hp with rfl | hp
      · exact absurd hq h
      · obtain ⟨next, more, rfl⟩ := List.exists_cons_of_ne_nil (List.ne_nil_of_mem hp)
        rw [items_cons hq]
        exact List.mem_cons_of_mem _ (ih hp)
    · exact quote_mem_items hq

theorem items_eq (hne : ps ≠ []) (h : ∀ p ∈ ps, p.word.Intact) :
    items ps = ps.map fun p => String.ofList p.word.text := by
  induction ps with
  | nil => exact absurd rfl hne
  | cons p ps ih =>
    obtain ⟨hp, hps⟩ := List.forall_mem_cons.mp h
    cases ps with
    | nil => exact items_singleton hp
    | cons next more =>
      rw [items_cons hp, ih (List.cons_ne_nil next more) hps]
      rfl

/-- A quote alone is no word. -/
theorem readWord_quote (v : Int) : readWord (String.ofList ['\'']) ≠ .ok v := by
  intro h
  cases h

/-- All items of a line can be read if and only if its words are whole. -/
theorem readable_iff (hne : ps ≠ []) :
    (∀ item ∈ items ps, ∃ v, readWord item = .ok v) ↔ ∀ p ∈ ps, p.word.Whole := by
  constructor
  · intro h
    have hintact : ∀ p ∈ ps, p.word.Intact := by
      intro p hp
      by_contra hdamaged
      obtain ⟨v, hv⟩ := h _ (quote_mem_items_of_mem hp hdamaged)
      exact readWord_quote v hv
    intro p hp
    rw [items_eq hne hintact] at h
    obtain ⟨v, hv⟩ := h _ (List.mem_map_of_mem hp)
    exact WordText.whole_of_readWord (hintact p hp) hv
  · intro h item hitem
    rw [items_eq hne fun p hp => (h p hp).intact] at hitem
    obtain ⟨p, hp, rfl⟩ := List.mem_map.mp hitem
    exact ⟨_, WordText.readWord_of_whole (h p hp)⟩

end PaddedWord

/-! ## Lines of words -/

/-- A line that starts with the directive holds the items behind it, if it does not end as a label
would. -/
theorem read_wordLine {indent body : List Char} (hindent : ∀ c ∈ indent, isBlank c = true)
    (hcolon : (trimRight isBlank (beforeComment body)).getLast? ≠ some ':') :
    Entry.read (indent ++ (".word".toList ++ body))
      = .words ((splitWhere (· == ',') (beforeComment body)).map fun item =>
        String.ofList (trim isBlank item)) := by
  have hcut : beforeComment (indent ++ (".word".toList ++ body))
      = indent ++ (".word".toList ++ beforeComment body) := by
    rw [beforeComment_append (not_mem_of_isBlank hindent), beforeComment_append (by decide)]
  have htrim : trim isBlank (indent ++ (".word".toList ++ beforeComment body))
      = ".word".toList ++ trimRight isBlank (beforeComment body) := by
    have hlast : ".word".toList.getLast? = some 'd' := rfl
    rw [trim_front hindent]
    exact trimRight_append hlast (by decide) _
  -- blanks at the end of the last item are trimmed once more
  have hitems : (splitWhere (· == ',') (beforeComment body)).map (trim isBlank)
      = (splitWhere (· == ',') (trimRight isBlank (beforeComment body))).map (trim isBlank) := by
    obtain ⟨back, hback, hcontent⟩ := exists_trimRight_append isBlank (beforeComment body)
    have hcomma : ∀ c ∈ back, (c == ',') = false := by
      intro c hc
      refine beq_false_of_ne ?_
      rintro rfl
      exact absurd (hback _ hc) (by decide)
    obtain ⟨front, last, hpieces, hboth⟩ :=
      exists_splitWhere_back hcomma (trimRight isBlank (beforeComment body))
    rw [← hcontent] at hboth
    rw [hpieces, hboth, List.map_append, List.map_append, List.map_singleton, List.map_singleton,
      trim_back hback]
  have hstrings (pieces : List (List Char)) :
      (pieces.map fun item => String.ofList (trim isBlank item))
        = (pieces.map (trim isBlank)).map String.ofList := by
    rw [List.map_map]
    rfl
  unfold Entry.read
  rw [hcut, htrim, hstrings, hitems, ← hstrings]
  generalize trimRight isBlank (beforeComment body) = content at hcolon
  have hlabel : Entry.labelName? (".word".toList ++ content) = none := by
    unfold Entry.labelName?
    rw [if_neg]
    cases content with
    | nil => decide
    | cons c content =>
      rw [List.getLast?_append_of_ne_nil _ (List.cons_ne_nil c content)]
      exact hcolon
  unfold Entry.readContent
  rw [hlabel]
  rfl

/-- A text that ends, blanks aside, with something else than a colon. -/
def EndsInWord (text : List Char) : Prop :=
  ∃ front last back, text = front ++ last :: back ∧ (∀ c ∈ back, isBlank c = true)
    ∧ isBlank last = false ∧ last ≠ ':'

theorem EndsInWord.append {text : List Char} (h : EndsInWord text) (front : List Char) :
    EndsInWord (front ++ text) := by
  obtain ⟨init, last, back, rfl, hrest⟩ := h
  exact ⟨front ++ init, last, back, (List.append_assoc ..).symm, hrest⟩

theorem EndsInWord.getLast?_ne {text : List Char} (h : EndsInWord text) :
    (trimRight isBlank text).getLast? ≠ some ':' := by
  obtain ⟨front, last, back, rfl, hback, hblank, hcolon⟩ := h
  rw [← List.singleton_append, ← List.append_assoc, trimRight_back hback,
    trimRight_concat front hblank, List.getLast?_concat]
  exact fun he => hcolon (Option.some.inj he)

namespace PaddedWord

theorem endsInWord_text (p : PaddedWord) : EndsInWord p.text := by
  obtain ⟨init, last, hword, hcolon, hblank, _⟩ := p.word.exists_ends
  refine ⟨p.before ++ init, last, p.behind, ?_, fun c hc => (p.behind_spacing c hc).1, hblank,
    hcolon⟩
  unfold text
  rw [hword, List.append_assoc, List.append_assoc, List.singleton_append]

/-- However a list of words is cut at a number sign, it does not end with a colon. -/
theorem endsInWord {ps : List PaddedWord} (hne : ps ≠ []) :
    EndsInWord (beforeComment ([','].intercalate (ps.map text))) := by
  induction ps with
  | nil => exact absurd rfl hne
  | cons p more ih =>
    obtain ⟨rest, hrest, hmore⟩ := exists_rest p more
    rw [hrest]
    -- the first number sign is in the word, or the cut comes behind it
    by_cases hword : p.word.text = ['\'', '#', '\'']
    · have hsharp : '#' ∉ p.before ++ ['\''] := by
        rw [List.mem_append, not_or]
        exact ⟨p.before_spacing.not_mem, by decide⟩
      rw [text_append hword, beforeComment_append hsharp]
      exact ⟨p.before, '\'', [], List.append_nil _, by decide, by decide, by decide⟩
    · have hsharp : '#' ∉ p.text := by
        by_cases hintact : p.word.Intact
        · exact fun hmem => (chars hintact _ hmem).2 rfl
        · have hcomma := (WordText.eq_of_not_intact hintact).resolve_right hword
          unfold text
          rw [hcomma, List.mem_append, List.mem_append, not_or, not_or]
          exact ⟨p.before_spacing.not_mem, by decide, p.behind_spacing.not_mem⟩
      rw [beforeComment_append hsharp]
      rcases hmore with ⟨_, rfl⟩ | ⟨hmore, rfl⟩
      · show EndsInWord (p.text ++ [])
        rw [List.append_nil]
        exact p.endsInWord_text
      · exact (EndsInWord.append (ih hmore) [',']).append p.text

/-- A line of words says its items. -/
theorem read_line {indent : List Char} {ps : List PaddedWord} (hindent : Spacing indent)
    (hne : ps ≠ []) :
    Entry.read (indent ++ (".word".toList ++ [','].intercalate (ps.map text)))
      = .words (items ps) :=
  read_wordLine (fun c hc => (hindent c hc).1) (endsInWord hne).getLast?_ne

end PaddedWord

/-! ## Data sections -/

/-- A line with which the loader stays in a data section: it opens no text section, and is not
refused for its mnemonic. -/
def Entry.staysInData : Entry → Bool
  | .opening s => s = .data
  | .unknown _ => false
  | _ => true

namespace Loader

variable {l last : Loader} {line : Nat}

theorem exists_addWords_iff {items : List String} :
    (∃ last, l.addWords items = .ok last) ↔ ∀ item ∈ items, ∃ v, readWord item = .ok v := by
  induction items generalizing l with
  | nil => simp [addWords]
  | cons item items ih =>
    rw [List.forall_mem_cons]
    constructor
    · intro h
      obtain ⟨last, hlast⟩ := h
      obtain ⟨v, hread, hrest⟩ := except_bind_eq_ok.mp hlast
      exact ⟨⟨v, hread⟩, ih.mp ⟨last, hrest⟩⟩
    · intro h
      obtain ⟨⟨v, hread⟩, hitems⟩ := h
      have hrest : ∃ last, (l.addWord v).addWords items = .ok last := ih.mpr hitems
      obtain ⟨last, hlast⟩ := hrest
      exact ⟨last, except_bind_eq_ok.mpr ⟨v, hread, hlast⟩⟩

/-- In a data section, a line is refused for its words only. -/
theorem exists_add_iff {entry : Entry} (hdata : l.current = .data) (hentry : entry.staysInData) :
    (∃ last, l.add line entry = .ok last) ↔
      ∀ item ∈ entry.items, ∃ v, readWord item = .ok v := by
  cases entry with
  | words items =>
    simp only [add_words_eq_ok, hdata, true_and]
    exact exists_addWords_iff
  | unknown word => cases hentry
  | _ => exact ⟨fun _ item hitem => absurd hitem List.not_mem_nil, fun _ => ⟨_, rfl⟩⟩

theorem current_add_data {entry : Entry} (hdata : l.current = .data)
    (hentry : entry.staysInData) (h : l.add line entry = .ok last) : last.current = .data := by
  rw [current_add h, hdata]
  cases entry with
  | opening s => exact of_decide_eq_true hentry
  | _ => rfl

theorem exists_addEntries_iff {entries : List Entry} (hdata : l.current = .data)
    (hentries : ∀ entry ∈ entries, entry.staysInData) :
    (∃ last, l.addEntries line entries = .ok last) ↔
      ∀ item ∈ wordsIn entries, ∃ v, readWord item = .ok v := by
  induction entries generalizing l line with
  | nil => simp [addEntries, wordsIn]
  | cons entry entries ih =>
    obtain ⟨hentry, hentries⟩ := List.forall_mem_cons.mp hentries
    rw [wordsIn, List.flatMap_cons, List.forall_mem_append]
    constructor
    · intro h
      obtain ⟨last, hlast⟩ := h
      obtain ⟨next, hnext, hrest⟩ := except_bind_eq_ok.mp hlast
      exact ⟨(exists_add_iff hdata hentry).mp ⟨next, hnext⟩,
        (ih (current_add_data hdata hentry hnext) hentries).mp ⟨last, hrest⟩⟩
    · intro h
      have hadd : ∃ next, l.add line entry = .ok next := (exists_add_iff hdata hentry).mpr h.1
      obtain ⟨next, hnext⟩ := hadd
      have hrest : ∃ last, next.addEntries (line + 1) entries = .ok last :=
        (ih (current_add_data hdata hentry hnext) hentries).mpr h.2
      obtain ⟨last, hlast⟩ := hrest
      exact ⟨last, except_bind_eq_ok.mpr ⟨next, hnext, hlast⟩⟩

end Loader

/-- A line of a data section. -/
inductive DataLine where
  /-- Words with commas between them. -/
  | words (indent : List Char) (hindent : Spacing indent) (first : PaddedWord)
      (more : List PaddedWord)
  /-- A label, a comment, or anything else that holds no words. -/
  | other (line : List Char) (hline : Unbroken line) (hdata : (Entry.read line).staysInData)
      (hitems : (Entry.read line).items = [])

namespace DataLine

/-- The text of a line. -/
def text : DataLine → List Char
  | words indent _ first more =>
    indent ++ (".word".toList ++ [','].intercalate ((first :: more).map PaddedWord.text))
  | other line .. => line

/-- The words of a line. -/
def wordTexts : DataLine → List WordText
  | words _ _ first more => (first :: more).map PaddedWord.word
  | other .. => []

theorem read_words (indent : List Char) (hindent : Spacing indent) (first : PaddedWord)
    (more : List PaddedWord) : Entry.read (words indent hindent first more).text
      = .words (PaddedWord.items (first :: more)) :=
  PaddedWord.read_line hindent (List.cons_ne_nil first more)

theorem staysInData_read (line : DataLine) : (Entry.read line.text).staysInData := by
  cases line with
  | words indent hindent first more =>
    rw [read_words]
    rfl
  | other line _ hdata => exact hdata

/-- The items of a line can be read if and only if its words are whole. -/
theorem readable_iff (line : DataLine) :
    (∀ item ∈ (Entry.read line.text).items, ∃ v, readWord item = .ok v) ↔
      ∀ w ∈ line.wordTexts, w.Whole := by
  cases line with
  | words indent hindent first more =>
    rw [read_words]
    exact (PaddedWord.readable_iff (List.cons_ne_nil first more)).trans List.forall_mem_map.symm
  | other line _ _ hitems =>
    show (∀ item ∈ (Entry.read line).items, _) ↔ _
    rw [hitems]
    exact ⟨fun _ w hw => absurd hw List.not_mem_nil,
      fun _ item hitem => absurd hitem List.not_mem_nil⟩

/-- Whole words are the items of their line. -/
theorem items_eq {line : DataLine} (h : ∀ w ∈ line.wordTexts, w.Whole) :
    (Entry.read line.text).items = line.wordTexts.map fun w => String.ofList w.text := by
  cases line with
  | words indent hindent first more =>
    have hwhole := List.forall_mem_map.mp h
    rw [read_words]
    show PaddedWord.items _ = List.map _ (List.map _ _)
    rw [PaddedWord.items_eq (List.cons_ne_nil first more) fun p hp => (hwhole p hp).intact,
      List.map_map]
    rfl
  | other line _ _ hitems => exact hitems

theorem unbroken (line : DataLine) : Unbroken line.text := by
  cases line with
  | words indent hindent first more =>
    refine List.forall_mem_append.mpr ⟨fun c hc => (hindent c hc).2,
      List.forall_mem_append.mpr ⟨by decide, ?_⟩⟩
    intro c hc
    rcases mem_intercalate hc with hcomma | ⟨field, hfield, hin⟩
    · rw [List.mem_singleton.mp hcomma]
      decide
    · obtain ⟨p, _, rfl⟩ := List.mem_map.mp hfield
      exact p.unbroken c hin
  | other line hline => exact hline

/-- All items of a section can be read if and only if its words are whole. -/
theorem readable_section_iff (lines : List DataLine) :
    (∀ item ∈ wordsIn (lines.map fun line => Entry.read line.text), ∃ v, readWord item = .ok v) ↔
      ∀ w ∈ lines.flatMap wordTexts, w.Whole := by
  unfold wordsIn
  rw [List.flatMap_map, List.forall_mem_flatMap, List.forall_mem_flatMap]
  exact forall_congr' fun line => imp_congr_right fun _ => line.readable_iff

/-- The items of a section are its words, if they are whole. -/
theorem wordsIn_section {lines : List DataLine} (h : ∀ w ∈ lines.flatMap wordTexts, w.Whole) :
    wordsIn (lines.map fun line => Entry.read line.text)
      = (lines.flatMap wordTexts).map fun w => String.ofList w.text := by
  unfold wordsIn
  rw [List.flatMap_map, List.map_flatMap]
  refine List.flatMap_congr fun line hline => items_eq fun w hw => ?_
  exact h w (List.mem_flatMap.mpr ⟨line, hline, hw⟩)

end DataLine

theorem wordsIn_significant (entries : List Entry) :
    wordsIn (significant entries) = wordsIn entries := by
  induction entries with
  | nil => rfl
  | cons entry entries ih =>
    unfold significant wordsIn at ih ⊢
    by_cases hentry : entry = .nothing
    · rw [hentry, List.filter_cons_of_neg (by simp), ih]
      rfl
    · rw [List.filter_cons_of_pos (by simp [hentry]), List.flatMap_cons, List.flatMap_cons, ih]

/-- A listing has an image if what its lines say can be loaded. -/
theorem exists_ofListing_iff {listing : String} :
    (∃ image, Image.ofListing listing = .ok image) ↔
      ∃ l, Loader.addEntries {} 1 (significant (entriesOf listing)) = .ok l := by
  have hsame := toOption_ofListing listing
  cases hlisting : Image.ofListing listing with
  | error e =>
    cases hload : Loader.addEntries {} 1 (significant (entriesOf listing)) with
    | error e' => simp
    | ok l =>
      rw [hlisting, hload] at hsame
      cases hsame
  | ok image =>
    cases hload : Loader.addEntries {} 1 (significant (entriesOf listing)) with
    | error e' =>
      rw [hlisting, hload] at hsame
      cases hsame
    | ok l => simp

/-- The listing of a data section. -/
def dataListing (lines : List DataLine) : String :=
  joinLines (".data".toList :: lines.map DataLine.text)

theorem significant_dataListing (lines : List DataLine) :
    significant (entriesOf (dataListing lines))
      = .opening .data :: significant (lines.map fun line => Entry.read line.text) := by
  have hunbroken : ∀ line ∈ ".data".toList :: lines.map DataLine.text, Unbroken line := by
    refine List.forall_mem_cons.mpr ⟨by decide, List.forall_mem_map.mpr ?_⟩
    exact fun line _ => line.unbroken
  have hdata : Entry.read ".data".toList = .opening .data := rfl
  unfold dataListing
  rw [significant_entriesOf hunbroken, List.map_cons, List.map_map, hdata]
  exact List.filter_cons_of_pos (by decide)

/-- **Lists of words.** The words of a data section are stored one after the other with their
values, if all of them are whole; otherwise the section has no image. -/
theorem ofListing_words (lines : List DataLine) :
    ((∃ image, Image.ofListing (dataListing lines) = .ok image) ↔
        ∀ w ∈ lines.flatMap DataLine.wordTexts, w.Whole)
      ∧ ∀ image, Image.ofListing (dataListing lines) = .ok image →
        ∀ a v : Int, image.data[a]? = some v ↔
          ∃ k w, (lines.flatMap DataLine.wordTexts)[k]? = some w ∧ a = wordAddress k
            ∧ v = w.value := by
  have hwhole : (∃ image, Image.ofListing (dataListing lines) = .ok image) ↔
      ∀ w ∈ lines.flatMap DataLine.wordTexts, w.Whole := by
    have hentries : ∀ entry ∈ significant (lines.map fun line => Entry.read line.text),
        entry.staysInData := by
      intro entry hentry
      obtain ⟨line, _, rfl⟩ := List.mem_map.mp (List.mem_of_mem_filter hentry)
      exact line.staysInData_read
    rw [exists_ofListing_iff, significant_dataListing, Loader.addEntries_opening,
      Loader.exists_addEntries_iff rfl hentries, wordsIn_significant, DataLine.readable_section_iff]
  refine ⟨hwhole, ?_⟩
  intro image h a v
  have hall := hwhole.mp ⟨image, h⟩
  have hitems : wordsIn (entriesOf (dataListing lines))
      = (lines.flatMap DataLine.wordTexts).map fun w => String.ofList w.text := by
    rw [← wordsIn_significant, significant_dataListing, ← DataLine.wordsIn_section hall,
      ← wordsIn_significant (lines.map _)]
    rfl
  obtain ⟨l, hloaded, rfl⟩ := exists_loadedFrom h
  rw [hloaded.filled.data_iff, hitems]
  constructor
  · intro hstored
    obtain ⟨k, item, hitem, ha, hread⟩ := hstored
    rw [List.getElem?_map] at hitem
    obtain ⟨w, hw, rfl⟩ := Option.map_eq_some_iff.mp hitem
    rw [WordText.readWord_of_whole (hall w (List.mem_of_getElem? hw))] at hread
    exact ⟨k, w, hw, ha, (Except.ok.inj hread).symm⟩
  · intro hword
    obtain ⟨k, w, hw, ha, rfl⟩ := hword
    refine ⟨k, String.ofList w.text, ?_, ha,
      WordText.readWord_of_whole (hall w (List.mem_of_getElem? hw))⟩
    rw [List.getElem?_map, hw]
    rfl

/-- Two lines of words, with a label between them. -/
def mixedLines : List DataLine :=
  [.words [] (by decide) ⟨[' '], .character '\'' (by decide), [], by decide, by decide⟩
    [⟨[' '], .integer ⟨.minus, .decimal 12⟩, [' '], by decide, by decide⟩],
    .other "next: # second".toList (by decide) (by decide) (by decide),
    .words ['\t'] (by decide)
      ⟨[' '], .integer ⟨.missing, .marked .hexadecimal false ⟨⟨15, by decide⟩, true⟩
        [⟨⟨10, by decide⟩, false⟩]⟩, [], by decide, by decide⟩
      [⟨[], .character ' ' (by decide), [], by decide, by decide⟩]]

theorem ofListing_words_mixed :
    dataListing mixedLines = ".data\n.word ''', -12 \nnext: # second\n\t.word 0xFa,' '"
      ∧ ∃ image, Image.ofListing (dataListing mixedLines) = .ok image
        ∧ image.data[dataBase]? = some 39 ∧ image.data[dataBase + 4]? = some (-12)
        ∧ image.data[dataBase + 8]? = some 250 ∧ image.data[dataBase + 12]? = some 32 := by
  have hwhole : ∀ w ∈ mixedLines.flatMap DataLine.wordTexts, w.Whole := by decide +kernel
  obtain ⟨image, himage⟩ := (ofListing_words mixedLines).1.mpr hwhole
  have hstored := (ofListing_words mixedLines).2 image himage
  exact ⟨by decide +kernel, image, himage, (hstored _ _).mpr ⟨0, _, rfl, rfl, rfl⟩,
    (hstored _ _).mpr ⟨1, _, rfl, rfl, rfl⟩, (hstored _ _).mpr ⟨2, _, rfl, rfl, rfl⟩,
    (hstored _ _).mpr ⟨3, _, rfl, rfl, rfl⟩⟩

/-- A comma between quotes is a word that no line can hold. -/
theorem ofListing_quoted_comma :
    readWord "','" = .ok 44 ∧ ∀ image, Image.ofListing ".data\n.word ','\n" ≠ .ok image := by
  refine ⟨rfl, ?_⟩
  have hrefused : (Image.ofListing ".data\n.word ','\n").isOk = false := by decide +kernel
  intro image himage
  rw [himage] at hrefused
  cases hrefused

end MicroLang.Assembly
