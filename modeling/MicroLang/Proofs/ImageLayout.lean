import Mathlib.Order.Bounds.Basic
import MicroLang.Proofs.DecodedCode

/-!
# Where a listing puts things

A loader goes through a listing line by line. It carries along the section, the address of the next
data word and two tables of labels, and a label that is defined again replaces its entry. Where
things end up can be said without any of that, by counting lines:

> `ofListing_layout`: the data words lie one after the other from `dataBase` on, in the order in
> which they are written, and a label stands for the place of its last definition in its section,
> which is the number of instructions, or the address of the next data word, behind the lines above;
> what the lines say is what is written in them.

`LoadedFrom entries l` is that description of a loader `l` behind the lines that say `entries`. A
line keeps it (`LoadedFrom.add`), and so does a listing.
-/

namespace MicroLang.Assembly

open MicroLang.Sequencing
open MicroLang.Text

/-! ## What lines say together -/

/-- The section that a line opens. -/
def Entry.opened? : Entry → Option Section
  | .opening s => some s
  | _ => none

/-- The data words that a line holds. -/
def Entry.items : Entry → List String
  | .words items => items
  | _ => []

/-- What the lines of a listing say. -/
def entriesOf (listing : String) : List Entry :=
  (splitLines listing.toList).map Entry.read

/-- The section that the line behind the given ones is in: the one opened last. -/
def sectionBehind (entries : List Entry) : Section :=
  (entries.filterMap Entry.opened?).getLast?.getD .text

/-- The instructions that lines say. -/
def instrsIn (entries : List Entry) : List Instr :=
  entries.filterMap Entry.instr?

/-- The data words that lines hold. -/
def wordsIn (entries : List Entry) : List String :=
  entries.flatMap Entry.items

/-- The address of the data word with the given number. -/
def wordAddress (k : Nat) : Int :=
  dataBase + wordSize * k

/-- The line with the given number defines a label, and is in the given section. -/
def Defines (entries : List Entry) (s : Section) (name : String) (i : Nat) : Prop :=
  entries[i]? = some (.label name) ∧ sectionBehind (entries.take i) = s

/-- What a label in a section stands for, behind the given lines. -/
def placeBehind (s : Section) (entries : List Entry) : Int :=
  match s with
  | .text => (instrsIn entries).length
  | .data => wordAddress (wordsIn entries).length

variable {entries : List Entry} {entry : Entry} {s : Section} {name : String} {i : Nat}

theorem wordAddress_inj {k k' : Nat} : wordAddress k = wordAddress k' ↔ k = k' := by
  unfold wordAddress wordSize
  omega

theorem wordAddress_succ (k : Nat) : wordAddress (k + 1) = wordAddress k + wordSize := by
  unfold wordAddress wordSize
  omega

/-- A line that opens no section leaves the section as it is. -/
theorem sectionBehind_concat :
    sectionBehind (entries ++ [entry]) = entry.opened?.getD (sectionBehind entries) := by
  unfold sectionBehind
  rw [List.filterMap_append]
  cases hopened : entry.opened? with
  | none => rw [List.filterMap_cons_none hopened, List.filterMap_nil, List.append_nil]; rfl
  | some s => rw [List.filterMap_cons_some hopened, List.filterMap_nil, List.getLast?_concat]; rfl

theorem instrsIn_concat :
    instrsIn (entries ++ [entry]) = instrsIn entries ++ entry.instr?.toList := by
  unfold instrsIn
  rw [List.filterMap_append]
  cases hinstr : entry.instr? with
  | none => rw [List.filterMap_cons_none hinstr]; rfl
  | some i => rw [List.filterMap_cons_some hinstr]; rfl

theorem wordsIn_concat : wordsIn (entries ++ [entry]) = wordsIn entries ++ entry.items := by
  unfold wordsIn
  rw [List.flatMap_append, List.flatMap_singleton]

/-! ## Definitions of labels -/

theorem Defines.lt_length (h : Defines entries s name i) : i < entries.length := by
  obtain ⟨hlt, _⟩ := List.getElem?_eq_some_iff.1 h.1
  exact hlt

/-- A further line defines what it says, and changes no definition above it. -/
theorem defines_concat : Defines (entries ++ [entry]) s name i ↔
    Defines entries s name i
      ∨ i = entries.length ∧ entry = .label name ∧ sectionBehind entries = s := by
  constructor
  · intro h
    have hlt := h.lt_length
    rw [List.length_append, List.length_singleton] at hlt
    rcases Nat.lt_or_ge i entries.length with hbefore | hbehind
    · left
      unfold Defines at h
      rw [List.getElem?_append_left hbefore, List.take_append_of_le_length (by omega)] at h
      exact h
    · right
      have hi : i = entries.length := by omega
      subst hi
      unfold Defines at h
      rw [List.getElem?_concat_length, Option.some.injEq, List.take_left] at h
      exact ⟨rfl, h⟩
  · rintro (h | ⟨rfl, rfl, hsection⟩)
    · have hlt := h.lt_length
      unfold Defines
      rw [List.getElem?_append_left hlt, List.take_append_of_le_length (by omega)]
      exact h
    · unfold Defines
      rw [List.getElem?_concat_length, List.take_left]
      exact ⟨rfl, hsection⟩

/-- A line that does not define a label leaves its last definition where it is. -/
theorem exists_last_concat (hsame : ∀ i, Defines (entries ++ [entry]) s name i ↔
    Defines entries s name i) (v : Int) :
    (∃ i, IsGreatest {i | Defines (entries ++ [entry]) s name i} i
        ∧ v = placeBehind s ((entries ++ [entry]).take i)) ↔
      ∃ i, IsGreatest {i | Defines entries s name i} i ∧ v = placeBehind s (entries.take i) := by
  simp only [hsame]
  refine exists_congr fun i => and_congr_right fun hlast => ?_
  have hlt : i < entries.length := Defines.lt_length hlast.1
  rw [List.take_append_of_le_length (by omega)]

/-- The table has the labels that are defined in a section, each with the place of its last
definition. -/
def Tabulates (entries : List Entry) (s : Section) (table : Std.TreeMap String Int) : Prop :=
  ∀ name v, table[name]? = some v ↔
    ∃ i, IsGreatest {i | Defines entries s name i} i ∧ v = placeBehind s (entries.take i)

namespace Tabulates

variable {table : Std.TreeMap String Int}

/-- A line that defines no label in the section leaves the table as it is. -/
theorem keep (h : Tabulates entries s table)
    (hentry : ∀ name, entry = .label name → sectionBehind entries ≠ s) :
    Tabulates (entries ++ [entry]) s table := by
  intro name v
  rw [h name v]
  refine (exists_last_concat ?_ v).symm
  intro i
  rw [defines_concat]
  refine or_iff_left ?_
  rintro ⟨_, hlabel, hsection⟩
  exact hentry name hlabel hsection

/-- A line that defines a label in the section puts its place into the table. -/
theorem define (h : Tabulates entries s table) (hsection : sectionBehind entries = s) :
    Tabulates (entries ++ [.label name]) s (table.insert name (placeBehind s entries)) := by
  intro other v
  rw [Std.TreeMap.getElem?_insert]
  simp only [Std.LawfulEqCmp.compare_eq_iff_eq]
  by_cases hother : name = other
  · subst hother
    have hlast : IsGreatest {i | Defines (entries ++ [.label name]) s name i} entries.length := by
      refine ⟨defines_concat.2 (.inr ⟨rfl, rfl, hsection⟩), fun i hi => ?_⟩
      have hlt := Defines.lt_length hi
      rw [List.length_append, List.length_singleton] at hlt
      omega
    rw [if_pos rfl, Option.some.injEq]
    constructor
    · rintro rfl
      exact ⟨_, hlast, by rw [List.take_left]⟩
    · rintro ⟨i, hi, rfl⟩
      rw [hi.unique hlast, List.take_left]
  · rw [if_neg hother, h other v]
    refine (exists_last_concat ?_ v).symm
    intro i
    rw [defines_concat]
    refine or_iff_left ?_
    rintro ⟨_, hlabel, _⟩
    exact hother (Entry.label.inj hlabel)

end Tabulates

/-! ## Data words -/

/-- The data words of a loader are the given ones, one after the other. -/
structure Filled (items : List String) (l : Loader) : Prop where
  next_eq : l.next = wordAddress items.length
  data_iff : ∀ a v, l.image.data[a]? = some v ↔
    ∃ k item, items[k]? = some item ∧ a = wordAddress k ∧ readWord item = .ok v
  readable : ∀ item ∈ items, ∃ v, readWord item = .ok v

namespace Filled

variable {items more : List String} {item : String} {v : Int} {l last : Loader}

/-- Only data words move the next address. -/
theorem of_eq (h : Filled items l) (hnext : last.next = l.next)
    (hdata : last.image.data = l.image.data) : Filled items last := by
  refine ⟨hnext.trans h.next_eq, ?_, h.readable⟩
  rw [hdata]
  exact h.data_iff

theorem addWord (h : Filled items l) (hread : readWord item = .ok v) :
    Filled (items ++ [item]) (l.addWord v) := by
  refine ⟨?_, ?_, ?_⟩
  · show l.next + wordSize = _
    rw [h.next_eq, List.length_append, List.length_singleton, wordAddress_succ]
  · intro a w
    show (l.image.data.insert l.next v)[a]? = some w ↔ _
    rw [Std.TreeMap.getElem?_insert, h.next_eq]
    simp only [Std.LawfulEqCmp.compare_eq_iff_eq]
    by_cases ha : wordAddress items.length = a
    · rw [if_pos ha, Option.some.injEq, ← ha]
      constructor
      · rintro rfl
        exact ⟨items.length, item, List.getElem?_concat_length, rfl, hread⟩
      · rintro ⟨k, found, hfound, hk, hvalue⟩
        rw [← wordAddress_inj.1 hk, List.getElem?_concat_length, Option.some.injEq] at hfound
        rw [← hfound, hread] at hvalue
        exact Except.ok.inj hvalue
    · rw [if_neg ha, h.data_iff]
      refine exists_congr fun k => exists_congr fun found => and_congr_left fun hk => ?_
      -- the word at another address is one of those before
      have hne : k ≠ items.length := fun he => ha (by rw [hk.1, he])
      rw [List.getElem?_append]
      split
      · rfl
      · rw [List.getElem?_eq_none (by omega), List.getElem?_eq_none (by simp; omega)]
  · intro found hfound
    rcases List.mem_append.1 hfound with hold | hnew
    · exact h.readable found hold
    · rw [List.mem_singleton.1 hnew]
      exact ⟨v, hread⟩

theorem addWords (h : Filled items l) (hadd : l.addWords more = .ok last) :
    Filled (items ++ more) last := by
  induction more generalizing items l with
  | nil =>
    cases hadd
    rw [List.append_nil]
    exact h
  | cons item more ih =>
    obtain ⟨v, hread, hrest⟩ := except_bind_eq_ok.1 hadd
    rw [← List.singleton_append, ← List.append_assoc]
    exact ih (h.addWord hread) hrest

end Filled

/-- Data words change nothing but data. -/
theorem Loader.addWords_frame {items : List String} {l last : Loader}
    (h : l.addWords items = .ok last) :
    last.current = l.current ∧ last.image.textLabels = l.image.textLabels
      ∧ last.image.dataLabels = l.image.dataLabels := by
  induction items generalizing l with
  | nil =>
    cases h
    exact ⟨rfl, rfl, rfl⟩
  | cons item items ih =>
    obtain ⟨_, _, hrest⟩ := except_bind_eq_ok.1 h
    have hkept := ih hrest
    exact hkept

/-- A line changes the section if it opens one. -/
theorem Loader.current_add {l last : Loader} {line : Nat} (h : l.add line entry = .ok last) :
    last.current = entry.opened?.getD l.current := by
  cases entry with
  | nothing | global | opening | instr =>
    cases h
    rfl
  | label name =>
    cases h
    unfold Loader.define
    split
    · rfl
    · rfl
  | words items => exact (Loader.addWords_frame (Loader.add_words_eq_ok.mp h).2).1
  | unknown word => cases h

/-! ## Lines -/

/-- The loader behind lines that say `entries`. -/
structure LoadedFrom (entries : List Entry) (l : Loader) : Prop where
  current_eq : l.current = sectionBehind entries
  code_eq : l.image.code.toList = instrsIn entries
  filled : Filled (wordsIn entries) l
  textLabels : Tabulates entries .text l.image.textLabels
  dataLabels : Tabulates entries .data l.image.dataLabels

namespace LoadedFrom

variable {l last : Loader} {line : Nat}

theorem empty : LoadedFrom [] {} := by
  have hnone (s : Section) : Tabulates [] s ∅ := by
    intro name v
    rw [Std.TreeMap.getElem?_emptyc]
    constructor
    · intro h
      cases h
    · rintro ⟨i, hlast, _⟩
      exact absurd (Defines.lt_length hlast.1) (Nat.not_lt_zero i)
  refine ⟨rfl, rfl, ⟨rfl, ?_, ?_⟩, hnone .text, hnone .data⟩
  · intro a v
    constructor
    · intro h
      rw [show (({} : Loader).image.data)[a]? = none from Std.TreeMap.getElem?_emptyc] at h
      cases h
    · rintro ⟨k, item, hitem, _⟩
      cases hitem
  · intro item hitem
    cases hitem

/-- A line that defines a label extends the table of its section. -/
theorem define (h : LoadedFrom entries l) (name : String) :
    Tabulates (entries ++ [.label name]) .text (l.define name).image.textLabels
      ∧ Tabulates (entries ++ [.label name]) .data (l.define name).image.dataLabels := by
  unfold Loader.define
  cases hsection : l.current with
  | text =>
    rw [h.current_eq] at hsection
    have hplace : (l.image.code.size : Int) = placeBehind .text entries := by
      rw [← Array.length_toList, h.code_eq]
      rfl
    refine ⟨?_, h.dataLabels.keep fun _ _ => by rw [hsection]; decide⟩
    show Tabulates _ _ (l.image.textLabels.insert name l.image.code.size)
    rw [hplace]
    exact h.textLabels.define hsection
  | data =>
    rw [h.current_eq] at hsection
    refine ⟨h.textLabels.keep fun _ _ => by rw [hsection]; decide, ?_⟩
    show Tabulates _ _ (l.image.dataLabels.insert name l.next)
    rw [h.filled.next_eq]
    exact h.dataLabels.define hsection

/-- One more line. -/
theorem add (h : LoadedFrom entries l) (hadd : l.add line entry = .ok last) :
    LoadedFrom (entries ++ [entry]) last := by
  have hcode : last.image.code.toList = instrsIn (entries ++ [entry]) := by
    rw [instrsIn_concat, ← h.code_eq]
    exact Loader.code_add hadd
  have hfilled (hitems : entry.items = []) (hnext : last.next = l.next)
      (hdata : last.image.data = l.image.data) : Filled (wordsIn (entries ++ [entry])) last := by
    rw [wordsIn_concat, hitems, List.append_nil]
    exact h.filled.of_eq hnext hdata
  have hcurrent : last.current = sectionBehind (entries ++ [entry]) := by
    rw [sectionBehind_concat, ← h.current_eq]
    exact Loader.current_add hadd
  have hlabels (hentry : ∀ name, entry ≠ .label name)
      (htext : last.image.textLabels = l.image.textLabels)
      (hdata : last.image.dataLabels = l.image.dataLabels) :
      Tabulates (entries ++ [entry]) .text last.image.textLabels
        ∧ Tabulates (entries ++ [entry]) .data last.image.dataLabels := by
    rw [htext, hdata]
    exact ⟨h.textLabels.keep fun name he => absurd he (hentry name),
      h.dataLabels.keep fun name he => absurd he (hentry name)⟩
  cases entry with
  | nothing | global | opening | instr =>
    cases hadd
    obtain ⟨htext, hdata⟩ := hlabels (by simp) rfl rfl
    exact ⟨hcurrent, hcode, hfilled rfl rfl rfl, htext, hdata⟩
  | label name =>
    cases hadd
    obtain ⟨htext, hdata⟩ := h.define name
    refine ⟨hcurrent, hcode, hfilled rfl ?_ ?_, htext, hdata⟩
    all_goals
      unfold Loader.define
      cases l.current <;> rfl
  | words items =>
    obtain ⟨_, hwords⟩ := Loader.add_words_eq_ok.mp hadd
    obtain ⟨_, htexts, hdatas⟩ := Loader.addWords_frame hwords
    obtain ⟨htext, hdata⟩ := hlabels (by simp) htexts hdatas
    refine ⟨hcurrent, hcode, ?_, htext, hdata⟩
    rw [wordsIn_concat]
    exact h.filled.addWords hwords
  | unknown word => cases hadd

theorem addEntries {more : List Entry} (h : LoadedFrom entries l)
    (hadd : l.addEntries line more = .ok last) : LoadedFrom (entries ++ more) last := by
  induction more generalizing entries l line with
  | nil =>
    cases hadd
    rw [List.append_nil]
    exact h
  | cons entry more ih =>
    obtain ⟨next, hnext, hrest⟩ := except_bind_eq_ok.1 hadd
    rw [← List.singleton_append, ← List.append_assoc]
    exact ih (h.add hnext) hrest

end LoadedFrom

/-- The image of a listing is loaded from what its lines say. -/
theorem exists_loadedFrom {listing : String} {image : Image}
    (h : Image.ofListing listing = .ok image) :
    ∃ l, LoadedFrom (entriesOf listing) l ∧ l.image = image := by
  obtain ⟨l, hload, himage⟩ := except_bind_eq_ok.1 h
  cases himage
  rw [Loader.addLines_eq_addEntries] at hload
  exact ⟨l, LoadedFrom.empty.addEntries hload, rfl⟩

/-- The first lines say no more instructions than all lines. -/
theorem length_instrsIn_take_le (entries : List Entry) (i : Nat) :
    (instrsIn (entries.take i)).length ≤ (instrsIn entries).length :=
  ((List.take_sublist i entries).filterMap Entry.instr?).length_le

/-- **The layout of an image.** -/
theorem ofListing_layout {listing : String} {image : Image}
    (h : Image.ofListing listing = .ok image) :
    (∀ line ∈ splitLines listing.toList, ReadsAsWritten line)
      ∧ image.code.toList = instrsIn (entriesOf listing)
      ∧ (∀ a, a ∈ image.data ↔
        ∃ k, k < (wordsIn (entriesOf listing)).length ∧ a = wordAddress k)
      ∧ (∀ (k : Nat) (item : String), (wordsIn (entriesOf listing))[k]? = some item →
        ∃ v, readWord item = .ok v ∧ image.data[wordAddress k]? = some v)
      ∧ (∀ (name : String) (v : Int), image.textLabels[name]? = some v ↔
        ∃ i, IsGreatest {i | Defines (entriesOf listing) .text name i} i
          ∧ v = (instrsIn ((entriesOf listing).take i)).length)
      ∧ (∀ (name : String) (v : Int), image.textLabels[name]? = some v → v ≤ image.code.size)
      ∧ ∀ (name : String) (v : Int), image.dataLabels[name]? = some v ↔
        ∃ i, IsGreatest {i | Defines (entriesOf listing) .data name i} i
          ∧ v = wordAddress (wordsIn ((entriesOf listing).take i)).length := by
  obtain ⟨l, hloaded, rfl⟩ := exists_loadedFrom h
  refine ⟨fun line _ => readsAsWritten line, hloaded.code_eq, ?_, ?_, hloaded.textLabels, ?_,
    hloaded.dataLabels⟩
  · intro a
    rw [Std.TreeMap.mem_iff_isSome_getElem?, Option.isSome_iff_exists]
    constructor
    · rintro ⟨v, hv⟩
      obtain ⟨k, item, hitem, ha, _⟩ := (hloaded.filled.data_iff a v).1 hv
      obtain ⟨hk, _⟩ := List.getElem?_eq_some_iff.1 hitem
      exact ⟨k, hk, ha⟩
    · rintro ⟨k, hk, ha⟩
      obtain ⟨v, hread⟩ := hloaded.filled.readable _ (List.getElem_mem hk)
      exact ⟨v, (hloaded.filled.data_iff a v).2 ⟨k, _, List.getElem?_eq_getElem hk, ha, hread⟩⟩
  · intro k item hitem
    obtain ⟨v, hread⟩ := hloaded.filled.readable item (List.mem_of_getElem? hitem)
    exact ⟨v, hread, (hloaded.filled.data_iff _ v).2 ⟨k, item, hitem, rfl, hread⟩⟩
  · intro name v hv
    obtain ⟨i, _, rfl⟩ := (hloaded.textLabels name v).1 hv
    rw [← Array.length_toList, hloaded.code_eq]
    exact Int.ofNat_le.2 (length_instrsIn_take_le _ i)

/-- A listing that switches sections in the middle of its data, and defines both of its labels
twice. -/
def switchingListing : String :=
  unlines [".data", "x:", ".word 1, 'A'", ".text", "f:", "syscall", ".data", ".word -3", "x:",
    ".word 0x10", ".text", "f:", "jr $ra"]

/-- The last definitions count, and the words lie across the sections in their order. -/
theorem ofListing_layout_switching :
    ∃ image, Image.ofListing switchingListing = .ok image
      ∧ image.data[dataBase + 8]? = some (-3) ∧ dataBase + 16 ∉ image.data
      ∧ image.textLabels["f"]? = some 1 ∧ image.dataLabels["x"]? = some (dataBase + 12) := by
  have hok : (Image.ofListing switchingListing).isOk = true := by decide +kernel
  have hentries : entriesOf switchingListing = [.opening .data, .label "x", .words ["1", "'A'"],
      .opening .text, .label "f", .instr ⟨.syscall, []⟩, .opening .data, .words ["-3"], .label "x",
      .words ["0x10"], .opening .text, .label "f", .instr ⟨.jr, ["$ra"]⟩] := by decide +kernel
  cases himage : Image.ofListing switchingListing with
  | error e =>
    rw [himage] at hok
    cases hok
  | ok image =>
    obtain ⟨_, _, haddress, hwords, htext, _, hdata⟩ := ofListing_layout himage
    rw [hentries] at haddress hwords htext hdata
    have hminus : readWord "-3" = .ok (-3) := by decide +kernel
    obtain ⟨v, hread, hv⟩ := hwords 2 "-3" rfl
    obtain rfl : -3 = v := Except.ok.inj (hminus.symm.trans hread)
    refine ⟨image, rfl, hv, ?_, (htext "f" 1).2 ⟨11, ⟨⟨rfl, rfl⟩, ?_⟩, rfl⟩,
      (hdata "x" _).2 ⟨8, ⟨⟨rfl, rfl⟩, ?_⟩, rfl⟩⟩
    · rw [haddress]
      rintro ⟨k, hk, ha⟩
      have hk : k < 4 := hk
      have hfour := wordAddress_inj.1 (show wordAddress 4 = wordAddress k from ha)
      omega
    · intro j hj
      have hlt : j < 13 := Defines.lt_length hj
      refine Nat.not_lt.1 fun hgt => ?_
      obtain rfl : j = 12 := by omega
      exact absurd hj.1 (by decide)
    · intro j hj
      have hlt : j < 13 := Defines.lt_length hj
      refine Nat.not_lt.1 fun hgt => ?_
      obtain rfl | rfl | rfl | rfl : j = 9 ∨ j = 10 ∨ j = 11 ∨ j = 12 := by omega
      all_goals exact absurd hj.1 (by decide)

end MicroLang.Assembly
