import MicroLang.Proofs.CompilerCorrectness
import MicroLang.Proofs.EmittedCode

/-!
# The characters of a listing

A listing is written in ASCII, whatever the source text: identifiers name slots and never reach the
listing, and literals are written again in decimal. So a listing has no carriage return either, and
a file keeps it as it is.

> `graphic_of_compile`: every character of a compiled listing is a line feed, or lies between the
> space and the tilde.
-/

namespace MicroLang.Assembly

open MicroLang.Machine (Register)
open MicroLang.Text

/-- The characters of ASCII that leave a mark, and the space. -/
def Graphic (c : Char) : Prop :=
  0x20 ≤ c.toNat ∧ c.toNat ≤ 0x7E

instance : DecidablePred Graphic := fun c =>
  inferInstanceAs (Decidable (0x20 ≤ c.toNat ∧ c.toNat ≤ 0x7E))

/-- A text of such characters. -/
def GraphicText (text : String) : Prop :=
  ∀ c ∈ text.toList, Graphic c

instance (text : String) : Decidable (GraphicText text) :=
  inferInstanceAs (Decidable (∀ c ∈ text.toList, Graphic c))

theorem GraphicText.append {a b : String} (ha : GraphicText a) (hb : GraphicText b) :
    GraphicText (a ++ b) := by
  intro c hc
  rw [String.toList_append, List.mem_append] at hc
  rcases hc with hc | hc
  · exact ha c hc
  · exact hb c hc

theorem graphic_of_isDigit {c : Char} (hc : c.isDigit = true) : Graphic c := by
  have hrange := Numeral.toNat_of_isDigit hc
  constructor <;> omega

theorem graphicText_toString (n : Int) : GraphicText (toString n) := by
  intro c hc
  rw [Numeral.toList_toString, List.mem_append] at hc
  rcases hc with hsign | hdigit
  · split at hsign
    · rw [List.mem_singleton.mp hsign]
      decide
    · exact absurd hsign List.not_mem_nil
  · exact graphic_of_isDigit (Numeral.isDigit_of_mem_toDigits c hdigit)

theorem graphicText_memoryOperand (offset : Int) {base : String} (hbase : GraphicText base) :
    GraphicText (memoryOperand offset base) := by
  unfold memoryOperand
  exact (((graphicText_toString offset).append (by decide)).append hbase).append (by decide)

/-! ## Instructions -/

/-- An instruction whose operands are such texts. -/
def Instr.GraphicArgs (i : Instr) : Prop :=
  ∀ arg ∈ i.args, GraphicText arg

instance (i : Instr) : Decidable i.GraphicArgs :=
  inferInstanceAs (Decidable (∀ arg ∈ i.args, GraphicText arg))

theorem graphicText_register (r : Register) : GraphicText r.name := by
  cases r <;> decide

theorem graphicText_mnemonic (op : Opcode) : GraphicText op.mnemonic := by
  cases op <;> decide

theorem Instr.GraphicArgs.text {i : Instr} (h : i.GraphicArgs) : GraphicText i.text := by
  unfold Instr.text
  split
  · exact graphicText_mnemonic i.opcode
  · refine ((graphicText_mnemonic i.opcode).append (by decide)).append ?_
    intro c hc
    rw [String.toList_intercalate] at hc
    rcases mem_intercalate hc with hsep | ⟨field, hfield, hc⟩
    · exact (by decide : GraphicText ", ") c hsep
    · obtain ⟨arg, harg, rfl⟩ := List.mem_map.mp hfield
      exact h arg harg c hc

theorem Emitted.graphicArgs {literal : Int → Prop} {size : Nat} {i : Instr}
    (h : Emitted literal size i) : i.GraphicArgs := by
  have hpair : ∀ {op : Opcode} {a b : String}, GraphicText a → GraphicText b →
      Instr.GraphicArgs ⟨op, [a, b]⟩ := by
    intro op a b ha hb arg harg
    rcases List.mem_pair.mp harg with rfl | rfl
    · exact ha
    · exact hb
  have hslot : ∀ offset : Nat, GraphicText (Gen.slotOperand offset) :=
    fun offset => graphicText_memoryOperand offset (by decide)
  cases h with
  | loadSlot hr h => exact hpair (graphicText_register _) (hslot _)
  | loadLiteral hr h => exact hpair (graphicText_register _) (graphicText_toString _)
  | operator op => exact (by decide : Instr.GraphicArgs ⟨.add, ["$t0", "$t0", "$t1"]⟩)
  | store hr h => exact hpair (graphicText_register _) (hslot _)
  | call routine => cases routine <;> decide

/-! ## Lines -/

/-- An item whose line is such a text. -/
def Item.GraphicLine (item : Item) : Prop :=
  GraphicText item.line

instance (item : Item) : Decidable item.GraphicLine :=
  inferInstanceAs (Decidable (GraphicText item.line))

theorem graphicLine_instr {i : Instr} (h : i.GraphicArgs) : Item.GraphicLine (.instr i) :=
  (by decide : GraphicText indent).append h.text

theorem graphicArgs_addi {size : String} (h : GraphicText size) :
    Instr.GraphicArgs ⟨.addi, ["$sp", "$sp", size]⟩ := by
  intro arg harg
  simp only [List.mem_cons, List.not_mem_nil, or_false] at harg
  rcases harg with rfl | rfl | rfl
  · decide
  · decide
  · exact h

namespace Listing

theorem graphicArgs_prologueCode (frameSize : Int) :
    ∀ i ∈ prologueCode frameSize, i.GraphicArgs := by
  unfold prologueCode
  simp only [List.forall_mem_cons]
  exact ⟨graphicArgs_addi (GraphicText.append (by decide) (graphicText_toString frameSize)),
    by decide, by decide, by decide, by simp⟩

theorem graphicArgs_epilogueCode (frameSize : Int) :
    ∀ i ∈ epilogueCode frameSize, i.GraphicArgs := by
  unfold epilogueCode
  simp only [List.forall_mem_cons]
  exact ⟨by decide, by decide, by decide, graphicArgs_addi (graphicText_toString frameSize),
    by decide, by decide, by simp⟩

theorem graphic_items {body : List Instr} (hbody : ∀ i ∈ body, i.GraphicArgs) (frameSize : Int) :
    ∀ item ∈ items body frameSize, item.GraphicLine := by
  have hinstr : ∀ {code : List Instr}, (∀ i ∈ code, i.GraphicArgs) →
      ∀ item ∈ code.map Item.instr, item.GraphicLine := by
    intro code hcode item hitem
    obtain ⟨i, hi, rfl⟩ := List.mem_map.mp hitem
    exact graphicLine_instr (hcode i hi)
  have hbefore : ∀ i ∈ prologueCode frameSize ++ body, i.GraphicArgs :=
    List.forall_mem_append.mpr ⟨graphicArgs_prologueCode frameSize, hbody⟩
  rw [items_eq]
  simp only [List.forall_mem_append, List.forall_mem_cons]
  exact ⟨by decide, hinstr hbefore, by decide, hinstr (graphicArgs_epilogueCode frameSize),
    by decide, hinstr (by decide), by decide, hinstr (by decide), by simp⟩

/-- Every character of a text of lines is from one of the lines, or ends it. -/
theorem mem_text {listing : List Item} {c : Char} (hc : c ∈ (text listing).toList) :
    c = '\n' ∨ ∃ item ∈ listing, c ∈ item.line.toList := by
  unfold text unlines at hc
  rw [String.toList_ofList, List.mem_flatMap] at hc
  obtain ⟨line, hline, hc⟩ := hc
  obtain ⟨item, hitem, rfl⟩ := List.mem_map.mp hline
  rcases List.mem_append.mp hc with hc | hc
  · exact .inr ⟨item, hitem, hc⟩
  · exact .inl (List.mem_singleton.mp hc)

end Listing

end MicroLang.Assembly

namespace MicroLang

open MicroLang.Assembly

/-- A compiled listing is written in ASCII, with line feeds between its lines. -/
theorem graphic_of_compile {source listing : String} (h : (compile source).1 = .ok listing) :
    ∀ c ∈ listing.toList, c = '\n' ∨ Graphic c := by
  obtain ⟨p, g, _, hgen, rfl⟩ := Simulation.compile_eq_ok h
  intro c hc
  rcases Listing.mem_text hc with hfeed | ⟨item, hitem, hmem⟩
  · exact .inl hfeed
  · refine .inr (Listing.graphic_items (fun i hi => ?_) _ item hitem c hmem)
    exact (Gen.emitted_of_program hgen i hi).graphicArgs

theorem return_not_mem_of_compile {source listing : String}
    (h : (compile source).1 = .ok listing) : '\r' ∉ listing.toList := by
  intro hmem
  rcases graphic_of_compile h _ hmem with heq | hgraphic
  · cases heq
  · exact absurd hgraphic.1 (by decide)

end MicroLang
