import MicroLang.Proofs.Execution
import MicroLang.Proofs.Generation

/-!
# Operands between generator and machine

Generated code holds integers as the literals of `li`, as the offsets of memory operands and, with a
minus sign put in front, as the frame size in the `addi` that opens a frame. Three readers take them
up again: one for words, which may also be quoted characters, one that gets the radix from the text
and refuses needless zeros, and one for offsets, which has to find the end of the digits first. None
of them depends on what the machine holds otherwise. In particular, an image may have data labels
that are spelled like memory operands, and the offset wins.

> `operands_agree`: each of the readers gives back the integer that was written, and each of the
> instructions that hold it does with that integer what it is for.
-/

namespace MicroLang.Machine

open MicroLang.Assembly

/-- An integer of at most 4300 digits is read back from each operand that generated code writes it
into, on every machine, whatever data labels its image has: from the literal of a load, from the
frame size behind the minus sign of the prologue, and from the offset of a memory operand. The
instructions that hold these operands therefore load the integer, lower the stack pointer by it, and
load the word at this distance from the frame pointer. -/
theorem operands_agree (n : Int) (hdigits : (Nat.toDigits 10 n.natAbs).length ≤ 4300) (r : Register)
    (m : Machine) :
    (readWord (toString n) = .ok n
      ∧ (∀ g, Gen.load r.name (.immediate n) g = .ok () (g.push ⟨.li, [r.name, toString n]⟩))
      ∧ m.execute ⟨.li, [r.name, toString n]⟩ = .ok (m.setReg r n))
    ∧ (0 ≤ n →
      readInteger ("-" ++ toString n) = .ok (-n)
      ∧ Item.instr ⟨.addi, ["$sp", "$sp", "-" ++ toString n]⟩ ∈ Listing.prologue n
      ∧ m.execute ⟨.addi, ["$sp", "$sp", "-" ++ toString n]⟩
        = .ok (m.setReg .sp (m.reg .sp - n)))
    ∧ m.address (memoryOperand n r.name) = .ok (m.reg r + n)
      ∧ (∀ g, Gen.load r.name (.slot n) g
        = .ok () (g.push ⟨.lw, [r.name, memoryOperand n Register.fp.name]⟩))
      ∧ m.execute ⟨.lw, [r.name, memoryOperand n Register.fp.name]⟩
        = m.storage.loadWord (m.reg .fp + n) >>= m.writeRegister r.name := by
  have hword : readWord (toString n) = .ok n := readWord_toString n hdigits
  have haddress (q : Register) : m.address (memoryOperand n q.name) = .ok (m.reg q + n) :=
    address_memoryOperand m n q hdigits
  have himmediate : Gen.Writable (.immediate n) := hdigits
  have hslot : Gen.Writable (.slot n) := trivial
  refine ⟨⟨hword, Gen.load_of_writable r.name himmediate, execute_li m r hword⟩, ?_,
    haddress r, Gen.load_of_writable r.name hslot, execute_lw_eq_bind m r (haddress .fp)⟩
  intro hn
  have hopening : Item.instr ⟨.addi, ["$sp", "$sp", "-" ++ toString n]⟩ ∈ Listing.prologue n :=
    List.mem_of_getElem? (i := 4) rfl
  exact ⟨readInteger_minus hn hdigits, hopening, execute_openFrame m hn hdigits⟩

/-- A machine with data labels that are spelled like memory operands. -/
def shadowedMachine : Machine where
  image := { dataLabels := .ofList [("-4($sp)", (0 : Int)), ("0($fp)", 8)] }
  storage := {}
  console := {}
  pc := 0
  limit := 1

/-- A negative offset is taken from the register though a data label has the same text, and the
frame size zero is read from `-0`. -/
theorem operands_agree_shadowed :
    shadowedMachine.image.dataLabels["-4($sp)"]? = some 0
      ∧ shadowedMachine.address "-4($sp)" = .ok 0x7FFFEFF8
      ∧ readWord "-4" = .ok (-4)
      ∧ (0 : Int) ≤ 0
      ∧ readInteger "-0" = .ok 0
      ∧ shadowedMachine.execute ⟨.addi, ["$sp", "$sp", "-0"]⟩
        = .ok (shadowedMachine.setReg .sp 0x7FFFEFFC) := by
  obtain ⟨⟨hword, _⟩, _, haddress, _⟩ := operands_agree (-4) (by decide) .sp shadowedMachine
  obtain ⟨_, hminus, _⟩ := operands_agree 0 (by decide) .fp shadowedMachine
  obtain ⟨hzero, _, haddi⟩ := hminus (by decide)
  exact ⟨by decide +kernel, haddress, hword, by decide, hzero, haddi⟩

end MicroLang.Machine
