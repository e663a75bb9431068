import MicroLang.Proofs.Execution
import MicroLang.Proofs.ListingRoundTrip

/-!
# The code around a body

Every program is a body in the same template: a prologue that opens the frame, an epilogue that
closes it and exits, and the routines `read` and `write`. This module says where the four are in the
code of an image (`fetch?_body` and so on) and what they do:

> `call_read`: four instructions put the next input into `$v0` and go on behind the call.
> `call_write`: eight instructions print `$a0` and the character at the start of the data, which is
> the newline unless it was overwritten, and go on behind the call.
> `prologue`: four instructions set `$fp` to the bottom of the frame, and write nothing above the
> words for the saved registers.
> `epilogue`: six instructions halt the machine.
-/

namespace MicroLang.Machine

open MicroLang.Assembly

/-- Machines that are running and have the image of a body in the template, and words in their
registers. -/
structure Loaded (body : List Instr) (frameSize : Nat) (m : Machine) : Prop where
  image : m.image = Listing.image body frameSize
  running : m.halted = false
  words : ∀ r, IsWord (m.reg r)

section

variable {body : List Instr} {frameSize : Nat} {m : Machine} {i : Instr}

/-! ## Places in the code -/

/-- An instruction in some segment of the code is fetched at its place. -/
theorem Loaded.fetch?_segment (hm : m.Loaded body frameSize) (pre seg post : List Instr)
    (hcode : (Listing.image body frameSize).code = (pre ++ seg ++ post).toArray) {j : Nat}
    (hpc : m.pc = (pre.length + j : Nat)) (hseg : seg[j]? = some i) : m.fetch? = some i := by
  have hlt : j < seg.length := (List.getElem?_eq_some_iff.mp hseg).1
  unfold Machine.fetch?
  rw [hpc, if_pos (Int.natCast_nonneg _), Int.toNat_natCast, hm.image, hcode, List.getElem?_toArray,
    List.getElem?_append_left (by rw [List.length_append]; omega),
    List.getElem?_append_right (Nat.le_add_right _ _), Nat.add_sub_cancel_left]
  exact hseg

theorem Loaded.fetch?_prologue (hm : m.Loaded body frameSize) {j : Nat} (hpc : m.pc = j)
    (hi : (Listing.prologueCode frameSize)[j]? = some i) : m.fetch? = some i := by
  refine hm.fetch?_segment [] (Listing.prologueCode frameSize)
    (body ++ Listing.epilogueCode frameSize ++ (Listing.readCode ++ Listing.writeCode)) ?_ ?_ hi
  · simp only [Listing.image, List.nil_append, List.append_assoc]
  · rw [hpc, List.length_nil, Nat.zero_add]

theorem Loaded.fetch?_body (hm : m.Loaded body frameSize) {j : Nat} (hpc : m.pc = 4 + j)
    (hi : body[j]? = some i) : m.fetch? = some i := by
  refine hm.fetch?_segment (Listing.prologueCode frameSize) body
    (Listing.epilogueCode frameSize ++ (Listing.readCode ++ Listing.writeCode)) ?_ ?_ hi
  · simp only [Listing.image, List.append_assoc]
  · rw [hpc, Int.natCast_add]
    rfl

theorem Loaded.fetch?_epilogue (hm : m.Loaded body frameSize) {j : Nat}
    (hpc : m.pc = 4 + body.length + j) (hi : (Listing.epilogueCode frameSize)[j]? = some i) :
    m.fetch? = some i := by
  refine hm.fetch?_segment (Listing.prologueCode frameSize ++ body) (Listing.epilogueCode frameSize)
    (Listing.readCode ++ Listing.writeCode) ?_ ?_ hi
  · simp only [Listing.image, List.append_assoc]
  · rw [hpc, List.length_append, Int.natCast_add, Int.natCast_add]
    rfl

theorem Loaded.fetch?_read (hm : m.Loaded body frameSize) {j : Nat}
    (hpc : m.pc = body.length + 10 + j) (hi : Listing.readCode[j]? = some i) :
    m.fetch? = some i := by
  refine hm.fetch?_segment
    (Listing.prologueCode frameSize ++ body ++ Listing.epilogueCode frameSize) Listing.readCode
    Listing.writeCode ?_ ?_ hi
  · simp only [Listing.image, List.append_assoc]
  · simp only [hpc, List.length_append, Int.natCast_add, Listing.prologueCode, Listing.epilogueCode,
      List.length_cons, List.length_nil]
    omega

theorem Loaded.fetch?_write (hm : m.Loaded body frameSize) {j : Nat}
    (hpc : m.pc = body.length + 13 + j) (hi : Listing.writeCode[j]? = some i) :
    m.fetch? = some i := by
  refine hm.fetch?_segment (Listing.prologueCode frameSize ++ body ++ Listing.epilogueCode frameSize
    ++ Listing.readCode) Listing.writeCode [] ?_ ?_ hi
  · simp only [Listing.image, List.append_assoc, List.append_nil]
  · simp only [hpc, List.length_append, Int.natCast_add, Listing.prologueCode, Listing.epilogueCode,
      Listing.readCode, List.length_cons, List.length_nil]
    omega

/-! ## One instruction -/

/-- One instruction that stores no word: it writes a register, unless that is `$zero`, and leaves
the machine at a place and with a console. -/
structure Does (body : List Instr) (frameSize : Nat) (r : Register) (v pc : Int) (console : Console)
    (m m' : Machine) : Prop where
  reaches : Reaches m 1 m'
  loaded : m'.Loaded body frameSize
  pc : m'.pc = pc
  reg : ∀ q, m'.reg q = if q = r ∧ r ≠ .zero then wrap v else m.reg q
  word : ∀ a, m'.word a = m.word a
  console : m'.console = console
  memory : m'.storage.memory = m.storage.memory

theorem Loaded.does (hm : m.Loaded body frameSize) (hfetch : m.fetch? = some i) (r : Register)
    (v pc : Int) (console : Console)
    (hexecute : (m.fetched i).execute i
      = .ok ((((m.fetched i).setReg r v).jump pc).withConsole console)) :
    ∃ m', Does body frameSize r v pc console m m' :=
  ⟨_, .single hm.running hfetch hexecute,
    ⟨hm.image, hm.running, isWord_set hm.words r v⟩, rfl,
    fun q => reg_setReg (m.fetched i) r q v, fun _ => rfl, rfl, rfl⟩

/-- A register only keeps the residue of what is written. -/
theorem Does.congr {m' : Machine} {r : Register} {v v' pc : Int} {console : Console}
    (h : Does body frameSize r v pc console m m') (hv : wrap v = wrap v') :
    Does body frameSize r v' pc console m m' :=
  { h with reg := fun q => by rw [h.reg, hv] }

/-- An instruction that only writes a register. -/
theorem Loaded.sets (hm : m.Loaded body frameSize) (hfetch : m.fetch? = some i) {r : Register}
    {v : Int} (hexecute : (m.fetched i).execute i = .ok ((m.fetched i).setReg r v)) :
    ∃ m', Does body frameSize r v (m.pc + 1) m.console m m' :=
  hm.does hfetch r v (m.pc + 1) m.console hexecute

/-- A call of a routine. -/
theorem Loaded.calls (hm : m.Loaded body frameSize) {label : String} {pc : Int}
    (hfetch : m.fetch? = some ⟨.jal, [label]⟩) (hlabel : m.image.textLabels[label]? = some pc) :
    ∃ m', Does body frameSize .ra (m.pc + 1) pc m.console m m' :=
  hm.does hfetch .ra (m.pc + 1) pc m.console (execute_jal _ hlabel)

/-- The return from a routine. -/
theorem Loaded.returns (hm : m.Loaded body frameSize) (hfetch : m.fetch? = some ⟨.jr, ["$ra"]⟩) :
    ∃ m', Does body frameSize .zero 0 (m.reg .ra) m.console m m' :=
  hm.does hfetch .zero 0 (m.reg .ra) m.console (execute_jr _ .ra)

/-- A system call that reads. -/
theorem Loaded.reads (hm : m.Loaded body frameSize) (hfetch : m.fetch? = some ⟨.syscall, []⟩)
    (hcode : m.reg .v0 = 5) :
    ∃ m', Does body frameSize .v0 m.console.readInt.1 (m.pc + 1) m.console.readInt.2 m m' :=
  hm.does hfetch .v0 m.console.readInt.1 (m.pc + 1) m.console.readInt.2
    (execute_readInt (m.fetched _) hcode)

/-- A system call that prints an integer. -/
theorem Loaded.printsInt (hm : m.Loaded body frameSize) (hfetch : m.fetch? = some ⟨.syscall, []⟩)
    (hcode : m.reg .v0 = 1) :
    ∃ m', Does body frameSize .zero 0 (m.pc + 1) (m.console.write (toString (m.reg .a0))) m m' :=
  hm.does hfetch .zero 0 (m.pc + 1) (m.console.write (toString (m.reg .a0)))
    (execute_printInt (m.fetched _) hcode (hm.words .a0).isShort)

/-- A system call that prints a character. -/
theorem Loaded.printsChar (hm : m.Loaded body frameSize) (hfetch : m.fetch? = some ⟨.syscall, []⟩)
    (hcode : m.reg .v0 = 11) :
    ∃ m', Does body frameSize .zero 0 (m.pc + 1) (m.console.writeChar (m.reg .a0)) m m' :=
  hm.does hfetch .zero 0 (m.pc + 1) (m.console.writeChar (m.reg .a0))
    (execute_printChar (m.fetched _) hcode)

/-- One instruction that stores a word. -/
structure Stores (body : List Instr) (frameSize : Nat) (address v : Int) (m m' : Machine) :
    Prop where
  reaches : Reaches m 1 m'
  loaded : m'.Loaded body frameSize
  pc : m'.pc = m.pc + 1
  reg : ∀ q, m'.reg q = m.reg q
  word : ∀ a, m'.word a = if address = a then wrap v else m.word a
  console : m'.console = m.console
  memory : m'.storage.memory = m.storage.memory.insert address (wrap v)

theorem Loaded.stores (hm : m.Loaded body frameSize) {r : Register} {text : String} {address : Int}
    (hfetch : m.fetch? = some ⟨.sw, [r.name, text]⟩)
    (haddress : (m.fetched ⟨.sw, [r.name, text]⟩).address text = .ok address)
    (haligned : address % 4 = 0) :
    ∃ m', Stores body frameSize address (m.reg r) m m' :=
  ⟨_, .single hm.running hfetch (execute_sw _ r haddress haligned),
    ⟨hm.image, hm.running, hm.words⟩, rfl, fun _ => rfl,
    fun a => word_setWord (m.fetched _) address a (m.reg r), rfl, rfl⟩

/-- The address of a word at an offset from a register. -/
theorem address_offset (m : Machine) (r : Register) {n : Nat} (h : n < 2 ^ 32) :
    m.address (memoryOperand n r.name) = .ok (m.reg r + n) :=
  address_memoryOperand m n r (Text.Numeral.length_toDigits_le h)

/-! ## Routines -/

/-- A machine at the place behind another one's, with the same frame and the same words. -/
structure Follows (body : List Instr) (frameSize : Nat) (m m' : Machine) : Prop where
  loaded : m'.Loaded body frameSize
  pc : m'.pc = m.pc + 1
  fp : m'.reg .fp = m.reg .fp
  word : ∀ a, m'.word a = m.word a

/-- Calling `read` puts the next input into `$v0`. -/
theorem call_read (hm : m.Loaded body frameSize) (hfetch : m.fetch? = some ⟨.jal, ["read"]⟩)
    (hpc : 0 ≤ m.pc) (hpc' : m.pc + 1 < 2 ^ 31) :
    ∃ m', Reaches m 4 m' ∧ m.Follows body frameSize m' ∧ m'.reg .v0 = wrap m.console.readInt.1
      ∧ m'.console = m.console.readInt.2 := by
  have hlabel : m.image.textLabels["read"]? = some ((body.length : Int) + 10) := by
    rw [hm.image]
    rfl
  have hfive : readWord "5" = .ok 5 := rfl
  obtain ⟨m₁, h₁⟩ := hm.calls hfetch hlabel
  obtain ⟨m₂, h₂⟩ := h₁.loaded.sets
    (h₁.loaded.fetch?_read (j := 0) (by rw [h₁.pc]; rfl) rfl) (execute_li _ .v0 hfive)
  obtain ⟨m₃, h₃⟩ := h₂.loaded.reads
    (h₂.loaded.fetch?_read (j := 1) (by rw [h₂.pc, h₁.pc]; rfl) rfl) (by rw [h₂.reg]; rfl)
  obtain ⟨m₄, h₄⟩ := h₃.loaded.returns
    (h₃.loaded.fetch?_read (j := 2) (by rw [h₃.pc, h₂.pc, h₁.pc]; exact Int.add_assoc _ 1 1) rfl)
  -- the place to return to is a 32-bit integer, so it fits into `$ra`
  have hra : m₃.reg .ra = m.pc + 1 := by
    rw [h₃.reg, h₂.reg, h₁.reg]
    exact wrap_eq_self (by omega) hpc'
  have hfp : m₄.reg .fp = m.reg .fp := by
    rw [h₄.reg, h₃.reg, h₂.reg, h₁.reg]
    rfl
  have hword : ∀ a, m₄.word a = m.word a := by
    intro a
    rw [h₄.word, h₃.word, h₂.word, h₁.word]
  have hconsole : m₂.console = m.console := h₂.console.trans h₁.console
  refine ⟨m₄, h₁.reaches.trans (h₂.reaches.trans (h₃.reaches.trans h₄.reaches)),
    ⟨h₄.loaded, h₄.pc.trans hra, hfp, hword⟩, ?_, ?_⟩
  · rw [h₄.reg, h₃.reg, ← hconsole]
    rfl
  · rw [h₄.console, h₃.console, hconsole]

theorem Loaded.address_newline (hm : m.Loaded body frameSize) :
    m.address "newline" = .ok dataBase := by
  have hindexed : indexed? "newline" = none := by decide +kernel
  have hlabel : m.image.dataLabels["newline"]? = some dataBase := by
    rw [hm.image]
    rfl
  unfold address
  rw [hindexed]
  dsimp only
  rw [hlabel]

/-- Calling `write` prints `$a0` and then the character that the data starts with. -/
theorem call_write (hm : m.Loaded body frameSize) (hfetch : m.fetch? = some ⟨.jal, ["write"]⟩)
    (hpc : 0 ≤ m.pc) (hpc' : m.pc + 1 < 2 ^ 31) :
    ∃ m', Reaches m 8 m' ∧ m.Follows body frameSize m'
      ∧ m'.console
        = (m.console.write (toString (m.reg .a0))).writeChar (wrap (m.word dataBase)) := by
  have hlabel : m.image.textLabels["write"]? = some ((body.length : Int) + 13) := by
    rw [hm.image]
    rfl
  have hone : readWord "1" = .ok 1 := rfl
  have heleven : readWord "11" = .ok 11 := rfl
  obtain ⟨m₁, h₁⟩ := hm.calls hfetch hlabel
  obtain ⟨m₂, h₂⟩ := h₁.loaded.sets
    (h₁.loaded.fetch?_write (j := 0) (by rw [h₁.pc]; rfl) rfl)
    (execute_lw _ .t0
      (Loaded.address_newline ⟨h₁.loaded.image, h₁.loaded.running, h₁.loaded.words⟩) (by decide))
  obtain ⟨m₃, h₃⟩ := h₂.loaded.sets
    (h₂.loaded.fetch?_write (j := 1) (by rw [h₂.pc, h₁.pc]; rfl) rfl) (execute_li _ .v0 hone)
  have hpc₃ : m₃.pc = body.length + 13 + 2 := by rw [h₃.pc, h₂.pc, h₁.pc]; omega
  obtain ⟨m₄, h₄⟩ := h₃.loaded.printsInt
    (h₃.loaded.fetch?_write (j := 2) hpc₃ rfl) (by rw [h₃.reg]; rfl)
  have hpc₄ : m₄.pc = body.length + 13 + 3 := by rw [h₄.pc, hpc₃]; omega
  obtain ⟨m₅, h₅⟩ := h₄.loaded.sets
    (h₄.loaded.fetch?_write (j := 3) hpc₄ rfl) (execute_move _ .a0 .t0)
  have hpc₅ : m₅.pc = body.length + 13 + 4 := by rw [h₅.pc, hpc₄]; omega
  obtain ⟨m₆, h₆⟩ := h₅.loaded.sets
    (h₅.loaded.fetch?_write (j := 4) hpc₅ rfl) (execute_li _ .v0 heleven)
  have hpc₆ : m₆.pc = body.length + 13 + 5 := by rw [h₆.pc, hpc₅]; omega
  obtain ⟨m₇, h₇⟩ := h₆.loaded.printsChar
    (h₆.loaded.fetch?_write (j := 5) hpc₆ rfl) (by rw [h₆.reg]; rfl)
  have hpc₇ : m₇.pc = body.length + 13 + 6 := by rw [h₇.pc, hpc₆]; omega
  obtain ⟨m₈, h₈⟩ := h₇.loaded.returns (h₇.loaded.fetch?_write (j := 6) hpc₇ rfl)
  have hra : m₇.reg .ra = m.pc + 1 := by
    rw [h₇.reg, h₆.reg, h₅.reg, h₄.reg, h₃.reg, h₂.reg, h₁.reg]
    exact wrap_eq_self (by omega) hpc'
  have hfp : m₈.reg .fp = m.reg .fp := by
    rw [h₈.reg, h₇.reg, h₆.reg, h₅.reg, h₄.reg, h₃.reg, h₂.reg, h₁.reg]
    rfl
  have hword : ∀ a, m₈.word a = m.word a := by
    intro a
    rw [h₈.word, h₇.word, h₆.word, h₅.word, h₄.word, h₃.word, h₂.word, h₁.word]
  have hprinted : m₃.reg .a0 = m.reg .a0 := by
    rw [h₃.reg, h₂.reg, h₁.reg]
    rfl
  -- the character is loaded first, and waits in `$t0` until the integer is printed
  have ht0 : m₄.reg .t0 = wrap (m.word dataBase) := by
    rw [h₄.reg, h₃.reg, h₂.reg]
    show wrap (m₁.word dataBase) = _
    rw [h₁.word]
  have hline : m₆.reg .a0 = wrap (m.word dataBase) := by
    rw [h₆.reg, h₅.reg]
    show wrap (m₄.reg .t0) = _
    rw [ht0, wrap_wrap]
  refine ⟨m₈, ?_, ⟨h₈.loaded, h₈.pc.trans hra, hfp, hword⟩, ?_⟩
  · exact h₁.reaches.trans (h₂.reaches.trans (h₃.reaches.trans (h₄.reaches.trans
      (h₅.reaches.trans (h₆.reaches.trans (h₇.reaches.trans h₈.reaches))))))
  · rw [h₈.console, h₇.console, h₆.console, h₅.console, h₄.console, h₃.console, h₂.console,
      h₁.console, hprinted, hline]

/-! ## Prologue and epilogue -/

/-- The prologue opens a frame below the top of the stack. It only writes the words for the saved
registers. -/
theorem prologue (hm : m.Loaded body frameSize) (hpc : m.pc = 0) (hsp : m.reg .sp = stackTop)
    (haligned : frameSize % 4 = 0) (hsize : (frameSize : Int) ≤ stackTop) :
    ∃ m', Reaches m 4 m' ∧ m'.Loaded body frameSize ∧ m'.pc = 4
      ∧ m'.reg .fp = stackTop - frameSize ∧ m'.console = m.console
      ∧ ∀ a, a ≠ stackTop - frameSize + 20 → a ≠ stackTop - frameSize + 28 →
        m'.word a = m.word a := by
  have htop : stackTop = 0x7FFFEFFC := rfl
  obtain ⟨m₁, h₁⟩ := hm.sets (hm.fetch?_prologue (j := 0) hpc rfl)
    (execute_openFrame _ (Int.natCast_nonneg frameSize)
      (Text.Numeral.length_toDigits_le (by omega)))
  have hsp₁ : m₁.reg .sp = stackTop - frameSize := by
    rw [h₁.reg, reg_fetched, hsp]
    exact wrap_eq_self (by omega) (by omega)
  have hpc₁ : m₁.pc = 1 := by rw [h₁.pc, hpc]; rfl
  obtain ⟨m₂, h₂⟩ := h₁.loaded.stores (r := .ra) (h₁.loaded.fetch?_prologue (j := 1) hpc₁ rfl)
    (address_offset (n := 20) _ .sp (by decide)) (by rw [reg_fetched, hsp₁]; omega)
  have hpc₂ : m₂.pc = 2 := by rw [h₂.pc, hpc₁]; rfl
  have hsp₂ : m₂.reg .sp = stackTop - frameSize := (h₂.reg .sp).trans hsp₁
  obtain ⟨m₃, h₃⟩ := h₂.loaded.stores (r := .fp) (h₂.loaded.fetch?_prologue (j := 2) hpc₂ rfl)
    (address_offset (n := 28) _ .sp (by decide)) (by rw [reg_fetched, hsp₂]; omega)
  have hpc₃ : m₃.pc = 3 := by rw [h₃.pc, hpc₂]; rfl
  have hsp₃ : m₃.reg .sp = stackTop - frameSize := (h₃.reg .sp).trans hsp₂
  obtain ⟨m₄, h₄⟩ := h₃.loaded.sets (h₃.loaded.fetch?_prologue (j := 3) hpc₃ rfl)
    (execute_move _ .fp .sp)
  refine ⟨m₄, h₁.reaches.trans (h₂.reaches.trans (h₃.reaches.trans h₄.reaches)), h₄.loaded, ?_, ?_,
    ?_, ?_⟩
  · rw [h₄.pc, hpc₃]
    rfl
  · rw [h₄.reg, reg_fetched, hsp₃]
    exact wrap_eq_self (by omega) (by omega)
  · rw [h₄.console, h₃.console, h₂.console, h₁.console]
  · intro a hra hfp
    rw [reg_fetched, hsp₁] at h₂
    rw [reg_fetched, hsp₂] at h₃
    rw [h₄.word, h₃.word, if_neg (by exact Ne.symm hfp), h₂.word, if_neg (by exact Ne.symm hra),
      h₁.word]

/-- The epilogue halts. -/
theorem epilogue (hm : m.Loaded body frameSize) (hpc : m.pc = 4 + body.length)
    (haligned : m.reg .fp % 4 = 0) (hfp : -2 ^ 31 ≤ m.reg .fp) (hfp' : m.reg .fp < 2 ^ 31)
    (hsize : frameSize < 2 ^ 32) :
    ∃ m', Reaches m 6 m' ∧ m'.halted = true ∧ m'.console = m.console := by
  have hclose : readInteger (toString (frameSize : Int)) = .ok (frameSize : Int) :=
    readInteger_toString frameSize (Text.Numeral.length_toDigits_le hsize)
  have hten : readWord "10" = .ok 10 := rfl
  obtain ⟨m₁, h₁⟩ := hm.sets (hm.fetch?_epilogue (j := 0) (by rw [hpc]; rfl) rfl)
    (execute_move _ .sp .fp)
  have hpc₁ : m₁.pc = 4 + body.length + 1 := by rw [h₁.pc, hpc]
  -- the two loads need an aligned stack pointer; what they load does not matter any more
  have hsp₁ : m₁.reg .sp = m.reg .fp := by
    rw [h₁.reg]
    exact wrap_eq_self hfp hfp'
  obtain ⟨m₂, h₂⟩ := h₁.loaded.sets (h₁.loaded.fetch?_epilogue (j := 1) hpc₁ rfl)
    (execute_lw _ .fp (address_offset (n := 28) _ .sp (by decide))
      (by rw [reg_fetched, hsp₁]; omega))
  have hpc₂ : m₂.pc = 4 + body.length + 2 := by rw [h₂.pc, hpc₁]; omega
  have hsp₂ : m₂.reg .sp = m.reg .fp := by
    rw [h₂.reg]
    exact hsp₁
  obtain ⟨m₃, h₃⟩ := h₂.loaded.sets (h₂.loaded.fetch?_epilogue (j := 2) hpc₂ rfl)
    (execute_lw _ .ra (address_offset (n := 20) _ .sp (by decide))
      (by rw [reg_fetched, hsp₂]; omega))
  have hpc₃ : m₃.pc = 4 + body.length + 3 := by rw [h₃.pc, hpc₂]; omega
  obtain ⟨m₄, h₄⟩ := h₃.loaded.sets (h₃.loaded.fetch?_epilogue (j := 3) hpc₃ rfl)
    (execute_addi _ .sp .sp hclose)
  have hpc₄ : m₄.pc = 4 + body.length + 4 := by rw [h₄.pc, hpc₃]; omega
  obtain ⟨m₅, h₅⟩ := h₄.loaded.sets (h₄.loaded.fetch?_epilogue (j := 4) hpc₄ rfl)
    (execute_li _ .v0 hten)
  have hpc₅ : m₅.pc = 4 + body.length + 5 := by rw [h₅.pc, hpc₄]; omega
  have hhalt : Reaches m₅ 1 { m₅.fetched ⟨.syscall, []⟩ with halted := true } :=
    .single h₅.loaded.running (h₅.loaded.fetch?_epilogue (j := 5) hpc₅ rfl)
      (execute_exit _ (by rw [reg_fetched, h₅.reg]; rfl))
  refine ⟨_, h₁.reaches.trans (h₂.reaches.trans (h₃.reaches.trans (h₄.reaches.trans
    (h₅.reaches.trans hhalt)))), rfl, ?_⟩
  show m₅.console = m.console
  rw [h₅.console, h₄.console, h₃.console, h₂.console, h₁.console]

end

end MicroLang.Machine
