import MicroLang.Proofs.Execution

/-!
# What can be seen of a machine

Data words and inputs are kept as they are given, of any size; only registers and stored words are
reduced to 32 bits. Nothing of the rest can be seen. Two machines are `Alike` if they differ at most
in multiples of `2 ^ 32` in their memories and in the inputs that are left; an instruction reads a
word or an input only in order to write it to a register, which keeps the residue, so alike machines
stay alike.

> `execute_alike`: on alike machines an instruction succeeds with alike machines, or fails with the
> same fault.
> `views_eq`: two images that are the same up to multiples of `2 ^ 32` show the same after every
> number of steps, on inputs that are the same up to such multiples and to zeros at the end.
-/

namespace MicroLang.Machine

open MicroLang.Assembly

/-! ## Residues -/

/-- Words at the same address have the same residue; a word that is missing is zero. -/
def SameWords (memory memory' : Std.TreeMap Int Int) : Prop :=
  ∀ address, memory.getD address 0 % 2 ^ 32 = memory'.getD address 0 % 2 ^ 32

/-- Inputs at the same place have the same residue; an input that is missing is zero. -/
def SameInputs (inputs inputs' : List Int) : Prop :=
  ∀ k, inputs.getD k 0 % 2 ^ 32 = inputs'.getD k 0 % 2 ^ 32

/-- Integers with the same residue are kept as the same integer of 32 bits. -/
theorem wrap_congr {v v' : Int} (h : v % 2 ^ 32 = v' % 2 ^ 32) : wrap v = wrap v' := by
  unfold wrap
  rw [← Int.emod_bmod v, ← Int.emod_bmod v']
  exact congrArg (Int.bmod · 0x100000000) h

theorem wrap_emod (v : Int) : wrap v % 2 ^ 32 = v % 2 ^ 32 :=
  Int.bmod_emod

theorem Registers.set_congr (regs : Registers) (r : Register) {v v' : Int}
    (h : v % 2 ^ 32 = v' % 2 ^ 32) : regs.set r v = regs.set r v' := by
  unfold Registers.set
  rw [wrap_congr h]

theorem SameWords.insert {memory memory' : Std.TreeMap Int Int} (h : SameWords memory memory')
    (address v : Int) : SameWords (memory.insert address v) (memory'.insert address v) := by
  intro a
  rw [Std.TreeMap.getD_insert, Std.TreeMap.getD_insert]
  split
  · rfl
  · exact h a

/-- Words of any size cannot be told from their residues. -/
theorem sameWords_map_wrap (memory : Std.TreeMap Int Int) :
    SameWords memory (memory.map fun _ v => wrap v) := by
  intro address
  rw [Std.TreeMap.getD_map, Std.TreeMap.getD_eq_getD_getElem?]
  cases memory[address]? with
  | none => rfl
  | some v => exact (wrap_emod v).symm

/-- Inputs of any size cannot be told from their residues, with or without zeros at the end. -/
theorem sameInputs_map_wrap (inputs : List Int) (zeros : Nat) :
    SameInputs inputs (inputs.map wrap ++ List.replicate zeros 0) := by
  intro k
  rw [List.getD_eq_getElem?_getD, List.getD_eq_getElem?_getD]
  rcases Nat.lt_or_ge k inputs.length with hk | hk
  · rw [List.getElem?_append_left (by simpa using hk), List.getElem?_map,
      List.getElem?_eq_getElem hk]
    exact (wrap_emod _).symm
  · rw [List.getElem?_append_right (by simpa using hk), List.getElem?_eq_none hk,
      List.getElem?_replicate]
    split
    · rfl
    · rfl

/-! ## Alike machines -/

/-- The same code and labels, and words with the same residues. -/
structure AlikeImages (image image' : Image) : Prop where
  code : image.code = image'.code
  textLabels : ∀ name : String, image.textLabels[name]? = image'.textLabels[name]?
  dataLabels : ∀ name : String, image.dataLabels[name]? = image'.dataLabels[name]?
  data : SameWords image.data image'.data

/-- What can be seen of a machine. -/
structure View where
  pc : Int
  tick : Nat
  halted : Bool
  /-- The instruction that was fetched last. -/
  last : Option Instr
  regs : Registers
  output : String
deriving DecidableEq

/-- What is seen of a machine. -/
def view (m : Machine) : View :=
  ⟨m.pc, m.tick, m.halted, m.last, m.storage.regs, m.console.output⟩

/-- Two machines that differ only in multiples of `2 ^ 32`, in words and in inputs. -/
structure Alike (m m' : Machine) : Prop where
  image : AlikeImages m.image m'.image
  view : m.view = m'.view
  limit : m.limit = m'.limit
  memory : SameWords m.storage.memory m'.storage.memory
  input : SameInputs m.console.input m'.console.input

/-- Two results of an instruction: alike machines, or the same fault. -/
inductive Matches : Except Fault Machine → Except Fault Machine → Prop where
  | ok {m m' : Machine} (h : Alike m m') : Matches (.ok m) (.ok m')
  | error (fault : Fault) : Matches (.error fault) (.error fault)

section

variable {m m' : Machine}

theorem Alike.regs (h : Alike m m') : m.storage.regs = m'.storage.regs :=
  congrArg View.regs h.view

theorem Alike.pc (h : Alike m m') : m.pc = m'.pc :=
  congrArg View.pc h.view

theorem Alike.tick (h : Alike m m') : m.tick = m'.tick :=
  congrArg View.tick h.view

theorem Alike.halted (h : Alike m m') : m.halted = m'.halted :=
  congrArg View.halted h.view

theorem Alike.output (h : Alike m m') : m.console.output = m'.console.output :=
  congrArg View.output h.view

/-! ## Changes to alike machines -/

theorem Alike.fetched (h : Alike m m') (i : Instr) : Alike (m.fetched i) (m'.fetched i) where
  image := h.image
  view := by
    show { m.view with pc := m.view.pc + 1, tick := m.view.tick + 1, last := some i } = _
    rw [h.view]
    rfl
  limit := h.limit
  memory := h.memory
  input := h.input

/-- A register keeps the residue of what is written. -/
theorem Alike.setReg (h : Alike m m') (r : Register) {v v' : Int}
    (hv : v % 2 ^ 32 = v' % 2 ^ 32) : Alike (m.setReg r v) (m'.setReg r v') where
  image := h.image
  view := by
    show { m.view with regs := m.view.regs.set r v } = _
    rw [h.view, Registers.set_congr _ r hv]
    rfl
  limit := h.limit
  memory := h.memory
  input := h.input

theorem Alike.setWord (h : Alike m m') (address v : Int) :
    Alike (m.setWord address v) (m'.setWord address v) where
  image := h.image
  view := h.view
  limit := h.limit
  memory := h.memory.insert address (wrap v)
  input := h.input

theorem Alike.jump (h : Alike m m') (pc : Int) : Alike (m.jump pc) (m'.jump pc) where
  image := h.image
  view := by
    show { m.view with pc } = _
    rw [h.view]
    rfl
  limit := h.limit
  memory := h.memory
  input := h.input

theorem Alike.withConsole (h : Alike m m') {console console' : Console}
    (houtput : console.output = console'.output)
    (hinput : SameInputs console.input console'.input) :
    Alike (m.withConsole console) (m'.withConsole console') where
  image := h.image
  view := by
    show { m.view with output := console.output } = _
    rw [h.view, houtput]
    rfl
  limit := h.limit
  memory := h.memory
  input := hinput

theorem Alike.halt (h : Alike m m') :
    Alike { m with halted := true } { m' with halted := true } where
  image := h.image
  view := by
    show { m.view with halted := true } = _
    rw [h.view]
    rfl
  limit := h.limit
  memory := h.memory
  input := h.input

/-- Reading an input: the values and the inputs that are left have the same residues. -/
theorem SameInputs.readInt {c c' : Console} (h : SameInputs c.input c'.input) :
    c.readInt.1 % 2 ^ 32 = c'.readInt.1 % 2 ^ 32
      ∧ SameInputs c.readInt.2.input c'.readInt.2.input := by
  obtain ⟨inputs, output⟩ := c
  obtain ⟨inputs', output'⟩ := c'
  have hvalue : inputs.getD 0 0 % 2 ^ 32 = inputs'.getD 0 0 % 2 ^ 32 := h 0
  have hrest : ∀ k, inputs.getD (k + 1) 0 % 2 ^ 32 = inputs'.getD (k + 1) 0 % 2 ^ 32 :=
    fun k => h (k + 1)
  -- at the end of the inputs nothing is taken, and only zeros are left in the other list
  cases inputs with
  | nil =>
    cases inputs' with
    | nil => exact ⟨hvalue, h⟩
    | cons v' inputs' => exact ⟨hvalue, hrest⟩
  | cons v inputs =>
    cases inputs' with
    | nil => exact ⟨hvalue, hrest⟩
    | cons v' inputs' => exact ⟨hvalue, hrest⟩

theorem output_readInt (c : Console) : c.readInt.2.output = c.output := by
  unfold Console.readInt
  split
  · rfl
  · rfl

/-! ## Instructions on alike machines -/

theorem Matches.bind {α : Type} {x x' : Except Fault α} {f f' : α → Except Fault Machine}
    (hx : x = x') (hf : ∀ a, Matches (f a) (f' a)) : Matches (x >>= f) (x' >>= f') := by
  subst hx
  cases x with
  | error fault => exact .error fault
  | ok a => exact hf a

theorem Alike.readRegister (h : Alike m m') (name : String) :
    m.storage.readRegister name = m'.storage.readRegister name := by
  unfold Storage.readRegister
  rw [h.regs]

theorem Alike.address (h : Alike m m') (operand : String) :
    m.address operand = m'.address operand := by
  unfold Machine.address
  rw [h.image.dataLabels operand]
  split
  · rw [h.readRegister]
  · rfl

theorem Alike.writeRegister (h : Alike m m') (name : String) {v v' : Int}
    (hv : v % 2 ^ 32 = v' % 2 ^ 32) :
    Matches (m.writeRegister name v) (m'.writeRegister name v') := by
  unfold Machine.writeRegister Storage.writeRegister
  cases Storage.register name with
  | error fault => exact .error fault
  | ok r => exact .ok (h.setReg r hv)

/-- A word that is loaded goes to a register. -/
theorem Alike.load (h : Alike m m') (target : String) (address : Int) :
    Matches (m.storage.loadWord address >>= m.writeRegister target)
      (m'.storage.loadWord address >>= m'.writeRegister target) := by
  unfold Storage.loadWord
  cases Storage.checkAligned address with
  | error fault => exact .error fault
  | ok _ => exact h.writeRegister target (h.memory address)

theorem Alike.store (h : Alike m m') (address v : Int) :
    Matches (m.storage.storeWord address v >>= fun storage => pure { m with storage })
      (m'.storage.storeWord address v >>= fun storage => pure { m' with storage }) := by
  unfold Storage.storeWord
  cases Storage.checkAligned address with
  | error fault => exact .error fault
  | ok _ => exact .ok (h.setWord address v)

theorem Alike.systemCall (h : Alike m m') : Matches m.systemCall m'.systemCall := by
  have hcode : m'.storage.regs.v0 = m.storage.regs.v0 := by rw [h.regs]
  unfold Machine.systemCall
  dsimp only
  rw [hcode]
  split
  · rw [printInt_eq, printInt_eq]
    refine .bind (by rw [h.regs]) fun text => .ok (h.withConsole ?_ h.input)
    show m.console.output ++ text = m'.console.output ++ text
    rw [h.output]
  split
  · obtain ⟨hvalue, hrest⟩ := h.input.readInt
    refine .ok ((h.setReg .v0 hvalue).withConsole ?_ hrest)
    rw [output_readInt, output_readInt, h.output]
  split
  · exact .ok h.halt
  split
  · refine .ok (h.withConsole ?_ h.input)
    show m.console.output.push _ = m'.console.output.push _
    rw [h.output, h.regs]
  · exact .error _

theorem execute_alike (h : Alike m m') (i : Instr) : Matches (m.execute i) (m'.execute i) := by
  unfold execute
  split
  · exact .bind rfl fun value => h.writeRegister _ rfl
  · exact .bind (h.address _) fun address => h.load _ address
  · exact .bind (h.address _) fun address => .bind (h.readRegister _) fun v => h.store address v
  · exact .bind (h.readRegister _) fun v => h.writeRegister _ rfl
  · exact .bind (h.readRegister _) fun a => .bind (h.readRegister _) fun b => h.writeRegister _ rfl
  · exact .bind (h.readRegister _) fun a => .bind (h.readRegister _) fun b => h.writeRegister _ rfl
  · exact .bind (h.readRegister _) fun a => .bind rfl fun b => h.writeRegister _ rfl
  · rename_i label _ _
    rw [h.image.textLabels label]
    split
    · exact .ok ((h.setReg .ra (by rw [h.pc])).jump _)
    · exact .error _
  · exact .bind (h.readRegister _) fun pc => .ok (h.jump pc)
  · exact h.systemCall
  · exact .error _

/-! ## Steps of alike machines -/

/-- The instruction at the same place of the same code. -/
theorem Alike.fetch? (h : Alike m m') : m.fetch? = m'.fetch? := by
  unfold Machine.fetch?
  rw [h.pc, h.image.code]

/-- A step succeeds on both machines or fails on both with the same fault, and leaves them alike. -/
theorem Alike.step (h : Alike m m') : m.step.1 = m'.step.1 ∧ Alike m.step.2 m'.step.2 := by
  by_cases hhalted : m.halted = true
  · rw [step_of_halted hhalted, step_of_halted (h.halted ▸ hhalted)]
    exact ⟨rfl, h⟩
  have hrunning : m.halted = false := Bool.eq_false_iff.mpr hhalted
  have hrunning' : m'.halted = false := h.halted ▸ hrunning
  rcases Int.lt_or_le m.tick m.limit with hlimit | hlimit
  · have hlimit' : (m'.tick : Int) < m'.limit := by rwa [← h.tick, ← h.limit]
    cases hfetch : m.fetch? with
    | none =>
      rw [step_of_fetch_none hrunning hlimit hfetch,
        step_of_fetch_none hrunning' hlimit' (h.fetch? ▸ hfetch), h.pc]
      exact ⟨rfl, h⟩
    | some i =>
      have hfetch' : m'.fetch? = some i := h.fetch? ▸ hfetch
      have hresults := execute_alike (h.fetched i) i
      generalize hexecute : (m.fetched i).execute i = result at hresults
      generalize hexecute' : (m'.fetched i).execute i = result' at hresults
      cases hresults with
      | ok hnext =>
        rw [step_eq_ok hrunning hlimit hfetch hexecute,
          step_eq_ok hrunning' hlimit' hfetch' hexecute']
        exact ⟨rfl, hnext⟩
      | error fault =>
        rw [step_eq_error hrunning hlimit hfetch hexecute,
          step_eq_error hrunning' hlimit' hfetch' hexecute']
        exact ⟨rfl, h.fetched i⟩
  · rw [step_of_limit_le hrunning hlimit,
      step_of_limit_le hrunning' (by rwa [← h.tick, ← h.limit]), h.limit]
    exact ⟨rfl, h⟩

/-- The machine after a number of steps, whether they succeed or fail. -/
def stepped : (n : Nat) → Machine → Machine
  | 0, m => m
  | n + 1, m => stepped n m.step.2

theorem Alike.stepped (h : Alike m m') (n : Nat) : Alike (stepped n m) (stepped n m') := by
  induction n generalizing m m' with
  | zero => exact h
  | succ n ih => exact ih h.step.2

end

/-! ## Runs from alike images -/

/-- Booting finds the entry in both images or in neither of them. -/
theorem boot_alike {image image' : Image} {inputs inputs' : List Int}
    (himage : AlikeImages image image') (hinputs : SameInputs inputs inputs') (limit : Int)
    (entry : String) :
    Matches (boot image inputs limit entry) (boot image' inputs' limit entry) := by
  unfold boot
  rw [himage.textLabels entry]
  split
  · exact .ok ⟨himage, rfl, rfl, himage.data, hinputs⟩
  · exact .error _

/-- Images with the same code and labels, whose words agree modulo `2 ^ 32`, on inputs that agree
modulo `2 ^ 32`, both have no entry, or show the same after every number of steps, and the next step
succeeds on both or fails on both with the same fault. So it cannot be seen whether words and inputs
are reduced to 32 bits before they are used, nor whether zeros follow the inputs. -/
theorem views_eq :
    (∀ (image image' : Image) (inputs inputs' : List Int) (limit : Int) (entry : String),
      AlikeImages image image' → SameInputs inputs inputs' →
        (∃ fault, boot image inputs limit entry = .error fault
          ∧ boot image' inputs' limit entry = .error fault)
        ∨ ∃ m m', boot image inputs limit entry = .ok m
          ∧ boot image' inputs' limit entry = .ok m'
          ∧ ∀ n, (stepped n m).view = (stepped n m').view
            ∧ (stepped n m).step.1 = (stepped n m').step.1)
    ∧ ∀ (image : Image) (inputs : List Int) (zeros : Nat),
        AlikeImages image { image with data := image.data.map fun _ v => wrap v }
          ∧ SameInputs inputs (inputs.map wrap ++ List.replicate zeros 0) := by
  refine ⟨?_, ?_⟩
  · intro image image' inputs inputs' limit entry himage hinputs
    have hboot := boot_alike himage hinputs limit entry
    generalize boot image inputs limit entry = result at hboot ⊢
    generalize boot image' inputs' limit entry = result' at hboot ⊢
    cases hboot with
    | error fault => exact .inl ⟨fault, rfl, rfl⟩
    | ok h =>
      refine .inr ⟨_, _, rfl, rfl, ?_⟩
      intro n
      exact ⟨(h.stepped n).view, (h.stepped n).step.1⟩
  · intro image inputs zeros
    exact ⟨⟨rfl, fun _ => rfl, fun _ => rfl, sameWords_map_wrap image.data⟩,
      sameInputs_map_wrap inputs zeros⟩

/-- The image of a program that prints the sum of an input and a data word. -/
def addingImage (value : Int) : Image where
  code := #[⟨.lw, ["$t0", "w"]⟩, ⟨.li, ["$v0", "5"]⟩, ⟨.syscall, []⟩,
    ⟨.add, ["$a0", "$v0", "$t0"]⟩, ⟨.li, ["$v0", "1"]⟩, ⟨.syscall, []⟩]
  textLabels := Std.TreeMap.empty.insert "main" 0
  dataLabels := Std.TreeMap.empty.insert "w" dataBase
  data := Std.TreeMap.empty.insert dataBase value

theorem boot_addingImage (value : Int) (inputs : List Int) (limit : Int) :
    boot (addingImage value) inputs limit "main" = .ok
      { image := addingImage value, storage := { memory := (addingImage value).data },
        console := { input := inputs }, pc := 0, limit } := by
  have hentry : (addingImage value).textLabels["main"]? = some 0 :=
    Std.TreeMap.getElem?_insert_self
  unfold boot
  rw [hentry]

/-- An oversized word and an oversized input are seen as small ones, and a zero behind the input is
not seen. -/
theorem views_eq_adding :
    AlikeImages (addingImage (2 ^ 32 + 7)) (addingImage 7) ∧ SameInputs [5 - 2 ^ 32] [5, 0]
      ∧ ∃ m m', boot (addingImage (2 ^ 32 + 7)) [5 - 2 ^ 32] 9 "main" = .ok m
        ∧ boot (addingImage 7) [5, 0] 9 "main" = .ok m'
        ∧ (∀ n, (stepped n m).view = (stepped n m').view)
        ∧ (stepped 6 m).console.output = "12" := by
  have himages : AlikeImages (addingImage (2 ^ 32 + 7)) (addingImage 7) := by
    refine ⟨rfl, fun _ => rfl, fun _ => rfl, ?_⟩
    intro address
    show (Std.TreeMap.insert _ dataBase _).getD address 0 % 2 ^ 32
      = (Std.TreeMap.insert _ dataBase _).getD address 0 % 2 ^ 32
    rw [Std.TreeMap.getD_insert, Std.TreeMap.getD_insert]
    split
    · rfl
    · rfl
  have hinputs : SameInputs [5 - 2 ^ 32] [5, 0] := by
    rintro (_ | _ | k)
    · rfl
    · rfl
    · rfl
  refine ⟨himages, hinputs, ?_⟩
  rcases views_eq.1 _ _ _ _ 9 "main" himages hinputs with ⟨_, hnone, _⟩ | ⟨m, m', hm, hm', hviews⟩
  · rw [boot_addingImage] at hnone
    cases hnone
  · refine ⟨m, m', hm, hm', fun n => (hviews n).1, ?_⟩
    rw [boot_addingImage] at hm
    cases hm
    decide +kernel

end MicroLang.Machine
