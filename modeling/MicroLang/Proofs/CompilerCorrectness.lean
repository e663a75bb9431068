import MicroLang.Compile
import MicroLang.Proofs.Generation
import MicroLang.Proofs.Semantics
import MicroLang.Proofs.SourceParsing
import MicroLang.Proofs.Template

/-!
# Compiled programs print what they mean

The listing of a program, run on any inputs, prints what the reference interpreter prints. The
machine computes with residues at every step and the interpreter reduces only what it prints;
residues are enough, as sums and differences respect them.

`Simulates last g w m` ties three things together in the middle of a program: the generator `g` that
has made the code so far, the interpreter's world `w` and the machine `m` that has run that code.
Each variable with a slot has the residue of its value there, a variable without one is still zero,
and all words above the slots given out so far are zero, so that a new slot starts as the
interpreter's variables do. `last` is the generator at the end of the program, which fixes the code
that is loaded and the size of the frame.

A generating step `Implements` what the interpreter does if it keeps the relation, in a given number
of instructions. Expressions, statements and lists of them are taken in turn.
-/

namespace MicroLang.Simulation

open MicroLang.Assembly
open MicroLang.Machine
open MicroLang.Program (Expr Operator Routine World)
open MicroLang.Program.Grammar (HasLiteral)
open MicroLang.Sequencing

/-! ## The relation -/

/-- The address in `$fp`: the bottom of the frame. -/
def bottom (last : Generator) : Int :=
  stackTop - last.frame.size

/-- The frame stays above the data, and places in the code are 32-bit integers. -/
structure Fits (last : Generator) : Prop where
  valid : last.frame.Valid
  frame : (last.frame.size : Int) ≤ stackTop - dataBase
  code : last.code.size + 20 < 2 ^ 31

/-- Generator, world and machine agree. -/
structure Simulates (last g : Generator) (w : World) (m : Machine) : Prop where
  loaded : m.Loaded last.code.toList last.frame.size
  pc : m.pc = 4 + (g.code.size : Int)
  fp : m.reg .fp = bottom last
  slot : ∀ x offset, g.frame.slot? x = some offset → m.word (bottom last + offset) = wrap (w.env x)
  unset : ∀ x, g.frame.slot? x = none → w.env x = 0
  fresh : ∀ a, bottom last + g.frame.size ≤ a → m.word a = 0
  newline : m.word dataBase = 10
  console : m.console = ⟨w.input, w.output⟩

/-- An operand has a value: as it is, or up to residue in its slot. -/
def Holds (last g : Generator) (m : Machine) (v : Int) : Operand → Prop
  | .immediate n => n = v ∧ n.natAbs < 2 ^ 31
  | .slot offset => ∃ k : Nat, offset = k ∧ k % 4 = 0 ∧ k < g.frame.size
    ∧ m.word (bottom last + k) = wrap v

variable {last g g' : Generator} {w : World} {m m' : Machine}

/-- Slots lie above the newline and below the top of the stack, at multiples of four. -/
theorem Fits.slot (hlast : Fits last) {k : Nat} (haligned : k % 4 = 0) :
    (bottom last + k) % 4 = 0 ∧ dataBase ≤ bottom last ∧ last.frame.size < 2 ^ 31 := by
  have htop : stackTop = 0x7FFFEFFC := rfl
  have hdata : dataBase = 0x10010000 := rfl
  have hframe := hlast.frame
  have hsize : last.frame.size % 4 = 0 := hlast.valid.aligned
  unfold bottom
  omega

/-- Words below a bound keep what an operand holds. -/
theorem Holds.of_words {operand : Operand} {v : Int} (h : Holds last g m v operand)
    (hsize : g.frame.size ≤ g'.frame.size)
    (hwords : ∀ a, a < bottom last + g.frame.size → m'.word a = m.word a) :
    Holds last g' m' v operand := by
  cases operand with
  | immediate n => exact h
  | slot offset =>
    obtain ⟨k, rfl, haligned, hk, hword⟩ := h
    exact ⟨k, rfl, haligned, by omega, by rw [hwords _ (by omega), hword]⟩

/-! ## Emitted code -/

/-- What was emitted is in the code that is loaded, behind what was there before. -/
theorem fetch?_emitted (hloaded : m.Loaded last.code.toList last.frame.size)
    (hext : g'.Extends last) {code : List Instr} (hcode : g'.code.toList = g.code.toList ++ code)
    {j : Nat} {i : Instr} (hpc : m.pc = 4 + (g.code.size : Int) + j) (hi : code[j]? = some i) :
    m.fetch? = some i := by
  obtain ⟨more, hmore⟩ := hext.code_prefix
  have hj : j < code.length := (List.getElem?_eq_some_iff.mp hi).1
  refine hloaded.fetch?_body (j := g.code.size + j) (by rw [hpc]; omega) ?_
  rw [← hmore, hcode, List.append_assoc, ← Array.length_toList,
    List.getElem?_append_right (Nat.le_add_right _ _), Nat.add_sub_cancel_left,
    List.getElem?_append_left hj]
  exact hi

theorem address_slot (last : Generator) (hfp : m.reg .fp = bottom last) {k : Nat}
    (hk : k < 2 ^ 32) :
    m.address (Gen.slotOperand k) = .ok (bottom last + k) := by
  rw [← hfp]
  exact address_offset m .fp hk

/-- Loading an operand puts its value into a register. -/
theorem loads (hlast : Fits last) (hloaded : m.Loaded last.code.toList last.frame.size)
    (hfp : m.reg .fp = bottom last) (hsize : g.frame.size ≤ last.frame.size) {r : Register}
    {operand : Operand} {v : Int} (hfetch : m.fetch? = some (Gen.loadInstr r.name operand))
    (hholds : Holds last g m v operand) :
    ∃ m', Does last.code.toList last.frame.size r v (m.pc + 1) m.console m m' := by
  cases operand with
  | immediate n =>
    obtain ⟨rfl, hn⟩ := hholds
    have hdigits := Text.Numeral.length_toDigits_le (Nat.lt_trans hn (by decide))
    exact hloaded.sets hfetch (execute_li _ r (readWord_toString n hdigits))
  | slot offset =>
    obtain ⟨k, rfl, haligned, hk, hword⟩ := hholds
    obtain ⟨haddress, _, hlimit⟩ := hlast.slot haligned
    have hsource := address_slot (m := m.fetched (Gen.loadInstr r.name (.slot k))) last hfp
      (k := k) (by omega)
    obtain ⟨m', h⟩ := hloaded.sets hfetch (execute_lw _ r hsource haddress)
    refine ⟨m', h.congr ?_⟩
    rw [word_fetched, hword, wrap_wrap]

/-- The machine's operators compute the residues of the results. -/
theorem computes (op : Operator) (hloaded : m.Loaded last.code.toList last.frame.size) {x y : Int}
    (hfetch : m.fetch? = some ⟨Gen.opcodeOf op, ["$t0", "$t0", "$t1"]⟩) (hx : m.reg .t0 = wrap x)
    (hy : m.reg .t1 = wrap y) :
    ∃ m', Does last.code.toList last.frame.size .t0 (op.apply x y) (m.pc + 1) m.console m m' := by
  cases op with
  | add =>
    obtain ⟨m', h⟩ := hloaded.sets hfetch (execute_add _ .t0 .t0 .t1)
    refine ⟨m', h.congr ?_⟩
    rw [reg_fetched, reg_fetched, hx, hy]
    exact wrap_add_wrap x y
  | sub =>
    obtain ⟨m', h⟩ := hloaded.sets hfetch (execute_sub _ .t0 .t0 .t1)
    refine ⟨m', h.congr ?_⟩
    rw [reg_fetched, reg_fetched, hx, hy]
    exact wrap_sub_wrap x y

/-- A word stored into a slot that is not given out yet disturbs nothing. -/
theorem Simulates.of_stores (hlast : Fits last) (hvalid : g.frame.Valid)
    (hsim : Simulates last g w m) {v : Int}
    (hwords : ∀ a, m'.word a = if bottom last + g.frame.size = a then wrap v else m.word a)
    (hloaded : m'.Loaded last.code.toList last.frame.size)
    (hpc : m'.pc = 4 + (g'.code.size : Int)) (hfp : m'.reg .fp = m.reg .fp)
    (hconsole : m'.console = m.console) (hframe : g'.frame = g.frame.grow.2) :
    Simulates last g' w m' where
  loaded := hloaded
  pc := hpc
  fp := hfp.trans hsim.fp
  slot := by
    intro x offset hslot
    rw [hframe] at hslot
    obtain ⟨_, _, hbelow⟩ := hvalid.slot _ (Frame.mem_slots_of_slot? hslot)
    rw [hwords, if_neg (by omega)]
    exact hsim.slot x offset hslot
  unset := by
    intro x hslot
    rw [hframe] at hslot
    exact hsim.unset x hslot
  fresh := by
    intro a ha
    rw [hframe] at ha
    have hgrown : g.frame.grow.2.size = g.frame.size + 4 := rfl
    rw [hwords, if_neg (by omega)]
    exact hsim.fresh a (by omega)
  newline := by
    -- the newline is below the frame
    obtain ⟨_, hbottom, _⟩ := hlast.slot (k := 0) rfl
    have habove := hvalid.above
    rw [hwords, if_neg (by omega)]
    exact hsim.newline
  console := hconsole.trans hsim.console

/-- Applying an operator leaves its result in a new slot. -/
theorem apply_step (hlast : Fits last) (hvalid : g.frame.Valid) (hsim : Simulates last g w m)
    {op : Operator} {lhs rhs operand : Operand} {x y : Int}
    (hgen : Gen.apply op lhs rhs g = .ok operand g') (hext : g'.Extends last)
    (hx : Holds last g m x lhs) (hy : Holds last g m y rhs) :
    ∃ m', Reaches m 4 m' ∧ Simulates last g' w m' ∧ Holds last g' m' (op.apply x y) operand
      ∧ ∀ a, a < bottom last + g.frame.size → m'.word a = m.word a := by
  have hsize := hext.size
  obtain ⟨_, _, rfl, rfl⟩ := Gen.apply_eq_ok hgen
  replace hsize : g.frame.size + 4 ≤ last.frame.size := hsize
  have haligned : g.frame.size % 4 = 0 := hvalid.aligned
  obtain ⟨haddress, _, hlimit⟩ := hlast.slot haligned
  -- the four instructions, at their places
  have hfetch : ∀ {m : Machine} (j : Nat) (i : Instr), m.Loaded last.code.toList last.frame.size →
      m.pc = 4 + (g.code.size : Int) + j → [Gen.loadInstr "$t0" lhs, Gen.loadInstr "$t1" rhs,
        ⟨Gen.opcodeOf op, ["$t0", "$t0", "$t1"]⟩, ⟨.sw, ["$t0", Gen.slotOperand g.frame.size]⟩][j]?
        = some i → m.fetch? = some i := by
    intro m j i hloaded hpc hi
    exact fetch?_emitted hloaded hext (by simp) hpc hi
  obtain ⟨m₁, h₁⟩ := loads hlast hsim.loaded hsim.fp (by omega) (r := .t0)
    (hfetch 0 _ hsim.loaded (by rw [hsim.pc]; omega) rfl) hx
  have hpc₁ : m₁.pc = 4 + (g.code.size : Int) + 1 := by rw [h₁.pc, hsim.pc]
  have hfp₁ : m₁.reg .fp = bottom last := by
    rw [h₁.reg]
    exact hsim.fp
  obtain ⟨m₂, h₂⟩ := loads hlast h₁.loaded hfp₁ (g := g) (by omega) (r := .t1)
    (hfetch 1 _ h₁.loaded hpc₁ rfl) (hy.of_words (Nat.le_refl _) fun a _ => h₁.word a)
  have hpc₂ : m₂.pc = 4 + (g.code.size : Int) + 2 := by rw [h₂.pc, hpc₁]; omega
  have ht0 : m₂.reg .t0 = wrap x := by
    rw [h₂.reg, h₁.reg]
    rfl
  obtain ⟨m₃, h₃⟩ := computes op h₂.loaded (hfetch 2 _ h₂.loaded hpc₂ rfl) ht0
    (by rw [h₂.reg]; rfl)
  have hpc₃ : m₃.pc = 4 + (g.code.size : Int) + 3 := by rw [h₃.pc, hpc₂]; omega
  have hfp₃ : m₃.reg .fp = bottom last := by
    rw [h₃.reg, h₂.reg]
    exact hfp₁
  obtain ⟨m₄, h₄⟩ := h₃.loaded.stores (r := .t0) (hfetch 3 _ h₃.loaded hpc₃ rfl)
    (address_slot (m := m₃.fetched _) last hfp₃ (by omega)) haddress
  -- only the last of them writes to memory
  have hwords : ∀ a, m₄.word a
      = if bottom last + g.frame.size = a then wrap (op.apply x y) else m.word a := by
    intro a
    have hresult : wrap (m₃.reg .t0) = wrap (op.apply x y) := by
      rw [h₃.reg]
      exact wrap_wrap _
    rw [h₄.word, hresult, h₃.word, h₂.word, h₁.word]
  refine ⟨m₄, h₁.reaches.trans (h₂.reaches.trans (h₃.reaches.trans h₄.reaches)), ?_, ?_, ?_⟩
  · refine hsim.of_stores hlast hvalid hwords h₄.loaded ?_ ?_ ?_ rfl
    · rw [h₄.pc, hpc₃]
      simp only [Generator.size_push]
      omega
    · rw [h₄.reg, hfp₃, hsim.fp]
    · rw [h₄.console, h₃.console, h₂.console, h₁.console]
  · refine ⟨g.frame.size, rfl, haligned, Nat.lt_add_of_pos_right (by decide), ?_⟩
    rw [hwords, if_pos rfl]
  · intro a ha
    rw [hwords, if_neg (by omega)]

/-! ## Expressions -/

/-- Giving a variable a slot changes nothing for the machine: a new slot is zero, as a variable
without one is. -/
theorem variableSlot_step (hsim : Simulates last g w m) {name : String} {offset : Nat}
    (hgen : Gen.variableSlot name g = .ok offset g') :
    Simulates last g' w m ∧ g'.frame.slot? name = some offset ∧ g'.code = g.code := by
  cases hslot : g.frame.slot? name with
  | some known =>
    rw [Gen.variableSlot_of_some hslot] at hgen
    cases hgen
    exact ⟨hsim, hslot, rfl⟩
  | none =>
    rw [Gen.variableSlot_of_none hslot] at hgen
    cases hgen
    have hbind : (g.frame.bind name).2.slot? name = some g.frame.size := by
      rw [Frame.slot?_bind _ hslot, if_pos rfl]
    refine ⟨⟨hsim.loaded, hsim.pc, hsim.fp, ?_, ?_, ?_, hsim.newline, hsim.console⟩, hbind, rfl⟩
    · intro x offset hx
      replace hx : (g.frame.bind name).2.slot? x = some offset := hx
      by_cases hname : x = name
      · -- the new slot is a fresh word, and the variable was never set
        subst hname
        rw [hbind] at hx
        cases hx
        rw [hsim.fresh _ (Int.le_refl _), hsim.unset x hslot]
        rfl
      · rw [Frame.slot?_bind _ hslot, if_neg hname] at hx
        exact hsim.slot x offset hx
    · intro x hx
      replace hx : (g.frame.bind name).2.slot? x = none := hx
      by_cases hname : x = name
      · rw [hname, hbind] at hx
        cases hx
      · rw [Frame.slot?_bind _ hslot, if_neg hname] at hx
        exact hsim.unset x hx
    · intro a ha
      replace ha : bottom last + (g.frame.size + 4 : Nat) ≤ a := ha
      exact hsim.fresh a (by omega)

/-- The code of an expression, run to its end, leaves the value of the expression in its operand. It
keeps the words below the slots that it was given. -/
theorem expression_step (hlast : Fits last) (e : Expr) {operand : Operand}
    (hgen : Gen.expression e g = .ok operand g') (hext : g'.Extends last) (hvalid : g.frame.Valid)
    (hliterals : ∀ v, HasLiteral v e → v.natAbs < 2 ^ 31) (hsim : Simulates last g w m) :
    ∃ v m', e.value w.env = some v ∧ Reaches m (4 * e.operators) m' ∧ Simulates last g' w m'
      ∧ Holds last g' m' v operand
      ∧ ∀ a, a < bottom last + g.frame.size → m'.word a = m.word a := by
  -- the world stays the same all along, as an expression only computes
  induction e using chainInduction generalizing g g' m operand with
  | int n =>
    rw [Gen.expression_int] at hgen
    cases hgen
    exact ⟨n, m, rfl, .refl m, hsim, ⟨rfl, hliterals n .int⟩, fun _ _ => rfl⟩
  | var name =>
    rw [Gen.expression_var] at hgen
    obtain ⟨offset, mid, hslot, h⟩ := bind_eq_ok.mp hgen
    cases h
    have hgrown := (Gen.grows_variableSlot name).extends_of_ok hslot
    obtain ⟨hsim', hslot', _⟩ := variableSlot_step hsim hslot
    obtain ⟨haligned, _, hbelow⟩ :=
      (hgrown.valid hvalid).slot _ (Frame.mem_slots_of_slot? hslot')
    exact ⟨w.env name, m, rfl, .refl m, hsim',
      ⟨offset, rfl, haligned, hbelow, hsim'.slot name offset hslot'⟩, fun _ _ => rfl⟩
  | binary op lhs rhs ihl ihr =>
    rw [Gen.expression_binary] at hgen
    obtain ⟨a, g₁, hlhs, h⟩ := bind_eq_ok.mp hgen
    obtain ⟨b, g₂, hrhs, happly⟩ := bind_eq_ok.mp h
    have hext₁ := (Gen.grows_expression lhs).extends_of_ok hlhs
    have hext₂ := (Gen.grows_expression rhs).extends_of_ok hrhs
    have hlast₂ := ((Gen.grows_apply op a b).extends_of_ok happly).trans hext
    have hvalid₁ := hext₁.valid hvalid
    obtain ⟨x, m₁, hx, hreach₁, hsim₁, hholds₁, hwords₁⟩ := ihl hlhs (hext₂.trans hlast₂) hvalid
      (fun v hv => hliterals v (.left op rhs hv)) hsim
    obtain ⟨y, m₂, hy, hreach₂, hsim₂, hholds₂, hwords₂⟩ := ihr hrhs hlast₂ hvalid₁
      (fun v hv => hliterals v (.right op lhs hv)) hsim₁
    -- the left operand is below the slots that the right one was given
    obtain ⟨m₃, hreach₃, hsim₃, hholds₃, hwords₃⟩ := apply_step hlast (hext₂.valid hvalid₁) hsim₂
      happly hext (hholds₁.of_words hext₂.size hwords₂) hholds₂
    refine ⟨op.apply x y, m₃, ?_, ?_, hsim₃, hholds₃, ?_⟩
    · unfold Expr.value
      rw [hx, hy]
      rfl
    · have hlength : 4 * (Expr.binary op lhs rhs).operators
          = 4 * lhs.operators + (4 * rhs.operators + 4) := by
        show 4 * (lhs.operators + rhs.operators + 1) = _
        omega
      rw [hlength]
      exact hreach₁.trans (hreach₂.trans hreach₃)
    · intro a ha
      have hsize₁ := hext₁.size
      have hsize₂ := hext₂.size
      rw [hwords₃ a (by omega), hwords₂ a (by omega), hwords₁ a ha]
  | call routine args =>
    rw [Gen.expression_call] at hgen
    cases hgen
  | assign name value =>
    rw [Gen.expression_assign] at hgen
    cases hgen

/-! ## Statements -/

/-- Storing a register into the slot of a variable sets the variable. -/
theorem store_step (hlast : Fits last) (hvalid : g.frame.Valid) (hsim : Simulates last g w m)
    {r : Register} {name : String} {offset : Nat} {v : Int}
    (hslot : g.frame.slot? name = some offset) (hreg : m.reg r = wrap v)
    (hext : (g.push ⟨.sw, [r.name, Gen.slotOperand offset]⟩).Extends last) :
    ∃ m', Reaches m 1 m'
      ∧ Simulates last (g.push ⟨.sw, [r.name, Gen.slotOperand offset]⟩) (w.set name v) m' := by
  obtain ⟨haligned, habove, hbelow⟩ := hvalid.slot _ (Frame.mem_slots_of_slot? hslot)
  obtain ⟨haddress, hbottom, hlimit⟩ := hlast.slot haligned
  have hsize : g.frame.size ≤ last.frame.size := hext.size
  have hfetch : m.fetch? = some ⟨.sw, [r.name, Gen.slotOperand offset]⟩ :=
    fetch?_emitted (j := 0) hsim.loaded hext (g.toList_push _) (by rw [hsim.pc]; omega) rfl
  obtain ⟨m', h⟩ := hsim.loaded.stores hfetch
    (address_slot (m := m.fetched _) last hsim.fp (by omega)) haddress
  have hword : ∀ a, m'.word a = if bottom last + offset = a then wrap v else m.word a := by
    intro a
    rw [h.word, hreg, wrap_wrap]
  refine ⟨m', h.reaches, ⟨h.loaded, ?_, (h.reg .fp).trans hsim.fp, ?_, ?_, ?_, ?_,
    h.console.trans hsim.console⟩⟩
  · rw [h.pc, hsim.pc, Generator.size_push]
    omega
  · intro x other hx
    replace hx : g.frame.slot? x = some other := hx
    show _ = wrap (if x = name then v else w.env x)
    by_cases hname : x = name
    · subst hname
      rw [hslot] at hx
      cases hx
      rw [hword, if_pos rfl, if_pos rfl]
    · -- another variable has another slot
      have hne : offset ≠ other := by
        rintro rfl
        exact hname (hvalid.slot?_inj hx hslot)
      rw [hword, if_neg (by omega), if_neg hname]
      exact hsim.slot x other hx
  · intro x hx
    replace hx : g.frame.slot? x = none := hx
    show (if x = name then v else w.env x) = 0
    by_cases hname : x = name
    · rw [hname, hslot] at hx
      cases hx
    · rw [if_neg hname]
      exact hsim.unset x hx
  · intro a ha
    replace ha : bottom last + g.frame.size ≤ a := ha
    rw [hword, if_neg (by omega)]
    exact hsim.fresh a ha
  · rw [hword, if_neg (by omega)]
    exact hsim.newline

/-- An instruction or a call that keeps the frame and the words leads to the next place. -/
theorem Simulates.of_follows (hsim : Simulates last g w m) {w' : World}
    (h : m.Follows last.code.toList last.frame.size m') (hsize : g'.code.size = g.code.size + 1)
    (hframe : g'.frame = g.frame) (henv : w'.env = w.env)
    (hconsole : m'.console = ⟨w'.input, w'.output⟩) : Simulates last g' w' m' where
  loaded := h.loaded
  pc := by rw [h.pc, hsim.pc, hsize, Int.natCast_add, Int.add_assoc]; rfl
  fp := h.fp.trans hsim.fp
  slot := by
    intro x offset hx
    rw [hframe] at hx
    rw [h.word, henv]
    exact hsim.slot x offset hx
  unset := by
    intro x hx
    rw [hframe] at hx
    rw [henv]
    exact hsim.unset x hx
  fresh := by
    intro a ha
    rw [hframe] at ha
    rw [h.word]
    exact hsim.fresh a ha
  newline := by rw [h.word, hsim.newline]
  console := hconsole

/-- The next place in the code is a 32-bit integer. -/
theorem Simulates.pc_lt (hlast : Fits last) (hsim : Simulates last g w m)
    (hsize : g.code.size ≤ last.code.size) : 0 ≤ m.pc ∧ m.pc + 1 < 2 ^ 31 := by
  have hcode := hlast.code
  rw [hsim.pc]
  omega

/-- Code made by a generating step does to the machine what some function does to the world, in a
given number of instructions; so the step succeeds only where the function does. -/
def Implements (last : Generator) (x : Gen Unit) (run : World → Option World) (n : Nat) : Prop :=
  ∀ (g g' : Generator) (w : World) (m : Machine), x g = .ok () g' → g'.Extends last →
    g.frame.Valid → Simulates last g w m →
    ∃ w' m', run w = some w' ∧ Reaches m n m' ∧ Simulates last g' w' m'

/-- Steps one after the other do what the functions do one after the other. -/
theorem implements_forM {f : Expr → Gen Unit} {run : World → Expr → Option World}
    {length : Expr → Nat} (l : List Expr)
    (hf : ∀ e ∈ l, Implements last (f e) (fun w => run w e) (length e))
    (hgrows : ∀ e, Gen.Grows (f e)) :
    Implements last (l.forM f) (fun w => l.foldlM run w) (l.map length).sum := by
  induction l with
  | nil =>
    intro g g' w m hgen _ _ hsim
    cases hgen
    exact ⟨w, m, rfl, .refl m, hsim⟩
  | cons e l ih =>
    intro g g' w m hgen hext hvalid hsim
    obtain ⟨_, mid, hfirst, hrest⟩ := bind_eq_ok.mp hgen
    -- what the first step made is still there in the end, as all others only add to it
    have hmid := (hgrows e).extends_of_ok hfirst
    have hlast := ((Gen.grows_forM hgrows l).extends_of_ok hrest).trans hext
    obtain ⟨w₁, m₁, hrun₁, hreach₁, hsim₁⟩ :=
      hf e List.mem_cons_self g mid w m hfirst hlast hvalid hsim
    obtain ⟨w₂, m₂, hrun₂, hreach₂, hsim₂⟩ := ih (fun e he => hf e (List.mem_cons_of_mem _ he))
      mid g' w₁ m₁ hrest hext (hmid.valid hvalid) hsim₁
    refine ⟨w₂, m₂, ?_, hreach₁.trans hreach₂, hsim₂⟩
    show ((run w e).bind fun w => l.foldlM run w) = some w₂
    rw [show run w e = some w₁ from hrun₁]
    exact hrun₂

/-- The console and the interpreter read the same input. -/
theorem exists_read (w : World) (name : String) :
    ∃ value rest, w.read (.var name) = some (World.set { w with input := rest } name value)
      ∧ Console.readInt ⟨w.input, w.output⟩ = (value, ⟨rest, w.output⟩) := by
  obtain ⟨env, input, output⟩ := w
  cases input with
  | nil => exact ⟨0, [], rfl, rfl⟩
  | cons value rest => exact ⟨value, rest, rfl, rfl⟩

/-- Reading into a variable. -/
theorem readInto_implements (hlast : Fits last) (e : Expr) :
    Implements last (Gen.readInto e) (fun w => w.read e) 5 := by
  intro g g' w m hgen hext hvalid hsim
  cases e with
  | var name =>
    obtain ⟨offset, g₁, hslot, h⟩ := bind_eq_ok.mp hgen
    obtain rfl : g' = (g₁.push ⟨.jal, ["read"]⟩).push ⟨.sw, ["$v0", Gen.slotOperand offset]⟩ := by
      cases h
      rfl
    have hvalid₁ := ((Gen.grows_variableSlot name).extends_of_ok hslot).valid hvalid
    obtain ⟨hsim₁, hslot₁, _⟩ := variableSlot_step hsim hslot
    have hfetch : m.fetch? = some ⟨.jal, ["read"]⟩ :=
      fetch?_emitted (g := g₁) (j := 0) hsim₁.loaded hext
        (by simp only [Generator.toList_push, List.append_assoc]; rfl)
        (by rw [hsim₁.pc]; omega) rfl
    have hsize := hext.code_size
    simp only [Generator.size_push] at hsize
    obtain ⟨hpc, hpc'⟩ := hsim₁.pc_lt hlast (by omega)
    obtain ⟨m₁, hreach₁, hfollows, hv0, hconsole⟩ := call_read hsim₁.loaded hfetch hpc hpc'
    obtain ⟨value, rest, hread, hinput⟩ := exists_read w name
    rw [hsim₁.console, hinput] at hv0 hconsole
    have hsim₂ : Simulates last (g₁.push ⟨.jal, ["read"]⟩) { w with input := rest } m₁ :=
      hsim₁.of_follows hfollows (g₁.size_push _) rfl rfl hconsole
    obtain ⟨m₂, hreach₂, hsim₃⟩ :=
      store_step (g := g₁.push _) (r := .v0) hlast hvalid₁ hsim₂ hslot₁ hv0 hext
    exact ⟨_, m₂, hread, hreach₁.trans hreach₂, hsim₃⟩
  | _ => cases hgen

/-- Loading an operand into a register other than `$fp` leads to the next place. -/
theorem load_step (hlast : Fits last) (hsim : Simulates last g w m) {r : Register}
    (hr : r ≠ .fp ∧ r ≠ .zero) {operand : Operand} {v : Int} (hholds : Holds last g m v operand)
    (hext : (g.push (Gen.loadInstr r.name operand)).Extends last) :
    ∃ m', Reaches m 1 m' ∧ Simulates last (g.push (Gen.loadInstr r.name operand)) w m'
      ∧ m'.reg r = wrap v := by
  have hfetch : m.fetch? = some (Gen.loadInstr r.name operand) :=
    fetch?_emitted (j := 0) hsim.loaded hext (g.toList_push _) (by rw [hsim.pc]; omega) rfl
  obtain ⟨m', h⟩ := loads hlast hsim.loaded hsim.fp hext.size hfetch hholds
  have hfp : m'.reg .fp = m.reg .fp := by
    rw [h.reg, if_neg (fun heq => hr.1 heq.1.symm)]
  refine ⟨m', h.reaches, ?_, ?_⟩
  · exact hsim.of_follows ⟨h.loaded, h.pc, hfp, h.word⟩ (g.size_push _) rfl rfl
      (h.console.trans hsim.console)
  · rw [h.reg, if_pos ⟨rfl, hr.2⟩]

theorem push_newline (text : String) : text.push '\n' = text ++ "\n" := by
  rw [← String.toList_inj]
  simp

/-- Writing the value of an expression. -/
theorem writeFrom_implements (hlast : Fits last) {e : Expr}
    (hliterals : ∀ v, HasLiteral v e → v.natAbs < 2 ^ 31) :
    Implements last (Gen.writeFrom e) (fun w => w.write e) (4 * e.operators + 9) := by
  intro g g' w m hgen hext hvalid hsim
  obtain ⟨operand, g₁, hexpression, hwritable, rfl⟩ := Gen.writeFrom_eq_ok hgen
  have hload := Gen.load_of_writable "$a0" hwritable g₁
  have hext₂ : (g₁.push (Gen.loadInstr "$a0" operand)).Extends last :=
    (Generator.extends_push _ (by decide)).trans hext
  have hext₁ : g₁.Extends last :=
    ((Gen.grows_load (by decide) operand).extends_of_ok hload).trans hext₂
  obtain ⟨v, m₁, hvalue, hreach₁, hsim₁, hholds, _⟩ :=
    expression_step hlast e hexpression hext₁ hvalid hliterals hsim
  obtain ⟨m₂, hreach₂, hsim₂, ha0⟩ := load_step (r := .a0) hlast hsim₁ (by decide) hholds hext₂
  have hfetch : m₂.fetch? = some ⟨.jal, ["write"]⟩ :=
    fetch?_emitted (j := 0) hsim₂.loaded hext (Generator.toList_push _ _)
      (by rw [hsim₂.pc]; exact (Int.add_zero _).symm) rfl
  have hsize := hext.code_size
  rw [Generator.size_push] at hsize
  obtain ⟨hpc, hpc'⟩ := hsim₂.pc_lt hlast (by exact Nat.le_of_succ_le hsize)
  obtain ⟨m₃, hreach₃, hfollows, hconsole⟩ :=
    call_write hsim₂.loaded hfetch hpc hpc'
  refine ⟨{ w with output := w.output ++ toString (v.bmod (2 ^ 32)) ++ "\n" }, m₃, ?_, ?_, ?_⟩
  · show ((e.value w.env).bind fun v =>
      some { w with output := w.output ++ toString (v.bmod (2 ^ 32)) ++ "\n" }) = _
    rw [hvalue]
    rfl
  · exact hreach₁.trans (hreach₂.trans hreach₃)
  · refine hsim₂.of_follows hfollows (Generator.size_push _ _) rfl rfl ?_
    rw [hconsole, hsim₂.console, hsim₂.newline, ha0]
    exact congrArg (Console.mk w.input) (push_newline _)

/-- Assigning the value of an expression to a variable. -/
theorem assign_implements (hlast : Fits last) (name : String) {e : Expr}
    (hliterals : ∀ v, HasLiteral v e → v.natAbs < 2 ^ 31) :
    Implements last (Gen.statement (.assign name e)) (fun w => w.execute (.assign name e))
      (4 * e.operators + 2) := by
  intro g g' w m hgen hext hvalid hsim
  obtain ⟨offset, g₁, operand, g₂, hslot, hexpression, hwritable, rfl⟩ := Gen.assign_eq_ok hgen
  have hload := Gen.load_of_writable "$t0" hwritable g₂
  have hext₃ : (g₂.push (Gen.loadInstr "$t0" operand)).Extends last :=
    (Generator.extends_push _
      (Gen.plain_pair _ (by decide) (Gen.plain_slotOperand offset))).trans hext
  have hext₂ : g₂.Extends last :=
    ((Gen.grows_load (by decide) operand).extends_of_ok hload).trans hext₃
  have hvalid₁ := ((Gen.grows_variableSlot name).extends_of_ok hslot).valid hvalid
  have hgrown := (Gen.grows_expression e).extends_of_ok hexpression
  obtain ⟨hsim₁, hslot₁, _⟩ := variableSlot_step hsim hslot
  obtain ⟨v, m₁, hvalue, hreach₁, hsim₂, hholds, _⟩ :=
    expression_step hlast e hexpression hext₂ hvalid₁ hliterals hsim₁
  obtain ⟨m₂, hreach₂, hsim₃, ht0⟩ := load_step (r := .t0) hlast hsim₂ (by decide) hholds hext₃
  -- the slot that the variable got before its value was computed is still its slot
  have hslot₂ : g₂.frame.slot? name = some offset := Frame.slot?_of_prefix hgrown.slots hslot₁
  obtain ⟨m₃, hreach₃, hsim₄⟩ :=
    store_step (g := g₂.push _) (r := .t0) hlast (hgrown.valid hvalid₁) hsim₃ hslot₂ ht0 hext
  refine ⟨w.set name v, m₃, ?_, hreach₁.trans (hreach₂.trans hreach₃), hsim₄⟩
  show ((e.value w.env).bind fun v => some (w.set name v)) = _
  rw [hvalue]
  rfl

/-- A statement. -/
theorem statement_implements (hlast : Fits last) {e : Expr}
    (hliterals : ∀ v, HasLiteral v e → v.natAbs < 2 ^ 31) :
    Implements last (Gen.statement e) (fun w => w.execute e) (Program.statementLength e) := by
  cases e with
  | call routine args =>
    cases routine with
    | read =>
      have hlength : Program.statementLength (.call .read args) = (args.map fun _ => 5).sum := by
        rw [List.map_const', List.sum_replicate_nat, Nat.mul_comm]
        rfl
      rw [hlength]
      exact implements_forM args (fun e _ => readInto_implements hlast e) Gen.grows_readInto
    | write =>
      refine implements_forM args ?_ Gen.grows_writeFrom
      intro e he
      exact writeFrom_implements hlast fun v hv => hliterals v (.argument .write he hv)
  | assign name value =>
    exact assign_implements hlast name fun v hv => hliterals v (.assign name hv)
  | _ =>
    intro g g' w m hgen
    cases hgen

/-! ## Programs -/

/-- The machine as it starts to run a listing. -/
def start (last : Generator) (inputs : List Int) (limit : Int) : Machine where
  image := Listing.image last.code.toList last.frame.size
  storage := { memory := .ofList [(dataBase, (10 : Int))] }
  console := { input := inputs }
  pc := 0
  limit := limit

theorem loaded_start (last : Generator) (inputs : List Int) (limit : Int) :
    (start last inputs limit).Loaded last.code.toList last.frame.size where
  image := rfl
  running := rfl
  words := isWord_initial

theorem ofListing_eq_start {p : Program} (hgen : Gen.program p {} = .ok () last)
    (inputs : List Int) (limit : Int) :
    Machine.ofListing last.listing inputs limit = .ok (start last inputs limit) := by
  unfold Machine.ofListing Generator.listing
  rw [Listing.ofListing_render _ (Gen.plain_of_program hgen)]
  rfl

/-- At first only the newline is in memory. -/
theorem word_start (last : Generator) (inputs : List Int) (limit a : Int) :
    (start last inputs limit).word a = if dataBase = a then 10 else 0 := by
  show (Std.TreeMap.insert ∅ dataBase 10 : Std.TreeMap Int Int).getD a 0 = _
  rw [Std.TreeMap.getD_insert]
  simp only [Std.LawfulEqCmp.compare_eq_iff_eq]
  rfl

/-- Behind the prologue, machine and interpreter agree that nothing was done yet. -/
theorem simulates_start (hlast : Fits last) (inputs : List Int) (limit : Int) :
    ∃ m, Reaches (start last inputs limit) 4 m ∧ Simulates last {} { input := inputs } m := by
  have htop : stackTop = 0x7FFFEFFC := rfl
  have hdata : dataBase = 0x10010000 := rfl
  have hframe := hlast.frame
  obtain ⟨_, hbottom, _⟩ := hlast.slot (k := 0) rfl
  obtain ⟨m, hreach, hloaded, hpc, hfp, hconsole, hword⟩ :=
    prologue (loaded_start last inputs limit) rfl rfl hlast.valid.aligned (by omega)
  -- the registers are saved between the bottom of the frame and its first slot
  replace hword : ∀ a, a ≤ bottom last ∨ bottom last + 32 ≤ a →
      m.word a = if dataBase = a then 10 else 0 := by
    intro a ha
    unfold bottom at ha
    rw [hword a (by omega) (by omega), word_start]
  refine ⟨m, hreach, hloaded, hpc, hfp, ?_, ?_, ?_, ?_, hconsole⟩
  · intro x offset hx
    cases hx
  · intro x _
    rfl
  · intro a ha
    replace ha : bottom last + (32 : Nat) ≤ a := ha
    rw [hword a (.inr ha), if_neg (by omega)]
  · rw [hword dataBase (.inl hbottom), if_pos rfl]

/-- A program runs to its end, in as many instructions as were foretold. -/
theorem reaches_halted {p : Program} (hgen : Gen.program p {} = .ok () last) (hlast : Fits last)
    (hliterals : ∀ s ∈ p, ∀ v, HasLiteral v s → v.natAbs < 2 ^ 31) (inputs : List Int)
    (limit : Int) :
    ∃ m output, Program.interpret p inputs = some output
      ∧ Reaches (start last inputs limit) (Program.runLength p) m
      ∧ m.halted = true ∧ m.console.output = output := by
  obtain ⟨_, mid, hstatements, h⟩ := bind_eq_ok.mp hgen
  -- behind the statements, generating ends with a report
  have hmid : mid.Extends last := (Gen.grows_reportOn _).extends_of_ok h
  have hcode : last.code = mid.code := by
    cases h
    rfl
  obtain ⟨m₁, hreach₁, hsim₁⟩ := simulates_start hlast inputs limit
  obtain ⟨w, m₂, hrun, hreach₂, hsim₂⟩ := implements_forM p
    (fun e he => statement_implements hlast (hliterals e he)) Gen.grows_statement
    _ _ _ _ hstatements hmid Frame.valid_empty hsim₁
  obtain ⟨haligned, hbottom, hsize⟩ := hlast.slot (k := 0) rfl
  have hdata : dataBase = 0x10010000 := rfl
  have htop : bottom last ≤ stackTop := by
    unfold bottom
    omega
  have hstack : stackTop = 0x7FFFEFFC := rfl
  obtain ⟨m₃, hreach₃, hhalted, hconsole⟩ := epilogue hsim₂.loaded
    (by rw [hsim₂.pc, hcode, Array.length_toList]) (by rw [hsim₂.fp]; omega)
    (by rw [hsim₂.fp]; omega) (by rw [hsim₂.fp]; omega) (by omega)
  refine ⟨m₃, w.output, ?_, ?_, hhalted, ?_⟩
  · unfold Program.interpret
    rw [show p.foldlM World.execute { input := inputs } = some w from hrun]
    rfl
  · have hlength : Program.runLength p = 4 + ((p.map Program.statementLength).sum + 6) := by
      unfold Program.runLength
      omega
    rw [hlength]
    exact hreach₁.trans (hreach₂.trans hreach₃)
  · rw [hconsole, hsim₂.console]

/-- The listing of a program prints what the program means. -/
theorem runListing_eq {p : Program} (hgen : Gen.program p {} = .ok () last) (hlast : Fits last)
    (hliterals : ∀ s ∈ p, ∀ v, HasLiteral v s → v.natAbs < 2 ^ 31) (inputs : List Int) {limit : Int}
    (hlimit : (Program.runLength p : Int) ≤ limit) :
    ∃ output, Program.interpret p inputs = some output
      ∧ runListing last.listing inputs limit
        = (.ok output, [.halted (Program.runLength p)]) := by
  obtain ⟨m, output, hmeaning, hreach, hhalted, houtput⟩ :=
    reaches_halted hgen hlast hliterals inputs limit
  have hfinal : (start last inputs limit).run = (.ok (), m) := by
    have hlimit' : ((0 : Nat) + Program.runLength p : Int) ≤ limit := by omega
    rw [hreach.run_eq hlimit', run_of_halted hhalted]
  refine ⟨output, hmeaning, ?_⟩
  unfold runListing
  rw [ofListing_eq_start hgen]
  show (Machine.outcome (start last inputs limit).run,
    Machine.runEvents (start last inputs limit).run) = _
  rw [hfinal]
  show (Except.ok m.console.output, [Event.halted m.tick]) = _
  rw [houtput, hreach.tick_eq.1]
  exact congrArg (fun n => (Except.ok output, [Event.halted n])) (Nat.zero_add _)

/-! ## Source texts -/

/-- The literals of a parsed program are 32-bit integers. -/
theorem literal_of_parse {source : String} {p : Program}
    (h : (Program.parse source).1 = .ok p) {s : Expr} (hs : s ∈ p) {v : Int}
    (hv : HasLiteral v s) : v.natAbs < 2 ^ 31 := by
  obtain ⟨k, rfl, hk⟩ := (Program.written_of_parse h).literal_mem hs hv
  obtain ⟨t, ht, hlexeme⟩ := List.mem_map.mp hk
  exact Source.TokenStream.literal_lt ht hlexeme

/-- What a compiled source text was parsed to and what was generated for it. -/
theorem compile_eq_ok {source listing : String} (h : (compile source).1 = .ok listing) :
    ∃ p g, (Program.parse source).1 = .ok p ∧ Gen.program p {} = .ok () g
      ∧ g.listing = listing := by
  unfold compile at h
  split at h
  · cases h
  · rename_i p log hparse
    unfold Program.listing at h
    cases hgen : Gen.program p {} with
    | error e g =>
      rw [hgen] at h
      cases h
    | ok _ g =>
      rw [hgen] at h
      exact ⟨p, g, by rw [hparse], hgen, Except.ok.inj h⟩

theorem compile_of_program {source : String} {p : Program}
    (hparse : (Program.parse source).1 = .ok p) (hgen : Gen.program p {} = .ok () g) :
    (compile source).1 = .ok g.listing := by
  unfold compile
  split
  · rename_i e log h
    rw [h] at hparse
    cases hparse
  · rename_i q log h
    rw [h] at hparse
    cases hparse
    unfold Program.listing
    rw [hgen]

/-- The template adds twenty instructions. -/
theorem size_image (code : List Instr) (frame : Nat) :
    (Listing.image code frame).code.size = code.length + 20 := by
  simp only [Listing.image, List.size_toArray, List.length_append, Listing.prologueCode,
    Listing.epilogueCode, Listing.readCode, Listing.writeCode, List.length_cons, List.length_nil]
  omega

/-- The size of the code that a listing is read to. -/
theorem size_of_ofListing {p : Program} (hgen : Gen.program p {} = .ok () g)
    (hcode : g.code.size + 20 < 2 ^ 31) :
    ∀ image, Image.ofListing g.listing = .ok image → image.code.size < 2 ^ 31 := by
  intro image h
  rw [Generator.listing, Listing.ofListing_render _ (Gen.plain_of_program hgen)] at h
  cases h
  rw [size_image, Array.length_toList]
  exact hcode

/-- A generated program fits if its frame does and the places in its image are 32-bit integers. -/
theorem fits_of_program {p : Program} (hgen : Gen.program p {} = .ok () g)
    (hframe : (g.frame.size : Int) ≤ stackTop - dataBase)
    (himage : ∀ image, Image.ofListing g.listing = .ok image → image.code.size < 2 ^ 31) :
    Fits g where
  valid := Gen.valid_of_program hgen
  frame := hframe
  code := by
    have hsize := himage _ (Listing.ofListing_render _ (Gen.plain_of_program hgen))
    rw [size_image, Array.length_toList] at hsize
    exact hsize

/-- Whether a source text has code, and its program and code pass a check. -/
def compiles (source : String) (check : Program → Generator → Bool) : Bool :=
  match (Program.parse source).1 with
  | .error _ => false
  | .ok p =>
    match Gen.program p {} with
    | .error .. => false
    | .ok _ g => check p g

theorem exists_of_compiles (source : String) (check : Program → Generator → Bool)
    (h : compiles source check = true) :
    ∃ p g, (Program.parse source).1 = .ok p ∧ Gen.program p {} = .ok () g ∧ check p g = true := by
  unfold compiles at h
  split at h
  · cases h
  · rename_i p hparse
    split at h
    · cases h
    · rename_i g hgen
      exact ⟨p, g, hparse, hgen, h⟩

/-- Whether a source text has code that fits, and its program prints a text on inputs, in a number
of instructions at most. -/
def printsWithin (bound : Nat) (source : String) (inputs : List Int) (printed : String) : Bool :=
  compiles source fun p g => ((g.frame.size : Int) ≤ stackTop - dataBase)
    && (g.code.size + 20 < 2 ^ 31) && (Program.runLength p ≤ bound)
    && (Program.interpret p inputs = some printed)

/-- What a source text prints can be computed from its program, if that fits. -/
theorem exists_printed {source : String} {inputs : List Int} {printed : String} {bound : Nat}
    (h : printsWithin bound source inputs printed = true) {limit : Int}
    (hlimit : (bound : Int) ≤ limit) :
    ∃ listing, (compile source).1 = .ok listing
      ∧ (runListing listing inputs limit).1 = .ok printed := by
  obtain ⟨p, g, hparse, hgen, hcheck⟩ := exists_of_compiles source _ h
  simp only [Bool.and_eq_true, decide_eq_true_eq] at hcheck
  obtain ⟨⟨⟨hframe, hcode⟩, hlength⟩, hmeaning⟩ := hcheck
  have hlimit' : (Program.runLength p : Int) ≤ limit := by omega
  obtain ⟨output, houtput, hrun⟩ := runListing_eq hgen ⟨Gen.valid_of_program hgen, hframe, hcode⟩
    (fun s hs v hv => literal_of_parse hparse hs hv) inputs hlimit'
  rw [hmeaning] at houtput
  cases houtput
  exact ⟨g.listing, compile_of_program hparse hgen, by rw [hrun]⟩

/-- The listing of a source text, run on any inputs with a tick limit that is high enough, halts and
prints what the reference interpreter prints for the program, provided that its frame stays above
the data and places in its code are 32-bit integers. -/
theorem runListing_compile {source listing : String} (hcompile : (compile source).1 = .ok listing) :
    ∃ p g, (Program.parse source).1 = .ok p ∧ Gen.program p {} = .ok () g ∧ g.listing = listing
      ∧ ((g.frame.size : Int) ≤ stackTop - dataBase →
        (∀ image, Image.ofListing listing = .ok image → image.code.size < 2 ^ 31) →
        ∀ (inputs : List Int) (limit : Int), (Program.runLength p : Int) ≤ limit →
          ∃ output, Program.interpret p inputs = some output
            ∧ runListing listing inputs limit
              = (.ok output, [.halted (Program.runLength p)])) := by
  obtain ⟨p, g, hparse, hgen, rfl⟩ := compile_eq_ok hcompile
  refine ⟨p, g, hparse, hgen, rfl, ?_⟩
  intro hframe himage inputs limit hlimit
  exact runListing_eq hgen (fits_of_program hgen hframe himage)
    (fun s hs v hv => literal_of_parse hparse hs hv) inputs hlimit

/-- A program that reads a number and prints a difference and a sum, the latter above the largest
word. -/
theorem runListing_compile_overflow :
    ∃ listing, (compile "begin read(a); write(a - 30, a + 2147483647) end").1 = .ok listing
      ∧ runListing listing [7] 41 = (.ok "-23\n-2147483642\n", [.halted 41]) := by
  -- what the theorem asks for, computed from the source text
  obtain ⟨p, g, hparse, hgen, hcheck⟩ := exists_of_compiles
    "begin read(a); write(a - 30, a + 2147483647) end"
    (fun p g => ((g.frame.size : Int) ≤ stackTop - dataBase) && (g.code.size + 20 < 2 ^ 31)
      && (Program.runLength p = 41) && (Program.interpret p [7] = some "-23\n-2147483642\n"))
    (by decide +kernel)
  simp only [Bool.and_eq_true, decide_eq_true_eq] at hcheck
  obtain ⟨⟨⟨hframe, hcode⟩, hlength⟩, hmeaning⟩ := hcheck
  have hcompile := compile_of_program hparse hgen
  obtain ⟨_, _, hparse', hgen', _, hrun⟩ := runListing_compile hcompile
  cases hparse.symm.trans hparse'
  cases hgen.symm.trans hgen'
  obtain ⟨output, houtput, hresult⟩ :=
    hrun hframe (size_of_ofListing hgen hcode) [7] 41 (by rw [hlength]; rfl)
  rw [hmeaning] at houtput
  cases houtput
  rw [hlength] at hresult
  exact ⟨_, hcompile, hresult⟩

end MicroLang.Simulation
