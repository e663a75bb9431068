import MicroLang.Proofs.ListingText
import MicroLang.Proofs.TickLimits

/-!
# Runs within a few ticks

A compiled program has no loops: a run that halts has passed every instruction of the body, and each
of them cost it a tick (`Loaded.tick_le`). So a run that halts within a small limit is the run of a
short listing. Such a listing has a small frame too, as no slot is given out without an instruction
that uses it (`frame_size_le`).

Whether the frame stays above the data, which has to be assumed of compiled programs otherwise, is
thereby settled by the limit alone:

> `interpret_of_runListing`: what a compiled program prints within `2 ^ 28` ticks is what it means.
-/

namespace MicroLang.Assembly.Gen

open MicroLang.Program (Expr Operator)
open MicroLang.Sequencing

/-! ## Slots and instructions -/

/-- A generating step gives out at most `k` slots more than it adds instructions. -/
def Widens {α : Type} (k : Nat) (x : Gen α) : Prop :=
  ∀ g a g', x g = .ok a g' →
    g'.frame.size + 4 * g.code.size ≤ g.frame.size + 4 * (g'.code.size + k)

theorem widens_variableSlot (name : String) : Widens 1 (variableSlot name) := by
  intro g offset g' h
  cases hslot : g.frame.slot? name with
  | some known =>
    rw [variableSlot_of_some hslot] at h
    cases h
    omega
  | none =>
    rw [variableSlot_of_none hslot] at h
    cases h
    show g.frame.size + 4 + 4 * g.code.size ≤ g.frame.size + 4 * (g.code.size + 1)
    omega

/-- An operator takes one slot and four instructions, which make up for its operands. -/
theorem widens_expression (e : Expr) : Widens 1 (expression e) := by
  induction e using chainInduction with
  | int value =>
    intro g operand g' h
    rw [expression_int] at h
    cases h
    omega
  | var name =>
    intro g operand g' h
    rw [expression_var] at h
    obtain ⟨offset, mid, hslot, h⟩ := bind_eq_ok.mp h
    cases h
    exact widens_variableSlot name g offset g' hslot
  | binary op lhs rhs ihl ihr =>
    intro g operand g' h
    rw [expression_binary] at h
    obtain ⟨a, g₁, hlhs, h⟩ := bind_eq_ok.mp h
    obtain ⟨b, g₂, hrhs, h⟩ := bind_eq_ok.mp h
    have hleft := ihl g a g₁ hlhs
    have hright := ihr g₁ b g₂ hrhs
    obtain ⟨_, _, rfl, rfl⟩ := apply_eq_ok h
    simp only [Generator.push, Frame.grow, wordSize, Array.size_push]
    omega
  | call routine args =>
    intro g operand g' h
    rw [expression_call] at h
    cases h
  | assign name value =>
    intro g operand g' h
    rw [expression_assign] at h
    cases h

theorem widens_readInto (e : Expr) : Widens 0 (readInto e) := by
  intro g _ g' h
  cases e with
  | var name =>
    obtain ⟨offset, mid, hslot, h⟩ := bind_eq_ok.mp h
    have hfirst := widens_variableSlot name g offset mid hslot
    cases h
    simp only [Array.size_push]
    omega
  | _ => cases h

theorem widens_writeFrom (e : Expr) : Widens 0 (writeFrom e) := by
  intro g _ g' h
  obtain ⟨operand, mid, hexpression, _, rfl⟩ := writeFrom_eq_ok h
  have hfirst := widens_expression e g operand mid hexpression
  simp only [Generator.push, Array.size_push]
  omega

theorem widens_forM {f : Expr → Gen Unit} (hf : ∀ e, Widens 0 (f e)) (l : List Expr) :
    Widens 0 (l.forM f) := by
  induction l with
  | nil =>
    intro g _ g' h
    cases h
    exact Nat.le_refl _
  | cons e l ih =>
    intro g _ g' h
    obtain ⟨_, mid, hfirst, hrest⟩ := bind_eq_ok.mp h
    have hbefore := hf e g _ mid hfirst
    have hafter := ih mid _ g' hrest
    omega

theorem widens_statement (e : Expr) : Widens 0 (statement e) := by
  cases e with
  | call routine args =>
    cases routine with
    | read => exact widens_forM widens_readInto args
    | write => exact widens_forM widens_writeFrom args
  | assign name value =>
    intro g _ g' h
    obtain ⟨target, g₁, operand, g₂, hslot, hexpression, _, rfl⟩ := assign_eq_ok h
    have hfirst := widens_variableSlot name g target g₁ hslot
    have hsecond := widens_expression value g₁ operand g₂ hexpression
    simp only [Generator.push, Array.size_push]
    omega
  | _ =>
    intro g _ g' h
    cases h

/-- The frame of a program has a word for each instruction at most, besides the saved registers. -/
theorem frame_size_le {p : Program} {g : Generator} (h : program p {} = .ok () g) :
    g.frame.size ≤ 32 + 4 * g.code.size := by
  obtain ⟨_, mid, hstatements, h⟩ := bind_eq_ok.mp h
  have hwidens := widens_forM widens_statement p {} _ mid hstatements
  cases h
  exact hwidens

end MicroLang.Assembly.Gen

namespace MicroLang.Machine

open MicroLang.Assembly
open MicroLang.Program (Operator Routine)

section

variable {body : List Instr} {size : Nat} {literal : Int → Prop} {m mid last : Machine}

/-! ## Passing instructions -/

/-- A run that halts goes through every machine that its instructions lead to. -/
theorem Reaches.run_of_ok {n : Nat} (h : Reaches m n mid) (hrun : m.run = (.ok (), last)) :
    mid.run = (.ok (), last) := by
  rcases Nat.eq_zero_or_pos n with rfl | hpos
  · cases h
    exact hrun
  by_cases hlimit : (m.tick + n : Int) ≤ m.limit
  · rw [← h.run_eq hlimit]
    exact hrun
  · -- with fewer ticks the run would not halt
    obtain ⟨_, hstopped, _⟩ := h.run_of_lt hpos (Int.not_le.mp hlimit)
    rw [hstopped] at hrun
    cases hrun

/-- An instruction that neither jumps nor asks the system for anything leads to the next one. -/
theorem Loaded.passes_plain (hm : m.Loaded body size) {i : Instr} (hfetch : m.fetch? = some i)
    (hi : i.opcode ∉ [Opcode.jal, .jr, .syscall]) (hrun : m.run = (.ok (), last)) :
    ∃ m', Reaches m 1 m' ∧ m'.Loaded body size ∧ m'.pc = m.pc + 1 := by
  simp only [List.mem_cons, List.not_mem_nil, or_false, not_or] at hi
  obtain ⟨hjal, hjr, hsyscall⟩ := hi
  rcases hresult : m.step with ⟨result, next⟩
  cases result with
  | error fault =>
    rw [run_of_step_error hm.running hresult] at hrun
    cases hrun
  | ok _ =>
    have hreach := reaches_of_step hm.running hresult
    refine ⟨next, hreach, ?_⟩
    cases hreach with
    | step _ hfetch' hexecute hrest =>
      cases hrest
      cases hfetch.symm.trans hfetch'
      cases effect_of_execute hexecute with
      | sets r v _ => exact ⟨⟨hm.image, hm.running, isWord_set hm.words r v⟩, rfl⟩
      | stores address v _ => exact ⟨⟨hm.image, hm.running, hm.words⟩, rfl⟩
      | calls pc h => exact absurd h hjal
      | returns pc h => exact absurd h hjr
      | printsInt h => exact absurd h hsyscall
      | reads h => exact absurd h hsyscall
      | exits h => exact absurd h hsyscall
      | printsChar h => exact absurd h hsyscall

/-- A call of a routine comes back. -/
theorem Loaded.passes_call (hm : m.Loaded body size) (routine : Routine)
    (hfetch : m.fetch? = some ⟨.jal, [routine.name]⟩) (hpc : 0 ≤ m.pc) (hpc' : m.pc + 1 < 2 ^ 31) :
    ∃ n m', 0 < n ∧ Reaches m n m' ∧ m'.Loaded body size ∧ m'.pc = m.pc + 1 := by
  cases routine with
  | read =>
    obtain ⟨m', hreach, hfollows, _⟩ := call_read hm hfetch hpc hpc'
    exact ⟨4, m', Nat.succ_pos _, hreach, hfollows.loaded, hfollows.pc⟩
  | write =>
    obtain ⟨m', hreach, hfollows, _⟩ := call_write hm hfetch hpc hpc'
    exact ⟨8, m', Nat.succ_pos _, hreach, hfollows.loaded, hfollows.pc⟩

/-- The instructions before the epilogue. -/
theorem Loaded.fetch?_before (hm : m.Loaded body size)
    (hcode : ∀ i ∈ body, Emitted literal size i) {k : Nat} (hk : k < 4 + body.length)
    (hpc : m.pc = k) :
    ∃ i, m.fetch? = some i ∧ (i.opcode ∉ [Opcode.jal, .jr, .syscall]
      ∨ ∃ routine : Routine, i = ⟨.jal, [routine.name]⟩) := by
  by_cases hprologue : k < 4
  · obtain ⟨i, hi⟩ : ∃ i, (Listing.prologueCode size)[k]? = some i :=
      ⟨_, List.getElem?_eq_getElem hprologue⟩
    refine ⟨i, hm.fetch?_prologue hpc hi, .inl ?_⟩
    have hmem := List.mem_of_getElem? hi
    simp only [Listing.prologueCode, List.mem_cons, List.not_mem_nil, or_false] at hmem
    rcases hmem with rfl | rfl | rfl | rfl <;> simp
  · obtain ⟨i, hi⟩ : ∃ i, body[k - 4]? = some i :=
      ⟨_, List.getElem?_eq_getElem (show k - 4 < body.length by omega)⟩
    refine ⟨i, hm.fetch?_body (by omega) hi, ?_⟩
    cases hcode i (List.mem_of_getElem? hi) with
    | loadSlot _ _ => exact .inl (by simp)
    | loadLiteral _ _ => exact .inl (by simp)
    | operator op => exact .inl (by cases op <;> simp [Gen.opcodeOf])
    | store _ _ => exact .inl (by simp)
    | call routine => exact .inr ⟨routine, rfl⟩

/-- A run that halts passes each instruction before the epilogue. -/
theorem Loaded.passes (hm : m.Loaded body size) (hcode : ∀ i ∈ body, Emitted literal size i)
    {k : Nat} (hk : k < 4 + body.length) (hk' : k + 1 < 2 ^ 31) (hpc : m.pc = k)
    (hrun : m.run = (.ok (), last)) :
    ∃ m' : Machine, m'.Loaded body size ∧ m'.pc = (k + 1 : Nat) ∧ m.tick + 1 ≤ m'.tick
      ∧ m'.run = (.ok (), last) := by
  obtain ⟨i, hfetch, hi⟩ := hm.fetch?_before hcode hk hpc
  obtain ⟨n, m', hn, hreach, hloaded, hpc'⟩ :
      ∃ n m', 0 < n ∧ Reaches m n m' ∧ m'.Loaded body size ∧ m'.pc = m.pc + 1 := by
    rcases hi with hplain | ⟨routine, rfl⟩
    · obtain ⟨m', hreach, hnext⟩ := hm.passes_plain hfetch hplain hrun
      exact ⟨1, m', Nat.one_pos, hreach, hnext⟩
    · exact hm.passes_call routine hfetch (by omega) (by omega)
  have htick := hreach.tick_eq.1
  exact ⟨m', hloaded, by omega, by omega, hreach.run_of_ok hrun⟩

/-- A run that halts takes a tick for each instruction from its place up to the epilogue. -/
theorem Loaded.tick_le (hm : m.Loaded body size) (hcode : ∀ i ∈ body, Emitted literal size i)
    {k r : Nat} (hr : k + r ≤ 4 + body.length) (hr' : k + r < 2 ^ 31) (hpc : m.pc = k)
    (hrun : m.run = (.ok (), last)) : m.tick + r ≤ last.tick := by
  induction r generalizing m k with
  | zero =>
    obtain ⟨n, _, hreach, _, hends⟩ := exists_ends m
    rw [hrun] at hends
    cases hends with
    | halted _ =>
      rw [hreach.tick_eq.1]
      exact Nat.le_add_right _ _
  | succ r ih =>
    obtain ⟨m', hloaded, hpc', htick, hrun'⟩ :=
      hm.passes hcode (by omega) (by omega) hpc hrun
    have hrest := ih hloaded (by omega) (by omega) hpc' hrun'
    omega

/-- A run that halts does so within its limit. -/
theorem tick_le_of_run (hrun : m.run = (.ok (), last)) : last.tick ≤ m.tick + m.ticksLeft := by
  obtain ⟨n, _, hreach, hn, hends⟩ := exists_ends m
  rw [hrun] at hends
  cases hends with
  | halted _ =>
    rw [hreach.tick_eq.1]
    exact Nat.add_le_add_left hn _

/-- The body of a program that halts is no longer than the limit. -/
theorem Loaded.length_le (hm : m.Loaded body size) (hcode : ∀ i ∈ body, Emitted literal size i)
    (hpc : m.pc = 0) (htick : m.tick = 0) {limit : Nat} (hlimit : m.limit ≤ limit)
    (hlimit' : limit + 1 < 2 ^ 31) (hrun : m.run = (.ok (), last)) : body.length ≤ limit := by
  have hbound := tick_le_of_run hrun
  have hleft : m.ticksLeft = (m.limit - m.tick).toNat := rfl
  by_contra hlong
  -- a longer body is not passed within the limit
  have hpassed := hm.tick_le hcode (k := 0) (r := limit + 1) (by omega) (by omega) hpc hrun
  omega

end

end MicroLang.Machine

namespace MicroLang.Simulation

open MicroLang.Assembly
open MicroLang.Machine
open MicroLang.Program (World Expr)

/-! ## Compiled programs -/

/-- The run behind an output. -/
theorem run_of_runListing {p : Program} {g : Generator} (hgen : Gen.program p {} = .ok () g)
    {inputs : List Int} {limit : Int} {printed : String}
    (h : (runListing g.listing inputs limit).1 = .ok printed) :
    ∃ last, (start g inputs limit).run = (.ok (), last) ∧ last.console.output = printed := by
  unfold runListing at h
  rw [ofListing_eq_start hgen] at h
  replace h : Machine.outcome (start g inputs limit).run = .ok printed := h
  rcases hrun : (start g inputs limit).run with ⟨result, last⟩
  rw [hrun] at h
  cases result with
  | ok _ => exact ⟨last, rfl, Except.ok.inj h⟩
  | error fault => cases h

/-- A program that halts within few ticks fits. -/
theorem fits_of_run {p : Program} {g : Generator} (hgen : Gen.program p {} = .ok () g)
    {inputs : List Int} {limit : Int} (hlimit : limit ≤ 2 ^ 28) {last : Machine}
    (hrun : (start g inputs limit).run = (.ok (), last)) : Fits g := by
  have hloaded := loaded_start g inputs limit
  have hlength : g.code.toList.length ≤ 2 ^ 28 :=
    hloaded.length_le (Gen.emitted_of_program hgen) rfl rfl (by exact_mod_cast hlimit) (by decide)
      hrun
  rw [Array.length_toList] at hlength
  have hframe := Gen.frame_size_le hgen
  have htop : stackTop = 0x7FFFEFFC := rfl
  have hdata : dataBase = 0x10010000 := rfl
  refine ⟨Gen.valid_of_program hgen, ?_, ?_⟩
  · omega
  · omega

/-- What a compiled program prints within few ticks is what the reference interpreter prints. -/
theorem interpret_of_runListing {source listing printed : String} {inputs : List Int} {limit : Int}
    (hcompile : (compile source).1 = .ok listing) (hlimit : limit ≤ 2 ^ 28)
    (h : (runListing listing inputs limit).1 = .ok printed) :
    ∃ p, (Program.parse source).1 = .ok p ∧ Program.interpret p inputs = some printed := by
  obtain ⟨p, g, hparse, hgen, rfl⟩ := compile_eq_ok hcompile
  obtain ⟨last, hrun, houtput⟩ := run_of_runListing hgen h
  obtain ⟨last', output, hmeaning, hreach, hhalted, houtput'⟩ := reaches_halted hgen
    (fits_of_run hgen hlimit hrun) (fun s hs v hv => literal_of_parse hparse hs hv) inputs limit
  -- the run goes through the machine at which the interpreter's output is complete
  have hlast := hreach.run_of_ok hrun
  rw [run_of_halted hhalted] at hlast
  obtain rfl : last' = last := (Prod.mk.inj hlast).2
  refine ⟨p, hparse, ?_⟩
  rw [hmeaning, ← houtput', houtput]

/-! ## Carriage returns -/

/-- A step of the interpreter prints no carriage return. -/
def NoReturn (run : World → Option World) : Prop :=
  ∀ {w w'}, run w = some w' → '\r' ∉ w.output.toList → '\r' ∉ w'.output.toList

theorem noReturn_foldlM {run : World → Expr → Option World} (h : ∀ e, NoReturn (run · e))
    (l : List Expr) : NoReturn (l.foldlM run ·) := by
  induction l with
  | nil =>
    intro w w' hrun hw
    cases hrun
    exact hw
  | cons e l ih =>
    intro w w' hrun hw
    obtain ⟨mid, hfirst, hrest⟩ := Option.bind_eq_some_iff.mp hrun
    exact ih hrest (h e hfirst hw)

theorem noReturn_read (e : Expr) : NoReturn (World.read · e) := by
  intro w w' h hw
  cases e with
  | var name =>
    dsimp only [World.read] at h
    split at h
    · cases h
      exact hw
    · cases h
      exact hw
  | _ => cases h

theorem noReturn_write (e : Expr) : NoReturn (World.write · e) := by
  intro w w' h hw
  obtain ⟨value, _, h⟩ := Option.bind_eq_some_iff.mp h
  cases h
  have hnumber : '\r' ∉ (toString (value.bmod (2 ^ 32))).toList := by
    intro hmem
    exact absurd (graphicText_toString _ '\r' hmem) (by decide)
  rw [String.toList_append, String.toList_append, List.mem_append, List.mem_append, not_or, not_or]
  exact ⟨⟨hw, hnumber⟩, by decide⟩

theorem noReturn_execute (e : Expr) : NoReturn (World.execute · e) := by
  cases e with
  | call routine args =>
    cases routine with
    | read => exact noReturn_foldlM noReturn_read args
    | write => exact noReturn_foldlM noReturn_write args
  | assign name value =>
    intro w w' h hw
    obtain ⟨_, _, h⟩ := Option.bind_eq_some_iff.mp h
    cases h
    exact hw
  | _ =>
    intro w w' h
    cases h

/-- Lines that are printed end in a line feed alone. -/
theorem return_not_mem_of_runListing {source listing printed : String} {inputs : List Int}
    {limit : Int} (hcompile : (compile source).1 = .ok listing) (hlimit : limit ≤ 2 ^ 28)
    (h : (runListing listing inputs limit).1 = .ok printed) : '\r' ∉ printed.toList := by
  obtain ⟨p, _, hmeaning⟩ := interpret_of_runListing hcompile hlimit h
  obtain ⟨w, hrun, hprinted⟩ := Option.bind_eq_some_iff.mp hmeaning
  cases hprinted
  exact noReturn_foldlM noReturn_execute p hrun List.not_mem_nil

end MicroLang.Simulation
