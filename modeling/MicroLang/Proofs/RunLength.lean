import MicroLang.Proofs.CompilerCorrectness

/-!
# The length of a run

How many instructions a compiled program takes does not depend on its inputs, so one number decides
for all of them whether a tick limit is high enough.

The limit is tested before an instruction is fetched and each instruction counts one tick, so a
machine that needs `n` instructions to halt does halt at a limit of `n`, and is stopped at every
lower one. Where it is stopped it has run a first part of the instructions (`Reaches.split`), and
has printed a first part of the output, as nothing printed is ever taken back
(`Reaches.output_prefix`).

> `run_of_limit`: a compiled program halts exactly if the limit is at least its `runLength`, at this
> tick; below that the run fails with the limit, if that can be written, and a first part of the
> output is printed.
-/

namespace MicroLang.Machine

open MicroLang.Assembly

/-! ## Output -/

/-- No instruction takes back what was printed. -/
theorem execute_output {m m' : Machine} {i : Instr} (h : m.execute i = .ok m') :
    m.console.output.toList <+: m'.console.output.toList := by
  cases effect_of_execute h with
  | sets r v _ => exact List.prefix_rfl
  | stores address v _ => exact List.prefix_rfl
  | calls pc _ => exact List.prefix_rfl
  | returns pc _ => exact List.prefix_rfl
  | exits _ => exact List.prefix_rfl
  | printsInt _ =>
    show _ <+: (m.console.output ++ toString (m.reg .a0)).toList
    rw [String.toList_append]
    exact List.prefix_append _ _
  | reads _ =>
    show _ <+: m.console.readInt.2.output.toList
    unfold Console.readInt
    split
    · exact List.prefix_rfl
    · exact List.prefix_rfl
  | printsChar _ =>
    show _ <+: (m.console.output.push _).toList
    rw [String.toList_push]
    exact List.prefix_append _ _

namespace Reaches

variable {m last : Machine} {n : Nat}

theorem output_prefix (h : Reaches m n last) :
    m.console.output.toList <+: last.console.output.toList := by
  induction h with
  | refl m => exact List.prefix_rfl
  | step _ _ hexecute _ ih => exact (execute_output hexecute).trans ih

/-! ## Stopped runs -/

/-- Between two machines there is one for each number of instructions. -/
theorem split (h : Reaches m n last) {k : Nat} (hk : k ≤ n) :
    ∃ mid, Reaches m k mid ∧ Reaches mid (n - k) last := by
  induction h generalizing k with
  | refl m =>
    obtain rfl := Nat.le_zero.mp hk
    exact ⟨m, .refl m, .refl m⟩
  | @step m next last i n hhalted hfetch hexecute hrest ih =>
    cases k with
    | zero => exact ⟨m, .refl m, .step hhalted hfetch hexecute hrest⟩
    | succ k =>
      obtain ⟨mid, hfirst, hsecond⟩ := ih (Nat.le_of_succ_le_succ hk)
      rw [Nat.add_sub_add_right]
      exact ⟨mid, .step hhalted hfetch hexecute hfirst, hsecond⟩

theorem running (h : Reaches m n last) (hn : 0 < n) : m.halted = false := by
  cases h with
  | refl => exact absurd hn (Nat.lt_irrefl 0)
  | step hhalted _ _ _ => exact hhalted

end Reaches

/-- A machine without ticks left fails. -/
theorem run_of_limit_le {m : Machine} (hrunning : m.halted = false) (hlimit : m.limit ≤ m.tick) :
    m.run = (.error (.naming .tickLimit m.limit), m) :=
  run_of_step_error hrunning (step_of_limit_le hrunning hlimit)

/-- A run that needs more ticks than are left uses them up and fails. -/
theorem Reaches.run_of_lt {m last : Machine} {n : Nat} (h : Reaches m n last) (hn : 0 < n)
    (hlimit : m.limit < m.tick + n) :
    ∃ mid, m.run = (.error (.naming .tickLimit m.limit), mid) ∧ Reaches m m.ticksLeft mid
      ∧ mid.console.output.toList <+: last.console.output.toList := by
  have hleft : m.ticksLeft = (m.limit - m.tick).toNat := rfl
  obtain ⟨mid, hfirst, hsecond⟩ := h.split (k := m.ticksLeft) (by omega)
  obtain ⟨htick, hkept⟩ := hfirst.tick_eq
  refine ⟨mid, ?_, hfirst, hsecond.output_prefix⟩
  have hrun : m.run = mid.run := by
    by_cases hle : (m.tick : Int) ≤ m.limit
    · exact hfirst.run_eq (by omega)
    · -- the limit is below the first tick already, so nothing is run
      have hzero : m.ticksLeft = 0 := by omega
      rw [hzero] at hfirst
      cases hfirst
      rfl
  rw [hrun, ← hkept]
  exact run_of_limit_le (hsecond.running (by omega)) (by omega)

end MicroLang.Machine

namespace MicroLang.Simulation

open MicroLang.Assembly
open MicroLang.Machine
open MicroLang.Text

/-! ## Compiled programs -/

/-- What running a listing gives, if its machine fails. -/
theorem runListing_of_error {listing : String} {inputs : List Int} {limit : Int} {m₀ m : Machine}
    {fault : Fault} (hload : Machine.ofListing listing inputs limit = .ok m₀)
    (hrun : m₀.run = (.error fault, m)) :
    (runListing listing inputs limit).1 = .error (.running fault) := by
  unfold runListing
  rw [hload]
  show Machine.outcome m₀.run = _
  rw [hrun]
  rfl

/-- A parsed program halts, on any inputs, at every tick limit from its length on, and always after
as many instructions. At a lower limit it fails, with a first part of the output printed; its fault
names the limit, unless that cannot be written. -/
theorem run_of_limit {source : String} {p : Program} {g : Generator}
    (hparse : (Program.parse source).1 = .ok p) (hgen : Gen.program p {} = .ok () g)
    (hframe : (g.frame.size : Int) ≤ stackTop - dataBase)
    (himage : ∀ image, Image.ofListing g.listing = .ok image → image.code.size < 2 ^ 31)
    (inputs : List Int) :
    ∃ output, Program.interpret p inputs = some output ∧ ∀ limit : Int,
      ∃ m₀ m, Machine.ofListing g.listing inputs limit = .ok m₀
        ∧ ((Program.runLength p : Int) ≤ limit →
          m₀.run = (.ok (), m) ∧ m.halted = true ∧ m.tick = Program.runLength p
            ∧ m.console.output = output)
        ∧ (limit < Program.runLength p →
          m.tick = limit.toNat ∧ m.console.output.toList <+: output.toList
            ∧ (∀ h : Numeral.IsShort limit, m₀.run = (.error (.tickLimit ⟨limit, h⟩), m)
              ∧ ∃ e, (runListing g.listing inputs limit).1 = .error e
                ∧ e.message = s!"tick limit {limit} exceeded")
            ∧ (¬ Numeral.IsShort limit → m₀.run = (.error .unwritable, m)
              ∧ (runListing g.listing inputs limit).1 = .error (.running .unwritable))) := by
  have hfits := fits_of_program hgen hframe himage
  have hreaches := reaches_halted hgen hfits
    (fun s hs v hv => literal_of_parse hparse hs hv) inputs
  obtain ⟨_, output, hmeaning, _⟩ := hreaches 0
  refine ⟨output, hmeaning, ?_⟩
  intro limit
  obtain ⟨last, output', hmeaning', hreach, hhalted, houtput⟩ := hreaches limit
  -- the interpreter prints the same for every limit
  obtain rfl : output' = output := Option.some.inj (hmeaning'.symm.trans hmeaning)
  have hstart := ofListing_eq_start hgen inputs limit
  have htick : last.tick = Program.runLength p := hreach.tick_eq.1.trans (Nat.zero_add _)
  by_cases hlimit : (Program.runLength p : Int) ≤ limit
  · refine ⟨_, last, hstart, fun _ => ?_, fun hlt => absurd hlimit (Int.not_le.mpr hlt)⟩
    have henough : ((0 : Nat) + Program.runLength p : Int) ≤ limit := by omega
    exact ⟨(hreach.run_eq henough).trans (run_of_halted hhalted), hhalted, htick, houtput⟩
  · have hshort : limit < (0 : Nat) + (Program.runLength p : Int) := by omega
    obtain ⟨mid, hrun, hfirst, hprinted⟩ := hreach.run_of_lt (Nat.succ_pos _) hshort
    replace hrun : (start g inputs limit).run = (.error (.naming .tickLimit limit), mid) := hrun
    refine ⟨_, mid, hstart, fun hle => absurd hle hlimit, fun _ => ⟨?_, ?_, ?_, ?_⟩⟩
    · rw [hfirst.tick_eq.1]
      show 0 + (limit - (0 : Nat)).toNat = limit.toNat
      omega
    · rw [← houtput]
      exact hprinted
    · intro hwritable
      rw [naming_of_short hwritable] at hrun
      exact ⟨hrun, _, runListing_of_error hstart hrun, rfl⟩
    · intro hlong
      rw [naming_of_long hlong] at hrun
      exact ⟨hrun, runListing_of_error hstart hrun⟩

/-- A program that prints twice, with just enough ticks and with one less. -/
theorem run_of_limit_difference :
    ∃ p g, (Program.parse "begin read(a); write(a, a - 5) end").1 = .ok p
      ∧ Gen.program p {} = .ok () g
      ∧ (∃ m₀ m, Machine.ofListing g.listing [7] 37 = .ok m₀ ∧ m₀.run = (.ok (), m)
        ∧ m.tick = 37 ∧ m.console.output = "7\n2\n")
      ∧ ∃ m₀ m, Machine.ofListing g.listing [7] 36 = .ok m₀
        ∧ m₀.run = (.error (.tickLimit ⟨36, by decide⟩), m) ∧ m.tick = 36
        ∧ m.console.output.toList <+: "7\n2\n".toList := by
  obtain ⟨p, g, hparse, hgen, hfacts⟩ := exists_of_compiles
    "begin read(a); write(a, a - 5) end"
    (fun p g => g.code.size < 100 ∧ (g.frame.size : Int) ≤ stackTop - dataBase
      ∧ Program.runLength p = 37 ∧ Program.interpret p [7] = some "7\n2\n") (by decide +kernel)
  obtain ⟨hcode, hframe, hlength, hmeaning⟩ := of_decide_eq_true hfacts
  have himage := size_of_ofListing hgen (by omega)
  obtain ⟨output, houtput, hlimits⟩ := run_of_limit hparse hgen hframe himage [7]
  obtain rfl := Option.some.inj (houtput.symm.trans hmeaning)
  rw [hlength] at hlimits
  obtain ⟨m₀, m, hstart, henough, _⟩ := hlimits 37
  obtain ⟨hrun, _, htick, hprinted⟩ := henough (by decide)
  obtain ⟨m₀', m', hstart', _, hshort⟩ := hlimits 36
  obtain ⟨htick', hprinted', hwritable, _⟩ := hshort (by decide)
  obtain ⟨hrun', _⟩ := hwritable (by decide)
  exact ⟨p, g, hparse, hgen, ⟨m₀, m, hstart, hrun, htick, hprinted⟩, m₀', m', hstart', hrun',
    htick', hprinted'⟩

/-- A program that prints is stopped at once by a limit that cannot be written, and the fault is not
the tick limit. -/
theorem run_of_long_limit :
    ∃ p g m, (Program.parse "begin write(1) end").1 = .ok p ∧ Gen.program p {} = .ok () g
      ∧ -10 ^ Numeral.digitLimit < (Program.runLength p : Int)
      ∧ Machine.ofListing g.listing [] (-10 ^ Numeral.digitLimit) = .ok m
      ∧ m.run = (.error .unwritable, m)
      ∧ ∀ limit, Fault.unwritable ≠ .tickLimit limit := by
  obtain ⟨p, g, hparse, hgen, _⟩ := exists_of_compiles "begin write(1) end" (fun _ _ => true)
    (by decide +kernel)
  have hlong : ¬ Numeral.IsShort (start g [] (-10 ^ Numeral.digitLimit)).limit :=
    Numeral.not_isShort_neg_pow
  refine ⟨p, g, _, hparse, hgen, ?_, ofListing_eq_start hgen _ _, ?_, ?_⟩
  · exact Int.lt_of_le_of_lt Numeral.neg_pow_nonpos (Int.natCast_pos.mpr (Nat.succ_pos _))
  · rw [run_of_limit_le rfl (by exact Numeral.neg_pow_nonpos), naming_of_long hlong]
  · intro limit heq
    cases heq

end MicroLang.Simulation
