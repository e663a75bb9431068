import MicroLang.Proofs.DecodedCode
import MicroLang.Proofs.TickLimits

/-!
# Traces

A traced run goes through its machine on its own and adds a line after each step.
`Traced m lines last` follows its recursion: the steps that lead from `m` to `last` have these
lines. Whatever is said of a trace is an induction on this relation, and a run ends where no step is
left (`exists_traced`).

A line is written from the machine after the step, whose tick and last instruction the step has set
before it executed anything. That they are the number of the step and the instruction at the program
counter before it is what one step keeps (`shown_of_step`).

> `traceListing_faithful`: a listing gives the same output or error when it is traced. There is one
> line for each step of its run, with the number of the step, the program counter that the step
> before it left, the instruction there, and the registers after the step.
-/

namespace MicroLang.Machine

open MicroLang.Assembly
open MicroLang.Text

variable {m next last : Machine} {lines : List String}

/-! ## What a step leaves to be shown -/

/-- Executing an instruction changes neither the image nor the instruction that was fetched last,
and halts a machine only if it is a system call. -/
theorem Effect.shown {i : Instr} (h : Effect m i next) :
    next.image = m.image ∧ next.last = m.last
      ∧ (i.opcode = .syscall ∨ next.halted = m.halted) := by
  cases h with
  | sets _ _ _ => exact ⟨rfl, rfl, .inr rfl⟩
  | stores _ _ _ => exact ⟨rfl, rfl, .inr rfl⟩
  | calls _ _ => exact ⟨rfl, rfl, .inr rfl⟩
  | returns _ _ => exact ⟨rfl, rfl, .inr rfl⟩
  | printsInt hi => exact ⟨rfl, rfl, .inl hi⟩
  | reads hi => exact ⟨rfl, rfl, .inl hi⟩
  | exits hi => exact ⟨rfl, rfl, .inl hi⟩
  | printsChar hi => exact ⟨rfl, rfl, .inl hi⟩

/-- A step remembers the instruction at the program counter, and only a system call halts. -/
theorem shown_of_step (hrunning : m.halted = false) (h : m.step = (.ok (), next)) :
    next.image = m.image ∧ ∃ i, m.fetch? = some i ∧ next.last = some i
      ∧ (next.halted = true → i.opcode = .syscall) := by
  have hcases := step_cases m
  rw [h] at hcases
  cases hcases with
  | halted hhalted =>
    rw [hrunning] at hhalted
    cases hhalted
  | @done i _ _ _ hfetch hexecute =>
    obtain ⟨himage, hlast, hhalts⟩ := (effect_of_execute hexecute).shown
    refine ⟨himage, i, hfetch, hlast, ?_⟩
    intro hhalted
    rcases hhalts with hi | hsame
    · exact hi
    · have hfetched : (m.fetched i).halted = false := hrunning
      rw [hsame, hfetched] at hhalted
      cases hhalted

/-! ## Steps and their lines -/

/-- Steps lead from one machine to another, and these are their lines. -/
inductive Traced : Machine → List String → Machine → Prop where
  | refl (m : Machine) : Traced m [] m
  | step {m next last : Machine} {lines : List String} (hrunning : m.halted = false)
      (hstep : m.step = (.ok (), next)) (hrest : Traced next lines last) :
      Traced m (traceLine m.pc next :: lines) last

/-- A traced run adds the lines of its steps, which lead to where it ends. -/
theorem exists_traced (m : Machine) (shown : Array String) :
    ∃ lines last, Traced m lines last ∧ (m.runTraced shown).2.toList = shown.toList ++ lines
      ∧ Ends last (m.runTraced shown).1 := by
  fun_induction runTraced m shown with
  | case1 m shown hhalted =>
    exact ⟨[], m, .refl m, (List.append_nil _).symm, .halted hhalted⟩
  | case2 m shown hrunning next hstep ih =>
    obtain ⟨lines, last, htraced, hlines, hends⟩ := ih
    refine ⟨_, last, .step (Bool.eq_false_iff.mpr hrunning) hstep htraced, ?_, hends⟩
    rw [hlines, Array.toList_push, List.append_assoc, List.singleton_append]
  | case3 m shown hrunning fault last hstep =>
    exact ⟨[], m, .refl m, (List.append_nil _).symm, ends_of_step_error hstep⟩

/-- Where no step is left, a run ends at once. -/
theorem Ends.run_eq {r : Except Fault Unit × Machine} (h : Ends m r) : m.run = r := by
  cases h with
  | halted hhalted => exact run_of_halted hhalted
  | atLimit hrunning hlimit => exact run_of_step_error hrunning (step_of_limit_le hrunning hlimit)
  | failed hrunning _ hstep => exact run_of_step_error hrunning hstep

namespace Traced

theorem run_eq (h : Traced m lines last) : m.run = last.run := by
  induction h with
  | refl m => rfl
  | step hrunning hstep _ ih => rw [run_of_step hrunning hstep, ih]

/-- There are as many steps as lines. -/
theorem steps_eq (h : Traced m lines last) : m.steps lines.length = (.ok (), last) := by
  induction h with
  | refl m => rfl
  | step _ hstep _ ih =>
    rw [List.length_cons, steps, hstep]
    exact ih

/-- Each line counts a tick. -/
theorem tick_eq (h : Traced m lines last) : last.tick = m.tick + lines.length := by
  induction h with
  | refl m => rfl
  | step hrunning hstep _ ih =>
    rw [ih, (tick_of_step hrunning hstep).1, List.length_cons]
    omega

theorem image_eq (h : Traced m lines last) : last.image = m.image := by
  induction h with
  | refl m => rfl
  | step hrunning hstep _ ih => rw [ih, (shown_of_step hrunning hstep).1]

/-- A line of a trace is that of a step, which the lines before it lead to. -/
theorem exists_step (h : Traced m lines last) {k : Nat} {line : String}
    (hline : lines[k]? = some line) :
    ∃ before after, Traced m (lines.take k) before ∧ before.halted = false
      ∧ before.step = (.ok (), after) ∧ Traced m (lines.take (k + 1)) after
      ∧ line = traceLine before.pc after := by
  induction h generalizing k with
  | refl m => cases hline
  | @step m next last lines hrunning hstep _ ih =>
    cases k with
    | zero =>
      cases hline
      refine ⟨m, next, .refl m, hrunning, hstep, ?_, rfl⟩
      exact .step hrunning hstep (.refl next)
    | succ k =>
      obtain ⟨before, after, hbefore, hrunning', hstep', hafter, hshown⟩ := ih hline
      exact ⟨before, after, .step hrunning hstep hbefore, hrunning', hstep',
        .step hrunning hstep hafter, hshown⟩

/-- Steps that halt a machine end with a system call. -/
theorem last_of_halted (h : Traced m lines last) (hrunning : m.halted = false)
    (hhalted : last.halted = true) : ∃ i, last.last = some i ∧ i.opcode = .syscall := by
  induction h with
  | refl m =>
    rw [hrunning] at hhalted
    cases hhalted
  | @step m next last lines _ hstep hrest ih =>
    cases hnext : next.halted with
    | false => exact ih hnext hhalted
    | true =>
      obtain ⟨_, i, _, hlast, hhalts⟩ := shown_of_step hrunning hstep
      -- a halted machine takes no further step
      cases hrest with
      | refl => exact ⟨i, hlast, hhalts hnext⟩
      | step hrunning' _ _ =>
        rw [hnext] at hrunning'
        cases hrunning'

end Traced

/-! ## Lines -/

/-- What a line shows of the registers. -/
def shownRegisters (regs : Registers) : String :=
  s!" v0={regs.v0} a0={regs.a0} t0={regs.t0} t1={regs.t1}"
    ++ " sp=" ++ Numeral.hexadecimal regs.sp ++ " fp=" ++ Numeral.hexadecimal regs.fp

theorem traceLine_eq {i : Instr} (pc : Int) (hlast : m.last = some i) :
    traceLine pc m = s!"t={m.tick} pc={pc} " ++ i.text ++ shownRegisters m.storage.regs := by
  unfold traceLine shownRegisters
  rw [hlast]
  simp only [String.append_assoc]

theorem unbroken_append {a b : String} (ha : Unbroken a.toList) (hb : Unbroken b.toList) :
    Unbroken (a ++ b).toList := by
  intro c hc
  rw [String.toList_append, List.mem_append] at hc
  rcases hc with hc | hc
  · exact ha c hc
  · exact hb c hc

theorem unbroken_int (n : Int) : Unbroken (toString n).toList :=
  fun c hc => isLineBreak_of_not_isBlank ((plain_toString n).2 c hc).1

theorem unbroken_digits (n : Nat) : Unbroken (String.ofList (Nat.toDigits 16 n)).toList := by
  intro c hc
  rw [String.toList_ofList] at hc
  obtain ⟨d, hd, rfl⟩ := Numeral.exists_digit_of_mem_toDigits (by decide) hc
  have hnone : ∀ d < 16, isLineBreak (Nat.digitChar d) = false := by decide
  exact hnone d hd

theorem unbroken_hexadecimal (n : Int) : Unbroken (Numeral.hexadecimal n).toList := by
  unfold Numeral.hexadecimal
  refine unbroken_append ?_ (unbroken_digits n.natAbs)
  split
  · decide
  · decide

/-- A text with a name and an integer behind it. -/
theorem unbroken_named {text name : String} (htext : Unbroken text.toList)
    (hname : Unbroken name.toList) (n : Int) : Unbroken (text ++ name ++ toString n).toList :=
  unbroken_append (unbroken_append htext hname) (unbroken_int n)

theorem unbroken_shownRegisters (regs : Registers) : Unbroken (shownRegisters regs).toList := by
  have hv0 : Unbroken (" v0=" ++ toString regs.v0).toList :=
    unbroken_append (by decide) (unbroken_int regs.v0)
  have ha0 := unbroken_named hv0 (show Unbroken " a0=".toList by decide) regs.a0
  have ht0 := unbroken_named ha0 (show Unbroken " t0=".toList by decide) regs.t0
  have ht1 := unbroken_named ht0 (show Unbroken " t1=".toList by decide) regs.t1
  have hsp := unbroken_append (unbroken_append ht1 (show Unbroken " sp=".toList by decide))
    (unbroken_hexadecimal regs.sp)
  exact unbroken_append (unbroken_append hsp (by decide)) (unbroken_hexadecimal regs.fp)

/-- A line of a trace is one line. -/
theorem unbroken_traceLine {i : Instr} (pc : Int) (hlast : m.last = some i) (hi : i.Plain) :
    Unbroken (traceLine pc m).toList := by
  have htick : Unbroken ("t=" ++ toString m.tick).toList :=
    unbroken_append (by decide) (unbroken_int m.tick)
  have hpc := unbroken_named htick (show Unbroken " pc=".toList by decide) pc
  have hinstr : Unbroken i.text.toList := fun c hc => (hi.text_chars c hc).2
  rw [traceLine_eq pc hlast]
  exact unbroken_append (unbroken_append (unbroken_append hpc (by decide)) hinstr)
    (unbroken_shownRegisters m.storage.regs)

/-! ## Traced listings -/

/-- A line shows a step of a machine, before which there were `k` others: the steps, counted from
one, the program counter where the step begins, the instruction there, and the registers that the
step leaves. -/
structure Shows (m : Machine) (k : Nat) (line : String) (before after : Machine) (i : Instr) :
    Prop where
  reached : m.steps k = (.ok (), before)
  running : before.halted = false
  left : m.steps (k + 1) = (.ok (), after)
  pc_nonneg : 0 ≤ before.pc
  code : m.image.code[before.pc.toNat]? = some i
  last : after.last = some i
  text : line = s!"t={k + 1} pc={before.pc} " ++ i.text ++ shownRegisters after.storage.regs

namespace Traced

/-- Every line of a trace from tick zero on shows its step. -/
theorem shows (h : Traced m lines last) (htick : m.tick = 0) {k : Nat} {line : String}
    (hline : lines[k]? = some line) : ∃ before after i, Shows m k line before after i := by
  obtain ⟨hk, _⟩ := List.getElem?_eq_some_iff.mp hline
  obtain ⟨before, after, hbefore, hrunning, hstep, hafter, rfl⟩ := h.exists_step hline
  obtain ⟨_, i, hfetch, hlast, _⟩ := shown_of_step hrunning hstep
  obtain ⟨hpc, hcode⟩ := fetch?_eq_some hfetch
  have hreached := hbefore.steps_eq
  have hleft := hafter.steps_eq
  have hticks := hafter.tick_eq
  rw [List.length_take_of_le (by omega)] at hreached hleft hticks
  rw [hbefore.image_eq] at hcode
  refine ⟨before, after, i, hreached, hrunning, hleft, hpc, hcode, hlast, ?_⟩
  rw [traceLine_eq before.pc hlast, hticks, htick, Nat.zero_add]

/-- Lines of decoded instructions are read back from the text of a trace. -/
theorem unbroken (h : Traced m lines last) (hcode : ∀ i ∈ m.image.code, i.Plain) :
    ∀ line ∈ lines, Unbroken line.toList := by
  intro line hmem
  obtain ⟨k, hk⟩ := List.getElem?_of_mem hmem
  obtain ⟨before, after, hbefore, hrunning, hstep, _, rfl⟩ := h.exists_step hk
  obtain ⟨_, i, hfetch, hlast, _⟩ := shown_of_step hrunning hstep
  have hi := (fetch?_eq_some hfetch).2
  rw [hbefore.image_eq] at hi
  exact unbroken_traceLine before.pc hlast (hcode i (Array.mem_of_getElem? hi))

end Traced

/-- The machine of a listing stands at the entry of its image and has done nothing. -/
theorem ofListing_eq_ok {listing : String} {inputs : List Int} {limit : Int}
    (h : ofListing listing inputs limit = .ok m) :
    Image.ofListing listing = .ok m.image ∧ m.image.textLabels[entryLabel]? = some m.pc
      ∧ m.tick = 0 ∧ m.halted = false := by
  unfold ofListing at h
  split at h
  · cases h
  rename_i image himage
  split at h
  · cases h
  rename_i hboot
  cases h
  unfold boot at hboot
  split at hboot
  · rename_i hentry
    cases hboot
    exact ⟨himage, hentry, rfl, rfl⟩
  · cases hboot

theorem traceListing_of_ok {listing : String} {inputs : List Int} {limit : Int}
    (h : ofListing listing inputs limit = .ok m) :
    traceListing listing inputs limit
      = (outcome (m.runTraced #[]).1, (m.runTraced #[]).2) := by
  unfold traceListing
  rw [h]

theorem runListing_of_ok {listing : String} {inputs : List Int} {limit : Int}
    (h : ofListing listing inputs limit = .ok m) :
    runListing listing inputs limit = (outcome m.run, runEvents m.run) := by
  unfold runListing
  rw [h]

end MicroLang.Machine

namespace MicroLang

open MicroLang.Assembly
open MicroLang.Machine
open MicroLang.Text

/-- Whatever the listing, inputs and limit, a traced run gives the output or error of the run. Each
of its lines is one line of text and shows one step, from the entry on; behind the last of them no
step is left. A run that halts has as many lines as ticks, and a system call was its last
instruction. -/
theorem traceListing_faithful (listing : String) (inputs : List Int) (limit : Int) :
    (traceListing listing inputs limit).1 = (runListing listing inputs limit).1
      ∧ (∀ e, Machine.ofListing listing inputs limit = .error e →
        (traceListing listing inputs limit).2 = #[])
      ∧ ∀ m, Machine.ofListing listing inputs limit = .ok m →
        Image.ofListing listing = .ok m.image ∧ m.image.textLabels[entryLabel]? = some m.pc
        ∧ ∃ lines : List String, (traceListing listing inputs limit).2 = lines.toArray
          ∧ splitLines (unlines lines).toList = lines.map String.toList
          ∧ (∀ k line, lines[k]? = some line → ∃ before after i, Shows m k line before after i)
          ∧ (∃ last, m.steps lines.length = (.ok (), last) ∧ Ends last m.run)
          ∧ ∀ last, m.run = (.ok (), last) →
            lines.length = last.tick ∧ ∃ i, last.last = some i ∧ i.opcode = .syscall := by
  cases hload : Machine.ofListing listing inputs limit with
  | error e =>
    unfold traceListing runListing
    rw [hload]
    refine ⟨rfl, fun _ _ => rfl, ?_⟩
    intro m hm
    cases hm
  | ok m =>
    obtain ⟨himage, hentry, htick, hrunning⟩ := ofListing_eq_ok hload
    obtain ⟨lines, last, htraced, hlines, hends⟩ := exists_traced m #[]
    have hrun : (m.runTraced #[]).1 = m.run := by rw [htraced.run_eq, hends.run_eq]
    have hplain : ∀ i ∈ m.image.code, i.Plain := fun i => plain_of_ofListing himage
    rw [hrun] at hends
    rw [traceListing_of_ok hload, runListing_of_ok hload, hrun]
    refine ⟨rfl, ?_, ?_⟩
    · intro e he
      cases he
    intro m' hm'
    cases hm'
    refine ⟨himage, hentry, lines, ?_, splitLines_unlines (htraced.unbroken hplain),
      fun k line => htraced.shows htick, ⟨last, htraced.steps_eq, hends⟩, ?_⟩
    · rw [← Array.toList_inj, hlines, List.nil_append]
    · intro final hfinal
      rw [hfinal] at hends
      cases hends with
      | halted hhalted =>
        rw [htraced.tick_eq, htick, Nat.zero_add]
        exact ⟨rfl, htraced.last_of_halted hrunning hhalted⟩

/-- A listing that jumps over an instruction and exits. -/
def jumpingListing : String :=
  unlines ["main:", "jal done", "li $a0, 7", "done:", "li $v0, 10", "syscall"]

/-- The steps of `jumpingListing` have three lines, the second of which is behind the jump. -/
theorem traceListing_faithful_jumping :
    (traceListing jumpingListing [] 9).1 = .ok ""
      ∧ ∃ m last, Machine.ofListing jumpingListing [] 9 = .ok m ∧ m.run = (.ok (), last)
        ∧ last.tick = 3 ∧ (∃ i, last.last = some i ∧ i.opcode = .syscall)
        ∧ ∃ before after i, Shows m 1
          "t=2 pc=2 li $v0, 10 v0=10 a0=0 t0=0 t1=0 sp=0x7fffeffc fp=0x0" before after i := by
  have hresult : (traceListing jumpingListing [] 9).1 = .ok "" := by decide +kernel
  have hsize : (traceListing jumpingListing [] 9).2.size = 3 := by decide +kernel
  have hsecond : (traceListing jumpingListing [] 9).2[1]?
      = some "t=2 pc=2 li $v0, 10 v0=10 a0=0 t0=0 t1=0 sp=0x7fffeffc fp=0x0" := by decide +kernel
  obtain ⟨hsame, _, hloaded⟩ := traceListing_faithful jumpingListing [] 9
  refine ⟨hresult, ?_⟩
  rw [hresult] at hsame
  cases hload : Machine.ofListing jumpingListing [] 9 with
  | error e =>
    unfold runListing at hsame
    rw [hload] at hsame
    cases hsame
  | ok m =>
    obtain ⟨_, _, lines, hlines, _, hshows, _, hhalts⟩ := hloaded m hload
    rw [runListing_of_ok hload] at hsame
    rw [hlines] at hsize hsecond
    rw [List.getElem?_toArray] at hsecond
    cases hrun : m.run with
    | mk result last =>
      cases result with
      | error fault =>
        rw [hrun] at hsame
        cases hsame
      | ok =>
        obtain ⟨htick, hlast⟩ := hhalts last hrun
        exact ⟨m, last, rfl, hrun, htick.symm.trans hsize, hlast, hshows 1 _ hsecond⟩

end MicroLang
