import MicroLang.Proofs.RunLength

/-!
# Tick limits

The tick limit of a machine decides how far it is run and nothing else. It is compared with the
ticks before an instruction is fetched, and no instruction looks at it; so two machines that differ
in their limits only execute the same instructions as long as both have ticks left
(`Reaches.withLimit`).

A run is a number of instructions, never more than there are ticks, that lead to a machine which
goes no further (`exists_ends`): it has halted, it has used up its ticks, or its next step fails.
With another limit the same instructions are executed up to that machine, or up to the limit.

> `run_of_other_limit`: a run that halts does so with every limit from its last tick on, and a lower
> limit stops it after as many steps as it allows, with a fault that names the limit if that can be
> written; a run that fails for another reason than the limit fails in the same way with every
> higher one; and each run ends.
-/

namespace MicroLang.Machine

open MicroLang.Assembly
open MicroLang.Text

/-- The machine with another tick limit. -/
def withLimit (m : Machine) (limit : Int) : Machine :=
  { m with limit }

/-! ## Instructions -/

section

variable (m : Machine) (limit : Int)

theorem writeRegister_withLimit (name : String) (value : Int) :
    (m.withLimit limit).writeRegister name value
      = (·.withLimit limit) <$> m.writeRegister name value := by
  unfold Machine.writeRegister Storage.writeRegister
  cases Storage.register name with
  | error fault => rfl
  | ok r => rfl

theorem storeWord_withLimit (address value : Int) :
    (m.storage.storeWord address value >>= fun storage => pure { m.withLimit limit with storage })
      = (·.withLimit limit) <$>
        (m.storage.storeWord address value >>= fun storage => pure { m with storage }) := by
  cases m.storage.storeWord address value with
  | error fault => rfl
  | ok storage => rfl

theorem systemCall_withLimit :
    (m.withLimit limit).systemCall = (·.withLimit limit) <$> m.systemCall := by
  unfold systemCall
  dsimp only [withLimit]
  split
  · rw [map_bind]
    rfl
  split
  · rfl
  split
  · rfl
  split
  · rfl
  · rfl

/-- No instruction looks at the limit. -/
theorem execute_withLimit (i : Instr) :
    (m.withLimit limit).execute i = (·.withLimit limit) <$> m.execute i := by
  unfold execute
  split
  · rw [map_bind]
    exact bind_congr fun value => writeRegister_withLimit m limit _ value
  · rw [map_bind]
    refine bind_congr fun address => ?_
    rw [map_bind]
    exact bind_congr fun value => writeRegister_withLimit m limit _ value
  · rw [map_bind]
    refine bind_congr fun address => ?_
    rw [map_bind]
    exact bind_congr fun value => storeWord_withLimit m limit address value
  · rw [map_bind]
    exact bind_congr fun value => writeRegister_withLimit m limit _ value
  · rw [map_bind]
    refine bind_congr fun lhs => ?_
    rw [map_bind]
    exact bind_congr fun rhs => writeRegister_withLimit m limit _ _
  · rw [map_bind]
    refine bind_congr fun lhs => ?_
    rw [map_bind]
    exact bind_congr fun rhs => writeRegister_withLimit m limit _ _
  · rw [map_bind]
    refine bind_congr fun lhs => ?_
    rw [map_bind]
    exact bind_congr fun rhs => writeRegister_withLimit m limit _ _
  · dsimp only [withLimit]
    split
    · rfl
    · rfl
  · rw [map_bind]
    rfl
  · exact systemCall_withLimit m limit
  · rfl

end

/-! ## Runs of instructions -/

section

variable {m mid last : Machine} {n : Nat}

/-- Instructions lead to the same machine with every limit. -/
theorem Reaches.withLimit (h : Reaches m n last) (limit : Int) :
    Reaches (m.withLimit limit) n (last.withLimit limit) := by
  induction h with
  | refl m => exact .refl _
  | @step m next last i n hhalted hfetch hexecute hrest ih =>
    refine .step (i := i) hhalted hfetch ?_ ih
    show ((m.fetched i).withLimit limit).execute i = _
    rw [execute_withLimit, hexecute]
    rfl

/-- A step that succeeds on a machine that has not halted is one instruction. -/
theorem reaches_of_step (hrunning : m.halted = false) (h : m.step = (.ok (), last)) :
    Reaches m 1 last := by
  have hcases := step_cases m
  rw [h] at hcases
  cases hcases with
  | halted hhalted =>
    rw [hrunning] at hhalted
    cases hhalted
  | done _ _ hfetch hexecute => exact .single hrunning hfetch hexecute

/-- Instructions that there are ticks for lead a run on. -/
theorem Reaches.run_eq_of_le (h : Reaches m n last) (hn : n ≤ m.ticksLeft) : m.run = last.run := by
  have hleft : m.ticksLeft = (m.limit - m.tick).toNat := rfl
  rcases Nat.eq_zero_or_pos n with hzero | hpos
  · subst hzero
    cases h
    rfl
  · exact h.run_eq (by omega)

/-- Instructions that there are ticks for are as many steps. -/
theorem Reaches.steps_add (h : Reaches m n last) (hn : n ≤ m.ticksLeft) (k : Nat) :
    m.steps (n + k) = last.steps k := by
  induction h with
  | refl m => rw [Nat.zero_add]
  | @step m next last i n hhalted hfetch hexecute hrest ih =>
    have hleft : m.ticksLeft = (m.limit - m.tick).toNat := rfl
    have hstep : m.step = (.ok (), next) := step_eq_ok hhalted (by omega) hfetch hexecute
    obtain ⟨htick, hlimit, _⟩ := tick_of_step hhalted hstep
    have hrest' : next.ticksLeft = (next.limit - next.tick).toNat := rfl
    rw [Nat.add_right_comm, steps, hstep]
    exact ih (by omega)

/-! ## Ends of runs -/

/-- How a machine that goes no further ends its run. -/
inductive Ends (m : Machine) : Except Fault Unit × Machine → Prop where
  | halted (hhalted : m.halted = true) : Ends m (.ok (), m)
  | atLimit (hrunning : m.halted = false) (hlimit : m.limit ≤ m.tick) :
      Ends m (.error (.naming .tickLimit m.limit), m)
  | failed {fault : Fault} {last : Machine} (hrunning : m.halted = false)
      (hlimit : (m.tick : Int) < m.limit) (hstep : m.step = (.error fault, last)) :
      Ends m (.error fault, last)

theorem ends_of_step_error {fault : Fault} (h : m.step = (.error fault, last)) :
    Ends m (.error fault, last) := by
  have hcases := step_cases m
  rw [h] at hcases
  cases hcases with
  | atLimit hrunning hlimit => exact .atLimit hrunning hlimit
  | outside hrunning hlimit _ => exact .failed hrunning hlimit h
  | failed hrunning hlimit _ _ => exact .failed hrunning hlimit h

/-- Every run executes some instructions, for each of which there is a tick, and ends. -/
theorem exists_ends (m : Machine) :
    ∃ n mid, Reaches m n mid ∧ n ≤ m.ticksLeft ∧ Ends mid m.run := by
  fun_induction run m with
  | case1 m hhalted => exact ⟨0, m, .refl m, Nat.zero_le _, .halted hhalted⟩
  | case2 m hrunning next hstep ih =>
    obtain ⟨n, mid, hreach, hn, hends⟩ := ih
    have hfewer := ticksLeft_lt_of_step hrunning hstep
    have hfirst := reaches_of_step (Bool.eq_false_iff.mpr hrunning) hstep
    refine ⟨1 + n, mid, hfirst.trans hreach, by omega, hends⟩
  | case3 m hrunning fault last hstep =>
    exact ⟨0, m, .refl m, Nat.zero_le _, ends_of_step_error hstep⟩

/-- A step that fails with ticks left fails in the same way with every limit that leaves ticks. -/
theorem step_error_withLimit {fault : Fault} {limit : Int} (hlimit : (m.tick : Int) < m.limit)
    (hlimit' : (m.tick : Int) < limit) (h : m.step = (.error fault, last)) :
    (m.withLimit limit).step = (.error fault, last.withLimit limit) := by
  have hcases := step_cases m
  rw [h] at hcases
  cases hcases with
  | atLimit _ hreached => exact absurd hlimit (Int.not_lt.mpr hreached)
  | outside hrunning _ hfetch => exact step_of_fetch_none hrunning hlimit' hfetch
  | @failed i _ hrunning _ hfetch hexecute =>
    refine step_eq_error hrunning hlimit' hfetch ?_
    show ((m.fetched i).withLimit limit).execute i = _
    rw [execute_withLimit, hexecute]
    rfl

/-- A run that succeeds has halted. -/
theorem halted_of_run (h : m.run = (.ok (), last)) : last.halted = true := by
  obtain ⟨_, _, _, _, hends⟩ := exists_ends m
  rw [h] at hends
  cases hends with
  | halted hhalted => exact hhalted

/-! ## Two limits -/

/-- A run that halts within the limit. -/
theorem run_withLimit_of_le (h : m.run = (.ok (), last)) {limit : Int}
    (hlimit : (last.tick : Int) ≤ limit) :
    (m.withLimit limit).run = (.ok (), last.withLimit limit) := by
  obtain ⟨n, mid, hreach, hn, hends⟩ := exists_ends m
  rw [h] at hends
  cases hends with
  | halted hhalted =>
    have htick := hreach.tick_eq.1
    have hleft : (m.withLimit limit).ticksLeft = (limit - m.tick).toNat := rfl
    rw [(hreach.withLimit limit).run_eq_of_le (by omega)]
    exact run_of_halted hhalted

/-- A run that would halt later is stopped by the limit, after the steps that it allows. -/
theorem run_withLimit_of_lt (hrunning : m.halted = false) (h : m.run = (.ok (), last)) {limit : Int}
    (hlimit : limit < last.tick) :
    ∃ mid, m.steps (limit - m.tick).toNat = (.ok (), mid)
      ∧ mid.tick = m.tick + (limit - m.tick).toNat
      ∧ (m.withLimit limit).run = (.error (.naming .tickLimit limit), mid.withLimit limit) := by
  obtain ⟨n, _, hreach, hn, hends⟩ := exists_ends m
  rw [h] at hends
  cases hends with
  | halted hhalted =>
    have htick := hreach.tick_eq.1
    -- a machine that has not halted needs an instruction to do so
    have hpos : n ≠ 0 := by
      rintro rfl
      cases hreach
      rw [hrunning] at hhalted
      cases hhalted
    obtain ⟨mid, hfirst, hsecond⟩ := hreach.split (k := (limit - m.tick).toNat) (by omega)
    have hmid := hfirst.tick_eq.1
    refine ⟨mid, hfirst.steps_add (by omega) 0, hmid, ?_⟩
    have hleft : (m.withLimit limit).ticksLeft = (limit - m.tick).toNat := rfl
    rw [(hfirst.withLimit limit).run_eq_of_le (by omega)]
    refine run_of_limit_le (m := mid.withLimit limit) (hsecond.running (by omega)) ?_
    show limit ≤ mid.tick
    omega

/-- A run that fails, and not for its limit, fails likewise if it is given more ticks. -/
theorem run_withLimit_of_error {fault : Fault} (h : m.run = (.error fault, last))
    (hfault : m.limit ≤ last.tick → fault ≠ .naming .tickLimit m.limit) {limit : Int}
    (hlimit : m.limit ≤ limit) :
    (m.withLimit limit).run = (.error fault, last.withLimit limit) := by
  obtain ⟨n, mid, hreach, hn, hends⟩ := exists_ends m
  obtain ⟨htick, hkept⟩ := hreach.tick_eq
  rw [h] at hends
  cases hends with
  | atLimit _ hreached =>
    rw [hkept] at hreached hfault
    exact absurd rfl (hfault hreached)
  | failed hrunning hbefore hstep =>
    have hleft : m.ticksLeft = (m.limit - m.tick).toNat := rfl
    have hleft' : (m.withLimit limit).ticksLeft = (limit - m.tick).toNat := rfl
    rw [(hreach.withLimit limit).run_eq_of_le (by omega)]
    exact run_of_step_error hrunning (step_error_withLimit hbefore (by omega) hstep)

/-- A run takes a step for each of its ticks at most, and one more that fails. -/
theorem exists_steps_eq_run (m : Machine) : ∃ n ≤ m.ticksLeft + 1, m.steps n = m.run := by
  obtain ⟨n, mid, hreach, hn, hends⟩ := exists_ends m
  have hfailing : ∀ {fault : Fault} {last : Machine}, mid.step = (.error fault, last) →
      m.steps (n + 1) = (.error fault, last) := by
    intro fault last hstep
    rw [hreach.steps_add hn, steps, hstep]
  generalize hrun : m.run = result at hends ⊢
  cases hends with
  | halted _ => exact ⟨n, by omega, hreach.steps_add hn 0⟩
  | atLimit hrunning hlimit =>
    exact ⟨n + 1, by omega, hfailing (step_of_limit_le hrunning hlimit)⟩
  | failed _ _ hstep => exact ⟨n + 1, by omega, hfailing hstep⟩

end

/-- A machine boots in the same state with every limit. -/
theorem boot_withLimit (image : Image) (inputs : List Int) (limit limit' : Int) (entry : String) :
    boot image inputs limit' entry = (·.withLimit limit') <$> boot image inputs limit entry := by
  unfold boot
  split
  · rfl
  · rfl

/-- An image with the entry boots. -/
theorem exists_boot {image : Image} {entry : String} (inputs : List Int) (limit : Int)
    (hentry : entry ∈ image.textLabels) :
    ∃ m, boot image inputs limit entry = .ok m ∧ m.tick = 0 ∧ m.halted = false
      ∧ m.limit = limit := by
  obtain ⟨pc, hpc⟩ := Option.isSome_iff_exists.mp (Std.TreeMap.mem_iff_isSome_getElem?.mp hentry)
  unfold boot
  rw [hpc]
  exact ⟨_, rfl, rfl, rfl, rfl⟩

/-- If the run with one limit halts, the run with another one halts in the same state, or is stopped
in the state after as many steps as the limit allows, with a fault that names it unless it cannot be
written; if it fails, and not for its limit, a run with a higher one fails likewise. Every run ends,
within one step more than its limit allows. -/
theorem run_of_other_limit (image : Image) (inputs : List Int) (entry : String)
    (hentry : entry ∈ image.textLabels) (limit limit' : Int) :
    ∃ m, boot image inputs limit entry = .ok m
      ∧ boot image inputs limit' entry = .ok (m.withLimit limit')
      ∧ (∀ last, m.run = (.ok (), last) → last.halted = true
        ∧ ((last.tick : Int) ≤ limit' →
          (m.withLimit limit').run = (.ok (), last.withLimit limit'))
        ∧ (limit' < last.tick → ∃ mid, m.steps limit'.toNat = (.ok (), mid)
          ∧ mid.tick = limit'.toNat
          ∧ (∀ h : Numeral.IsShort limit',
            (m.withLimit limit').run = (.error (.tickLimit ⟨limit', h⟩), mid.withLimit limit')
            ∧ (Fault.tickLimit ⟨limit', h⟩).message
              = "tick limit " ++ toString limit' ++ " exceeded")
          ∧ (¬ Numeral.IsShort limit' →
            (m.withLimit limit').run = (.error .unwritable, mid.withLimit limit'))))
      ∧ (∀ fault last, m.run = (.error fault, last) →
        (limit ≤ last.tick → fault ≠ .naming .tickLimit limit) → limit ≤ limit' →
        (m.withLimit limit').run = (.error fault, last.withLimit limit'))
      ∧ ∃ n ≤ limit.toNat + 1, m.steps n = m.run := by
  obtain ⟨m, hboot, htick, hrunning, hlimit⟩ := exists_boot inputs limit hentry
  have hleft : ∀ limit : Int, (limit - m.tick).toNat = limit.toNat := by
    intro limit
    rw [htick]
    exact congrArg Int.toNat (Int.sub_zero limit)
  refine ⟨m, hboot, ?_, ?_, ?_, ?_⟩
  · rw [boot_withLimit image inputs limit limit' entry, hboot]
    rfl
  · intro last hrun
    refine ⟨halted_of_run hrun, run_withLimit_of_le hrun, ?_⟩
    intro hlow
    obtain ⟨mid, hsteps, hmid, hstopped⟩ := run_withLimit_of_lt hrunning hrun hlow
    rw [hleft] at hsteps hmid
    rw [htick, Nat.zero_add] at hmid
    refine ⟨mid, hsteps, hmid, fun hshort => ⟨?_, rfl⟩, fun hlong => ?_⟩
    · rw [hstopped, naming_of_short hshort]
    · rw [hstopped, naming_of_long hlong]
  · intro fault last hrun hfault hhigh
    exact run_withLimit_of_error hrun (hlimit ▸ hfault) (hlimit ▸ hhigh)
  · obtain ⟨n, hn, hsteps⟩ := exists_steps_eq_run m
    rw [ticksLeft, hlimit, hleft] at hn
    exact ⟨n, hn, hsteps⟩

/-- The image of a program that reads an input and exits. -/
def readingImage : Image where
  code := #[⟨.li, ["$v0", "5"]⟩, ⟨.syscall, []⟩, ⟨.li, ["$v0", "10"]⟩, ⟨.syscall, []⟩]
  textLabels := Std.TreeMap.empty.insert "main" 0

/-- The machine at the entry of `readingImage`. -/
def readingMachine : Machine where
  image := readingImage
  storage := {}
  console := { input := [7] }
  pc := 0
  limit := 9

theorem boot_readingImage : boot readingImage [7] 9 "main" = .ok readingMachine := by
  have hentry : readingImage.textLabels["main"]? = some 0 := Std.TreeMap.getElem?_insert_self
  unfold boot
  rw [hentry]
  rfl

/-- A program that halts after four instructions, with a limit that is just enough, and with one
that stops it right behind its second instruction. -/
theorem run_of_other_limit_reading :
    "main" ∈ readingImage.textLabels ∧ boot readingImage [7] 9 "main" = .ok readingMachine
      ∧ ∃ last, readingMachine.run = (.ok (), last) ∧ last.tick = 4
        ∧ (readingMachine.withLimit 4).run = (.ok (), last.withLimit 4)
        ∧ ∃ mid, readingMachine.steps 2 = (.ok (), mid) ∧ mid.tick = 2 ∧ mid.reg .v0 = 7
          ∧ (readingMachine.withLimit 2).run
            = (.error (.tickLimit ⟨2, by decide⟩), mid.withLimit 2) := by
  have hentry : "main" ∈ readingImage.textLabels := Std.TreeMap.mem_insert_self
  have hresult : readingMachine.run.1 = .ok () := by decide +kernel
  have htick : readingMachine.run.2.tick = 4 := by decide +kernel
  have hread : (readingMachine.steps 2).2.reg .v0 = 7 := by decide +kernel
  have hrun : readingMachine.run = (.ok (), readingMachine.run.2) := Prod.ext hresult rfl
  -- the machine of each instance is the one that boots
  obtain ⟨m, hboot, _, hhalts, _⟩ := run_of_other_limit readingImage [7] "main" hentry 9 4
  obtain rfl := Except.ok.inj (boot_readingImage.symm.trans hboot)
  obtain ⟨m', hboot', _, hstops, _⟩ := run_of_other_limit readingImage [7] "main" hentry 9 2
  obtain rfl := Except.ok.inj (boot_readingImage.symm.trans hboot')
  obtain ⟨_, henough, _⟩ := hhalts _ hrun
  obtain ⟨_, _, hstopped⟩ := hstops _ hrun
  obtain ⟨mid, hsteps, hmid, hwritable, _⟩ := hstopped (by rw [htick]; decide)
  obtain ⟨hrun', _⟩ := hwritable (by decide)
  refine ⟨hentry, boot_readingImage, _, hrun, htick, henough (by rw [htick]; decide), mid, hsteps,
    hmid, ?_, hrun'⟩
  have hsame : (readingMachine.steps 2).2 = mid := congrArg Prod.snd hsteps
  rw [← hsame]
  exact hread

/-- The same program with a limit that cannot be written: it fails at once, and neither that the run
went beyond a limit is said nor does the failure stay with a higher limit. -/
theorem run_reading_of_long_limit :
    boot readingImage [7] 9 "main" = .ok readingMachine ∧ readingMachine.run.1 = .ok ()
      ∧ (readingMachine.withLimit (-10 ^ Numeral.digitLimit)).run
        = (.error .unwritable, readingMachine.withLimit (-10 ^ Numeral.digitLimit))
      ∧ ∀ limit, Fault.unwritable ≠ .tickLimit limit := by
  have hlong : ¬ Numeral.IsShort (readingMachine.withLimit (-10 ^ Numeral.digitLimit)).limit :=
    Numeral.not_isShort_neg_pow
  refine ⟨boot_readingImage, by decide +kernel, ?_, ?_⟩
  · rw [run_of_limit_le rfl (by exact Numeral.neg_pow_nonpos), naming_of_long hlong]
  · intro limit heq
    cases heq

end MicroLang.Machine
