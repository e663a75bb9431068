import MicroLang.Proofs.Observation

/-!
# What always holds of a machine

Whatever instructions a machine runs, and whatever is read and written in its storage in between,
the storage stays `Intact`: registers hold integers of 32 bits, words lie at multiples of four, and
a word that is no longer as the image gave it has 32 bits. Integers of any size come in from
operands, inputs and data words, but each of them passes `wrap` before it is written.

An instruction that fails leaves the storage as it was, so what a step keeps has to be shown for
instructions that succeed only; `Effect` lists what they can do, and an address is checked before a
word is stored there (`exists_setWord_of_execute`).

> `performAll_intact`: from the entry of an image with words at multiples of four, every sequence of
> actions keeps the storage intact and the ticks within the limit, no tick is taken back, and a
> halted machine steps no more. The image of a listing has its words at multiples of four.
-/

namespace MicroLang.Machine

open MicroLang.Assembly
open MicroLang.Sequencing

/-! ## Storage -/

namespace Storage

/-- Registers and memory are as they should be, where the memory held the given words at first. -/
structure Intact (data : Std.TreeMap Int Int) (d : Storage) : Prop where
  registers : ∀ r, IsWord (d.regs.get r)
  aligned : ∀ address ∈ d.memory, address % 4 = 0
  /-- A word that is not the one at first has 32 bits. -/
  words : ∀ address : Int, d.memory[address]? ≠ data[address]? →
    ∃ v, d.memory[address]? = some v ∧ IsWord v

section

variable {data : Std.TreeMap Int Int} {d d' : Storage}

/-- At first all registers but the stack pointer are zero. -/
theorem intact_start (haligned : ∀ address ∈ data, address % 4 = 0) :
    Intact data { memory := data } where
  registers := isWord_initial
  aligned := haligned
  words := fun _ hne => absurd rfl hne

theorem Intact.set (h : Intact data d) (r : Register) (v : Int) :
    Intact data { d with regs := d.regs.set r v } where
  registers := isWord_set h.registers r v
  aligned := h.aligned
  words := h.words

theorem Intact.insert (h : Intact data d) {address : Int} (haligned : address % 4 = 0) (v : Int) :
    Intact data { d with memory := d.memory.insert address (wrap v) } where
  registers := h.registers
  aligned := by
    intro a ha
    rcases Std.TreeMap.mem_insert.mp ha with heq | ha
    · rw [← Std.LawfulEqCmp.compare_eq_iff_eq.mp heq]
      exact haligned
    · exact h.aligned a ha
  words := by
    intro a hne
    dsimp only at hne ⊢
    rw [Std.TreeMap.getElem?_insert] at hne ⊢
    by_cases ha : compare address a = .eq
    · rw [if_pos ha]
      exact ⟨_, rfl, isWord_wrap v⟩
    · rw [if_neg ha] at hne ⊢
      exact h.words a hne

theorem Intact.writeRegister (h : Intact data d) {name : String} {v : Int}
    (hwrite : d.writeRegister name v = .ok d') : Intact data d' := by
  obtain ⟨r, _, hregs⟩ := except_bind_eq_ok.1 hwrite
  cases hregs
  exact h.set r v

theorem checkAligned_eq_ok {address : Int} (h : checkAligned address = .ok ()) :
    address % 4 = 0 := by
  unfold checkAligned at h
  split at h
  · assumption
  · cases h

theorem Intact.storeWord (h : Intact data d) {address v : Int}
    (hstore : d.storeWord address v = .ok d') : Intact data d' := by
  obtain ⟨_, haligned, hmemory⟩ := except_bind_eq_ok.1 hstore
  cases hmemory
  exact h.insert (checkAligned_eq_ok haligned) v

end

end Storage

/-! ## Steps -/

/-- A word that an instruction stores lies at a multiple of four. -/
theorem exists_setWord_of_execute {m m' : Machine} {i : Instr} (hi : i.opcode = .sw)
    (h : m.execute i = .ok m') : ∃ address v, address % 4 = 0 ∧ m' = m.setWord address v := by
  unfold execute at h
  split at h
  case h_3 =>
    obtain ⟨address, _, h⟩ := except_bind_eq_ok.1 h
    obtain ⟨v, _, h⟩ := except_bind_eq_ok.1 h
    obtain ⟨storage, hstore, h⟩ := except_bind_eq_ok.1 h
    obtain ⟨_, haligned, _⟩ := except_bind_eq_ok.1 hstore
    cases h
    cases storeWord_eq_ok hstore
    exact ⟨address, v, Storage.checkAligned_eq_ok haligned, rfl⟩
  case h_11 => cases h
  all_goals simp_all

/-- The storage of a machine is intact, and its ticks are within the limit. -/
structure Intact (data : Std.TreeMap Int Int) (limit : Int) (m : Machine) : Prop where
  storage : m.storage.Intact data
  limit_eq : m.limit = limit
  tick_le : m.tick ≤ limit.toNat

section

variable {data : Std.TreeMap Int Int} {limit : Int} {m m' : Machine}

/-- A fetch that the limit allows. -/
theorem Intact.fetched (h : Intact data limit m) (hlimit : (m.tick : Int) < m.limit) (i : Instr) :
    Intact data limit (m.fetched i) where
  storage := h.storage
  limit_eq := h.limit_eq
  tick_le := by
    have hkept := h.limit_eq
    show m.tick + 1 ≤ limit.toNat
    omega

theorem Intact.execute (h : Intact data limit m) {i : Instr} (hexecute : m.execute i = .ok m') :
    Intact data limit m' := by
  have hkeeps := execute_keeps hexecute
  refine ⟨?_, hkeeps.2.trans h.limit_eq, hkeeps.1 ▸ h.tick_le⟩
  cases effect_of_execute hexecute with
  | sets r v _ => exact h.storage.set r v
  | stores address v hi =>
    obtain ⟨a, w, haligned, hstored⟩ := exists_setWord_of_execute hi hexecute
    rw [hstored]
    exact h.storage.insert haligned w
  | calls pc _ => exact h.storage.set .ra m.pc
  | returns pc _ => exact h.storage
  | printsInt _ => exact h.storage
  | reads _ => exact h.storage.set .v0 _
  | exits _ => exact h.storage
  | printsChar _ => exact h.storage

/-- A step keeps the storage intact, whether it succeeds or fails. -/
theorem Intact.step (h : Intact data limit m) : Intact data limit m.step.2 := by
  have hcases := step_cases m
  generalize m.step = result at hcases ⊢
  cases hcases with
  | halted _ => exact h
  | atLimit _ _ => exact h
  | outside _ _ _ => exact h
  | done _ hlimit _ hexecute => exact (h.fetched hlimit _).execute hexecute
  | failed _ hlimit _ _ => exact h.fetched hlimit _

/-- No step takes a tick back. -/
theorem tick_le_step (m : Machine) : m.tick ≤ m.step.2.tick := by
  have hcases := step_cases m
  generalize m.step = result at hcases ⊢
  cases hcases with
  | halted _ => exact Nat.le_refl _
  | atLimit _ _ => exact Nat.le_refl _
  | outside _ _ _ => exact Nat.le_refl _
  | done _ _ _ hexecute =>
    rw [(execute_keeps hexecute).1]
    exact Nat.le_succ _
  | failed _ _ _ _ => exact Nat.le_succ _

end

/-! ## Sequences of actions -/

/-- What can be done to a machine: a step, or a use of its storage. -/
inductive Action where
  | step
  | readRegister (name : String)
  | writeRegister (name : String) (value : Int)
  | loadWord (address : Int)
  | storeWord (address value : Int)

/-- The machine with another storage, unless the storage failed. -/
def replaceStorage (m : Machine) : Except Fault Storage → Except Fault (Option Int) × Machine
  | .ok storage => (.ok none, { m with storage })
  | .error fault => (.error fault, m)

/-- What an action gives, and the machine after it. -/
def perform (m : Machine) : Action → Except Fault (Option Int) × Machine
  | .step => ((fun _ => none) <$> m.step.1, m.step.2)
  | .readRegister name => (some <$> m.storage.readRegister name, m)
  | .writeRegister name value => m.replaceStorage (m.storage.writeRegister name value)
  | .loadWord address => (some <$> m.storage.loadWord address, m)
  | .storeWord address value => m.replaceStorage (m.storage.storeWord address value)

/-- The machine after actions, whether they succeed or fail. -/
def performAll (m : Machine) (actions : List Action) : Machine :=
  actions.foldl (fun m action => (m.perform action).2) m

section

variable {data : Std.TreeMap Int Int} {limit : Int} {m : Machine}

/-- A use of the storage changes nothing else. -/
theorem replaceStorage_keeps (m : Machine) (result : Except Fault Storage) :
    (m.replaceStorage result).2.tick = m.tick ∧ (m.replaceStorage result).2.limit = m.limit
      ∧ (m.replaceStorage result).2.halted = m.halted := by
  cases result with
  | ok storage => exact ⟨rfl, rfl, rfl⟩
  | error fault => exact ⟨rfl, rfl, rfl⟩

theorem Intact.replaceStorage (h : Intact data limit m) {result : Except Fault Storage}
    (hresult : ∀ storage, result = .ok storage → storage.Intact data) :
    Intact data limit (m.replaceStorage result).2 := by
  cases result with
  | ok storage => exact ⟨hresult storage rfl, h.limit_eq, h.tick_le⟩
  | error fault => exact h

theorem Intact.perform (h : Intact data limit m) (action : Action) :
    Intact data limit (m.perform action).2 := by
  cases action with
  | step => exact h.step
  | readRegister name => exact h
  | writeRegister name value =>
    exact h.replaceStorage fun _ hwrite => h.storage.writeRegister hwrite
  | loadWord address => exact h
  | storeWord address value => exact h.replaceStorage fun _ hstore => h.storage.storeWord hstore

theorem tick_le_perform (m : Machine) (action : Action) : m.tick ≤ (m.perform action).2.tick := by
  cases action with
  | step => exact tick_le_step m
  | readRegister name => exact Nat.le_refl _
  | writeRegister name value => exact Nat.le_of_eq (replaceStorage_keeps m _).1.symm
  | loadWord address => exact Nat.le_refl _
  | storeWord address value => exact Nat.le_of_eq (replaceStorage_keeps m _).1.symm

theorem halted_perform (hhalted : m.halted = true) (action : Action) :
    (m.perform action).2.halted = true := by
  cases action with
  | step =>
    show m.step.2.halted = true
    rw [step_of_halted hhalted]
    exact hhalted
  | readRegister name => exact hhalted
  | writeRegister name value => exact (replaceStorage_keeps m _).2.2.trans hhalted
  | loadWord address => exact hhalted
  | storeWord address value => exact (replaceStorage_keeps m _).2.2.trans hhalted

/-- What each action keeps, a sequence of actions keeps. -/
theorem performAll_keeps {P : Machine → Prop} (hstep : ∀ m action, P m → P (m.perform action).2)
    (h : P m) (actions : List Action) : P (m.performAll actions) := by
  induction actions generalizing m with
  | nil => exact h
  | cons action actions ih => exact ih (hstep m action h)

end

/-! ## Images of listings -/

/-- The words so far, and the place for the next one, are at multiples of four. -/
structure AlignedLoader (l : Loader) : Prop where
  next : l.next % 4 = 0
  data : ∀ address ∈ l.image.data, address % 4 = 0

section

variable {l l' : Loader}

theorem AlignedLoader.addWord (h : AlignedLoader l) (v : Int) : AlignedLoader (l.addWord v) where
  next := by
    have hnext := h.next
    show (l.next + 4) % 4 = 0
    omega
  data := by
    intro a ha
    rcases Std.TreeMap.mem_insert.mp ha with heq | ha
    · rw [← Std.LawfulEqCmp.compare_eq_iff_eq.mp heq]
      exact h.next
    · exact h.data a ha

theorem AlignedLoader.addWords {items : List String} (h : AlignedLoader l)
    (hadd : l.addWords items = .ok l') : AlignedLoader l' := by
  induction items generalizing l with
  | nil =>
    cases hadd
    exact h
  | cons item items ih =>
    unfold Loader.addWords at hadd
    cases hread : readWord item with
    | error e =>
      rw [hread] at hadd
      cases hadd
    | ok v =>
      rw [hread] at hadd
      exact ih (h.addWord v) hadd

theorem AlignedLoader.define (h : AlignedLoader l) (name : String) :
    AlignedLoader (l.define name) := by
  unfold Loader.define
  split
  · exact ⟨h.next, h.data⟩
  · exact ⟨h.next, h.data⟩

theorem AlignedLoader.add {entry : Entry} {line : Nat} (h : AlignedLoader l)
    (hadd : l.add line entry = .ok l') : AlignedLoader l' := by
  cases entry with
  | nothing =>
    cases hadd
    exact h
  | label name =>
    cases hadd
    exact h.define name
  | opening s =>
    cases hadd
    exact ⟨h.next, h.data⟩
  | global =>
    cases hadd
    exact h
  | words items =>
    unfold Loader.add at hadd
    dsimp only at hadd
    split at hadd
    · split at hadd
      · rename_i hwords
        cases hadd
        exact h.addWords hwords
      · cases hadd
    · cases hadd
  | instr i =>
    cases hadd
    exact ⟨h.next, h.data⟩
  | unknown word => cases hadd

theorem AlignedLoader.addLines {texts : List (List Char)} {line : Nat} (h : AlignedLoader l)
    (hadd : l.addLines line texts = .ok l') : AlignedLoader l' := by
  induction texts generalizing l line with
  | nil =>
    cases hadd
    exact h
  | cons text texts ih =>
    unfold Loader.addLines at hadd
    cases hentry : l.add line (Entry.read text) with
    | error e =>
      rw [hentry] at hadd
      cases hadd
    | ok next =>
      rw [hentry] at hadd
      exact ih (h.add hentry) hadd

/-- A listing puts its words at multiples of four. -/
theorem aligned_of_ofListing {listing : String} {image : Image}
    (h : Image.ofListing listing = .ok image) : ∀ address ∈ image.data, address % 4 = 0 := by
  unfold Image.ofListing at h
  cases hlines : Loader.addLines {} 1 (Text.splitLines listing.toList) with
  | error e =>
    rw [hlines] at h
    cases h
  | ok l =>
    rw [hlines] at h
    cases h
    have hempty : AlignedLoader {} :=
      ⟨by decide, fun address hmem => absurd hmem Std.TreeMap.not_mem_emptyc⟩
    exact (hempty.addLines hlines).data

end

/-! ## All that can be done to a machine -/

/-- A text names one of the registers or is refused. -/
theorem register_cases (name : String) :
    (∃ r, r ∈ Register.all ∧ name = r.name)
      ∨ name ∉ Register.all.map Register.name
        ∧ Storage.register name = .error (.unknownRegister name) := by
  cases hname : Register.ofName? name with
  | some r =>
    have hsome := List.find?_some (p := fun r : Register => r.name == name) hname
    exact .inl ⟨r, List.mem_of_find?_eq_some hname, (beq_iff_eq.mp hsome).symm⟩
  | none =>
    refine .inr ⟨?_, ?_⟩
    · intro hmem
      obtain ⟨r, _, rfl⟩ := List.mem_map.mp hmem
      rw [Register.ofName?_name] at hname
      cases hname
    · unfold Storage.register
      rw [hname]

theorem Register.name_inj {r q : Register} : q.name = r.name ↔ q = r := by
  constructor
  · intro h
    exact Option.some.inj (by rw [← ofName?_name q, h, ofName?_name r])
  · exact congrArg name

namespace Storage

variable (d : Storage) (name : String)

/-- The registers that can be read. -/
theorem readRegister_eq_ok_iff :
    (∃ v, d.readRegister name = .ok v) ↔ name ∈ Register.all.map Register.name := by
  unfold readRegister
  rcases register_cases name with ⟨r, hmem, rfl⟩ | ⟨hnot, hregister⟩
  · rw [register_name]
    exact iff_of_true ⟨_, rfl⟩ (List.mem_map_of_mem hmem)
  · rw [hregister]
    refine iff_of_false ?_ hnot
    rintro ⟨v, h⟩
    cases h

/-- By their names, registers read as they were written last, and `$zero` ignores writes; nothing
that is no register can be written. -/
theorem writeRegister_cases (value : Int) :
    (∃ d', d.writeRegister name value = .ok d' ∧ name ∈ Register.all.map Register.name
        ∧ d'.memory = d.memory
        ∧ ∀ other, d'.readRegister other
          = if other = name ∧ name ≠ "$zero" then .ok (wrap value) else d.readRegister other)
      ∨ d.writeRegister name value = .error (.unknownRegister name)
        ∧ name ∉ Register.all.map Register.name := by
  unfold writeRegister
  rcases register_cases name with ⟨r, hmem, rfl⟩ | ⟨hnot, hregister⟩
  · rw [register_name]
    refine .inl ⟨_, rfl, List.mem_map_of_mem hmem, rfl, ?_⟩
    intro other
    unfold readRegister
    rcases register_cases other with ⟨q, _, rfl⟩ | ⟨hother, hregister⟩
    · have hsame : q.name = r.name ∧ r.name ≠ "$zero" ↔ q = r ∧ r ≠ .zero :=
        and_congr Register.name_inj (not_congr (Register.name_inj (r := .zero)))
      rw [register_name]
      show Except.ok ((d.regs.set r value).get q) = _
      rw [Registers.get_set]
      simp only [hsame]
      split
      · rfl
      · rfl
    · rw [hregister, if_neg]
      · rfl
      · rintro ⟨rfl, _⟩
        exact hother (List.mem_map_of_mem hmem)
  · rw [hregister]
    exact .inr ⟨rfl, hnot⟩

end Storage

theorem intact_boot {image : Image} {inputs : List Int} {limit : Int} {entry : String} {m : Machine}
    (haligned : ∀ address ∈ image.data, address % 4 = 0)
    (h : boot image inputs limit entry = .ok m) : Intact image.data limit m := by
  unfold boot at h
  split at h
  · cases h
    exact ⟨Storage.intact_start haligned, rfl, Nat.zero_le _⟩
  · cases h

/-- After any actions on a machine that was booted from an image with words at multiples of four:
there are the eight registers, to read and to write, each of which reads as it was written last but
for `$zero`, which is zero; the storage is intact, the ticks are within the limit, no further action
takes a tick back, and a machine that has halted stays as it is in every further step. The images of
listings are such images. -/
theorem performAll_intact :
    (∀ (image : Image) (inputs : List Int) (limit : Int) (entry : String) (m : Machine)
      (actions : List Action), (∀ address ∈ image.data, address % 4 = 0) →
      boot image inputs limit entry = .ok m →
        (∀ name, (∃ v, (m.performAll actions).storage.readRegister name = .ok v)
          ↔ name ∈ ["$zero", "$v0", "$a0", "$t0", "$t1", "$sp", "$fp", "$ra"])
        ∧ (m.performAll actions).storage.readRegister "$zero" = .ok 0
        ∧ (∀ name value,
          (∃ d, (m.performAll actions).storage.writeRegister name value = .ok d
            ∧ name ∈ ["$zero", "$v0", "$a0", "$t0", "$t1", "$sp", "$fp", "$ra"]
            ∧ d.memory = (m.performAll actions).storage.memory
            ∧ ∀ other, d.readRegister other
              = if other = name ∧ name ≠ "$zero" then .ok (wrap value)
                else (m.performAll actions).storage.readRegister other)
          ∨ (m.performAll actions).storage.writeRegister name value = .error (.unknownRegister name)
            ∧ name ∉ ["$zero", "$v0", "$a0", "$t0", "$t1", "$sp", "$fp", "$ra"])
        ∧ Intact image.data limit (m.performAll actions)
        ∧ ∀ more, (m.performAll actions).tick ≤ ((m.performAll actions).performAll more).tick
          ∧ ((m.performAll actions).halted = true →
            ((m.performAll actions).performAll more).step
              = (.ok (), (m.performAll actions).performAll more)))
    ∧ ∀ (listing : String) (image : Image), Image.ofListing listing = .ok image →
        ∀ address ∈ image.data, address % 4 = 0 := by
  refine ⟨?_, fun listing image => aligned_of_ofListing⟩
  intro image inputs limit entry m actions haligned hboot
  refine ⟨Storage.readRegister_eq_ok_iff _, readRegister_name _ .zero,
    Storage.writeRegister_cases _, ?_, ?_⟩
  · exact performAll_keeps (fun m action h => h.perform action) (intact_boot haligned hboot) actions
  · intro more
    generalize m.performAll actions = m'
    refine ⟨?_, fun hhalted => step_of_halted ?_⟩
    · exact performAll_keeps (P := fun last => m'.tick ≤ last.tick)
        (fun last action h => Nat.le_trans h (tick_le_perform last action)) (Nat.le_refl _) more
    · exact performAll_keeps (P := fun last => last.halted = true)
        (fun last action h => halted_perform h action) hhalted more

/-- A step, and uses of the storage with an address that is refused and with integers that are too
large. -/
def mixedActions : List Action :=
  [.step, .writeRegister "$fp" (2 ^ 31), .storeWord 2 1, .storeWord 4 (2 ^ 32 - 1)]

/-- A word of the image that is too large stays as it is; a register and a word that are written are
reduced to 32 bits. -/
theorem performAll_intact_adding :
    (∀ address ∈ (addingImage (2 ^ 40)).data, address % 4 = 0)
      ∧ ∃ m, boot (addingImage (2 ^ 40)) [] 9 "main" = .ok m
        ∧ Intact (addingImage (2 ^ 40)).data 9 (m.performAll mixedActions)
        ∧ (m.performAll mixedActions).reg .fp = -2 ^ 31
        ∧ (m.performAll mixedActions).word 4 = -1
        ∧ (m.performAll mixedActions).word dataBase = 2 ^ 40 := by
  have haligned : ∀ address ∈ (addingImage (2 ^ 40)).data, address % 4 = 0 := by
    intro address hmem
    rcases Std.TreeMap.mem_insert.mp hmem with heq | hmem
    · rw [← Std.LawfulEqCmp.compare_eq_iff_eq.mp heq]
      rfl
    · exact absurd hmem Std.TreeMap.not_mem_emptyc
  have hboot := boot_addingImage (2 ^ 40) [] 9
  obtain ⟨_, _, _, hintact, _⟩ :=
    performAll_intact.1 _ [] 9 "main" _ mixedActions haligned hboot
  exact ⟨haligned, _, hboot, hintact, by decide +kernel, by decide +kernel, by decide +kernel⟩

end MicroLang.Machine
