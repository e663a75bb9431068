import MicroLang.Proofs.PlainPaths
import MicroLang.Proofs.ToolRuns

/-!
# What a session keeps

A tool that works with absolute paths says itself which places it uses. Here is what follows for all
others: `Touches touched s s'` says that at most the places in `touched` are different in `s'`, and
that no directory is lost. Making directories touches the way to the last of them
(`touches_makeDirectories`), and writing a text touches the place of its file (`Writes.touches`).

Reading at an absolute path looks at its place and nothing else, so a text that was written is read
back as long as its place is not touched again.
-/

namespace MicroLang.Files

open MicroLang.Text

/-! ## The last name of a path -/

namespace Tree

/-- The last of the names in a path stands behind the last slash. -/
theorem names_of_slash {path name : String} {front : List Char}
    (hpath : path.toList = front ++ '/' :: name.toList) (hname : '/' ∉ name.toList) :
    ∃ init, names path = init ++ [name] := by
  have hlast : splitWhere (· == '/') name.toList = [name.toList] := by
    refine splitWhere_eq_singleton fun c hc => beq_false_of_ne ?_
    rintro rfl
    exact hname hc
  refine ⟨(splitWhere (· == '/') front).map String.ofList, ?_⟩
  unfold names
  rw [hpath, splitWhere_append (by rfl), hlast, List.map_append, List.map_singleton,
    String.ofList_toList]

/-- Names that end in a plain name lead to an entry with this name. -/
theorem exists_parent_of_follow {t : Tree} {here init place : List String} {name : String}
    (hname : PlainName name) (h : t.follow here (init ++ [name]) = .ok place) :
    ∃ parent, place = parent ++ [name] := by
  induction init generalizing here with
  | nil =>
    cases h
    exact ⟨here, enter_plain hname here⟩
  | cons first init ih =>
    obtain ⟨next, names, hnext⟩ := List.exists_cons_of_ne_nil (show init ++ [name] ≠ [] by simp)
    rw [List.cons_append, hnext] at h
    have hrest := (follow_cons_cons.1 h).2
    rw [← hnext] at hrest
    exact ih hrest

theorem exists_parent_of_locate {t : Tree} {here place : List String} {path name : String}
    {front : List Char} (hpath : path.toList = front ++ '/' :: name.toList)
    (hname : PlainName name) (h : t.locate here path = .ok place) :
    ∃ parent, place = parent ++ [name] := by
  obtain ⟨init, hnames⟩ := names_of_slash hpath hname.no_slash
  have hfollow := (locate_eq_ok.1 h).2
  rw [hnames] at hfollow
  exact exists_parent_of_follow hname hfollow

/-- What a search finds below a directory, where no directory is. -/
theorem find_of_ne_dir {t : Tree} {parent : List String} {name : String}
    (hparent : t.node? parent = some .dir) (hname : name.utf8ByteSize ≤ nameLimit)
    (h : t.node? (parent ++ [name]) ≠ some .dir) :
    (∃ old, t.find (parent ++ [name]) = .ok (.file old))
      ∨ t.find (parent ++ [name]) = .error .missing := by
  obtain ⟨entries, hfind⟩ := find_of_dir hparent
  have hbelow : t.find (parent ++ [name]) = (dir entries).find [name] := by
    rw [find_append, hfind]
    rfl
  rw [find, if_neg (Nat.not_lt.2 hname)] at hbelow
  cases hentry : entries.lookup name with
  | none =>
    rw [hentry] at hbelow
    exact .inr hbelow
  | some u =>
    rw [hentry] at hbelow
    cases u with
    | file old => exact .inl ⟨old, hbelow⟩
    | dir inner => exact absurd (node?_of_ok hbelow) h

end Tree

end MicroLang.Files

namespace MicroLang.Tool

open MicroLang.Files
open MicroLang.Machine
open MicroLang.Sequencing
open MicroLang.Text

/-! ## Touched places -/

/-- Only some places are touched: all others have what they had, directories stay directories, and
so does the working directory. -/
structure Touches (touched : List String → Prop) (s s' : Session) : Prop where
  here : s'.here = s.here
  dirs : ∀ place, s.files.node? place = some .dir → s'.files.node? place = some .dir
  kept : ∀ place, ¬ touched place → s'.files.node? place = s.files.node? place

section

variable {touched touched' : List String → Prop} {s mid s' : Session} {place parent : List String}
  {path name text : String} {bytes : List UInt8}

/-- An action that only prints touches nothing. -/
theorem touches_of_files (hfiles : s'.files = s.files) (hhere : s'.here = s.here) :
    Touches touched s s' where
  here := hhere
  dirs := fun place h => by rw [hfiles, h]
  kept := fun place _ => by rw [hfiles]

theorem Touches.trans (h : Touches touched s mid) (h' : Touches touched mid s') :
    Touches touched s s' where
  here := h'.here.trans h.here
  dirs := fun place hdir => h'.dirs place (h.dirs place hdir)
  kept := fun place hplace => (h'.kept place hplace).trans (h.kept place hplace)

theorem Touches.mono (h : Touches touched s s') (himp : ∀ place, touched place → touched' place) :
    Touches touched' s s' where
  here := h.here
  dirs := h.dirs
  kept := fun place hplace => h.kept place fun htouched => hplace (himp place htouched)

theorem Touches.inDirectory (h : Touches touched s s') (hhere : s.files.node? s.here = some .dir) :
    s'.files.node? s'.here = some .dir := by
  rw [h.here]
  exact h.dirs _ hhere

/-! ## Making directories -/

theorem exec_makeDirectory_of_ok {files : Tree}
    (h : s.files.makeDirectory s.here path = .ok files) :
    exec (ExceptT.lift (Host.makeDirectory path)) s = (.ok (.ok ()), { s with files }) :=
  exec_lift (change_of_ok h)

theorem exec_makeDirectory_of_error {e : FileError}
    (h : s.files.makeDirectory s.here path = .error e) :
    exec (ExceptT.lift (Host.makeDirectory path)) s = (.ok (.error e), s) :=
  exec_lift (change_of_error h)

theorem touches_of_makeDirectory (hplain : PlainPlace (parent ++ [name]))
    (hhere : s.files.node? s.here = some .dir) {files : Tree}
    (h : s.files.makeDirectory s.here (absolute (parent ++ [name])) = .ok files) :
    Touches (· = parent ++ [name]) s { s with files } := by
  obtain ⟨place, hplace, _, hsets⟩ := Tree.sets_of_makeDirectory hhere h
  obtain rfl := Tree.eq_of_locate_absolute (by simp) hplain hplace
  refine ⟨rfl, fun other hdir => ?_, fun other hother => hsets.elsewhere hother⟩
  by_cases hother : other = parent ++ [name]
  · rw [hother]
    exact hsets.at_place
  · rw [← hdir]
    exact hsets.elsewhere hother

/-- Making directories touches the way to the last of them. -/
theorem touches_makeDirectories {names : List String} (hplain : PlainPlace names.reverse)
    (hhere : s.files.node? s.here = some .dir)
    (h : exec (makeDirectories names) s = (.ok (), s')) : Touches (· <+: names.reverse) s s' := by
  induction names generalizing s s' with
  | nil =>
    cases h
    exact touches_of_files rfl rfl
  | cons name above ih =>
    rw [List.reverse_cons] at hplain ⊢
    have habove : PlainPlace above.reverse :=
      fun other hother => hplain other (List.mem_append_left _ hother)
    -- one directory on the way, or the last one
    have hsingle : ∀ {s : Session} {files : Tree}, s.files.node? s.here = some .dir →
        s.files.makeDirectory s.here (absolute (above.reverse ++ [name])) = .ok files →
        Touches (· <+: above.reverse ++ [name]) s { s with files } := by
      intro s files hhere hmake
      refine (touches_of_makeDirectory hplain hhere hmake).mono ?_
      rintro place rfl
      exact List.prefix_rfl
    unfold makeDirectories at h
    rw [List.reverse_cons] at h
    obtain ⟨_, mid, hcheck, hmade⟩ := exec_bind_eq_ok.1 h
    obtain ⟨_, rfl⟩ := exec_checkPath_eq_ok.1 hcheck
    cases hmake : mid.files.makeDirectory mid.here (absolute (above.reverse ++ [name])) with
    | ok files =>
      rw [exec_bind_of_ok (exec_makeDirectory_of_ok hmake)] at hmade
      cases hmade
      exact hsingle hhere hmake
    | error e =>
      rw [exec_bind_of_ok (exec_makeDirectory_of_error hmake)] at hmade
      cases e with
      | missing =>
        obtain ⟨_, next, hrest, hlast⟩ := exec_bind_eq_ok.1 hmade
        obtain ⟨_, hlast⟩ := exec_orFail_eq_ok.1 hlast
        obtain ⟨files, hmake', rfl⟩ := change_eq_ok.1 hlast
        have hway := ih habove hhere hrest
        refine (hway.mono ?_).trans (hsingle (hway.inDirectory hhere) hmake')
        exact fun place hplace => hplace.trans (List.prefix_append _ _)
      | _ => cases hmade

/-- Where a directory is already, nothing is made. -/
theorem exec_makeDirectories_of_dir (hplain : PlainPlace (parent ++ [name]))
    (hnull : NullFree (absolute (parent ++ [name])))
    (hfault : Tree.pathFault? (absolute (parent ++ [name])) = none)
    (hdir : s.files.node? (parent ++ [name]) = some .dir) :
    exec (makeDirectories (parent ++ [name]).reverse) s = (.ok (), s) := by
  obtain ⟨entries, hfind⟩ := Tree.find_of_dir hdir
  have hmake : s.files.makeDirectory s.here (absolute (parent ++ [name])) = .ok s.files := by
    refine except_bind_eq_ok.2
      ⟨_, Tree.locate_absolute hplain (Tree.node?_of_append hdir) hfault, ?_⟩
    rw [hfind]
    rfl
  rw [List.reverse_append, List.reverse_singleton, List.singleton_append]
  unfold makeDirectories
  rw [List.reverse_cons, List.reverse_reverse, exec_bind_of_ok (exec_checkPath_of_nullFree hnull),
    exec_bind_of_ok (exec_makeDirectory_of_ok hmake)]
  rfl

/-! ## Files at absolute paths -/

/-- A place whose absolute path a file can have. -/
structure Addressable (place : List String) : Prop where
  plain : PlainPlace place
  nullFree : NullFree (absolute place)
  fault : Tree.pathFault? (absolute place) = none

instance (place : List String) : Decidable (Addressable place) :=
  decidable_of_iff (PlainPlace place ∧ NullFree (absolute place)
      ∧ Tree.pathFault? (absolute place) = none)
    ⟨fun ⟨h₁, h₂, h₃⟩ => ⟨h₁, h₂, h₃⟩, fun h => ⟨h.plain, h.nullFree, h.fault⟩⟩

theorem Addressable.plain_parent (h : Addressable (parent ++ [name])) : PlainPlace parent :=
  fun other hother => h.plain other (List.mem_append_left _ hother)

/-- A text is written to a file at a place, and nothing else is done. -/
structure Writes (place : List String) (text : String) (s s' : Session) : Prop where
  before : s.files.node? place ≠ some .dir
  sets : s.files.Sets place (.file (Utf8.encode text)) s'.files
  rest : s' = { s with files := s'.files }

theorem writes_of_writeText (hplain : PlainPlace (parent ++ [name]))
    (hhere : s.files.node? s.here = some .dir)
    (h : exec (writeText (absolute (parent ++ [name])) text) s = (.ok (), s')) :
    Addressable (parent ++ [name]) ∧ Writes (parent ++ [name]) text s s' := by
  obtain ⟨hnull, place, files, hplace, hnode, hsets, rfl⟩ := sets_of_writeText hhere h
  obtain rfl := Tree.eq_of_locate_absolute (by simp) hplain hplace
  exact ⟨⟨hplain, hnull, (Tree.locate_eq_ok.1 hplace).1⟩, hnode, hsets, rfl⟩

theorem Writes.touches (h : Writes place text s s') : Touches (· = place) s s' where
  here := by rw [h.rest]
  dirs := fun other hdir => (h.sets.dir_iff h.before other).2 hdir
  kept := fun other hother => h.sets.elsewhere hother

/-- A text can be written below a directory, where no directory is. -/
theorem exists_writeText (hplace : Addressable (parent ++ [name]))
    (hname : name.utf8ByteSize ≤ Tree.nameLimit) (hparent : s.files.node? parent = some .dir)
    (hnode : s.files.node? (parent ++ [name]) ≠ some .dir) (text : String) :
    ∃ s', exec (writeText (absolute (parent ++ [name])) text) s = (.ok (), s') := by
  have hslash : ¬ (absolute (parent ++ [name])).endsWith "/" = true :=
    Tree.absolute_ne_slash (hplace.plain name (by simp))
  exact ⟨_, exec_writeText_eq_ok.2 ⟨hplace.nullFree, _, Tree.writeFile_eq_ok.2
    ⟨_, Tree.locate_absolute hplace.plain hparent hplace.fault, hslash,
      Tree.find_of_ne_dir hparent hname hnode, rfl⟩, rfl⟩⟩

theorem exec_readText_absolute (hplace : Addressable (parent ++ [name])) :
    exec (readText (absolute (parent ++ [name]))) s = (.ok text, s')
      ↔ (∃ bytes, s.files.node? (parent ++ [name]) = some (.file bytes)
          ∧ decodeText bytes = .ok text) ∧ s' = s := by
  rw [exec_readText_eq_ok]
  simp only [Tree.readFile_absolute hplace.plain hplace.fault, hplace.nullFree, true_and]

/-- A text that was written is read back, if its lines end in line feeds only. -/
theorem exec_readText_of_file (hplace : Addressable (parent ++ [name]))
    (hfile : s.files.node? (parent ++ [name]) = some (.file (Utf8.encode text)))
    (hunix : '\r' ∉ text.toList) :
    exec (readText (absolute (parent ++ [name]))) s = (.ok text, s) :=
  (exec_readText_absolute hplace).2 ⟨⟨_, hfile, decodeText_encode hunix⟩, rfl⟩

theorem exec_readInputs_absolute (hplace : Addressable (parent ++ [name])) {values : List Int} :
    exec (readInputs (absolute (parent ++ [name]))) s = (.ok values, s')
      ↔ (∃ bytes, s.files.node? (parent ++ [name]) = some (.file bytes)
          ∧ InputFile.read bytes = .ok values) ∧ s' = s := by
  rw [exec_readInputs_eq_ok]
  simp only [Tree.readFile_absolute hplace.plain hplace.fault, hplace.nullFree, true_and]

end

end MicroLang.Tool
