import MicroLang.Files.Host
import MicroLang.Proofs.Lines
import MicroLang.Proofs.Sequencing

/-!
# Places of a file tree

A file tree is best thought of as a map: `Tree.node?` says what is at a place, a file with its bytes
or a directory, and forgets how the tree stores it. Putting a file or an empty directory at a place
whose parent is a directory changes the map at that place and nowhere else (`node?_put`).

Which place a written path stands for depends on the directories only (`follow_congr`), so a path
still stands for the same place after a file has been written. Together these say what a reader sees
after a writer: its own file at the place that was written, and every other file as it was.
-/

namespace MicroLang.Files

open MicroLang.Sequencing

/-- What is at a place: a file with its bytes, or a directory with any entries. -/
inductive Node where
  | file (bytes : List UInt8)
  | dir
deriving DecidableEq

/-- The tree with nothing below it. -/
def Node.tree : Node → Tree
  | file bytes => .file bytes
  | dir => .dir []

namespace Tree

/-- What a tree is at its root. -/
def node : Tree → Node
  | file bytes => .file bytes
  | dir _ => .dir

/-- What is at a place, if anything is. -/
def node? (t : Tree) (place : List String) : Option Node :=
  (t.find place).toOption.map node

/-! ## What is at a place -/

section

variable {t : Tree} {place : List String}

theorem node?_of_ok {found : Tree} (h : t.find place = .ok found) :
    t.node? place = some found.node := by
  rw [node?, h]
  rfl

theorem node?_of_error {e : FileError} (h : t.find place = .error e) : t.node? place = none := by
  rw [node?, h]
  rfl

theorem find_of_dir (h : t.node? place = some .dir) :
    ∃ entries, t.find place = .ok (.dir entries) := by
  cases hfind : t.find place with
  | error e =>
    rw [node?_of_error hfind] at h
    exact nomatch h
  | ok found =>
    rw [node?_of_ok hfind] at h
    cases found with
    | file bytes => exact nomatch h
    | dir entries => exact ⟨entries, rfl⟩

theorem find_of_file {bytes : List UInt8} (h : t.node? place = some (.file bytes)) :
    t.find place = .ok (.file bytes) := by
  cases hfind : t.find place with
  | error e =>
    rw [node?_of_error hfind] at h
    exact nomatch h
  | ok found =>
    rw [node?_of_ok hfind] at h
    cases found with
    | file found =>
      cases h
      rfl
    | dir entries => exact nomatch h

theorem find_of_none (h : t.node? place = none) : ∃ e, t.find place = .error e := by
  cases hfind : t.find place with
  | error e => exact ⟨e, rfl⟩
  | ok found =>
    rw [node?_of_ok hfind] at h
    exact nomatch h

end

theorem node?_nil (t : Tree) : t.node? [] = some t.node := by
  cases t <;> rfl

theorem node?_dir_cons (entries : List (String × Tree)) (name : String) (place : List String) :
    (dir entries).node? (name :: place)
      = if nameLimit < name.utf8ByteSize then none
        else (entries.lookup name).bind fun t => t.node? place := by
  rw [node?, find]
  split
  · rfl
  · cases entries.lookup name with
    | none => rfl
    | some t => rfl

theorem node?_tree_cons (leaf : Node) (name : String) (place : List String) :
    leaf.tree.node? (name :: place) = none := by
  cases leaf with
  | file bytes => rfl
  | dir =>
    show (dir []).node? (name :: place) = none
    rw [node?_dir_cons]
    exact ite_self none

theorem node_tree (leaf : Node) : leaf.tree.node = leaf := by
  cases leaf <;> rfl

/-- What a place leads through is a directory. -/
theorem node?_of_append {t : Tree} {place : List String} {name : String} {below : List String}
    {found : Node} (h : t.node? (place ++ name :: below) = some found) :
    t.node? place = some .dir := by
  induction place generalizing t with
  | nil =>
    cases t with
    | file bytes => exact nomatch h
    | dir entries => rfl
  | cons first place ih =>
    cases t with
    | file bytes => exact nomatch h
    | dir entries =>
      rw [List.cons_append, node?_dir_cons] at h
      rw [node?_dir_cons]
      split at h
      · exact nomatch h
      · next hfirst =>
        obtain ⟨u, hu, hbelow⟩ := Option.bind_eq_some_iff.1 h
        rw [if_neg hfirst, hu]
        exact ih hbelow

theorem find_append (t : Tree) (place below : List String) :
    t.find (place ++ below) = t.find place >>= fun found => found.find below := by
  induction place generalizing t with
  | nil => cases t <;> rfl
  | cons name place ih =>
    cases t with
    | file bytes => rfl
    | dir entries =>
      rw [List.cons_append, find, find]
      split
      · rfl
      · cases entries.lookup name with
        | none => rfl
        | some u => exact ih u

/-- A name below a directory is not too long, if a search there says anything else. -/
theorem size_le_of_find {t : Tree} {parent : List String} {name : String}
    (hparent : t.node? parent = some .dir)
    (h : t.find (parent ++ [name]) ≠ .error .nameTooLong) : name.utf8ByteSize ≤ nameLimit := by
  obtain ⟨entries, hfind⟩ := find_of_dir hparent
  rw [find_append, hfind] at h
  refine Nat.not_lt.1 fun hlong => h ?_
  show (dir entries).find [name] = .error .nameTooLong
  rw [find, if_pos hlong]

/-! ## Putting something at a place -/

theorem lookup_setEntry (name other : String) (new : Tree) (entries : List (String × Tree)) :
    (setEntry name new entries).lookup other
      = if other = name then some new else entries.lookup other := by
  induction entries with
  | nil =>
    by_cases h : other = name
    · simp [setEntry, h]
    · simp [setEntry, h, List.lookup_cons, beq_false_of_ne h]
  | cons entry entries ih =>
    obtain ⟨key, t⟩ := entry
    by_cases hkey : key = name
    · subst hkey
      by_cases h : other = key
      · simp [setEntry, h]
      · simp [setEntry, h, List.lookup_cons, beq_false_of_ne h]
    · by_cases h : other = key
      · subst h
        simp [setEntry, hkey]
      · simp [setEntry, hkey, List.lookup_cons, beq_false_of_ne h, ih]

theorem node?_setEntry_self {name : String} (hname : ¬ nameLimit < name.utf8ByteSize) (new : Tree)
    (entries : List (String × Tree)) (below : List String) :
    (dir (setEntry name new entries)).node? (name :: below) = new.node? below := by
  rw [node?_dir_cons, if_neg hname, lookup_setEntry, if_pos rfl, Option.bind_some]

theorem node?_setEntry_of_ne {name first : String} (h : first ≠ name) (new : Tree)
    (entries : List (String × Tree)) (below : List String) :
    (dir (setEntry name new entries)).node? (first :: below)
      = (dir entries).node? (first :: below) := by
  rw [node?_dir_cons, node?_dir_cons, lookup_setEntry, if_neg h]

/-- Putting a file or an empty directory into a directory, not in the place of a directory there. -/
theorem node?_put_entry {name : String} (hname : ¬ nameLimit < name.utf8ByteSize)
    {entries : List (String × Tree)} (hplace : (dir entries).node? [name] ≠ some .dir) (leaf : Node)
    (other : List String) :
    ((dir entries).put [name] leaf.tree).node? other
      = if other = [name] then some leaf else (dir entries).node? other := by
  have hput : (dir entries).put [name] leaf.tree = dir (setEntry name leaf.tree entries) := by
    simp only [put]
  rw [hput]
  cases other with
  | nil => rfl
  | cons first below =>
    by_cases hfirst : first = name
    · subst hfirst
      rw [node?_setEntry_self hname]
      cases below with
      | nil => rw [if_pos rfl, node?_nil, node_tree]
      | cons next below =>
        -- Nothing was below the place before, since no directory was there.
        rw [if_neg (by simp), node?_tree_cons]
        cases hfound : (dir entries).node? (first :: next :: below) with
        | none => rfl
        | some found => exact absurd (node?_of_append (t := dir entries) hfound) hplace
    · rw [node?_setEntry_of_ne hfirst, if_neg fun h => hfirst (List.cons.inj h).1]

/-- Putting a file or an empty directory at a place, below a directory and not in the place of one,
changes what is there and nothing else. -/
theorem node?_put {t : Tree} {parent : List String} {name : String}
    (hparent : t.node? parent = some .dir) (hname : name.utf8ByteSize ≤ nameLimit)
    (hplace : t.node? (parent ++ [name]) ≠ some .dir) (leaf : Node) (other : List String) :
    (t.put (parent ++ [name]) leaf.tree).node? other
      = if other = parent ++ [name] then some leaf else t.node? other := by
  induction parent generalizing t other with
  | nil =>
    cases t with
    | file bytes => exact nomatch hparent
    | dir entries => exact node?_put_entry (Nat.not_lt.2 hname) hplace leaf other
  | cons step parent ih =>
    cases t with
    | file bytes => exact nomatch hparent
    | dir entries =>
      rw [node?_dir_cons] at hparent
      rw [List.cons_append, node?_dir_cons] at hplace
      split at hparent
      · exact nomatch hparent
      · next hstep =>
        obtain ⟨u, hu, hbelow⟩ := Option.bind_eq_some_iff.1 hparent
        rw [if_neg hstep, hu] at hplace
        have hput : (dir entries).put (step :: (parent ++ [name])) leaf.tree
            = dir (setEntry step (u.put (parent ++ [name]) leaf.tree) entries) := by
          rw [put, hu, Option.getD_some]
        rw [List.cons_append, hput]
        cases other with
        | nil => rfl
        | cons first below =>
          by_cases hfirst : first = step
          · rw [hfirst, node?_setEntry_self hstep, ih hbelow hplace, node?_dir_cons, if_neg hstep,
              hu, Option.bind_some]
            simp only [List.cons.injEq, true_and]
          · rw [node?_setEntry_of_ne hfirst, if_neg fun h => hfirst (List.cons.inj h).1]

/-! ## The place of a written path -/

/-- Names lead on through a directory. -/
theorem follow_cons_cons {t : Tree} {here place : List String} {name next : String}
    {names : List String} :
    t.follow here (name :: next :: names) = .ok place
      ↔ t.node? (enter here name) = some .dir
        ∧ t.follow (enter here name) (next :: names) = .ok place := by
  rw [follow]
  case x_1 => exact fun h => nomatch h
  constructor
  · intro h
    split at h
    case h_1 entries hfind => exact ⟨node?_of_ok hfind, h⟩
    all_goals exact nomatch h
  · rintro ⟨hdir, h⟩
    obtain ⟨entries, hfind⟩ := find_of_dir hdir
    rw [hfind]
    exact h

/-- Which place names lead to depends on the directories only. -/
theorem follow_mono {t t' : Tree} (hdirs : ∀ place, t.node? place = some .dir →
      t'.node? place = some .dir) {here place : List String} {names : List String}
    (h : t.follow here names = .ok place) : t'.follow here names = .ok place := by
  induction names generalizing here with
  | nil => exact h
  | cons name names ih =>
    cases names with
    | nil => exact h
    | cons next names =>
      obtain ⟨hdir, hrest⟩ := follow_cons_cons.1 h
      exact follow_cons_cons.2 ⟨hdirs _ hdir, ih hrest⟩

/-- Names lead from a directory to a place in a directory, or to a directory. -/
theorem node?_of_follow {t : Tree} {here place : List String} {names : List String}
    (hhere : t.node? here = some .dir) (h : t.follow here names = .ok place) :
    t.node? place = some .dir
      ∨ ∃ parent name, place = parent ++ [name] ∧ t.node? parent = some .dir := by
  induction names generalizing here with
  | nil =>
    cases h
    exact .inl hhere
  | cons name names ih =>
    cases names with
    | cons next names =>
      obtain ⟨hdir, hrest⟩ := follow_cons_cons.1 h
      exact ih hdir hrest
    | nil =>
      cases h
      unfold enter
      split
      · exact .inl hhere
      split
      · left
        rcases List.eq_nil_or_concat' here with rfl | ⟨front, last, rfl⟩
        · exact hhere
        · rw [List.dropLast_concat]
          exact node?_of_append hhere
      · exact .inr ⟨here, name, rfl, hhere⟩

theorem endsWith_slash_iff {path : String} :
    path.endsWith "/" = true ↔ path.toList.getLast? = some '/' := by
  have hsuffix : path.endsWith "/" = true ↔ ['/'] <:+ path.toList := by
    show path.toSlice.endsWith "/" = true ↔ _
    rw [String.Slice.endsWith_string_iff, String.copy_toSlice]
    rfl
  rw [hsuffix, List.getLast?_eq_some_iff]
  constructor
  · rintro ⟨front, h⟩
    exact ⟨front, h.symm⟩
  · rintro ⟨front, h⟩
    exact ⟨front, h.symm⟩

theorem withoutSlashes_eq_self {path : String} (h : ¬ path.endsWith "/" = true) :
    withoutSlashes path = path := by
  rw [endsWith_slash_iff] at h
  unfold withoutSlashes
  rcases List.eq_nil_or_concat' path.toList with hnil | ⟨front, last, hconcat⟩
  · have htrim : Text.trimRight (· == '/') path.toList = path.toList := by
      rw [hnil]
      rfl
    rw [htrim, String.ofList_toList]
  · have hlast : (last == '/') = false := by
      rw [beq_eq_false_iff_ne]
      rintro rfl
      exact h (by rw [hconcat, List.getLast?_concat])
    have htrim : Text.trimRight (· == '/') path.toList = path.toList := by
      rw [hconcat]
      exact Text.trimRight_concat front hlast
    rw [htrim, String.ofList_toList]

theorem locate_eq_ok {t : Tree} {here place : List String} {path : String} :
    t.locate here path = .ok place
      ↔ pathFault? path = none ∧ t.follow (origin here path) (names path) = .ok place := by
  unfold locate
  cases pathFault? path with
  | none => simp
  | some e => simp

/-- Which place a path stands for depends on the directories only. -/
theorem locate_mono {t t' : Tree} (hdirs : ∀ place, t.node? place = some .dir →
      t'.node? place = some .dir) {here place : List String} {path : String}
    (h : t.locate here path = .ok place) : t'.locate here path = .ok place :=
  locate_eq_ok.2 ⟨(locate_eq_ok.1 h).1, follow_mono hdirs (locate_eq_ok.1 h).2⟩

theorem node?_origin {t : Tree} {here : List String} (hhere : t.node? here = some .dir)
    (path : String) : t.node? (origin here path) = some .dir := by
  unfold origin
  split
  · cases here with
    | nil => exact hhere
    | cons first here =>
      rw [← List.nil_append (first :: here)] at hhere
      exact node?_of_append hhere
  · exact hhere

/-! ## Reading and writing -/

/-- Trees that have the same at all places but one, and something new there. -/
def Sets (t : Tree) (place : List String) (new : Node) (t' : Tree) : Prop :=
  ∀ other, t'.node? other = if other = place then some new else t.node? other

section

variable {t t' : Tree} {here place : List String} {path : String} {bytes : List UInt8} {new : Node}

theorem readFile_eq_ok :
    t.readFile here path = .ok bytes
      ↔ ∃ place, t.locate here path = .ok place ∧ t.node? place = some (.file bytes) := by
  unfold readFile
  constructor
  · intro h
    obtain ⟨place, hplace, h⟩ := except_bind_eq_ok.1 h
    obtain ⟨found, hfind, h⟩ := except_bind_eq_ok.1 h
    refine ⟨place, hplace, ?_⟩
    cases found with
    | file found =>
      cases h
      exact node?_of_ok hfind
    | dir entries => cases h
  · rintro ⟨place, hplace, hnode⟩
    exact except_bind_eq_ok.2 ⟨place, hplace,
      except_bind_eq_ok.2 ⟨.file bytes, find_of_file hnode, rfl⟩⟩

theorem contains_eq_true :
    t.contains here path = true
      ↔ ∃ place, t.locate here path = .ok place ∧ t.node? place ≠ none := by
  unfold contains
  constructor
  · intro h
    split at h
    case h_1 place hplace =>
      refine ⟨place, hplace, fun hnone => ?_⟩
      obtain ⟨e, hfind⟩ := find_of_none hnone
      rw [hfind] at h
      cases h
    case h_2 => cases h
  · rintro ⟨place, hplace, hnode⟩
    rw [hplace]
    cases hfind : t.find place with
    | error e => exact absurd (node?_of_error hfind) hnode
    | ok found =>
      dsimp only
      rw [hfind]
      rfl

/-- A file is written at a path exactly if that stands for a place where there is a file, or could
be one. -/
theorem writeFile_eq_ok :
    t.writeFile here path bytes = .ok t'
      ↔ ∃ place, t.locate here path = .ok place ∧ ¬ path.endsWith "/" = true
        ∧ ((∃ old, t.find place = .ok (.file old)) ∨ t.find place = .error .missing)
        ∧ t' = t.put place (.file bytes) := by
  unfold writeFile locate
  cases pathFault? path with
  | some e => simp
  | none =>
    by_cases hslash : path.endsWith "/" = true
    · simp only [hslash, if_true]
      constructor
      · intro h
        obtain ⟨place, _, h⟩ := except_bind_eq_ok.1 h
        cases h
      · rintro ⟨_, _, hnot, _⟩
        exact absurd trivial hnot
    · rw [withoutSlashes_eq_self hslash]
      simp only [if_neg hslash]
      constructor
      · intro h
        obtain ⟨place, hplace, h⟩ := except_bind_eq_ok.1 h
        refine ⟨place, hplace, hslash, ?_⟩
        split at h
        · cases h
        · next old hfind =>
          cases h
          exact ⟨.inl ⟨old, hfind⟩, rfl⟩
        · next hfind =>
          cases h
          exact ⟨.inr hfind, rfl⟩
        · cases h
      · rintro ⟨place, hplace, _, hfind, rfl⟩
        refine except_bind_eq_ok.2 ⟨place, hplace, ?_⟩
        rcases hfind with ⟨old, hfind⟩ | hfind
        · rw [hfind]
          rfl
        · rw [hfind]
          rfl

/-- Writing a file sets what is at the place of its path. -/
theorem sets_of_writeFile (hhere : t.node? here = some .dir)
    (h : t.writeFile here path bytes = .ok t') :
    ∃ place, t.locate here path = .ok place ∧ t.node? place ≠ some .dir
      ∧ t.Sets place (.file bytes) t' := by
  obtain ⟨place, hplace, _, hfind, rfl⟩ := writeFile_eq_ok.1 h
  have hnode : t.node? place ≠ some .dir := by
    rcases hfind with ⟨old, hfind⟩ | hfind
    · rw [node?_of_ok hfind]
      exact fun h => nomatch h
    · rw [node?_of_error hfind]
      exact fun h => nomatch h
  refine ⟨place, hplace, hnode, ?_⟩
  rcases node?_of_follow (node?_origin hhere path) (locate_eq_ok.1 hplace).2 with
    hdir | ⟨parent, name, rfl, hparent⟩
  · exact absurd hdir hnode
  · refine node?_put hparent (size_le_of_find hparent ?_) hnode (.file bytes)
    rcases hfind with ⟨old, hfind⟩ | hfind
    · rw [hfind]
      exact fun h => nomatch h
    · rw [hfind]
      exact fun h => nomatch h

/-- Whether a file can be written does not depend on its bytes. -/
theorem exists_writeFile (h : t.writeFile here path bytes = .ok t') (other : List UInt8) :
    ∃ t'', t.writeFile here path other = .ok t'' := by
  obtain ⟨place, hplace, hslash, hfind, _⟩ := writeFile_eq_ok.1 h
  exact ⟨_, writeFile_eq_ok.2 ⟨place, hplace, hslash, hfind, rfl⟩⟩

/-- Making a directory sets what is at the place of its path, where no file was. -/
theorem sets_of_makeDirectory (hhere : t.node? here = some .dir)
    (h : t.makeDirectory here path = .ok t') :
    ∃ place, t.locate here path = .ok place ∧ (t.node? place = none ∨ t.node? place = some .dir)
      ∧ t.Sets place .dir t' := by
  obtain ⟨place, hplace, h⟩ := except_bind_eq_ok.1 h
  refine ⟨place, hplace, ?_⟩
  split at h
  · next entries hfind =>
    cases h
    have hdir : t.node? place = some .dir := node?_of_ok hfind
    refine ⟨.inr hdir, fun other => ?_⟩
    split
    · next heq => rw [heq, hdir]
    · rfl
  · cases h
  · next hfind =>
    cases h
    have hnone : t.node? place = none := node?_of_error hfind
    refine ⟨.inl hnone, ?_⟩
    rcases node?_of_follow (node?_origin hhere path) (locate_eq_ok.1 hplace).2 with
      hdir | ⟨parent, name, rfl, hparent⟩
    · rw [hnone] at hdir
      cases hdir
    · refine node?_put hparent (size_le_of_find hparent ?_) ?_ .dir
      · rw [hfind]
        exact fun h => nomatch h
      · rw [hnone]
        exact fun h => nomatch h
  · cases h

theorem Sets.at_place (h : t.Sets place new t') : t'.node? place = some new := by
  rw [h place, if_pos rfl]

theorem Sets.elsewhere (h : t.Sets place new t') {other : List String} (hother : other ≠ place) :
    t'.node? other = t.node? other := by
  rw [h other, if_neg hother]

/-- A file that is set changes no directory. -/
theorem Sets.dir_iff (h : t.Sets place (.file bytes) t') (hplace : t.node? place ≠ some .dir)
    (other : List String) : t'.node? other = some .dir ↔ t.node? other = some .dir := by
  rw [h other]
  split
  · next heq =>
    rw [heq]
    exact ⟨fun hfile => absurd hfile (by simp), fun hdir => absurd hdir hplace⟩
  · exact Iff.rfl

theorem Sets.locate_iff (h : t.Sets place (.file bytes) t') (hplace : t.node? place ≠ some .dir)
    {other : List String} : t'.locate here path = .ok other ↔ t.locate here path = .ok other :=
  ⟨locate_mono fun q => (h.dir_iff hplace q).1, locate_mono fun q => (h.dir_iff hplace q).2⟩

/-- The file that was written is read back. -/
theorem Sets.readFile_at (h : t.Sets place (.file bytes) t') (hplace : t.node? place ≠ some .dir)
    (hpath : t.locate here path = .ok place) : t'.readFile here path = .ok bytes :=
  readFile_eq_ok.2 ⟨place, (h.locate_iff hplace).2 hpath, h.at_place⟩

/-- Every other file is read as before. -/
theorem Sets.readFile_elsewhere (h : t.Sets place (.file bytes) t')
    (hplace : t.node? place ≠ some .dir) (hpath : t.locate here path ≠ .ok place)
    {old : List UInt8} : t'.readFile here path = .ok old ↔ t.readFile here path = .ok old := by
  rw [readFile_eq_ok, readFile_eq_ok]
  constructor
  · rintro ⟨other, hother, hnode⟩
    have hother := (h.locate_iff hplace).1 hother
    rw [h.elsewhere fun heq => hpath (heq ▸ hother)] at hnode
    exact ⟨other, hother, hnode⟩
  · rintro ⟨other, hother, hnode⟩
    rw [← h.elsewhere fun heq => hpath (heq ▸ hother)] at hnode
    exact ⟨other, (h.locate_iff hplace).2 hother, hnode⟩

end

end Tree

end MicroLang.Files
