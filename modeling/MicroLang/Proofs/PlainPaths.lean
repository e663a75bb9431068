import MicroLang.Proofs.FileTrees

/-!
# Plain paths

A written path may wind through a tree: names can be empty, a dot or two dots, and slashes can stand
anywhere. A name that is none of this is plain, and a path of plain names leads where it says:
a plain name to the entry of the working directory (`locate_plain`), and the absolute path of plain
names to the place with these names (`locate_absolute`). What a path resolves to is always a list of
plain names (`plain_of_resolve`), so the absolute path of it is of this kind.
-/

namespace MicroLang.Files

open MicroLang.Text

/-- A name that stands for an entry of a directory. -/
structure PlainName (name : String) : Prop where
  ne_empty : name ≠ ""
  ne_dot : name ≠ "."
  ne_dots : name ≠ ".."
  no_slash : '/' ∉ name.toList

instance (name : String) : Decidable (PlainName name) :=
  decidable_of_iff (name ≠ "" ∧ name ≠ "." ∧ name ≠ ".." ∧ '/' ∉ name.toList)
    ⟨fun ⟨h₁, h₂, h₃, h₄⟩ => ⟨h₁, h₂, h₃, h₄⟩,
      fun h => ⟨h.ne_empty, h.ne_dot, h.ne_dots, h.no_slash⟩⟩

/-- A place all of whose names are plain. -/
def PlainPlace (place : List String) : Prop :=
  ∀ name ∈ place, PlainName name

instance (place : List String) : Decidable (PlainPlace place) :=
  inferInstanceAs (Decidable (∀ name ∈ place, PlainName name))

namespace Tree

variable {t : Tree} {here place : List String} {name : String}

theorem enter_plain (h : PlainName name) (here : List String) :
    enter here name = here ++ [name] := by
  unfold enter
  rw [if_neg (by simp [h.ne_empty, h.ne_dot]), if_neg h.ne_dots]

/-! ## Names from a directory -/

/-- Plain names lead to the place with these names, if anywhere. -/
theorem eq_of_follow_plain {names : List String} (hplain : PlainPlace names)
    (h : t.follow here names = .ok place) : place = here ++ names := by
  induction names generalizing here with
  | nil =>
    cases h
    exact (List.append_nil _).symm
  | cons name names ih =>
    have hname : PlainName name := hplain name List.mem_cons_self
    have hnames : PlainPlace names :=
      fun name hmem => hplain name (List.mem_cons_of_mem _ hmem)
    cases names with
    | nil =>
      cases h
      exact enter_plain hname here
    | cons next names =>
      obtain ⟨_, hrest⟩ := follow_cons_cons.1 h
      rw [ih hnames hrest, enter_plain hname, List.append_assoc, List.singleton_append]

/-- Plain names lead to an entry of a directory. -/
theorem follow_plain {parent : List String} (hplain : PlainPlace (parent ++ [name]))
    (hparent : t.node? (here ++ parent) = some .dir) :
    t.follow here (parent ++ [name]) = .ok (here ++ (parent ++ [name])) := by
  induction parent generalizing here with
  | nil =>
    show Except.ok (enter here name) = _
    rw [enter_plain (hplain name List.mem_cons_self)]
    rfl
  | cons first parent ih =>
    have hfirst : PlainName first := hplain first List.mem_cons_self
    have hrest : PlainPlace (parent ++ [name]) :=
      fun other hmem => hplain other (List.mem_cons_of_mem _ hmem)
    obtain ⟨next, names, hnext⟩ := List.exists_cons_of_ne_nil
      (show parent ++ [name] ≠ [] by simp)
    have hstep : t.node? (here ++ [first]) = some .dir := by
      cases parent with
      | nil => exact hparent
      | cons second parent =>
        rw [← List.singleton_append, ← List.append_assoc] at hparent
        exact node?_of_append hparent
    have hbelow : t.node? ((here ++ [first]) ++ parent) = some .dir := by
      rw [List.append_assoc, List.singleton_append]
      exact hparent
    have hfollow := ih hrest hbelow
    rw [List.cons_append]
    rw [hnext] at hfollow ⊢
    rw [← enter_plain hfirst] at hstep hfollow
    refine follow_cons_cons.2 ⟨hstep, ?_⟩
    rw [hfollow, enter_plain hfirst, List.append_assoc, List.singleton_append]

/-! ## A name in the working directory -/

theorem names_plain (h : PlainName name) : names name = [name] := by
  have hsplit : splitWhere (· == '/') name.toList = [name.toList] := by
    refine splitWhere_eq_singleton fun c hc => beq_false_of_ne ?_
    rintro rfl
    exact h.no_slash hc
  unfold names
  rw [hsplit, List.map_singleton, String.ofList_toList]

theorem origin_plain (h : PlainName name) (here : List String) : origin here name = here := by
  unfold origin
  rw [if_neg]
  rw [String.startsWith_string_iff]
  rintro ⟨rest, hrest⟩
  exact h.no_slash (hrest ▸ List.mem_cons_self)

/-- A plain name stands for the entry of the working directory. -/
theorem locate_plain (h : PlainName name) (hfault : pathFault? name = none) :
    t.locate here name = .ok (here ++ [name]) := by
  refine locate_eq_ok.2 ⟨hfault, ?_⟩
  rw [names_plain h, origin_plain h]
  show Except.ok (enter here name) = _
  rw [enter_plain h]

/-! ## Absolute paths -/

theorem toList_absolute (place : List String) :
    (absolute place).toList = '/' :: ['/'].intercalate (place.map String.toList) := by
  unfold absolute
  rw [String.toList_append, String.toList_intercalate]
  rfl

theorem absolute_concat (hne : place ≠ []) (name : String) :
    absolute (place ++ [name]) = absolute place ++ "/" ++ name := by
  unfold absolute
  rw [String.intercalate_append_of_ne_nil hne (List.cons_ne_nil _ _), String.intercalate_singleton,
    String.append_assoc, String.append_assoc, String.append_assoc]

/-- An absolute path ends in its last name. -/
theorem exists_toList_absolute (parent : List String) (name : String) :
    ∃ front, (absolute (parent ++ [name])).toList = front ++ name.toList := by
  by_cases hne : parent = []
  · subst hne
    refine ⟨['/'], ?_⟩
    rw [List.nil_append, toList_absolute]
    exact congrArg _ List.intercalate_singleton
  · exact ⟨_, by rw [absolute_concat hne, String.toList_append]⟩

theorem absolute_ne_slash {parent : List String} (h : PlainName name) :
    ¬ (absolute (parent ++ [name])).endsWith "/" = true := by
  obtain ⟨front, hfront⟩ := exists_toList_absolute parent name
  have hname : name.toList ≠ [] := fun hnil => h.ne_empty (String.toList_eq_nil_iff.1 hnil)
  rw [endsWith_slash_iff, hfront, List.getLast?_append_of_ne_nil _ hname]
  intro hlast
  exact h.no_slash (List.mem_of_getLast? hlast)

theorem origin_absolute (here place : List String) : origin here (absolute place) = [] := by
  unfold origin
  rw [if_pos]
  rw [String.startsWith_string_iff, toList_absolute]
  exact ⟨_, rfl⟩

theorem names_absolute (hne : place ≠ []) (hplain : PlainPlace place) :
    names (absolute place) = "" :: place := by
  have hpieces : ∀ piece ∈ place.map String.toList, ∀ c ∈ piece, (c == '/') = false := by
    intro piece hpiece c hc
    obtain ⟨name, hname, rfl⟩ := List.mem_map.mp hpiece
    refine beq_false_of_ne ?_
    rintro rfl
    exact (hplain name hname).no_slash hc
  have hmap : (place.map String.toList).map String.ofList = place := by
    rw [List.map_map]
    refine (List.map_congr_left fun name _ => ?_).trans (List.map_id' place)
    exact String.ofList_toList
  unfold names
  rw [toList_absolute, splitWhere, if_pos (beq_self_eq_true '/'),
    splitWhere_intercalate rfl (by simpa using hne) hpieces, List.map_cons, hmap]

/-- The absolute path of plain names stands for no other place. -/
theorem eq_of_locate_absolute {found : List String} (hne : place ≠ [])
    (hplain : PlainPlace place)
    (h : t.locate here (absolute place) = .ok found) : found = place := by
  obtain ⟨_, hfollow⟩ := locate_eq_ok.1 h
  rw [origin_absolute, names_absolute hne hplain] at hfollow
  obtain ⟨first, rest, rfl⟩ := List.exists_cons_of_ne_nil hne
  exact eq_of_follow_plain hplain (follow_cons_cons.1 hfollow).2

theorem locate_absolute {parent : List String} (hplain : PlainPlace (parent ++ [name]))
    (hparent : t.node? parent = some .dir)
    (hfault : pathFault? (absolute (parent ++ [name])) = none) :
    t.locate here (absolute (parent ++ [name])) = .ok (parent ++ [name]) := by
  have hroot : t.node? [] = some .dir := by
    cases parent with
    | nil => exact hparent
    | cons first parent =>
      rw [← List.nil_append (first :: parent)] at hparent
      exact node?_of_append hparent
  refine locate_eq_ok.2 ⟨hfault, ?_⟩
  rw [origin_absolute, names_absolute (by simp) hplain]
  obtain ⟨next, names, hnext⟩ := List.exists_cons_of_ne_nil (show parent ++ [name] ≠ [] by simp)
  have hfollow : t.follow [] (parent ++ [name]) = .ok ([] ++ (parent ++ [name])) :=
    follow_plain hplain hparent
  rw [hnext] at hfollow ⊢
  exact follow_cons_cons.2 ⟨hroot, hfollow⟩

/-- A file is read at its absolute path. -/
theorem readFile_absolute {parent : List String} (hplain : PlainPlace (parent ++ [name]))
    (hfault : pathFault? (absolute (parent ++ [name])) = none) {bytes : List UInt8} :
    t.readFile here (absolute (parent ++ [name])) = .ok bytes
      ↔ t.node? (parent ++ [name]) = some (.file bytes) := by
  rw [readFile_eq_ok]
  constructor
  · rintro ⟨found, hfound, hnode⟩
    rwa [eq_of_locate_absolute (by simp) hplain hfound] at hnode
  · intro hnode
    exact ⟨_, locate_absolute hplain (node?_of_append hnode) hfault, hnode⟩

theorem contains_absolute {parent : List String} (hplain : PlainPlace (parent ++ [name]))
    (hfault : pathFault? (absolute (parent ++ [name])) = none) :
    t.contains here (absolute (parent ++ [name])) = true ↔ t.node? (parent ++ [name]) ≠ none := by
  rw [contains_eq_true]
  constructor
  · rintro ⟨found, hfound, hnode⟩
    rwa [eq_of_locate_absolute (by simp) hplain hfound] at hnode
  · intro hnode
    obtain ⟨found, hfound⟩ := Option.ne_none_iff_exists'.1 hnode
    exact ⟨_, locate_absolute hplain (node?_of_append hfound) hfault, hnode⟩

end Tree

/-! ## Resolved paths -/

theorem slash_not_mem_names {path name : String} (h : name ∈ Tree.names path) :
    '/' ∉ name.toList := by
  obtain ⟨piece, hpiece, rfl⟩ := List.mem_map.mp h
  rw [String.toList_ofList]
  exact fun hmem => absurd (mem_of_mem_splitWhere hpiece hmem).2 (by decide)

theorem plain_enter {here : List String} (hhere : PlainPlace here) {name : String}
    (hname : '/' ∉ name.toList) : PlainPlace (Tree.enter here name) := by
  unfold Tree.enter
  split
  · exact hhere
  · next hskip =>
    split
    · exact fun other hother => hhere other ((List.dropLast_sublist here).subset hother)
    · next hup =>
      simp only [Bool.or_eq_true, decide_eq_true_eq, not_or] at hskip
      intro other hother
      rcases List.mem_append.mp hother with hother | hother
      · exact hhere other hother
      · rw [List.mem_singleton.mp hother]
        exact ⟨hskip.1, hskip.2, hup, hname⟩

/-- Resolving leaves plain names only. -/
theorem plain_of_resolve (workingDirectory path : String) :
    PlainPlace (resolve workingDirectory path) := by
  have hfold : ∀ (names here : List String), (∀ name ∈ names, '/' ∉ name.toList) →
      PlainPlace here → PlainPlace (names.foldl Tree.enter here) := by
    intro names
    induction names with
    | nil => exact fun here _ hhere => hhere
    | cons name names ih =>
      intro here hnames hhere
      exact ih _ (fun other hother => hnames other (List.mem_cons_of_mem _ hother))
        (plain_enter hhere (hnames name List.mem_cons_self))
  exact hfold _ _ (fun name hname => slash_not_mem_names hname)
    (fun name hname => absurd hname List.not_mem_nil)

end MicroLang.Files
