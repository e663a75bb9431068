import MicroLang.Proofs.Operands
import MicroLang.Proofs.Sequencing
import MicroLang.Tool.Options

/-!
# What arguments stand for

Arguments take effect from left to right, and what has taken effect does not bear on what comes
after it (`consume_front`). So an option in front of a command adds its own setting and leaves the
others as they are (`parse_flag_cons`), and the settings of a command that gives each option in full
can be read off from left to right.
-/

namespace MicroLang.Tool

open MicroLang.Sequencing
open MicroLang.Text

namespace CommandLine

variable {κ : Type} {line : CommandLine κ}

/-! ## What an argument is -/

theorem classify_operand {text : String} (h : text.toList.head? ≠ some '-') :
    line.classify text = .ok (.operand text) := by
  unfold classify
  simp only [bne_iff_ne, ne_eq, h, not_false_eq_true, if_true]

theorem classify_option {text : String} {spec : OptionSpec κ} (hhead : text.toList.head? = some '-')
    (hfind : line.find? text = some spec) :
    line.classify text = .ok (.option ⟨spec, text, none⟩) := by
  unfold classify
  simp only [bne_iff_ne, ne_eq, hhead, not_true_eq_false, if_false, hfind]

theorem classifyAll_cons {text : String} {rest : List String} {argument : Argument κ}
    (hne : text ≠ "--") (h : line.classify text = .ok argument) :
    line.classifyAll (text :: rest)
      = (line.classifyAll rest).map fun arguments => argument :: arguments := by
  rw [classifyAll]
  · rw [h]
    rfl
  · exact hne

/-! ## Settings in front -/

/-- The progress with settings in front of those made so far. -/
def Progress.front (settings : List (Setting κ)) (p : Progress κ) : Progress κ :=
  { p with settings := settings ++ p.settings }

theorem front_takeOperand (settings : List (Setting κ)) (p : Progress κ) (value : String) :
    (p.front settings).takeOperand value = (p.takeOperand value).front settings := by
  unfold Progress.takeOperand
  cases h : p.operand with
  | none => simp [Progress.front, h]
  | some name => simp [Progress.front, h]

theorem front_apply (settings : List (Setting κ)) (p : Progress κ) (flags : List (OptionSpec κ))
    (valued : Option (OptionSpec κ × String)) :
    (p.front settings).apply flags valued
      = (p.apply flags valued).map fun q => q.front settings := by
  unfold Progress.apply
  cases flags.mapM applyFlag with
  | error stop => rfl
  | ok made =>
    cases valued.toList.mapM fun given => applyValue given.1 given.2 with
    | error stop => simp [bind, Except.bind, Except.map]
    | ok more => simp [bind, Except.bind, Except.map, pure, Except.pure, Progress.front]

/-- Some arguments do the same whatever settings were made before. -/
def IgnoresFront (line : CommandLine κ) (arguments : List (Argument κ)) : Prop :=
  ∀ (settings : List (Setting κ)) (p : Progress κ), line.consume (p.front settings) arguments
    = (line.consume p arguments).map fun q => q.front settings

section

variable {rest : List (Argument κ)}

theorem consume_operand_cons {p : Progress κ} {text : String}
    (hrest : ∀ more, rest = .separator :: more → False) :
    line.consume p (.operand text :: rest) = line.consume (p.takeOperand text) rest := by
  rw [consume]
  exact hrest

/-- An option is expanded first; one that waits for its value takes the operand behind it. -/
theorem consume_option_cons {p : Progress κ} {given : OptionUse κ} :
    line.consume p (.option given :: rest) = line.expand given >>= fun expanded =>
      match expanded.waiting, rest with
      | none, rest => p.apply expanded.flags expanded.valued >>= fun q => line.consume q rest
      | some spec, .operand value :: more =>
        p.apply expanded.flags (some (spec, value)) >>= fun q => line.consume q more
      | some spec, _ => throw (complaint spec "expected one argument") := by
  rw [consume]
  refine bind_congr fun expanded => ?_
  cases expanded.waiting with
  | none => rfl
  | some spec =>
    cases rest with
    | nil => rfl
    | cons next more => cases next <;> rfl

theorem ignoresFront_operand (text : String) (h : line.IgnoresFront rest)
    (hmore : ∀ more, rest = .separator :: more → line.IgnoresFront more) :
    line.IgnoresFront (.operand text :: rest) := by
  intro settings p
  by_cases hseparated : ∃ more, rest = .separator :: more
  · obtain ⟨more, rfl⟩ := hseparated
    show (if p.operand.isSome = true then _ else _)
      = Except.map _ (if p.operand.isSome = true then _ else _)
    split
    · rw [front_takeOperand]
      exact hmore more rfl settings _
    · exact hmore more rfl settings { p with extras := p.extras ++ [text, "--"] }
  · have hnot : ∀ more, rest = .separator :: more → False :=
      fun more hrest => hseparated ⟨more, hrest⟩
    rw [consume_operand_cons hnot, consume_operand_cons hnot, front_takeOperand]
    exact h settings _

theorem ignoresFront_separator (h : line.IgnoresFront rest) :
    line.IgnoresFront (.separator :: rest) := by
  intro settings p
  show (if (p.operand.isSome && !rest.isEmpty) = true then _ else _)
    = Except.map _ (if (p.operand.isSome && !rest.isEmpty) = true then _ else _)
  split
  · exact h settings p
  · exact h settings { p with extras := p.extras ++ ["--"] }

theorem ignoresFront_unknown (text : String) (h : line.IgnoresFront rest) :
    line.IgnoresFront (.unknown text :: rest) := by
  intro settings p
  exact h settings { p with extras := p.extras ++ [text] }

/-- Options take effect behind settings as they do without them. -/
theorem IgnoresFront.apply_bind (h : line.IgnoresFront rest) (settings : List (Setting κ))
    (p : Progress κ) (flags : List (OptionSpec κ)) (valued : Option (OptionSpec κ × String)) :
    ((p.front settings).apply flags valued >>= fun q => line.consume q rest)
      = (p.apply flags valued >>= fun q => line.consume q rest).map
        fun q => q.front settings := by
  rw [front_apply]
  cases p.apply flags valued with
  | error stop => rfl
  | ok q => exact h settings q

theorem ignoresFront_option (given : OptionUse κ) (h : line.IgnoresFront rest)
    (hmore : ∀ value more, rest = .operand value :: more → line.IgnoresFront more) :
    line.IgnoresFront (.option given :: rest) := by
  intro settings p
  rw [consume_option_cons, consume_option_cons]
  cases line.expand given with
  | error stop => rfl
  | ok expanded =>
    obtain ⟨flags, valued, waiting⟩ := expanded
    cases waiting with
    | none => exact h.apply_bind settings p flags valued
    | some spec =>
      cases rest with
      | nil => rfl
      | cons next more =>
        cases next with
        | operand value =>
          exact (hmore value more rfl).apply_bind settings p flags (some (spec, value))
        | separator => rfl
        | option given => rfl
        | unknown text => rfl

end

/-- What arguments do does not depend on the settings made before. -/
theorem consume_front (line : CommandLine κ) (arguments : List (Argument κ)) :
    line.IgnoresFront arguments := by
  -- An argument may use up the one behind it, so the induction is on the number of arguments.
  induction hlen : arguments.length using Nat.strongRecOn generalizing arguments with
  | _ n ih =>
    subst hlen
    cases arguments with
    | nil => exact fun settings p => rfl
    | cons argument rest =>
      have hrest : line.IgnoresFront rest := ih _ (Nat.lt_succ_self _) rest rfl
      have hmore : ∀ next more, rest = next :: more → line.IgnoresFront more := by
        rintro next more rfl
        refine ih _ ?_ more rfl
        simp only [List.length_cons]
        omega
      cases argument with
      | operand text => exact ignoresFront_operand text hrest fun more => hmore _ more
      | separator => exact ignoresFront_separator hrest
      | unknown text => exact ignoresFront_unknown text hrest
      | option given => exact ignoresFront_option given hrest fun value more => hmore _ more

/-! ## What an argument does -/

section

variable {p : Progress κ} {spec : OptionSpec κ} {name value : String} {rest : List (Argument κ)}

theorem consume_flag (hkind : spec.kind = .flag) :
    line.consume p (.option ⟨spec, name, none⟩ :: rest)
      = line.consume { p with settings := p.settings ++ [.flag spec.key] } rest := by
  have hflag : applyFlag spec = .ok (.flag spec.key) := by
    unfold applyFlag
    rw [hkind]
    rfl
  have hexpand : line.expand ⟨spec, name, none⟩ = .ok { flags := [spec] } := by
    unfold expand expandLast
    rw [hkind]
    rfl
  have happly :
      p.apply [spec] none = .ok { p with settings := p.settings ++ [.flag spec.key] } := by
    simp [Progress.apply, hflag, bind, Except.bind, pure, Except.pure]
  rw [consume_option_cons, hexpand]
  show p.apply [spec] none >>= (fun q => line.consume q rest) = _
  rw [happly]
  rfl

theorem consume_operand {wanted : String} (hwanted : p.operand = some wanted)
    (hrest : ∀ more, rest ≠ .separator :: more) :
    line.consume p (.operand value :: rest)
      = line.consume { p with settings := p.settings ++ [.operand value], operand := none }
        rest := by
  rw [consume_operand_cons hrest]
  unfold Progress.takeOperand
  rw [hwanted]
  rfl

theorem consume_value (hkind : spec.kind.takesValue = true) :
    line.consume p (.option ⟨spec, name, none⟩ :: .operand value :: rest)
      = applyValue spec value >>= fun setting =>
        line.consume { p with settings := p.settings ++ [setting] } rest := by
  have hexpand : line.expand ⟨spec, name, none⟩ = .ok { flags := [], waiting := some spec } := by
    unfold expand expandLast
    rw [hkind]
    rfl
  rw [consume_option_cons, hexpand]
  show p.apply [] (some (spec, value)) >>= (fun q => line.consume q rest) = _
  cases happly : applyValue spec value with
  | error stop => simp [Progress.apply, happly, bind, Except.bind, pure, Except.pure]
  | ok setting => simp [Progress.apply, happly, bind, Except.bind, pure, Except.pure]

end

theorem applyValue_text {spec : OptionSpec κ} {value : String} (hkind : spec.kind = .text)
    (hne : value ≠ "--") : applyValue spec value = .ok (.text spec.key (some value)) := by
  unfold applyValue
  simp only [hkind, if_neg hne]
  rfl

theorem toString_ne_separator (n : Int) : toString n ≠ "--" := by
  intro heq
  have hchars : ['-', '-'] = (if n < 0 then ['-'] else []) ++ Nat.toDigits 10 n.natAbs := by
    rw [← Numeral.toList_toString, heq]
    rfl
  have hmem : '-' ∈ Nat.toDigits 10 n.natAbs := by
    by_cases hneg : n < 0
    · rw [if_pos hneg, List.singleton_append] at hchars
      rw [← (List.cons.inj hchars).2]
      exact List.mem_cons_self
    · rw [if_neg hneg, List.nil_append] at hchars
      rw [← hchars]
      exact List.mem_cons_self
  exact absurd (Numeral.isDigit_of_mem_toDigits _ hmem) (by decide)

theorem applyValue_number {spec : OptionSpec κ} (hkind : spec.kind = .number) {n : Int}
    (hlen : (Nat.toDigits 10 n.natAbs).length ≤ Numeral.digitLimit) :
    applyValue spec (toString n) = .ok (.number spec.key (some n)) := by
  have hread : (some (toString n)).mapM Numeral.readDecimal = .ok (some n) := by
    rw [Option.mapM_some, Numeral.readDecimal_toString n hlen]
    rfl
  unfold applyValue
  simp only [hkind, if_neg (toString_ne_separator n), if_true, hread]

theorem applyValue_number_of_long {spec : OptionSpec κ} (hkind : spec.kind = .number) {n : Int}
    (hlen : Numeral.digitLimit < (Nat.toDigits 10 n.natAbs).length) :
    applyValue spec (toString n)
      = .error (complaint spec ("invalid int value: " ++ quoted (toString n))) := by
  have hread : (some (toString n)).mapM Numeral.readDecimal
      = .error (.tooLong (Nat.toDigits 10 n.natAbs).length) := by
    rw [Option.mapM_some, Numeral.readDecimal_of_long n hlen]
    rfl
  unfold applyValue
  simp only [hkind, if_neg (toString_ne_separator n), if_true, hread]

/-! ## Whole commands -/

theorem parse_eq_ok {args : List String} {settings : List (Setting κ)} :
    line.parse args = .ok settings
      ↔ ∃ arguments, line.classifyAll args = .ok arguments
        ∧ line.consume { operand := line.operand } arguments = .ok ⟨settings, none, []⟩ := by
  unfold parse
  rw [except_bind_eq_ok]
  refine exists_congr fun arguments => and_congr_right fun _ => ?_
  rw [except_bind_eq_ok]
  constructor
  · rintro ⟨⟨made, operand, extras⟩, hconsume, h⟩
    cases operand with
    | some name => cases h
    | none =>
      cases extras with
      | nil =>
        cases h
        exact hconsume
      | cons text extras => cases h
  · intro h
    exact ⟨_, h, rfl⟩

theorem parse_of_error {args : List String} {arguments : List (Argument κ)} {stop : Stop}
    (hclassify : line.classifyAll args = .ok arguments)
    (hconsume : line.consume { operand := line.operand } arguments = .error stop) :
    line.parse args = .error stop := by
  unfold parse
  rw [hclassify]
  show line.consume { operand := line.operand } arguments >>= _ = _
  rw [hconsume]
  rfl

/-- A flag in front of a command adds its setting. -/
theorem parse_flag_cons {text : String} {spec : OptionSpec κ} {args : List String}
    {settings : List (Setting κ)} (hhead : text.toList.head? = some '-') (hne : text ≠ "--")
    (hfind : line.find? text = some spec) (hkind : spec.kind = .flag)
    (h : line.parse args = .ok settings) :
    line.parse (text :: args) = .ok (.flag spec.key :: settings) := by
  obtain ⟨arguments, hclassify, hconsume⟩ := parse_eq_ok.1 h
  refine parse_eq_ok.2 ⟨.option ⟨spec, text, none⟩ :: arguments, ?_, ?_⟩
  · rw [classifyAll_cons hne (classify_option hhead hfind), hclassify]
    rfl
  · rw [consume_flag hkind]
    show line.consume (Progress.front [.flag spec.key] { operand := line.operand }) arguments = _
    rw [consume_front, hconsume]
    rfl

/-! ## Numbers -/

/-- No name of an option has a digit in it. -/
def Digitless (line : CommandLine κ) : Prop :=
  ∀ entry ∈ line.named, ∀ c ∈ entry.1.toList, c.isDigit = false

theorem find?_of_digit (hnames : line.Digitless) {text : String} {c : Char} (hmem : c ∈ text.toList)
    (hc : c.isDigit = true) : line.find? text = none := by
  refine List.lookup_eq_none_iff.2 fun entry hentry => ?_
  rw [bne_iff_ne]
  intro heq
  rw [heq] at hmem
  rw [hnames entry hentry c hmem] at hc
  cases hc

theorem candidates_of_digit (hnames : line.Digitless) {c : Char} (hc : c.isDigit = true)
    (cs : List Char) : line.candidates ('-' :: c :: cs) = [] := by
  have hne : c ≠ '-' := by
    rintro rfl
    cases hc
  unfold candidates
  split
  · next heq =>
    injection heq with _ htail
    injection htail with hhead _
    exact absurd hhead hne
  · refine List.filterMap_eq_nil_iff.2 fun entry hentry => ?_
    refine if_neg fun heq => ?_
    have hdigit := hnames entry hentry c (by rw [heq, String.toList_ofList]; simp)
    rw [hdigit] at hc
    cases hc

theorem looksNegative_of_digits {cs : List Char} (hne : cs ≠ [])
    (hcs : ∀ c ∈ cs, c.isDigit = true) : looksNegative ('-' :: cs) = true := by
  have hlast : cs.getLast? ≠ some '\n' := by
    intro h
    have hdigit := hcs '\n' (List.mem_of_getLast? h)
    cases hdigit
  have hdrop : cs.dropWhile isDecimalDigit = [] :=
    List.dropWhile_eq_nil_iff.2 fun c hc => Machine.isDecimalDigit_of_isDigit (hcs c hc)
  unfold looksNegative
  simp only [if_neg hlast, hdrop, List.isEmpty_nil, if_true, Bool.not_eq_true',
    List.isEmpty_eq_false_iff]
  exact hne

/-- A number is no option, not even a negative one. -/
theorem classify_toString (hnames : line.Digitless) (n : Int) :
    line.classify (toString n) = .ok (.operand (toString n)) := by
  have hdigits : ∀ c ∈ Nat.toDigits 10 n.natAbs, c.isDigit = true := Numeral.isDigit_of_mem_toDigits
  have htext := Numeral.toList_toString n
  obtain ⟨c, cs, hcs⟩ := List.exists_cons_of_ne_nil (Nat.toDigits_ne_nil (b := 10) (n := n.natAbs))
  rw [hcs] at hdigits htext
  have hc : c.isDigit = true := hdigits c List.mem_cons_self
  by_cases hneg : n < 0
  · rw [if_pos hneg, List.singleton_append] at htext
    have hequals : ∀ d ∈ '-' :: c :: cs, (d != '=') = true := by
      intro d hd
      rw [bne_iff_ne]
      rintro rfl
      rcases List.mem_cons.1 hd with h | h
      · cases h
      · cases hdigits _ h
    have hcut : cutAtEquals ('-' :: c :: cs) = (toString n, none) := by
      unfold cutAtEquals
      rw [List.takeWhile_eq_self_iff.2 hequals, List.dropWhile_eq_nil_iff.2 hequals, ← htext,
        String.ofList_toList]
    have hfind : line.find? (toString n) = none :=
      find?_of_digit hnames (by rw [htext]; simp) hc
    unfold classify
    simp only [htext, hcut, hfind, candidates_of_digit hnames hc,
      looksNegative_of_digits (List.cons_ne_nil c cs) hdigits]
    simp
  · refine classify_operand ?_
    rw [htext, if_neg hneg, List.nil_append, List.head?_cons]
    intro h
    cases h
    cases hc

end CommandLine

end MicroLang.Tool
