import MicroLang.Text.Numeral

/-!
# Command lines

The arguments of a tool are options, which may stand anywhere, and at most one operand. A long
option may be shortened to any beginning that no other option shares, and its value follows it as
the next argument or after an equals sign. Short options may be joined in one argument, the last of
them with its value; an equals sign right after the first of them changes nothing. An argument that
looks like a negative number or holds a space is no option unless it is one by name, and after `--`
there are only operands. A value that is attached to its option and is itself `--` stands for no
value.

All arguments are matched with options first; then they take effect from left to right, and the
first that cannot ends it all, as does a request for help.
-/

namespace MicroLang.Tool

open MicroLang.Text

/-- What an option takes. -/
inductive OptionKind where
  /-- Nothing: the option asks for help. -/
  | help
  /-- Nothing. -/
  | flag
  /-- A text. -/
  | text
  /-- An integer. -/
  | number
deriving DecidableEq

/-- Whether an option takes a value. -/
def OptionKind.takesValue : OptionKind → Bool
  | help | flag => false
  | text | number => true

/-- An option, its names, and the key by which the tool knows it. -/
structure OptionSpec (κ : Type) where
  key : κ
  kind : OptionKind
  names : List String

/-- How messages name an option. -/
def OptionSpec.title {κ : Type} (spec : OptionSpec κ) : String :=
  "/".intercalate spec.names

/-- The arguments that a tool takes. -/
structure CommandLine (κ : Type) where
  options : List (OptionSpec κ)
  /-- The name of the operand, for a tool that takes one. -/
  operand : Option String

/-- An argument that has taken effect. An option can be given without the value that it takes. -/
inductive Setting (κ : Type) where
  | flag (key : κ)
  | text (key : κ) (value : Option String)
  | number (key : κ) (value : Option Int)
  | operand (value : String)

/-- Why the arguments are not a command. -/
inductive Stop where
  | help
  | invalid (message : String)

/-- An option by one of its names, and the text that the same argument attaches to it. -/
structure OptionUse (κ : Type) where
  spec : OptionSpec κ
  name : String
  attached : Option (List Char)

/-- What an argument is. -/
inductive Argument (κ : Type) where
  | operand (text : String)
  | separator
  | option (given : OptionUse κ)
  | unknown (text : String)

namespace CommandLine

variable {κ : Type}

/-- All names of options, each with its option. -/
def named (line : CommandLine κ) : List (String × OptionSpec κ) :=
  line.options.flatMap fun spec => spec.names.map fun name => (name, spec)

/-- The option with a name. -/
def find? (line : CommandLine κ) (name : String) : Option (OptionSpec κ) :=
  line.named.lookup name

/-- Digits with a minus sign, and possibly a point among them. -/
def looksNegative (arg : List Char) : Bool :=
  match arg with
  | '-' :: cs =>
    let cs := if cs.getLast? = some '\n' then cs.dropLast else cs
    let fraction := cs.dropWhile isDecimalDigit
    if fraction.isEmpty then !cs.isEmpty
    else fraction.head? = some '.' && 2 ≤ fraction.length && (fraction.drop 1).all isDecimalDigit
  | _ => false

/-- An argument cut at its first equals sign. -/
def cutAtEquals (arg : List Char) : String × Option (List Char) :=
  let name := String.ofList (arg.takeWhile (· != '='))
  match arg.dropWhile (· != '=') with
  | [] => (name, none)
  | _ :: value => (name, some value)

/-- The options whose long name an argument may be the beginning of, or the short option with which
it starts. -/
def candidates (line : CommandLine κ) (arg : List Char) : List (OptionUse κ) :=
  match arg with
  | '-' :: '-' :: _ =>
    let (start, attached) := cutAtEquals arg
    line.named.filterMap fun (name, spec) =>
      if name.startsWith start then some ⟨spec, name, attached⟩ else none
  | _ =>
    let short := String.ofList (arg.take 2)
    line.named.filterMap fun (name, spec) =>
      if name = short then some ⟨spec, name, some (arg.drop 2)⟩ else none

/-- What an argument before any separator is. -/
def classify (line : CommandLine κ) (text : String) : Except Stop (Argument κ) :=
  let arg := text.toList
  let (name, attached) := cutAtEquals arg
  if arg.head? != some '-' then .ok (.operand text)
  else if let some spec := line.find? text then .ok (.option ⟨spec, text, none⟩)
  else if arg.length = 1 then .ok (.operand text)
  else if let some spec := line.find? name then .ok (.option ⟨spec, name, attached⟩)
  else match line.candidates arg with
    | [given] => .ok (.option given)
    | [] =>
      if looksNegative arg || arg.contains ' ' then .ok (.operand text) else .ok (.unknown text)
    | several =>
      let names := ", ".intercalate (several.map (·.name))
      .error (.invalid ("ambiguous option: " ++ text ++ " could match " ++ names))

/-- What all arguments are. -/
def classifyAll (line : CommandLine κ) : List String → Except Stop (List (Argument κ))
  | [] => .ok []
  | "--" :: rest => .ok (.separator :: rest.map .operand)
  | text :: rest => do
    let argument ← line.classify text
    return argument :: (← line.classifyAll rest)

/-- A message about an option. -/
def complaint (spec : OptionSpec κ) (message : String) : Stop :=
  .invalid ("argument " ++ spec.title ++ ": " ++ message)

/-- The effect of an option without a value. -/
def applyFlag (spec : OptionSpec κ) : Except Stop (Setting κ) :=
  if spec.kind = .help then .error .help else .ok (.flag spec.key)

/-- The effect of an option with a value, which the separator is not. -/
def applyValue (spec : OptionSpec κ) (value : String) : Except Stop (Setting κ) :=
  let given := if value = "--" then none else some value
  if spec.kind = .number then
    match given.mapM Numeral.readDecimal with
    | .ok n => .ok (.number spec.key n)
    | .error _ => .error (complaint spec ("invalid int value: " ++ quoted value))
  else .ok (.text spec.key given)

/-- The options in one argument: flags, and then possibly an option with its value or one whose
value is the next argument. -/
structure Expanded (κ : Type) where
  flags : List (OptionSpec κ)
  valued : Option (OptionSpec κ × String) := none
  waiting : Option (OptionSpec κ) := none

/-- The last option of an argument, without anything attached. -/
def expandLast (flags : List (OptionSpec κ)) (spec : OptionSpec κ) : Expanded κ :=
  if spec.kind.takesValue then { flags, waiting := some spec } else { flags := flags ++ [spec] }

/-- The complaint about a text that is attached to a flag. -/
def ignored (spec : OptionSpec κ) (text : List Char) : Stop :=
  complaint spec ("ignored explicit argument " ++ quoted (String.ofList text))

/-- The options in an argument after some flags, from a short option with a text attached to it: the
text is its value, or goes on with another short option. -/
def unjoin (line : CommandLine κ) (flags : List (OptionSpec κ)) (spec : OptionSpec κ) :
    List Char → Except Stop (Expanded κ)
  | [] =>
    if spec.kind.takesValue then .ok { flags, valued := some (spec, "") }
    else .error (ignored spec [])
  | c :: cs =>
    if spec.kind.takesValue then .ok { flags, valued := some (spec, String.ofList (c :: cs)) }
    else
      match line.find? (String.ofList ['-', c]) with
      | none => .error (ignored spec (c :: cs))
      | some next =>
        if cs.isEmpty then .ok (expandLast (flags ++ [spec]) next)
        else line.unjoin (flags ++ [spec]) next cs

/-- The options in an argument. -/
def expand (line : CommandLine κ) (given : OptionUse κ) : Except Stop (Expanded κ) :=
  match given.attached with
  | none => .ok (expandLast [] given.spec)
  | some text =>
    if given.name.startsWith "--" && !given.spec.kind.takesValue then
      .error (ignored given.spec text)
    else line.unjoin [] given.spec text

/-- The settings so far, the operand if it is still to come, and the arguments that mean nothing. -/
structure Progress (κ : Type) where
  settings : List (Setting κ) := []
  operand : Option String
  extras : List String := []

/-- Takes the operand, or notes an argument that means nothing. -/
def Progress.takeOperand (p : Progress κ) (value : String) : Progress κ :=
  if p.operand.isSome then
    { p with settings := p.settings ++ [.operand value], operand := none }
  else { p with extras := p.extras ++ [value] }

/-- Lets flags and then an option with a value take effect. -/
def Progress.apply (p : Progress κ) (flags : List (OptionSpec κ))
    (valued : Option (OptionSpec κ × String)) : Except Stop (Progress κ) := do
  let settings ← flags.mapM applyFlag
  let more ← valued.toList.mapM fun (spec, value) => applyValue spec value
  return { p with settings := p.settings ++ settings ++ more }

/-- Lets arguments take effect. -/
def consume (line : CommandLine κ) (p : Progress κ) :
    List (Argument κ) → Except Stop (Progress κ)
  | [] => .ok p
  | .operand text :: .separator :: rest =>
    if p.operand.isSome then line.consume (p.takeOperand text) rest
    else line.consume { p with extras := p.extras ++ [text, "--"] } rest
  | .operand text :: rest => line.consume (p.takeOperand text) rest
  | .separator :: rest =>
    if p.operand.isSome && !rest.isEmpty then line.consume p rest
    else line.consume { p with extras := p.extras ++ ["--"] } rest
  | .unknown text :: rest => line.consume { p with extras := p.extras ++ [text] } rest
  | .option given :: rest => do
    let expanded ← line.expand given
    match expanded.waiting with
    | none => line.consume (← p.apply expanded.flags expanded.valued) rest
    | some spec =>
      match rest with
      | .operand value :: rest =>
        line.consume (← p.apply expanded.flags (some (spec, value))) rest
      | _ => throw (complaint spec "expected one argument")

/-- The settings that arguments stand for, in order. -/
def parse (line : CommandLine κ) (args : List String) : Except Stop (List (Setting κ)) := do
  let arguments ← line.classifyAll args
  let p ← line.consume { operand := line.operand } arguments
  match p.operand with
  | some name => throw (.invalid ("the following arguments are required: " ++ name))
  | none =>
    if p.extras.isEmpty then return p.settings
    else throw (.invalid ("unrecognized arguments: " ++ " ".intercalate p.extras))

end CommandLine

/-- Whether a flag is set. -/
def hasFlag {κ : Type} [BEq κ] (settings : List (Setting κ)) (key : κ) : Bool :=
  settings.any fun
    | .flag k => k == key
    | _ => false

/-- All values of an option, in order, with those that are missing. -/
def textsOf {κ : Type} [BEq κ] (settings : List (Setting κ)) (key : κ) : List (Option String) :=
  settings.filterMap fun
    | .text k value => if k == key then some value else none
    | _ => none

/-- The last value of an option, unless that is missing or empty. -/
def textOf? {κ : Type} [BEq κ] (settings : List (Setting κ)) (key : κ) : Option String :=
  (textsOf settings key).getLast?.join.filter fun value => !value.isEmpty

/-- The last value of an option that takes an integer, with none if it is missing. -/
def numberOf? {κ : Type} [BEq κ] (settings : List (Setting κ)) (key : κ) : Option (Option Int) :=
  (settings.filterMap fun
    | .number k value => if k == key then some value else none
    | _ => none).getLast?

/-- The operand. -/
def operandOf {κ : Type} (settings : List (Setting κ)) : String :=
  (settings.findSome? fun
    | .operand value => some value
    | _ => none).getD ""

end MicroLang.Tool
