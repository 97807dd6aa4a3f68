/-!
# The grammar of command lines

Arguments are read from left to right: options with a short or a long name, which
may need a value, and operands. An option is pending until the next argument that
is none of its value comes; only then a missing value or a repetition is noticed.

- `Switch`, `SwitchForm`: the options and how they are written.
- `Grammar`: the options and operands that are understood at a place.
- `Reading`: what has been read; `Reading.enter` settles the pending option.
- `Grammar.read`: read arguments up to their end or up to a command.
-/

namespace AtomicCss.CommandLine

/-- The options of the program and of its commands. -/
inductive Switch where
  | config
  | verbose
  | output
  | names
  | help
  | version
  deriving DecidableEq, Repr

/-- How an option is written and used. -/
structure SwitchForm where
  switch : Switch
  short : Option Char := none
  long : String
  takesValue : Bool := false
  repeatable : Bool := false
  deriving DecidableEq, Repr

/-- What is understood at a place of a command line. -/
structure Grammar where
  switches : List SwitchForm
  /-- The words that begin a command. -/
  commands : List String := []
  /-- How many operands there can be. -/
  operands : Nat := 0
  deriving Repr

/-- Why a command line is not understood. -/
inductive Misuse where
  | unknownOption (text : String)
  | missingValue (option : String)
  | unwantedValue (option : String)
  | repeatedOption (option : String)
  | unexpected (text : String)
  | missingOperand (name : String)
  deriving DecidableEq, Repr

/-- The wording of a misuse. -/
def Misuse.message : Misuse → String
  | .unknownOption text => "unknown option '" ++ text ++ "'"
  | .missingValue option => "option '--" ++ option ++ "' needs a value"
  | .unwantedValue option => "option '--" ++ option ++ "' takes no value"
  | .repeatedOption option => "option '--" ++ option ++ "' is given more than once"
  | .unexpected text => "unexpected argument '" ++ text ++ "'"
  | .missingOperand name => "missing argument <" ++ name ++ ">"

/-- Why the reading of arguments stops before their end. -/
inductive Stop where
  | help
  | version
  | misuse (m : Misuse)
  deriving DecidableEq, Repr

/-- What has been read of a command line. -/
structure Reading where
  /-- Options with their values, in order; the value of a flag is empty. -/
  given : List (Switch × String) := []
  /-- The last option, with its value as soon as there is one. -/
  pending : Option (SwitchForm × Option String) := none
  operands : List String := []
  deriving Repr

namespace Reading

/-- Does the pending option wait for its value? -/
def waits (r : Reading) : Bool :=
  match r.pending with
  | some (_, none) => true
  | _ => false

/-- The last value of an option. -/
def value? (r : Reading) (s : Switch) : Option String :=
  (r.given.reverse.find? fun g => g.1 = s).map Prod.snd

/-- How often an option was given. -/
def count (r : Reading) (s : Switch) : Nat := r.given.countP fun g => g.1 = s

/-- Enter the pending option. -/
def enter (r : Reading) : Except Stop Reading :=
  match r.pending with
  | none => .ok r
  | some (form, none) => .error (.misuse (.missingValue form.long))
  | some (form, some value) =>
    match form.switch with
    | .help => .error .help
    | .version => .error .version
    | s =>
      if !form.repeatable && r.count s ≠ 0 then .error (.misuse (.repeatedOption form.long))
      else .ok { r with given := r.given ++ [(s, value)], pending := none }

/-- Begin an option behind the one that is pending. -/
def beginOption (form : SwitchForm) (value : Option String) (r : Reading) :
    Except Stop Reading :=
  r.enter.map fun r => { r with pending := some (form, value) }

/-- Enter an option that has all it needs. -/
def addOption (form : SwitchForm) (value : String) (r : Reading) : Except Stop Reading := do
  (← r.beginOption form (some value)).enter

end Reading

namespace Grammar

/-- Read one more operand. -/
def readOperand (g : Grammar) (r : Reading) (text : String) : Except Stop Reading := do
  let r ← r.enter
  if r.operands.length < g.operands then
    return { r with operands := r.operands ++ [text] }
  else throw (.misuse (.unexpected text))

/-- Read options by their short names. What follows an option that needs a value
is its value, with or without an equals sign in front. -/
def readShort (g : Grammar) : List Char → Reading → Except Stop Reading
  | [], r => .ok r
  | c :: cs, r =>
    match g.switches.find? fun form => form.short = some c with
    | none => .error (.misuse (.unknownOption (String.ofList ['-', c])))
    | some form =>
      if form.takesValue then
        match cs with
        | [] => r.beginOption form none
        | '=' :: value => r.addOption form (String.ofList value)
        | value => r.addOption form (String.ofList value)
      else
        match r.addOption form "" with
        | .ok r => readShort g cs r
        | .error stop => .error stop

/-- Read an option by its long name, which an equals sign ends. -/
def readLong (g : Grammar) (body : List Char) (r : Reading) : Except Stop Reading :=
  let name := body.takeWhile fun c => c ≠ '='
  match g.switches.find? fun form => form.long = String.ofList name,
      body.drop name.length with
  | none, _ => .error (.misuse (.unknownOption ("--" ++ String.ofList name)))
  | some form, [] => if form.takesValue then r.beginOption form none else r.addOption form ""
  | some form, _ :: value =>
    if form.takesValue then r.addOption form (String.ofList value)
    else .error (.misuse (.unwantedValue form.long))

/-- Read an argument that is neither a command nor the mark `--`. A lone minus sign
is no option. -/
def readArgument (g : Grammar) (text : String) (r : Reading) : Except Stop Reading :=
  match text.toList, r.pending with
  | '-' :: '-' :: body, _ => g.readLong body r
  | '-' :: c :: cs, _ => g.readShort (c :: cs) r
  | _, some (form, none) => .ok { r with pending := some (form, some text) }
  | _, _ => g.readOperand r text

/-- Read arguments up to their end, where the pending option is entered, or up to a
command, which comes with the arguments behind it. Behind the mark `--` there are
only operands. -/
def read (g : Grammar) : List String → Reading →
    Except Stop (Reading × Option (String × List String))
  | [], r => r.enter.map fun r => (r, none)
  | text :: rest, r =>
    if !r.waits && g.commands.contains text then .ok (r, some (text, rest))
    else if text = "--" then do
      let r ← rest.foldlM g.readOperand (← r.enter)
      return (r, none)
    else
      match g.readArgument text r with
      | .ok r => read g rest r
      | .error stop => .error stop

end Grammar

end AtomicCss.CommandLine
