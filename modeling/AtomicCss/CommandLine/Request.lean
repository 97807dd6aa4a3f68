import AtomicCss.CommandLine.Grammar

/-!
# What the program is asked for

A command line asks for the stylesheet of a styles file, for a preview of its calls
or for a check of its shortcuts, each under a configuration. Or it asks what the
program is and how it is used, which is answered at once.

- `Command`, `Request`: what can be asked for.
- `Request.ofArguments`: the request of a command line, or the `Reply` that takes
  its place.
- `Topic.lines`: how the program and its commands are used.
-/

namespace AtomicCss.CommandLine

/-- The name of the program. -/
def programName : String := "atomc"

/-- What the program is called together with its version. -/
def versionText : String := programName ++ " 0.1.0"

/-- What to do with a styles file. -/
inductive Command where
  /-- Print the stylesheet or write it to a file, and print the names of each call. -/
  | render (output : Option String) (names : Bool)
  /-- Print the stylesheet of each call alone. -/
  | preview
  /-- Report shortcuts that nothing resolves. -/
  | check
  deriving DecidableEq, Repr

/-- What a command line asks for. -/
structure Request where
  /-- The path of the configuration. -/
  config : Option String := none
  verbosity : Nat := 0
  /-- A command with the path of its styles. -/
  command : Option (Command × String) := none
  deriving DecidableEq, Repr

/-- The option that asks for help. -/
def helpForm : SwitchForm := { switch := .help, short := some 'h', long := "help" }

/-- The options in front of a command. -/
def mainGrammar : Grammar where
  switches := [
    { switch := .config, short := some 'c', long := "config", takesValue := true },
    { switch := .verbose, short := some 'v', long := "verbose", repeatable := true },
    helpForm,
    { switch := .version, short := some 'V', long := "version" }]
  commands := ["render", "preview", "check", "help"]

/-- The options of the command that renders. -/
def renderGrammar : Grammar where
  switches := [
    { switch := .output, short := some 'o', long := "output", takesValue := true },
    { switch := .names, long := "names" },
    helpForm]
  operands := 1

/-- The options of every other command. -/
def plainGrammar : Grammar where
  switches := [helpForm]
  operands := 1

/-! ## Help -/

/-- What help can be about. -/
inductive Topic where
  | program
  | render
  | preview
  | check
  | help
  deriving DecidableEq, Repr

/-- What a command does, or the program. -/
def Topic.about : Topic → String
  | .program =>
    "Atomic style compiler - Compile nested style definitions into deduplicated atomic CSS"
  | .render => "Compile every call and write the stylesheet"
  | .preview =>
    "Print the CSS each call would produce, with the placeholder left in place"
  | .check => "Report shortcut names that no plugin resolved"
  | .help => "Print this message or the help of the given subcommand(s)"

/-- The line about the help option, in a column of its own width. -/
def helpLine (gap : String) : String := "  -h, --help" ++ gap ++ "Print help"

/-- How a command is used that has an option for help only. -/
def plainUsage (name : String) : List String := [
  "Usage: " ++ programName ++ " " ++ name ++ " <styles>",
  "",
  "Arguments:",
  "  <styles>  Styles file (.json or .toml) with a list of calls",
  "",
  "Options:",
  helpLine "  "]

/-- How a command is used, or the program. -/
def Topic.usage : Topic → List String
  | .program => [
    "Usage: " ++ programName ++ " [OPTIONS] [COMMAND]",
    "",
    "Commands:",
    "  render   " ++ Topic.render.about,
    "  preview  " ++ Topic.preview.about,
    "  check    " ++ Topic.check.about,
    "  help     " ++ Topic.help.about,
    "",
    "Options:",
    "  -c, --config <FILE>  Engine configuration file path",
    "  -v, --verbose...     Increase verbosity (can be used multiple times)",
    helpLine "           ",
    "  -V, --version        Print version"]
  | .render => [
    "Usage: " ++ programName ++ " render [OPTIONS] <styles>",
    "",
    "Arguments:",
    "  <styles>  Styles file (.json or .toml) with a list of calls",
    "",
    "Options:",
    "  -o, --output <FILE>  Output CSS file",
    "      --names          Print the names returned for each call",
    helpLine "           "]
  | .preview => plainUsage "preview"
  | .check => plainUsage "check"
  | .help => [
    "Usage: " ++ programName ++ " help [COMMAND]...",
    "",
    "Arguments:",
    "  [COMMAND]...  Print help for the subcommand(s)"]

/-- The help on a topic. -/
def Topic.lines (t : Topic) : List String := t.about :: "" :: t.usage

/-- The topic of the name of a command. -/
def Topic.ofName? (name : String) : Option Topic :=
  if name = "render" then some .render
  else if name = "preview" then some .preview
  else if name = "check" then some .check
  else if name = "help" then some .help
  else none

/-! ## Requests -/

/-- What is answered instead of doing anything. -/
inductive Reply where
  /-- Some lines, and success. -/
  | tell (lines : List String)
  /-- The command line is not understood. -/
  | misuse (m : Misuse)
  deriving DecidableEq, Repr

/-- The reply when the reading of arguments stops at a place that has a topic. -/
def Stop.reply (t : Topic) : Stop → Reply
  | .help => .tell t.lines
  | .version => .tell [versionText]
  | .misuse m => .misuse m

/-- Read the arguments of a command: its options, and the path of the styles. -/
def readCommand (g : Grammar) (t : Topic) (arguments : List String)
    (command : Reading → Command) : Except Reply (Command × String) :=
  match g.read arguments {} with
  | .error stop => .error (stop.reply t)
  | .ok (r, _) =>
    match r.operands with
    | path :: _ => .ok (command r, path)
    | [] => .error (.misuse (.missingOperand "styles"))

/-- The reply to the help command, which is asked about the program or about one
command. -/
def helpReply : List String → Reply
  | [] => .tell Topic.program.lines
  | name :: more =>
    match Topic.ofName? name, more with
    | some t, [] => .tell t.lines
    | some _, text :: _ => .misuse (.unexpected text)
    | none, _ => .misuse (.unexpected name)

/-- Read a command by its name. -/
def readNamed (name : String) (arguments : List String) : Except Reply (Command × String) :=
  match Topic.ofName? name with
  | some .render =>
    readCommand renderGrammar .render arguments fun r =>
      .render (r.value? .output) (r.count .names ≠ 0)
  | some .preview => readCommand plainGrammar .preview arguments fun _ => .preview
  | some .check => readCommand plainGrammar .check arguments fun _ => .check
  | some .help => .error (helpReply arguments)
  | some .program | none => .error (.misuse (.unexpected name))

/-- The request with the options in front of the command. -/
def Request.withOptions (r : Reading) (command : Option (Command × String)) : Request :=
  { config := r.value? .config, verbosity := r.count .verbose, command := command }

/-- The request of a command line. The option in front of a command is entered when
the command has been read. -/
def Request.ofArguments (arguments : List String) : Except Reply Request :=
  match mainGrammar.read arguments {} with
  | .error stop => .error (stop.reply .program)
  | .ok (r, none) => .ok (.withOptions r none)
  | .ok (r, some (name, rest)) =>
    match readNamed name rest with
    | .error reply => .error reply
    | .ok command =>
      match r.enter with
      | .error stop => .error (stop.reply .program)
      | .ok r => .ok (.withOptions r (some command))

end AtomicCss.CommandLine
