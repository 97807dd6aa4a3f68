import AtomicCss.CommandLine.Request
import AtomicCss.Compile
import AtomicCss.File.ConfigFile
import AtomicCss.File.StylesFile

/-!
# What a request does

A request turns into a script: the actions that are to be done in order, and the
error that stands at their end, if any. Only the outside world can add a failure,
when it refuses to write a file.

- `Action`, `Script`: what is to be done.
- `Request.script`: the script of a request on the files that it names.
- `Script.perform`: do the actions of a script until one of them fails.
- `Error.report`: the line that reports an error.
-/

namespace AtomicCss.CommandLine

/-- What a request does to the world. -/
inductive Action where
  /-- Print a text and end the line. -/
  | print (text : String)
  /-- Put a text into a file. -/
  | write (path : String) (text : String)
  /-- Print how long the compilation took. -/
  | elapsed
  | warn (w : Warning)
  /-- Tell what has been done, if the user wants to know. -/
  | note (text : String)
  deriving DecidableEq, Repr

/-- Actions in order, and the error at their end. -/
structure Script where
  actions : List Action := []
  failure : Option Error := none

namespace Script

/-- The script that does nothing but fail. -/
def fail (e : Error) : Script := { failure := some e }

/-- A script with actions in front. -/
def after (actions : List Action) (s : Script) : Script :=
  { s with actions := actions ++ s.actions }

/-- Do actions until one fails with a reason. -/
def performAll {m : Type → Type} [Monad m] (act : Action → m (Option String)) :
    List Action → m (Option String)
  | [] => pure none
  | a :: actions => do
    match ← act a with
    | none => performAll act actions
    | some reason => return some reason

/-- Do the actions of a script. The result is the error that ends it. -/
def perform {m : Type → Type} [Monad m] (act : Action → m (Option String)) (s : Script) :
    m (Option Error) := do
  match ← performAll act s.actions with
  | none => return s.failure
  | some reason => return some (.io reason)

end Script

/-- What is printed when no command is given. -/
def noCommandText : String :=
  "No subcommand specified. Use --help for usage information."

/-- The names of each call, a line for each. -/
def nameLines (names : List (List String)) : List String :=
  names.zipIdx.map fun (call, i) => "call " ++ toString i ++ ": " ++ " ".intercalate call

/-- The actions that put out a compilation. -/
def renderActions (output : Option String) (names : Bool) (c : Compilation) : List Action :=
  let sheet : List Action :=
    match output with
    | none => [.print c.css]
    | some path => [
        .write path c.css,
        .print ("✅ Wrote " ++ toString c.ruleCount ++ " atomic rule(s) to " ++ path),
        .print ("   Output: " ++ toString c.css.utf8ByteSize ++ " bytes"),
        .elapsed]
  sheet ++ (if names then (nameLines c.names).map .print else [])
    ++ (if c.unknown.isEmpty then [] else [.warn (.unknownShortcuts c.unknown)])

/-- The script that reports the shortcuts of a compilation that nothing resolves. -/
def checkScript (path : String) (c : Compilation) : Script :=
  if c.unknown.isEmpty then
    { actions := [.print ("✅ " ++ path ++ ": " ++ toString c.names.length ++ " call(s), "
        ++ toString c.ruleCount ++ " atomic rule(s), no unknown shortcuts")] }
  else
    { actions := c.unknown.map fun name => .print ("❌ unknown shortcut: " ++ name)
      failure := some (.invalidFormat (.unknownShortcuts c.unknown.length path)) }

/-- The script of a batch of calls, from what becomes of its compilation. -/
def compileScript (budget : Nat) (config : EngineConfig Unit) (calls : List (List StyleItem))
    (script : Compilation → Script) : Option Script :=
  (compileCalls budget config () calls).map fun
    | .error e => .fail e
    | .ok (c, warnings) => (script c).after (warnings.map .warn)

/-- The script that previews calls one after the other, counted from `i` on. What
has been printed stays when a later call fails. -/
def previewCalls (budget : Nat) : (i : Nat) → List (List StyleItem) → Engine Unit →
    Option Script
  | _, [], _ => some {}
  | i, call :: calls, engine =>
    match Engine.previewStyles budget call engine with
    | none => none
    | some (.error e, _) => some (.fail e)
    | some (.ok css, engine) =>
      (previewCalls budget (i + 1) calls engine).map fun s =>
        s.after [.print ("/* call " ++ toString i ++ " */"), .print css]

/-- The script that previews every call. -/
def previewScript (budget : Nat) (config : EngineConfig Unit)
    (calls : List (List StyleItem)) : Option Script :=
  match Engine.create config () with
  | none => none
  | some (.error e) => some (.fail e)
  | some (.ok (engine, warnings)) =>
    (previewCalls budget 0 calls engine).map fun s => s.after (warnings.map .warn)

/-- The script of a command on the calls of a file. -/
def Command.script (budget : Nat) (config : EngineConfig Unit) (path : String)
    (calls : List (List StyleItem)) : Command → Option Script
  | .render output names =>
    compileScript budget config calls fun c => { actions := renderActions output names c }
  | .preview => previewScript budget config calls
  | .check => compileScript budget config calls (checkScript path)

/-- The script of a command on a file. -/
def fileScript (budget : Nat) (files : FileView) (config : EngineConfig Unit)
    (command : Command) (path : String) : Option Script :=
  match StylesFile.load files path with
  | .error e => some (.fail e)
  | .ok calls =>
    (command.script budget config path calls).map fun s => s.after
      [.note ("Loaded " ++ toString calls.length ++ " call(s) from " ++ path)]

namespace Request

/-- The paths of the files that a request reads. -/
def paths (r : Request) : List String :=
  r.config.toList ++ (r.command.map Prod.snd).toList

/-- The configuration that a request names, with the note that it was loaded. -/
def loadConfig (r : Request) (files : FileView) : Except Error (ConfigFile × List Action) :=
  match r.config with
  | none => .ok ({}, [])
  | some path =>
    (ConfigFile.load files path).map fun c => (c, [.note ("Loaded configuration from " ++ path)])

/-- The script of a request. The configuration is read first, and without a command
nothing else is done. -/
def script (budget : Nat) (files : FileView) (r : Request) : Option Script :=
  match r.loadConfig files with
  | .error e => some (.fail e)
  | .ok (config, notes) =>
    match r.command with
    | none => some { actions := notes ++ [.print noCommandText] }
    | some (command, path) =>
      (fileScript budget files config.engineConfig command path).map fun s => s.after notes

end Request

end AtomicCss.CommandLine

namespace AtomicCss

/-- The line that reports the error that ended the program. -/
def Error.report : Error → String
  | .io reason => "IO Error: " ++ reason
  | e => CommandLine.programName ++ " failed: " ++ e.message

end AtomicCss
