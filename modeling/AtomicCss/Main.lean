import AtomicCss.CommandLine.Script

/-!
# The program

Reads the files that a command line names, and does what its script says.
-/

namespace AtomicCss.CommandLine

/-- The nesting that expansion may reach. -/
def nestingBudget : Nat := 100000

/-- A system error as words. -/
def systemReason : IO.Error → String
  | .noFileOrDirectory _ _ _ => "No such file or directory (os error 2)"
  | .permissionDenied _ code details | .inappropriateType _ code details
  | .alreadyExists _ code details | .invalidArgument _ code details
  | .resourceExhausted _ code details | .noSuchThing _ code details =>
    details ++ " (os error " ++ toString code ++ ")"
  | e => toString e

/-- The files at some paths. -/
def readFiles (paths : List String) : IO FileView := do
  let contents : List (String × Except String String) ← paths.mapM fun (path : String) => do
    try return (path, .ok (← IO.FS.readFile path))
    catch e => return (path, .error (systemReason e))
  return fun path => (Table.get? contents path).getD (.error "not read")

/-- A time in thousandths of a second with two places. -/
def milliseconds (nanoseconds : Nat) : String :=
  let hundredths := (nanoseconds + 5000) / 10000
  let places := toString (hundredths % 100)
  toString (hundredths / 100) ++ "." ++ (if places.length < 2 then "0" ++ places else places)

/-- Do an action. The result is the reason of a failure. -/
def act (verbosity elapsed : Nat) : Action → IO (Option String)
  | .print text => do
    IO.println text
    return none
  | .write path text => do
    try
      IO.FS.writeFile path text
      return none
    catch e => return some (systemReason e)
  | .elapsed => do
    IO.println ("   Time: " ++ milliseconds elapsed ++ "ms")
    return none
  | .warn w => do
    IO.eprintln ("warning: " ++ w.message)
    return none
  | .note text => do
    if verbosity ≠ 0 then IO.eprintln text
    return none

/-- Do what a request asks for. The result is the exit code. -/
def serve (r : Request) : IO UInt32 := do
  let files ← readFiles r.paths
  let start ← IO.monoNanosNow
  let script ← IO.lazyPure fun _ => r.script nestingBudget files
  let stop ← IO.monoNanosNow
  match script with
  | none =>
    IO.eprintln (programName ++ " failed: the expansion is nested too deep")
    return 1
  | some script =>
    match ← script.perform (act r.verbosity (stop - start)) with
    | none => return 0
    | some e =>
      IO.eprintln e.report
      return 1

/-- Read a command line and serve it. The result is the exit code. -/
def run (arguments : List String) : IO UInt32 := do
  match Request.ofArguments arguments with
  | .ok request => serve request
  | .error (.tell lines) =>
    lines.forM fun line => IO.println line
    return 0
  | .error (.misuse m) =>
    IO.eprintln ("error: " ++ m.message)
    IO.eprintln "For more information, try '--help'."
    return 2

end AtomicCss.CommandLine

/-- The program. -/
def main (arguments : List String) : IO UInt32 := AtomicCss.CommandLine.run arguments
