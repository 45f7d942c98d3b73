import SmallScheme.CommandLine.Run

/-!
The program. Files are read, lines are taken from standard input one by one, and what a run writes is
delivered after every step; all decisions are those of the command line's definitions.
-/

set_option autoImplicit false
set_option relaxedAutoImplicit false

namespace SmallScheme.Main

open CommandLine

def faultOf : IO.Error → FileFault
  | .permissionDenied _ _ _ => .denied
  | .inappropriateType _ code _ => if code = 21 then .isDirectory else .notDirectory
  | .invalidArgument _ _ _ => .nameTooLong
  | _ => .missing

def readSource (path : Path) : IO (Except FileFault String) := do
  try
    let bytes ← IO.FS.readBinFile path.text
    return FileTree.decode bytes.toList
  catch e =>
    return .error (faultOf e)

/-- Write what a machine has to write, and forget it. -/
def deliver (m : Machine) : IO Machine := do
  let output ← IO.getStdout
  output.putStr m.written
  output.flush
  (← IO.getStderr).putStr (Outcome.reports m.journal)
  return { m with transcript := #[], journal := { m.journal with reports := #[] } }

/-- Perform an action, deliver what it wrote, and go on unless it failed. -/
def perform {α : Type} (action : Action α) (m : Machine) : IO (Except Failure α × Machine) := do
  match action m with
  | (outcome, m) => return (outcome, ← deliver m)

/-- A session on standard input. -/
partial def interact (depth : Nat) (frame : FrameId) (prompts : Prompts) (s : Session)
    (m : Machine) : IO (Except Failure Nat × Machine) := do
  let (_, m) ← perform (Action.emit (.prompt (s.prompt prompts))) m
  let line ← (← IO.getStdin).getLine
  if line.isEmpty then
    let (_, m) ← perform (Action.emit (.output "\n")) m
    return (.ok s.failures, m)
  else
    let text := (Text.linesOf line).headD ""
    match ← perform (s.feed depth frame (.line text)) m with
    | (.ok s, m) => interact depth frame prompts s m
    | (.error failure, m) => return (.error failure, m)

def runNames (depth : Nat) (frame : FrameId) (prompts : Prompts) (failures : Nat) (m : Machine) :
    List String → IO (Except Failure Nat)
  | [] => return .ok (Ending.ofFailures failures)
  | name :: rest => do
      if name = "-" then
        match ← interact depth frame prompts {} m with
        | (.ok failed, m) => runNames depth frame prompts (failures + failed) m rest
        | (.error failure, _) => return .error failure
      else
        let path := Path.ofText name
        let source ← readSource path
        match ← perform (runFile depth frame (fun _ => source) path) m with
        | (.ok (some failed), m) => runNames depth frame prompts (failures + failed) m rest
        | (.ok none, _) => return .ok Ending.badFile
        | (.error failure, _) => return .error failure

/-- What a failure that ends the program says. -/
def lastWords : Failure → String
  | .error e => e.report
  | .digitLimit digits => Failure.digitLimitMessage digits
  | .depthExhausted => "Fatal: maximum recursion depth exceeded"
  | .interrupted => "KeyboardInterrupt"
  | .nulInPath => "embedded null byte"

def run (threshold : Nat) (o : Options) : IO UInt32 := do
  match o.plan with
  | .error (.exit status) => return UInt32.ofNat status
  | .error (.escaped failure) =>
      (← IO.getStderr).putStrLn (lastWords failure)
      return 1
  | .error .expressionEmpty =>
      (← IO.getStderr).putStrLn "there is no expression"
      return 1
  | .error _ =>
      (← IO.getStderr).putStrLn "the recursion limit is out of range"
      return 1
  | .ok (depth, task) =>
      let outcome ← do
        match Action.newGlobals (Machine.start threshold) with
        | (.error failure, _) => pure (.error failure)
        | (.ok frame, m) =>
            match task with
            | .expression source =>
                match ← perform (Program.evalSource depth frame true source) m with
                | (.ok failures, _) => pure (.ok (Ending.ofFailures failures))
                | (.error failure, _) => pure (.error failure)
            | .files names => runNames depth frame o.prompts 0 m names
      match outcome with
      | .ok status => return UInt32.ofNat status
      | .error failure =>
          (← IO.getStderr).putStrLn (lastWords failure)
          return if failure = .depthExhausted then UInt32.ofNat Ending.tooDeep else 1

end SmallScheme.Main

open SmallScheme in
def main (arguments : List String) : IO UInt32 := do
  match CommandLine.parse arguments with
  | .error complaint =>
      (← IO.getStderr).putStr (CommandLine.refusal complaint)
      return 2
  | .ok .help =>
      (← IO.getStdout).putStr CommandLine.help
      return 0
  | .ok (.run options) =>
      Main.run (Journal.thresholdOf (← IO.getEnv "LOGLEVEL")) options
