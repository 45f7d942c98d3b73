import SmallScheme.CommandLine.Arguments
import SmallScheme.CommandLine.FileTree
import SmallScheme.Primitive.Standard

/-!
Running the program as its arguments ask: an expression, or files in order against one global frame,
or an interactive session. The exit status tells whether a form failed, a file could not be read, or
the nesting went too deep.
-/

set_option autoImplicit false
set_option relaxedAutoImplicit false

namespace SmallScheme.CommandLine

def standardDepth : Nat := 5000

inductive Ending where
  | exit (status : Nat)
  /-- A failure that the program does not handle. -/
  | escaped (failure : Failure)
  /-- A recursion limit below one. -/
  | limitTooLow
  /-- A recursion limit beyond the machine's integers. -/
  | limitTooHigh
  /-- A recursion limit without a value. -/
  | limitEmpty
  /-- An expression without a text. -/
  | expressionEmpty
  deriving DecidableEq

namespace Ending

def ok : Nat := 0

def formFailed : Nat := 1

def badFile : Nat := 2

def tooDeep : Nat := 3

def ofFailures (failures : Nat) : Nat :=
  if failures = 0 then ok else formFailed

end Ending

/-- A run's ending and what it wrote to its two outputs. -/
structure Outcome where
  ending : Ending
  stdout : String
  stderr : String

/-- Run a file and return the number of failed forms, or nothing if it cannot be read. A path that no
file can have ends the run. -/
def runFile (depth : Nat) (frame : FrameId) (files : Files) (path : Path) :
    Action (Option Nat) := do
  if path.hasNul then Action.fail .nulInPath
  match files path with
  | .error fault =>
      Action.report .error s!"Error reading {path.text}: {fault.message path}"
      return none
  | .ok source =>
      Action.report .info s!"Running {path.text}"
      return some (← Program.evalSource depth frame false source)

/-- Run the named files in order; a single dash is a session. A session takes all the lines there are,
so one after it finds none. The result is the exit status. -/
def runFiles (depth : Nat) (frame : FrameId) (files : Files) (prompts : Prompts) (failures : Nat)
    (events : List Event) : List String → Action Nat
  | [] => return Ending.ofFailures failures
  | name :: rest => do
      if name = "-" then
        let failed ← Session.run depth frame prompts events
        runFiles depth frame files prompts (failures + failed) [] rest
      else
        match ← runFile depth frame files (Path.ofText name) with
        | none => return Ending.badFile
        | some failed => runFiles depth frame files prompts (failures + failed) events rest

inductive Task where
  | expression (source : String)
  | files (names : List String)

/-- The task that the options set. An expression keeps files from being run, and without files there
is a session. -/
def Options.task (o : Options) : Except Ending Task :=
  match o.expression with
  | .value source => .ok (.expression source)
  | .empty => .error .expressionEmpty
  | .unset => .ok (.files (if o.files.isEmpty then ["-"] else o.files))

def perform (depth : Nat) (frame : FrameId) (files : Files) (prompts : Prompts)
    (events : List Event) : Task → Action Nat
  | .expression source => do
      return Ending.ofFailures (← Program.evalSource depth frame true source)
  | .files names => runFiles depth frame files prompts 0 events names

/-- The same, with nesting that goes too deep reported as the end of the run. -/
def supervised (depth : Nat) (frame : FrameId) (files : Files) (prompts : Prompts)
    (events : List Event) (task : Task) : Action Nat := do
  match ← Action.attempt (perform depth frame files prompts events task) with
  | .ok status => return status
  | .error .depthExhausted =>
      Action.report .critical "Fatal: maximum recursion depth exceeded"
      return Ending.tooDeep
  | .error failure => Action.fail failure

/-- The levels of nesting that the calls around a run take; no recursion limit may be below. -/
def ownDepth : Nat := 10

def depthOf : Setting Int → Except Ending Nat
  | .unset => .ok standardDepth
  | .empty => .error .limitEmpty
  | .value limit =>
      if limit < -Int.pow 2 31 || Int.pow 2 31 ≤ limit then .error .limitTooHigh
      else if limit < 1 then .error .limitTooLow
      else if limit ≤ ownDepth then .error (.escaped .depthExhausted)
      else .ok limit.toNat

def Outcome.reports (j : Journal) : String :=
  String.join (j.reports.toList.map (·.message ++ "\n"))

/-- The depth and the task that the options set; the recursion limit is looked at first. -/
def Options.plan (o : Options) : Except Ending (Nat × Task) := do
  return (← depthOf o.recursionLimit, ← o.task)

/-- Run with the given options, from an empty machine with the given threshold for reports. -/
def execute (threshold : Nat) (files : Files) (events : List Event) (o : Options) : Outcome :=
  match o.plan with
  | .error ending => ⟨ending, "", ""⟩
  | .ok (depth, task) =>
      let action := do supervised depth (← Action.newGlobals) files o.prompts events task
      match action (Machine.start threshold) with
      | (.ok status, m) => ⟨.exit status, m.written, Outcome.reports m.journal⟩
      | (.error failure, m) => ⟨.escaped failure, m.written, Outcome.reports m.journal⟩

def refusal (complaint : Complaint) : String :=
  usage ++ s!"{programName}: error: {complaint.message}\n"

/-- Run the program with the given arguments, the name of the threshold for reports, files and
standard input. -/
def invoke (arguments : List String) (level : Option String) (files : Files) (input : String) :
    Outcome :=
  match parse arguments with
  | .error complaint => ⟨.exit 2, "", refusal complaint⟩
  | .ok .help => ⟨.exit 0, help, ""⟩
  | .ok (.run options) =>
      execute (Journal.thresholdOf level) files ((Text.linesOf input).map .line) options

end SmallScheme.CommandLine
