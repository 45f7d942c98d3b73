import SmallScheme.Datum.Reader
import SmallScheme.Eval

/-!
Running program text, either until the first failure or form by form with recovery: a form that fails
is reported and counted, and the forms after it still run.
-/

set_option autoImplicit false
set_option relaxedAutoImplicit false

namespace SmallScheme.Program

def evalDatum (depth : Nat) (frame : FrameId) (datum : Datum) : Action Value := do
  let expression ← Action.load datum
  eval depth expression frame

def evalForm (depth : Nat) (frame : FrameId) (source : String) : Action Value := do
  let datum ← Action.lift (Datum.parse depth source)
  evalDatum depth frame datum

/-- Read all forms of a text, then evaluate them in order; the last result counts. -/
def run (depth : Nat) (frame : FrameId) (source : String) : Action Value := do
  let data ← Action.lift (Datum.parseMany depth source)
  data.foldlM (fun _ datum => evalDatum depth frame datum) .unit

/-- Print a result on a line of its own; the unit value is not printed. -/
def print (depth : Nat) : Value → Action Unit
  | .unit => return ()
  | value => do
      let text ← Action.lift (value.display depth)
      Action.emit (.output (text ++ "\n"))

/-- Evaluate the outcome of one read. An error is reported and counted, any other failure goes on. -/
def step (depth : Nat) (frame : FrameId) (echo : Bool) (failures : Nat)
    (reading : Except Failure Datum) : Action Nat := do
  match ← Action.attempt (do evalDatum depth frame (← Action.lift reading)) with
  | .ok value =>
      if echo then print depth value
      return failures
  | .error (.error e) =>
      Action.report .error e.report
      return failures + 1
  | .error failure => Action.fail failure

/-- Evaluate every form of a text and return how many failed. With echo, results are printed. -/
def evalSource (depth : Nat) (frame : FrameId) (echo : Bool) (source : String) : Action Nat :=
  (Datum.readings depth (Token.tokenize source)).foldlM (step depth frame echo) 0

end SmallScheme.Program
