import SmallScheme.Program

/-!
Interactive sessions. Lines are collected until no list is open, then evaluated together. An
interrupt while reading drops the collected lines, an interrupt while evaluating ends that evaluation
and counts as one failure.
-/

set_option autoImplicit false
set_option relaxedAutoImplicit false

namespace SmallScheme

structure Prompts where
  fresh : String := "> "
  continued : String := "  "

/-- What a read brings; the end of the input is the end of the list of events. -/
inductive Event where
  | line (text : String)
  | interrupt
  deriving DecidableEq, Repr

/-- The lines collected for the open form, and the failures so far. -/
structure Session where
  lines : List String := []
  failures : Nat := 0

namespace Session

def prompt (prompts : Prompts) (s : Session) : String :=
  if s.lines.isEmpty then prompts.fresh else prompts.continued

/-- The notice of an interrupt. -/
def notice : Action Unit :=
  Action.emit (.output "\nKeyboardInterrupt\n")

def evaluate (depth : Nat) (frame : FrameId) (failures : Nat) (source : String) : Action Nat := do
  match ← Action.attempt (Program.evalSource depth frame true source) with
  | .ok failed => return failures + failed
  | .error .interrupted =>
      notice
      return failures + 1
  | .error failure => Action.fail failure

def feed (depth : Nat) (frame : FrameId) (s : Session) : Event → Action Session
  | .interrupt => do
      notice
      return { s with lines := [] }
  | .line text => do
      let lines := s.lines ++ [text]
      let source := "\n".intercalate lines
      if Token.needsMore (Token.tokenize source) then
        return { s with lines }
      else
        return ⟨[], ← evaluate depth frame s.failures source⟩

def step (depth : Nat) (frame : FrameId) (prompts : Prompts) (s : Session) (e : Event) :
    Action Session := do
  Action.emit (.prompt (s.prompt prompts))
  s.feed depth frame e

/-- Run a session to the end of its input and return the number of failures. -/
def run (depth : Nat) (frame : FrameId) (prompts : Prompts) (events : List Event) :
    Action Nat := do
  let s ← events.foldlM (step depth frame prompts) {}
  Action.emit (.prompt (s.prompt prompts))
  Action.emit (.output "\n")
  return s.failures

end Session

end SmallScheme
