import SmallScheme.Failure
import SmallScheme.Journal
import SmallScheme.Store

/-!
The machine that programs run on, and actions on it. An action ends with a result or a failure; in
both cases the machine keeps what the action did before it ended.
-/

set_option autoImplicit false
set_option relaxedAutoImplicit false

namespace SmallScheme

/-- Something written to standard output: a prompt, or anything else. -/
inductive Emission where
  | prompt (text : String)
  | output (text : String)
  deriving DecidableEq, Repr

namespace Emission

def text : Emission → String
  | .prompt text => text
  | .output text => text

def prompt? : Emission → Option String
  | .prompt text => some text
  | .output _ => none

def output? : Emission → Option String
  | .prompt _ => none
  | .output text => some text

end Emission

structure Machine where
  store : Store
  journal : Journal
  transcript : Array Emission

namespace Machine

def start (threshold : Nat) : Machine :=
  ⟨.empty, .empty threshold, #[]⟩

def written (m : Machine) : String :=
  String.join (m.transcript.toList.map Emission.text)

def prompts (m : Machine) : List String :=
  m.transcript.toList.filterMap Emission.prompt?

def printed (m : Machine) : String :=
  String.join (m.transcript.toList.filterMap Emission.output?)

end Machine

theorem Except.exists_of_bind {ε α β : Type} {x : Except ε α} {f : α → Except ε β} {b : β}
    (h : x >>= f = .ok b) : ∃ a, x = .ok a ∧ f a = .ok b := by
  cases x with
  | error e => cases h
  | ok a => exact ⟨a, rfl, h⟩

/-- A computation on the machine. -/
def Action (α : Type) : Type :=
  Machine → Except Failure α × Machine

namespace Action

variable {α β : Type}

@[always_inline, inline]
protected def pure (a : α) : Action α :=
  fun m => (.ok a, m)

@[always_inline, inline]
protected def bind (x : Action α) (f : α → Action β) : Action β :=
  fun m =>
    match x m with
    | (.ok a, m) => f a m
    | (.error failure, m) => (.error failure, m)

instance : Monad Action where
  pure := Action.pure
  bind := Action.bind

theorem pure_apply (a : α) (m : Machine) : (pure a : Action α) m = (.ok a, m) :=
  rfl

theorem bind_apply (x : Action α) (f : α → Action β) (m : Machine) :
    (x >>= f) m = match x m with
      | (.ok a, m) => f a m
      | (.error failure, m) => (.error failure, m) :=
  rfl

instance : LawfulMonad Action :=
  LawfulMonad.mk' Action
    (by
      intro α x
      funext m
      change (x >>= fun a => pure (id a)) m = x m
      rw [bind_apply]
      rcases x m with ⟨_ | _, _⟩ <;> rfl)
    (by intros; rfl)
    (by
      intro α β γ x f g
      funext m
      simp only [bind_apply]
      rcases x m with ⟨_ | _, _⟩ <;> rfl)

@[always_inline, inline]
def fail (failure : Failure) : Action α :=
  fun m => (.error failure, m)

/-- End with an error of the program. -/
@[always_inline, inline]
def raise (e : Error) : Action α :=
  fail (.error e)

/-- A result that was computed without the machine. -/
@[always_inline, inline]
def lift (result : Except Failure α) : Action α :=
  fun m => (result, m)

/-- The outcome of an action, which is no failure of its own. -/
@[always_inline, inline]
def attempt (x : Action α) : Action (Except Failure α) :=
  fun m =>
    match x m with
    | (outcome, m) => (.ok outcome, m)

/-- A view of the store. -/
@[always_inline, inline]
def view (f : Store → α) : Action α :=
  fun m => (.ok (f m.store), m)

/-- A change of the store with a result. -/
@[always_inline, inline]
def change (f : Store → α × Store) : Action α :=
  fun m =>
    let (a, store) := f m.store
    (.ok a, { m with store })

def report (severity : Severity) (message : String) : Action Unit :=
  fun m => (.ok (), { m with journal := m.journal.add ⟨severity, message⟩ })

def emit (emission : Emission) : Action Unit :=
  fun m => (.ok (), { m with transcript := m.transcript.push emission })

def lookup (frame : FrameId) (name : String) : Action Value := do
  match ← view (·.lookup? frame name) with
  | some value => return value
  | none => raise (.unbound name)

def define (frame : FrameId) (name : String) (value : Value) : Action Unit :=
  change fun s => ((), s.define frame name value)

/-- Give a new value to the binding that a name has in a frame. -/
def assign (frame : FrameId) (name : String) (value : Value) : Action Unit := do
  match ← view (·.owner? frame name) with
  | some owner => define owner name value
  | none => raise (.unbound name)

/-- A frame for a call: the parameters bound to as many arguments, inside the given frame if there is
one. -/
def enter (params : List String) (args : List Value) (outer : Option FrameId) :
    Action FrameId := do
  if params.length = args.length then
    change fun s => s.addFrame (.ofList (params.zip args)) outer
  else
    raise (.arity "procedure" (.exactly params.length) args.length)

def newList (items : List Value) : Action Value :=
  change fun s =>
    let (identity, s) := s.make
    (.list identity items, s)

/-- A datum as a value with identities of its own. -/
def load (datum : Datum) : Action Value :=
  change fun s =>
    let (value, written) := Value.ofDatum s.written datum
    (value, { s with written })

end Action

end SmallScheme
