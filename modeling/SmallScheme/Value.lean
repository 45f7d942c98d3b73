import SmallScheme.Arity
import SmallScheme.Datum
import SmallScheme.Number

/-!
Values of running programs. Programs are values too: the evaluator works on lists and symbols. Lists,
procedures and primitives are objects with an identity; a list's items never change.
-/

set_option autoImplicit false
set_option relaxedAutoImplicit false

namespace SmallScheme

/-- What a primitive procedure does. -/
inductive Operation where
  | add
  | multiply
  | subtract
  | divide
  | abs
  | max
  | min
  | expt
  | round
  | greater
  | less
  | atLeast
  | atMost
  | equalNumbers
  | isEqual
  | isSame
  | not
  | cons
  | car
  | cdr
  | append
  | list
  | length
  | isList
  | isNull
  | isSymbol
  | isNumber
  | isProcedure
  | apply
  | map
  | interrupt
  deriving DecidableEq, Repr

/-- A primitive procedure: the name it shows, what it does, and how many arguments it takes. -/
structure Primitive where
  name : String
  operation : Operation
  arity : Arity
  deriving DecidableEq, Repr

/-- Frames are numbered in order of creation. -/
abbrev FrameId := Nat

/-- The identity of an object. Objects that stand in program text are numbered apart from those made
while a program runs, so neither numbering depends on when the text is read. -/
inductive Identity where
  | written (n : Nat)
  | made (n : Nat)
  deriving DecidableEq, Repr

inductive Value where
  | unit
  | bool (b : Bool)
  | number (n : Number)
  | symbol (name : String)
  | list (identity : Identity) (items : List Value)
  /-- A procedure closed over the frame it was made in. -/
  | procedure (identity : Identity) (params : List String) (body : Value) (frame : FrameId)
  | primitive (identity : Identity) (p : Primitive)

namespace Value

/-- Everything but false counts as true. -/
def isTrue : Value → Bool
  | .bool false => false
  | _ => true

def isProcedure : Value → Bool
  | .procedure _ _ _ _ => true
  | .primitive _ _ => true
  | _ => false

def isList : Value → Bool
  | .list _ _ => true
  | _ => false

def isNull : Value → Bool
  | .list _ [] => true
  | _ => false

def isSymbol : Value → Bool
  | .symbol _ => true
  | _ => false

def isNumber : Value → Bool
  | .number _ => true
  | _ => false

def number? : Value → Option Number
  | .number n => some n
  | _ => none

def symbol? : Value → Option String
  | .symbol name => some name
  | _ => none

mutual

/-- A datum as a value, its lists numbered from the given number on, and the next free number. -/
def ofDatum (next : Nat) : Datum → Value × Nat
  | .number n => (.number n, next)
  | .symbol name => (.symbol name, next)
  | .list items =>
      let (values, free) := ofData (next + 1) items
      (.list (.written next) values, free)

def ofData (next : Nat) : List Datum → List Value × Nat
  | [] => ([], next)
  | d :: rest =>
      let (v, free) := ofDatum next d
      let (values, free) := ofData free rest
      (v :: values, free)

end

/-- Sameness: objects are the same if they have the same identity, symbols if they have the same
name, and other values if they are of one kind and equal. -/
def same : Value → Value → Bool
  | .unit, .unit => true
  | .bool a, .bool b => a == b
  | .number (.int m), .number (.int n) => m == n
  | .number (.float x), .number (.float y) => x.compare? y = some .eq
  | .symbol a, .symbol b => a == b
  | .list i _, .list j _ => i == j
  | .procedure i _ _ _, .procedure j _ _ _ => i == j
  | .primitive i _, .primitive j _ => i == j
  | _, _ => false

end Value

end SmallScheme
