import SmallScheme.Machine
import SmallScheme.Primitive.Equality
import SmallScheme.Primitive.Numeric
import SmallScheme.Value.Text

/-!
What primitive procedures do with their arguments. Arguments are checked from left to right before
anything is computed.
-/

set_option autoImplicit false
set_option relaxedAutoImplicit false

namespace SmallScheme.Primitive

variable {α : Type}

/-- An error about a value, by the value's literal text. -/
def complain (room : Nat) (e : String → Error) (v : Value) : Except Failure α := do
  let text ← v.literal room
  .error (.error (e text))

def number (room : Nat) (callee : String) (v : Value) : Except Failure Number :=
  match v with
  | .number n => .ok n
  | v => complain room (.notNumber callee) v

def numbers (room : Nat) (callee : String) (args : List Value) : Except Failure (List Number) :=
  args.mapM (number room callee)

def items (room : Nat) (callee : String) (v : Value) : Except Failure (List Value) :=
  match v with
  | .list _ items => .ok items
  | v => complain room (.notList callee) v

def procedure (room : Nat) (callee : String) (v : Value) : Except Failure Unit :=
  if v.isProcedure then .ok () else complain room (.notProcedure callee) v

def numeric (callee : String) : Except NumericFault Number → Except Failure Value
  | .ok n => .ok (.number n)
  | .error fault => .error (.error (.numeric callee fault))

def compared (room : Nat) (callee : String) (related : Number → Number → Bool)
    (args : List Value) : Except Failure Value := do
  return .bool (chain related (← numbers room callee args))

/-- The columns of a table given by its first row and the others. -/
def columns : List α → List (List α) → List (List α)
  | [], _ => []
  | x :: first, others =>
      (x :: others.filterMap List.head?) :: columns first (others.map List.tail)

/-- Call a procedure on the columns of one or more rows and collect the results. -/
def mapped (room : Nat) (callee : String) (call : Value → List Value → Action Value)
    (f : Value) (rows : List Value) : Action Value := do
  Action.lift (procedure room callee f)
  match ← Action.lift (rows.mapM (items room callee)) with
  | [] => Action.newList []
  | first :: others =>
      if others.all (·.length = first.length) then
        Action.newList (← (columns first others).mapM (call f))
      else
        Action.raise (.unevenLists callee)

/-- Run a primitive on arguments whose number it accepts. -/
def run (room : Nat) (call : Value → List Value → Action Value) (p : Primitive)
    (args : List Value) : Action Value :=
  match p.operation, args with
  | .add, _ => .lift do numeric p.name (sum (← numbers room p.name args))
  | .multiply, _ => .lift do numeric p.name (product (← numbers room p.name args))
  | .subtract, x :: xs => .lift do
      let n ← number room p.name x
      numeric p.name (difference n (← numbers room p.name xs))
  | .divide, x :: xs => .lift do
      let n ← number room p.name x
      numeric p.name (quotient n (← numbers room p.name xs))
  | .abs, [x] => .lift do return .number (← number room p.name x).abs
  | .max, x :: xs => .lift do
      let n ← number room p.name x
      return .number (greatest n (← numbers room p.name xs))
  | .min, x :: xs => .lift do
      let n ← number room p.name x
      return .number (least n (← numbers room p.name xs))
  | .expt, [x, y] => .lift do
      let base ← number room p.name x
      numeric p.name (power base (← number room p.name y))
  | .round, [x] => .lift do numeric p.name (← number room p.name x).round
  | .greater, _ => .lift (compared room p.name Number.gt args)
  | .less, _ => .lift (compared room p.name Number.lt args)
  | .atLeast, _ => .lift (compared room p.name Number.ge args)
  | .atMost, _ => .lift (compared room p.name Number.le args)
  | .equalNumbers, _ => .lift (compared room p.name Number.eq args)
  | .isEqual, [a, b] => .lift do return .bool (← Value.equal room a b)
  | .isSame, [a, b] => return .bool (a.same b)
  | .not, [a] => return .bool !a.isTrue
  | .cons, [a, rest] => do .newList (a :: (← .lift (items room p.name rest)))
  | .car, [a] => do
      match ← .lift (items room p.name a) with
      | [] => .raise (.emptyList p.name)
      | first :: _ => return first
  | .cdr, [a] => do
      match ← .lift (items room p.name a) with
      | [] => .raise (.emptyList p.name)
      | _ :: rest => .newList rest
  | .append, _ => do .newList (← .lift (args.mapM (items room p.name))).flatten
  | .list, _ => .newList args
  | .length, [a] => .lift do return .number (.int (← items room p.name a).length)
  | .isList, [a] => return .bool a.isList
  | .isNull, [a] => return .bool a.isNull
  | .isSymbol, [a] => return .bool a.isSymbol
  | .isNumber, [a] => return .bool a.isNumber
  | .isProcedure, [a] => return .bool a.isProcedure
  | .apply, [f, a] => do
      .lift (procedure room p.name f)
      call f (← .lift (items room p.name a))
  | .map, f :: row :: rows => mapped room p.name call f (row :: rows)
  | .interrupt, _ => .fail .interrupted
  | _, _ => .raise (.arity p.name p.arity args.length)

end SmallScheme.Primitive
