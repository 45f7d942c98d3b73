import SmallScheme.Eval
import SmallScheme.Primitive.Standard

/-!
The primitives over partial operations. Underneath arithmetic and lists are operations that fail outside
their domain: on a zero divisor, on an integer too large to be rounded, on a list without the item asked
for, on operands of another kind. Such a fault is no error of a program. Here each primitive is a routine
that makes its checks first and then uses the operations as they are, with one handler around all
routines that turns an overflow into an error. Nothing but the checks keeps the other faults away.
-/

set_option autoImplicit false
set_option relaxedAutoImplicit false

namespace SmallScheme

/-- How an operation fails outside its domain. -/
inductive Fault where
  | zeroDivision
  | overflow (text : String)
  /-- A place beyond the end of a list. -/
  | index
  /-- Nothing to take apart or to choose from, or no number to round. -/
  | value
  /-- An operand of another kind, or another number of operands. -/
  | type
  deriving DecidableEq

/-- What ends a routine before its time. -/
inductive Raised where
  | error (kind : Error.Kind) (message : String)
  /-- A failure that is no error of a program. -/
  | failure (failure : Failure)
  | fault (fault : Fault)
  deriving DecidableEq

/-- A failure as it is raised. What can be seen of an error are its kind and its message. -/
def Raised.of : Failure → Raised
  | .error e => .error e.kind e.message
  | other => .failure other

/-- What an operation may give: a value, or a complex number, which is none. -/
inductive Quantity where
  | value (v : Value)
  | complex

/-- A computation on the machine that may end with a fault. -/
abbrev Routine (α : Type) : Type :=
  ExceptT Raised (StateM Machine) α

namespace Routine

variable {α β : Type}

theorem bind_apply (x : Routine α) (f : α → Routine β) (m : Machine) :
    (x >>= f) m = match x m with
      | (.ok a, m) => f a m
      | (.error raised, m) => (.error raised, m) := by
  change (match x m with | (result, m) => ExceptT.bindCont f result m) = _
  rcases x m with ⟨_ | _, _⟩ <;> rfl

def lift (result : Except Raised α) : Routine α :=
  fun m => (result, m)

/-- An action as a routine; it ends with no fault. -/
def ofAction (x : Action α) : Routine α :=
  fun m => ((x m).1.mapError Raised.of, (x m).2)

end Routine

namespace Bare

def toFloat (n : Int) : Except Fault Binary64 :=
  if (Binary64.ofInt n).isFinite then .ok (Binary64.ofInt n)
  else .error (.overflow "int too large to convert to float")

def operand : Value → Except Fault Binary64
  | .number (.int n) => toFloat n
  | .number (.float x) => .ok x
  | _ => .error .type

def mixed (onInts : Int → Int → Int) (onFloats : Binary64 → Binary64 → Binary64) :
    Value → Value → Except Fault Value
  | .number (.int m), .number (.int n) => .ok (.number (.int (onInts m n)))
  | a, b => do
      let x ← operand a
      let y ← operand b
      return .number (.float (onFloats x y))

def intQuotient (m n : Int) : Except Fault Value :=
  let q := Binary64.ofRatio ((m < 0) != (n < 0)) m.natAbs n.natAbs
  if n = 0 then .error .zeroDivision
  else if q.isFinite then .ok (.number (.float q))
  else .error (.overflow "integer division result too large for a float")

def floatQuotient (x y : Binary64) : Except Fault Value :=
  if y.compare? (.zero false) = some .eq then .error .zeroDivision
  else .ok (.number (.float (x.div y)))

def div : Value → Value → Except Fault Value
  | .number (.int m), .number (.int n) => intQuotient m n
  | a, b => do floatQuotient (← operand a) (← operand b)

/-- A power of binary64 numbers. A fractional power of a negative number is complex. -/
def floatPower (x y : Binary64) : Except Fault Quantity :=
  if y.isFinite ∧ x.compare? (.zero false) = some .eq ∧ y.compare? (.zero false) = some .lt then
    .error .zeroDivision
  else
    match Number.floatPower x y with
    | .ok z => .ok (.value (.number (.float z)))
    | .error (.notReal _ _) => .ok .complex
    | .error .complexRange => .error (.overflow "complex exponentiation")
    | .error _ => .error (.overflow "(34, 'Numerical result out of range')")

/-- A power. Only a power of integers that is not negative is computed exactly. -/
def power : Value → Value → Except Fault Quantity
  | .number (.int m), .number (.int (.ofNat n)) => .ok (.value (.number (.int (Number.intPower m n))))
  | a, b => do floatPower (← operand a) (← operand b)

def onNumber (f : Number → Number) : Value → Except Fault Value
  | .number n => .ok (.number (f n))
  | _ => .error .type

def related (r : Number → Number → Bool) : Value → Value → Except Fault Bool
  | .number a, .number b => .ok (r a b)
  | _, _ => .error .type

def best (better : Value → Value → Except Fault Bool) : List Value → Except Fault Value
  | [] => .error .value
  | x :: xs => xs.foldlM (fun best y => do return if ← better y best then y else best) x

def nearest : Value → Except Fault Int
  | .number (.int n) => .ok n
  | .number (.float (.finite s c)) =>
      let n := Binary64.roundDiv (Binary64.unitsOfCode c) Binary64.unitsPerOne
      .ok (if s then -(n : Int) else n)
  | .number (.float (.infinite _)) => .error (.overflow "cannot convert float infinity to integer")
  | .number (.float .nan) => .error .value
  | _ => .error .type

def item (items : List Value) (place : Nat) : Except Fault Value :=
  match items[place]? with
  | some v => .ok v
  | none => .error .index

def unpack : List Value → Except Fault (Value × List Value)
  | [] => .error .value
  | x :: xs => .ok (x, xs)

def bare {α : Type} (x : Except Fault α) : Except Raised α :=
  x.mapError .fault

section Checks

variable {α : Type} (room : Nat) (name : String)

def refuse (message : String → String) (v : Value) : Except Raised α := do
  let text ← (v.literal room).mapError Raised.of
  .error (.error .wrongType (message text))

def checkNumbers : List Value → Except Raised Unit
  | [] => .ok ()
  | v :: rest =>
      if v.isNumber then checkNumbers rest
      else refuse room (fun text => s!"{name} expects numbers, got {text}") v

def checkList : Value → Except Raised (List Value)
  | .list _ items => .ok items
  | v => refuse room (fun text => s!"{name} expects a list, got {text}") v

def checkProcedure (v : Value) : Except Raised Unit :=
  if v.isProcedure then .ok ()
  else refuse room (fun text => s!"{name} expects a procedure, got {text}") v

def equalsZero : Value → Bool
  | .number n => n.isZero
  | _ => false

def checkDivisor (v : Value) : Except Raised Unit :=
  if equalsZero v then .error (.error .divisionByZero "division by zero") else .ok ()

def checkFinite : Quantity → Except Raised Quantity
  | .value (.number (.float x)) =>
      if x.isFinite then .ok (.value (.number (.float x)))
      else .error (.error .numericOverflow s!"{name} produced {x.text}")
  | q => .ok q

/-- A number in a message, as a program would print it. -/
def numberText : Value → Except Raised String
  | .number n => n.text.mapError Raised.of
  | _ => .error (.fault .type)

end Checks

section Routines

variable (room : Nat) (name : String)

def total (op : Value → Value → Except Fault Value) (start : Int) (args : List Value) :
    Except Raised Quantity := do
  checkNumbers room name args
  checkFinite name (.value (← bare (args.foldlM op (.number (.int start)))))

def difference (args : List Value) : Except Raised Quantity := do
  checkNumbers room name args
  let (head, tail) ← bare (unpack args)
  if tail.isEmpty then return .value (← bare (onNumber Number.neg head))
  checkFinite name (.value (← bare (tail.foldlM (mixed (· - ·) Binary64.sub) head)))

/-- The quotient by one number, which is checked just before it divides. -/
def divideBy (a d : Value) : Except Raised Value := do
  checkDivisor d
  bare (div a d)

def quotient (args : List Value) : Except Raised Quantity := do
  checkNumbers room name args
  let (head, tail) ← bare (unpack args)
  if tail.isEmpty then checkFinite name (.value (← divideBy (.number (.int 1)) head))
  else checkFinite name (.value (← tail.foldlM divideBy head))

def magnitude (x : Value) : Except Raised Quantity := do
  checkNumbers room name [x]
  return .value (← bare (onNumber Number.abs (← bare (item [x] 0))))

def chosen (better : Number → Number → Bool) (args : List Value) : Except Raised Quantity := do
  checkNumbers room name args
  return .value (← bare (best (related better) args))

/-- Zero has no negative powers. -/
def checkBase (base exponent : Value) : Except Raised Unit := do
  if equalsZero base then
    if ← bare (related Number.lt exponent (.number (.int 0))) then
      .error (.error .divisionByZero "zero raised to a negative power")

/-- A power that has to be real and finite. -/
def checkReal (base exponent : Value) : Quantity → Except Raised Quantity
  | .complex => do
      let base ← numberText base
      let exponent ← numberText exponent
      .error (.error .wrongType s!"{name} of {base} to {exponent} is not a real number")
  | q => checkFinite name q

def raised (base exponent : Value) : Except Raised Quantity := do
  checkNumbers room name [base, exponent]
  checkBase base exponent
  checkReal name base exponent (← bare (power base exponent))

def rounded (x : Value) : Except Raised Quantity := do
  checkNumbers room name [x]
  match ← checkFinite name (.value x) with
  | .value (.number (.int n)) => return .value (.number (.int n))
  | _ => return .value (.number (.float (← bare (do toFloat (← nearest x)))))

def chained (r : Number → Number → Bool) (args : List Value) : Except Raised Quantity := do
  checkNumbers room name args
  return .value (.bool (← bare ((args.zip args.tail).allM fun pair => related r pair.1 pair.2)))

def fresh (items : List Value) : Routine Quantity :=
  return .value (← .ofAction (Action.newList items))

/-- The items of a value that has to be a list with at least one item. -/
def checkNonempty (v : Value) : Except Raised (List Value) := do
  let items ← checkList room name v
  if items.isEmpty then .error (.error .emptyListAccess s!"{name} of empty list")
  return items

def first (v : Value) : Routine Quantity := do
  let items ← .lift (checkNonempty room name v)
  return .value (← .lift (bare (item items 0)))

def others (v : Value) : Routine Quantity := do
  fresh ((← .lift (checkNonempty room name v)).drop 1)

variable (call : Value → List Value → Routine Value)

def invoke (f : Value) (given : List Value) : Routine Value :=
  if f.isProcedure then call f given else .lift (.error (.fault .type))

def applied (f a : Value) : Routine Quantity := do
  .lift (checkProcedure room name f)
  return .value (← invoke call f (← .lift (checkList room name a)))

def mapped (f : Value) (rows : List Value) : Routine Quantity := do
  .lift (checkProcedure room name f)
  match ← .lift (rows.mapM (checkList room name)) with
  | [] => fresh []
  | row :: others =>
      if others.all (·.length = row.length) then
        fresh (← (Primitive.columns row others).mapM (invoke call f))
      else .lift (.error (.error .wrongType s!"{name} expects lists of the same length"))

/-- What the routine of a primitive does. It takes only so many arguments. -/
def routine : Operation → List Value → Routine Quantity
  | .add, args => .lift (total room name (mixed (· + ·) Binary64.add) 0 args)
  | .multiply, args => .lift (total room name (mixed (· * ·) Binary64.mul) 1 args)
  | .subtract, args => .lift (difference room name args)
  | .divide, args => .lift (quotient room name args)
  | .abs, [x] => .lift (magnitude room name x)
  | .max, args => .lift (chosen room name Number.gt args)
  | .min, args => .lift (chosen room name Number.lt args)
  | .expt, [x, y] => .lift (raised room name x y)
  | .round, [x] => .lift (rounded room name x)
  | .greater, args => .lift (chained room name Number.gt args)
  | .less, args => .lift (chained room name Number.lt args)
  | .atLeast, args => .lift (chained room name Number.ge args)
  | .atMost, args => .lift (chained room name Number.le args)
  | .equalNumbers, args => .lift (chained room name Number.eq args)
  | .isEqual, [a, b] => .lift do return .value (.bool (← (a.equal room b).mapError Raised.of))
  | .isSame, [a, b] => return .value (.bool (a.same b))
  | .not, [a] => return .value (.bool !a.isTrue)
  | .cons, [a, rest] => do fresh (a :: (← .lift (checkList room name rest)))
  | .car, [a] => first room name a
  | .cdr, [a] => others room name a
  | .append, args => do fresh (← .lift (args.mapM (checkList room name))).flatten
  | .list, args => fresh args
  | .length, [a] => .lift do return .value (.number (.int (← checkList room name a).length))
  | .isList, [a] => return .value (.bool a.isList)
  | .isNull, [a] => return .value (.bool a.isNull)
  | .isSymbol, [a] => return .value (.bool a.isSymbol)
  | .isNumber, [a] => return .value (.bool a.isNumber)
  | .isProcedure, [a] => return .value (.bool a.isProcedure)
  | .apply, [f, a] => applied room name call f a
  | .map, f :: rows => mapped room name call f rows
  | .interrupt, _ => .lift (.error (.failure .interrupted))
  | _, _ => .lift (.error (.fault .type))

end Routines

/-- The handler around every routine: an overflow is an error of the program. -/
def handle (name : String) : Raised → Raised
  | .fault (.overflow text) => .error .numericOverflow s!"{name}: {text}"
  | raised => raised

/-- A call of a primitive with any number of arguments. -/
def primitive (room : Nat) (call : Value → List Value → Routine Value) (p : Primitive)
    (args : List Value) : Routine Quantity :=
  if p.arity.accepts args.length then
    fun m =>
      let (result, n) := routine room p.name call p.operation args m
      (result.mapError (handle p.name), n)
  else
    .lift (.error (.error .arityMismatch
      s!"{p.name} expects {p.arity.text} argument(s), received {args.length}"))

end Bare

end SmallScheme
