import SmallScheme.Number.Decimal

/-!
Numbers: integers of any size and binary64 numbers. Two integers are added, subtracted and multiplied
exactly. An integer that meets a binary64 number is rounded to one first, and fails if it is
too large; comparisons never round.
-/

set_option autoImplicit false
set_option relaxedAutoImplicit false

namespace SmallScheme

inductive Number where
  | int (n : Int)
  | float (x : Binary64)
  deriving DecidableEq

/-- Why an arithmetic operation has no result. -/
inductive NumericFault where
  /-- An integer operand lies beyond the binary64 numbers. -/
  | integerOperand
  /-- The quotient of two integers lies beyond the binary64 numbers. -/
  | integerQuotient
  /-- A power lies beyond the binary64 numbers. -/
  | powerRange
  /-- A power that is no real number lies beyond the binary64 numbers. -/
  | complexRange
  /-- The result is an infinity or no number. -/
  | notFinite (result : Binary64)
  | zeroDivisor
  | zeroToNegativePower
  /-- A fractional power of a negative number. -/
  | notReal (base power : Number)
  deriving DecidableEq

namespace Number

/-- The most digits that an integer may have in a text that is read or written. -/
def digitLimit : Nat := 4300

/-- A number in text; an integer with more digits than the limit has none. -/
def text? : Number → Option String
  | .int n => if n.natAbs < Nat.pow 10 digitLimit then some (toString n) else none
  | .float x => some x.text

def isFinite : Number → Bool
  | .int _ => true
  | .float x => x.isFinite

/-- The order of two numbers by their exact values. -/
def compare? : Number → Number → Option Ordering
  | .int a, .int b => some (compare a b)
  | .int a, .float y => Binary64.compareInt? a y
  | .float x, .int b => (Binary64.compareInt? b x).map Ordering.swap
  | .float x, .float y => x.compare? y

def lt (a b : Number) : Bool :=
  compare? a b = some .lt

def gt (a b : Number) : Bool :=
  compare? a b = some .gt

def eq (a b : Number) : Bool :=
  compare? a b = some .eq

def le (a b : Number) : Bool :=
  lt a b || eq a b

def ge (a b : Number) : Bool :=
  gt a b || eq a b

def isZero (a : Number) : Bool :=
  a.eq (.int 0)

/-- A number as an operand of a binary64 operation. -/
def operand : Number → Except NumericFault Binary64
  | .int n => if (Binary64.ofInt n).isFinite then .ok (Binary64.ofInt n) else .error .integerOperand
  | .float x => .ok x

/-- An operation that is exact on two integers and a binary64 operation otherwise. -/
def mixed (onInts : Int → Int → Int) (onFloats : Binary64 → Binary64 → Binary64)
    (a b : Number) : Except NumericFault Number :=
  match a, b with
  | .int m, .int n => .ok (.int (onInts m n))
  | _, _ => do
      let x ← a.operand
      let y ← b.operand
      return .float (onFloats x y)

def add : Number → Number → Except NumericFault Number :=
  mixed (· + ·) Binary64.add

def sub : Number → Number → Except NumericFault Number :=
  mixed (· - ·) Binary64.sub

def mul : Number → Number → Except NumericFault Number :=
  mixed (· * ·) Binary64.mul

def intQuotient (m n : Int) : Except NumericFault Number :=
  let q := Binary64.ofRatio ((m < 0) != (n < 0)) m.natAbs n.natAbs
  if q.isFinite then .ok (.float q) else .error .integerQuotient

def div (a b : Number) : Except NumericFault Number :=
  if b.isZero then .error .zeroDivisor
  else
    match a, b with
    | .int m, .int n => intQuotient m n
    | _, _ => do
        let x ← a.operand
        let y ← b.operand
        return .float (x.div y)

def neg : Number → Number
  | .int n => .int (-n)
  | .float x => .float x.neg

def abs : Number → Number
  | .int n => .int n.natAbs
  | .float x => .float x.abs

def finite (a : Number) : Except NumericFault Number :=
  match a with
  | .float x => if x.isFinite then .ok a else .error (.notFinite x)
  | .int _ => .ok a

/-- The nearest integer, a tie to the even one; a binary64 number stays one. -/
def round (a : Number) : Except NumericFault Number := do
  match ← a.finite with
  | .int n => return .int n
  | .float x => return .float x.round

/-- A power of an integer. The powers of zero, one and minus one need no multiplication. -/
def intPower (base : Int) (power : Nat) : Int :=
  if power = 0 then 1
  else if base.natAbs ≤ 1 then (if power % 2 = 0 then base * base else base)
  else
    let magnitude : Int := base.natAbs.pow power
    if base < 0 && power % 2 = 1 then -magnitude else magnitude

/-- The power of a positive finite number other than one, negated if asked. -/
def finitePower (negate : Bool) (base power : Binary64) : Except NumericFault Binary64 :=
  let magnitude := base.machinePow power
  if magnitude.isFinite then .ok (if negate then magnitude.neg else magnitude)
  else .error .powerRange

def signedOne (negative : Bool) : Binary64 :=
  Binary64.ofRatio negative 1 1

/-- Whether the magnitude of a number is above one, or one itself. -/
def againstOne (x : Binary64) : Option Ordering :=
  x.abs.compare? (signedOne false)

/-- The power of two binary64 numbers. Zero powers give one, infinities and zeros their limits, and a
negative base takes whole powers only. The base is not zero if the power is negative. -/
def floatPower (base power : Binary64) : Except NumericFault Binary64 :=
  let positive : Bool := power.compare? (Binary64.zero false) = some .gt
  let odd : Bool := power.wholeOdd? = some true
  if power.compare? (Binary64.zero false) = some .eq then .ok (signedOne false)
  else
    match base, power with
    | .nan, _ => .ok .nan
    | _, .nan => .ok (if base = signedOne false then base else .nan)
    | _, .infinite _ =>
        match againstOne base with
        | some .eq => .ok (signedOne false)
        | size => .ok (if positive = (size = some .gt) then .infinite false else Binary64.zero false)
    | .infinite negative, .finite _ _ =>
        if positive then .ok (.infinite (negative && odd)) else .ok (Binary64.zero (negative && odd))
    | .finite negative code, .finite _ _ =>
        if code.val = 0 then .ok (Binary64.zero (negative && odd))
        else if negative && power.wholeOdd? = none then
          if (base.machinePow power).isFinite then .error (.notReal (.float base) (.float power))
          else .error .complexRange
        else if againstOne base = some .eq then .ok (signedOne (negative && odd))
        else finitePower (negative && odd) base power

/-- A power. Integers are raised exactly to powers that are not negative. -/
def power (a b : Number) : Except NumericFault Number :=
  if a.isZero && b.lt (.int 0) then .error .zeroToNegativePower
  else
    match a, b with
    | .int m, .int (.ofNat n) => .ok (.int (intPower m n))
    | _, _ => do
        let x ← a.operand
        let y ← b.operand
        match floatPower x y with
        | .ok z => return .float z
        | .error (.notReal _ _) => .error (.notReal a b)
        | .error fault => .error fault

end Number

end SmallScheme
