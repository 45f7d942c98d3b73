/-!
Binary64 numbers with exact arithmetic. A finite number is a sign and a code: codes count the
magnitudes from zero upwards, so the next larger magnitude has the next code. Every finite number is
a whole number of units, a unit being the least positive magnitude. Each operation computes the
exact result in units and rounds it once, to the nearest number, a tie to the even code.
-/

set_option autoImplicit false
set_option relaxedAutoImplicit false

namespace SmallScheme

/-- The number of finite magnitudes. -/
def magnitudes : Nat := 2047 * Nat.pow 2 52

/-- A number of the binary interchange format with 64 bits. -/
inductive Binary64 where
  | finite (negative : Bool) (code : Fin magnitudes)
  | infinite (negative : Bool)
  | nan
  deriving DecidableEq

namespace Binary64

/-- Units in the number one. -/
def unitsPerOne : Nat := Nat.pow 2 1074

def zero (negative : Bool) : Binary64 :=
  .finite negative ⟨0, by decide⟩

def isFinite : Binary64 → Bool
  | .finite _ _ => true
  | _ => false

/-- The magnitude with the given code in units. Codes below `2 ^ 52` are subnormal. -/
def unitsOfCode (code : Nat) : Nat :=
  if code < Nat.pow 2 52 then code
  else (Nat.pow 2 52 + code % Nat.pow 2 52) * Nat.pow 2 (code / Nat.pow 2 52 - 1)

def units (negative : Bool) (code : Fin magnitudes) : Int :=
  if negative then -(unitsOfCode code : Int) else unitsOfCode code

/-- A quotient rounded to the nearest natural number, a tie to the even one. -/
def roundDiv (num den : Nat) : Nat :=
  let quotient := num / den
  let remainder := num % den
  if 2 * remainder < den then quotient
  else if den < 2 * remainder then quotient + 1
  else if quotient % 2 = 0 then quotient
  else quotient + 1

/-- The floor of the binary logarithm of a positive quotient. -/
def logRatio (num den : Nat) : Int :=
  let estimate : Int := (num.log2 : Int) - den.log2
  if num * Nat.pow 2 (-estimate).toNat < den * Nat.pow 2 estimate.toNat then estimate - 1
  else estimate

/-- The code nearest to a quotient of units; it may lie above every finite code. -/
def nearestCode (num den : Nat) : Nat :=
  let shift := (logRatio num den - 52).toNat
  shift * Nat.pow 2 52 + roundDiv num (den * Nat.pow 2 shift)

/-- The number nearest to the given quotient, infinite if it lies beyond the finite numbers. -/
def ofRatio (negative : Bool) (num den : Nat) : Binary64 :=
  let code := if num = 0 then 0 else nearestCode (num * unitsPerOne) den
  if h : code < magnitudes then .finite negative ⟨code, h⟩ else .infinite negative

def ofInt (n : Int) : Binary64 :=
  ofRatio (n < 0) n.natAbs 1

/-- The number nearest to a count of units of the given size; the flag signs a zero. -/
def ofUnits (negativeZero : Bool) (units : Int) (perOne : Nat) : Binary64 :=
  if units = 0 then zero negativeZero else ofRatio (units < 0) units.natAbs perOne

def neg : Binary64 → Binary64
  | .finite s c => .finite (!s) c
  | .infinite s => .infinite (!s)
  | .nan => .nan

def abs : Binary64 → Binary64
  | .finite _ c => .finite false c
  | .infinite _ => .infinite false
  | .nan => .nan

def add : Binary64 → Binary64 → Binary64
  | .finite s c, .finite t d => ofUnits (s && t) (units s c + units t d) unitsPerOne
  | .infinite s, .infinite t => if s = t then .infinite s else .nan
  | .infinite s, .finite _ _ => .infinite s
  | .finite _ _, .infinite t => .infinite t
  | .nan, _ => .nan
  | _, .nan => .nan

def sub (x y : Binary64) : Binary64 :=
  x.add y.neg

def mul : Binary64 → Binary64 → Binary64
  | .finite s c, .finite t d => ofUnits (s != t) (units s c * units t d) (unitsPerOne * unitsPerOne)
  | .infinite s, .infinite t => .infinite (s != t)
  | .infinite s, .finite t d => if d.val = 0 then .nan else .infinite (s != t)
  | .finite s c, .infinite t => if c.val = 0 then .nan else .infinite (s != t)
  | .nan, _ => .nan
  | _, .nan => .nan

def div : Binary64 → Binary64 → Binary64
  | .finite s c, .finite t d =>
      if d.val = 0 then (if c.val = 0 then .nan else .infinite (s != t))
      else ofRatio (s != t) (unitsOfCode c) (unitsOfCode d)
  | .infinite _, .infinite _ => .nan
  | .infinite s, .finite t _ => .infinite (s != t)
  | .finite s _, .infinite t => zero (s != t)
  | .nan, _ => .nan
  | _, .nan => .nan

/-- The order of two numbers; a number that is no number has none. -/
def compare? : Binary64 → Binary64 → Option Ordering
  | .finite s c, .finite t d => some (compare (units s c) (units t d))
  | .infinite s, .infinite t => some (compare t s)
  | .infinite s, .finite _ _ => some (if s then .lt else .gt)
  | .finite _ _, .infinite t => some (if t then .gt else .lt)
  | .nan, _ => none
  | _, .nan => none

/-- The order of an integer and a number, without rounding the integer. -/
def compareInt? (n : Int) : Binary64 → Option Ordering
  | .finite t d => some (compare (n * unitsPerOne) (units t d))
  | .infinite t => some (if t then .gt else .lt)
  | .nan => none

/-- The nearest integer, a tie to the even one, with the result a binary64 number again. A zero
result has no sign. -/
def round : Binary64 → Binary64
  | .finite s c =>
      let n := roundDiv (unitsOfCode c) unitsPerOne
      ofInt (if s then -(n : Int) else n)
  | x => x

/-- Whether a finite number is a whole number, and if so whether it is odd. -/
def wholeOdd? : Binary64 → Option Bool
  | .finite _ c =>
      let u := unitsOfCode c
      if u % unitsPerOne = 0 then some (u / unitsPerOne % 2 = 1) else none
  | _ => none

def toBits : Binary64 → UInt64
  | .finite s c => UInt64.ofNat ((if s then Nat.pow 2 63 else 0) + c.val)
  | .infinite s => UInt64.ofNat ((if s then Nat.pow 2 63 else 0) + magnitudes)
  | .nan => UInt64.ofNat (magnitudes + Nat.pow 2 51)

def ofBits (bits : UInt64) : Binary64 :=
  let code := bits.toNat % Nat.pow 2 63
  let negative : Bool := Nat.pow 2 63 ≤ bits.toNat
  if h : code < magnitudes then .finite negative ⟨code, h⟩
  else if code = magnitudes then .infinite negative
  else .nan

/-- The machine's power function on the magnitudes of two finite numbers, the second one signed. -/
def machinePow (base power : Binary64) : Binary64 :=
  ofBits (Float.pow (Float.ofBits base.abs.toBits) (Float.ofBits power.toBits)).toBits

def pi : Binary64 := ofBits 0x400921FB54442D18

end Binary64

end SmallScheme
