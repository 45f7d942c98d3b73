import SmallScheme.Number.Binary64

/-!
Decimal text of binary64 numbers. Reading rounds the exact decimal once. Writing looks for the fewest
digits that read back as the same number; of two such decimals with equally many digits it takes
the nearer one, and at equal distance the even one.
-/

set_option autoImplicit false
set_option relaxedAutoImplicit false

namespace SmallScheme

/-- The decimal `digits * 10 ^ exponent`. -/
structure Decimal where
  digits : Nat
  exponent : Int
  deriving DecidableEq, Repr

namespace Decimal

def ratio (d : Decimal) : Nat × Nat :=
  (d.digits * Nat.pow 10 d.exponent.toNat, Nat.pow 10 (-d.exponent).toNat)

/-- The decimal lies above every finite number. Four binary digits are worth more than one decimal digit,
so it is at least ten to the power compared. -/
def isHuge (d : Decimal) : Bool :=
  400 < d.exponent + (d.digits.log2 / 4 : Nat)

/-- The decimal lies far below the least positive number. Three binary digits are worth less than one
decimal digit, so it is below ten to the power compared. -/
def isTiny (d : Decimal) : Bool :=
  d.exponent + ((d.digits.log2 + 1) / 3 + 1 : Nat) < -400

/-- The binary64 number nearest to a signed decimal. Decimals far outside the range are recognised by
their size, so that no huge power of ten is formed. -/
def toBinary64 (negative : Bool) (d : Decimal) : Binary64 :=
  if d.digits = 0 then Binary64.zero negative
  else if d.isHuge then .infinite negative
  else if d.isTiny then Binary64.zero negative
  else Binary64.ofRatio negative d.ratio.1 d.ratio.2

/-- Move trailing zeros of the digits into the exponent, at most as many as the first argument. -/
def strip : Nat → Decimal → Decimal
  | 0, d => d
  | n + 1, d =>
      if d.digits % 10 = 0 && d.digits != 0 then strip n ⟨d.digits / 10, d.exponent + 1⟩ else d

/-- Whether a decimal reads back as the magnitude with the given code. -/
def readsBack (code : Fin magnitudes) (d : Decimal) : Bool :=
  d.toBinary64 false = .finite false code

def exact (code : Fin magnitudes) : Decimal :=
  ⟨Binary64.unitsOfCode code * Nat.pow 5 1074, -1074⟩

/-- The least exponent `k` with the magnitude below `10 ^ k`, found among the five exponents around
an estimate from the binary logarithm. -/
def scale (code : Fin magnitudes) : Int :=
  let u := Binary64.unitsOfCode code
  let estimate := (((u.log2 : Int) - 1074) * 30103).fdiv 100000
  let below (k : Int) : Bool :=
    u * Nat.pow 10 (-k).toNat < Binary64.unitsPerOne * Nat.pow 10 k.toNat
  ([estimate - 1, estimate, estimate + 1, estimate + 2].find? below).getD (estimate + 3)

/-- The decimal with the given least place that reads back, if its two neighbours on that
grid hold one. -/
def onGrid? (code : Fin magnitudes) (place : Int) : Option Decimal :=
  let u := Binary64.unitsOfCode code
  let num := u * Nat.pow 10 (-place).toNat
  let den := Binary64.unitsPerOne * Nat.pow 10 place.toNat
  let lower : Decimal := ⟨num / den, place⟩
  let upper : Decimal := ⟨num / den + 1, place⟩
  match readsBack code lower, readsBack code upper with
  | true, true => some ⟨Binary64.roundDiv num den, place⟩
  | true, false => some lower
  | false, true => some upper
  | false, false => none

/-- The fewest digits that read back, and the full decimal should seventeen not do. -/
def shortest (code : Fin magnitudes) : Decimal :=
  let top := scale code
  let found := (List.range 17).findSome? fun n => onGrid? code (top - (n + 1 : Nat))
  let d := found.getD (exact code)
  strip d.digits.log2 d

structure Layout where
  /-- The leading digit's exponents from this one on are written positionally. -/
  plainFrom : Int
  /-- And below this one. -/
  plainBelow : Int
  /-- The mark before an exponent. -/
  mark : String
  /-- The least number of exponent digits. -/
  exponentWidth : Nat

/-- Numbers are written positionally from `0.0001` up to sixteen digits before the point, otherwise
with a signed exponent of at least two digits. -/
def Layout.standard : Layout where
  plainFrom := -4
  plainBelow := 16
  mark := "e"
  exponentWidth := 2

def zeroes (n : Nat) : List Char :=
  List.replicate n '0'

/-- An exponent with its sign, padded with zeros. -/
def Layout.exponentText (layout : Layout) (e : Int) : String :=
  let digits := Nat.toDigits 10 e.natAbs
  layout.mark ++ (if e < 0 then "-" else "+") ++
    String.ofList (zeroes (layout.exponentWidth - digits.length) ++ digits)

/-- A positive decimal in text. A positional text always has a point with a digit on both sides. -/
def Layout.write (layout : Layout) (d : Decimal) : String :=
  let digits := Nat.toDigits 10 d.digits
  let point := d.exponent + digits.length
  let leading := point - 1
  if layout.plainFrom ≤ leading && leading < layout.plainBelow then
    if point ≤ 0 then
      "0." ++ String.ofList (zeroes (-point).toNat ++ digits)
    else
      let whole := digits.take point.toNat ++ zeroes d.exponent.toNat
      let part := digits.drop point.toNat
      String.ofList whole ++ "." ++ (if part.isEmpty then "0" else String.ofList part)
  else
    let part := digits.drop 1
    String.ofList (digits.take 1) ++
      (if part.isEmpty then "" else "." ++ String.ofList part) ++ layout.exponentText leading

end Decimal

def Binary64.text : Binary64 → String
  | .finite negative code =>
      (if negative then "-" else "") ++
        (if code.val = 0 then "0.0" else Decimal.Layout.standard.write (Decimal.shortest code))
  | .infinite negative => if negative then "-inf" else "inf"
  | .nan => "nan"

end SmallScheme
