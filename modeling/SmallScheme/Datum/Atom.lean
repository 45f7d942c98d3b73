import SmallScheme.Datum
import SmallScheme.Failure
import SmallScheme.Text.DecimalDigit

/-!
Atoms: what a single word stands for. A word that spells an integer or a finite decimal number is
that number, every other word is the symbol of that name. Digits of all scripts count.
-/

set_option autoImplicit false
set_option relaxedAutoImplicit false

namespace SmallScheme.Datum

open Text (isDigit digits? positional)

/-- An optional sign and what follows it; the flag says whether the sign is a minus. -/
def splitSign : List Char → Bool × List Char
  | '-' :: rest => (true, rest)
  | '+' :: rest => (false, rest)
  | text => (false, text)

/-- The digits of a text that consists of at least one digit and nothing else. -/
def numeral? (text : List Char) : Option (List Nat) :=
  if text.isEmpty then none else digits? text

def signed (negative : Bool) (n : Nat) : Int :=
  if negative then -(n : Int) else n

def integerForm? (word : List Char) : Option (Bool × List Nat) :=
  let (negative, body) := splitSign word
  (numeral? body).map (negative, ·)

/-- An exponent part: its mark, an optional sign and digits. -/
def exponentForm? : List Char → Option Int
  | mark :: rest =>
      if mark = 'e' || mark = 'E' then
        let (negative, body) := splitSign rest
        (numeral? body).map fun digits => signed negative (positional digits)
      else none
  | [] => none

def pointed (whole part : List Char) (exponent : Int) : Option Decimal :=
  (digits? (whole ++ part)).map fun digits => ⟨positional digits, exponent - part.length⟩

/-- The decimal that an unsigned text of decimal form spells: digits with a point among or beside
them and an optional exponent, or digits without a point and an exponent. -/
def unsignedDecimal? (text : List Char) : Option Decimal :=
  let whole := text.takeWhile isDigit
  match text.dropWhile isDigit with
  | '.' :: rest =>
      let part := rest.takeWhile isDigit
      let tail := rest.dropWhile isDigit
      if whole.isEmpty && part.isEmpty then none
      else if tail.isEmpty then pointed whole part 0
      else (exponentForm? tail).bind (pointed whole part)
  | tail => if whole.isEmpty then none else (exponentForm? tail).bind (pointed whole [])

def decimalForm? (word : List Char) : Option (Bool × Decimal) :=
  let (negative, body) := splitSign word
  (unsignedDecimal? body).map (negative, ·)

/-- The finite binary64 number that a word of decimal form spells, if it is finite. -/
def float? (word : List Char) : Option Binary64 := do
  let (negative, d) ← decimalForm? word
  let x := d.toBinary64 negative
  if x.isFinite then some x else none

/-- The atom that a word stands for. -/
def ofWord (word : String) : Except Failure Datum :=
  match integerForm? word.toList with
  | some (negative, digits) =>
      if Number.digitLimit < digits.length then .error (.digitLimit (some digits.length))
      else .ok (.number (.int (signed negative (positional digits))))
  | none =>
      match float? word.toList with
      | some x => .ok (.number (.float x))
      | none => .ok (.symbol word)

end SmallScheme.Datum
