import SmallScheme.Number
import SmallScheme.Text.Blank
import SmallScheme.Text.DecimalDigit

/-!
Integers on the command line: an optional sign and digits of any script, single underscores between
digits, blanks around the whole.
-/

set_option autoImplicit false
set_option relaxedAutoImplicit false

namespace SmallScheme.CommandLine

/-- Digits with single underscores between them. -/
def groupedDigits? : List Char → Option (List Nat)
  | [] => none
  | [c] => (Text.digitValue? c).map ([·])
  | c :: '_' :: rest => do return (← Text.digitValue? c) :: (← groupedDigits? rest)
  | c :: rest => do return (← Text.digitValue? c) :: (← groupedDigits? rest)

def trim (text : List Char) : List Char :=
  ((text.dropWhile Text.isMargin).reverse.dropWhile Text.isMargin).reverse

/-- The integer that a text spells; its digits may not exceed the digit limit. -/
def integer? (text : String) : Option Int := do
  let (negative, body) :=
    match trim text.toList with
    | '-' :: rest => (true, rest)
    | '+' :: rest => (false, rest)
    | body => (false, body)
  let digits ← groupedDigits? body
  if Number.digitLimit < digits.length then none
  else
    let magnitude : Int := Text.positional digits
    return if negative then -magnitude else magnitude

/-- Whether a text looks like a negative number: a minus and digits, or a minus and a decimal
fraction. A line feed may end it. -/
def looksNegative (text : String) : Bool :=
  match text.toList with
  | '-' :: rest =>
      let body := if rest.getLast? = some '\n' then rest.dropLast else rest
      let tail := body.dropWhile Text.isDigit
      match tail with
      | [] => !body.isEmpty
      | '.' :: part => !part.isEmpty && part.all Text.isDigit
      | _ => false
  | _ => false

end SmallScheme.CommandLine
