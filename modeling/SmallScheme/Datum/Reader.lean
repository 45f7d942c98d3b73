import SmallScheme.Datum.Atom
import SmallScheme.Token

/-!
Reading data from tokens. The reader takes the tokens of one datum from the front and leaves the rest;
after a fault it leaves what follows the offending token. The lists that are open are kept
innermost first, each with its items so far in reverse.
-/

set_option autoImplicit false
set_option relaxedAutoImplicit false

namespace SmallScheme.Datum

/-- The outcome of one read and the tokens left over. -/
abbrev Reading := Except Failure Datum × List Token

/-- Go on reading with the given lists open and room for so many more. -/
def readOpen (room : Nat) (lists : List (List Datum)) : List Token → Reading
  | [] => (.error (.error (.endOfInput !lists.isEmpty)), [])
  | .opening :: rest =>
      match room with
      | 0 => (.error .depthExhausted, rest)
      | room + 1 => readOpen room ([] :: lists) rest
  | .closing :: rest =>
      match lists with
      | [] => (.error (.error .unmatchedClose), rest)
      | [items] => (.ok (.list items.reverse), rest)
      | items :: outer :: others =>
          readOpen (room + 1) ((.list items.reverse :: outer) :: others) rest
  | .word text :: rest =>
      match ofWord text, lists with
      | .error failure, _ => (.error failure, rest)
      | .ok atom, [] => (.ok atom, rest)
      | .ok atom, items :: others => readOpen room ((atom :: items) :: others) rest

/-- Read the next datum, with lists nested at most so deep. -/
def next (depth : Nat) (tokens : List Token) : Reading :=
  readOpen depth [] tokens

def readingsWithin (depth : Nat) : Nat → List Token → List (Except Failure Datum)
  | 0, _ => []
  | _ + 1, [] => []
  | n + 1, tokens =>
      let (outcome, rest) := next depth tokens
      outcome :: readingsWithin depth n rest

/-- The outcomes of reading datum after datum, faults included, until no token is left. Each read
takes at least one token. -/
def readings (depth : Nat) (tokens : List Token) : List (Except Failure Datum) :=
  readingsWithin depth tokens.length tokens

/-- The one datum that a text holds. -/
def parse (depth : Nat) (source : String) : Except Failure Datum :=
  match next depth (Token.tokenize source) with
  | (.error failure, _) => .error failure
  | (.ok datum, []) => .ok datum
  | (.ok _, token :: _) => .error (.error (.trailingToken token.text))

/-- All data that a text holds, or the first fault. -/
def parseMany (depth : Nat) (source : String) : Except Failure (List Datum) :=
  (readings depth (Token.tokenize source)).mapM id

end SmallScheme.Datum
