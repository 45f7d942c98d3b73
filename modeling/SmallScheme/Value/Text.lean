import SmallScheme.Failure
import SmallScheme.Text.Quoted
import SmallScheme.Value

/-!
Texts of values. The display text is what programs print; the literal text is what messages show. Both
fail on an integer with too many digits and on lists nested deeper than the room given.
-/

set_option autoImplicit false
set_option relaxedAutoImplicit false

namespace SmallScheme

structure Style where
  unit : String
  boolean : Bool → String
  symbol : String → String
  opening : String
  separator : String
  closing : String
  procedure : String → String
  primitive : String → String

namespace Style

/-- What programs print. The unit value prints as nothing. -/
def display : Style where
  unit := ""
  boolean b := if b then "#t" else "#f"
  symbol name := name
  opening := "("
  separator := " "
  closing := ")"
  procedure params := s!"#<procedure ({params})>"
  primitive name := s!"#<builtin {name}>"

/-- What messages show. -/
def literal : Style where
  unit := "None"
  boolean b := if b then "True" else "False"
  symbol name := s!"Symbol({Text.Quoted.quote name})"
  opening := "["
  separator := ", "
  closing := "]"
  procedure params := s!"<Procedure ({params})>"
  primitive name := s!"<Builtin {name}>"

end Style

namespace Number

def text (n : Number) : Except Failure String :=
  match n.text? with
  | some text => .ok text
  | none => .error (.digitLimit none)

end Number

namespace Value

/-- A value in the given style, with room for so many levels of nesting. -/
def write (style : Style) : Nat → Value → Except Failure String
  | 0, _ => .error .depthExhausted
  | _ + 1, .unit => .ok style.unit
  | _ + 1, .bool b => .ok (style.boolean b)
  | _ + 1, .number n => n.text
  | _ + 1, .symbol name => .ok (style.symbol name)
  | room + 1, .list _ items => do
      let parts ← items.mapM (write style room)
      return style.opening ++ style.separator.intercalate parts ++ style.closing
  | _ + 1, .procedure _ params _ _ => .ok (style.procedure (" ".intercalate params))
  | _ + 1, .primitive _ p => .ok (style.primitive p.name)

def display (room : Nat) (v : Value) : Except Failure String :=
  v.write .display room

def literal (room : Nat) (v : Value) : Except Failure String :=
  v.write .literal room

/-- How a message names a value in operator position: a symbol by its bare name. -/
def shown (room : Nat) : Value → Except Failure String
  | .symbol name => .ok name
  | v => v.literal room

end Value

end SmallScheme
