import SmallScheme.Failure
import SmallScheme.Value

/-!
Structural equality: two lists are equal if they have the same length and are equal item by item,
other values if they are the same.
-/

set_option autoImplicit false
set_option relaxedAutoImplicit false

namespace SmallScheme.Value

/-- Structural equality of values, with room for so many levels of nesting. -/
def equal : Nat → Value → Value → Except Failure Bool
  | 0, _, _ => .error .depthExhausted
  | room + 1, .list _ xs, .list _ ys =>
      if xs.length = ys.length then (xs.zip ys).allM fun pair => equal room pair.1 pair.2
      else .ok false
  | _ + 1, a, b => .ok (a.same b)

end SmallScheme.Value
