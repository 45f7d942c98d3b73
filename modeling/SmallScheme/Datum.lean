import SmallScheme.Number

/-!
Data as they are written in program text: numbers, symbols and lists of data.
-/

set_option autoImplicit false
set_option relaxedAutoImplicit false

namespace SmallScheme

inductive Datum where
  | number (n : Number)
  | symbol (name : String)
  | list (items : List Datum)

end SmallScheme
