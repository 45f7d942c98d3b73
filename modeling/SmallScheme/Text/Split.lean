/-!
Cutting a text at every occurrence of a character.
-/

set_option autoImplicit false
set_option relaxedAutoImplicit false

namespace SmallScheme.Text

def splitStep (mark c : Char) (pieces : List (List Char)) : List (List Char) :=
  if c = mark then [] :: pieces
  else
    match pieces with
    | [] => [[c]]
    | piece :: rest => (c :: piece) :: rest

/-- The pieces between the marks; there is one more of them than marks. -/
def splitAt (mark : Char) (text : List Char) : List (List Char) :=
  text.foldr (splitStep mark) [[]]

/-- The lines of a text; the last one need not be ended. -/
def linesOf (text : String) : List String :=
  let pieces := splitAt '\n' text.toList
  (if pieces.getLast? = some [] then pieces.dropLast else pieces).map String.ofList

end SmallScheme.Text
