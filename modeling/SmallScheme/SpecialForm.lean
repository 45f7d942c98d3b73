/-!
The special forms. A list whose first element is one of their keywords is evaluated by a rule of
its own, whatever the keyword is bound to.
-/

set_option autoImplicit false
set_option relaxedAutoImplicit false

namespace SmallScheme

inductive SpecialForm where
  | quote
  | conditional
  | assignment
  | definition
  | abstraction
  | sequence
  deriving DecidableEq, Repr

namespace SpecialForm

def keyword : SpecialForm → String
  | .quote => "quote"
  | .conditional => "if"
  | .assignment => "set!"
  | .definition => "define"
  | .abstraction => "lambda"
  | .sequence => "begin"

def all : List SpecialForm :=
  [.quote, .conditional, .assignment, .definition, .abstraction, .sequence]

def ofKeyword? (name : String) : Option SpecialForm :=
  all.find? (·.keyword = name)

/-- What has to follow the keyword, in words; a sequence takes anything. -/
def shape : SpecialForm → String
  | .quote => "1 argument"
  | .conditional => "a test, a consequent and an alternative"
  | .assignment => "a name and a value"
  | .definition => "a name and a value"
  | .abstraction => "parameters and body"
  | .sequence => "expressions"

end SpecialForm

end SmallScheme
