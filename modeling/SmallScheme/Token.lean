import SmallScheme.Text.Blank

/-!
Tokens of program text. Parentheses stand alone, blanks separate, and every longest run of other
characters is a word.
-/

set_option autoImplicit false
set_option relaxedAutoImplicit false

namespace SmallScheme

inductive Token where
  | opening
  | closing
  | word (text : String)
  deriving DecidableEq, Repr

namespace Token

def text : Token → String
  | .opening => "("
  | .closing => ")"
  | .word text => text

/-- The token that is spelled so; any text but a parenthesis is a word. -/
def ofText (text : String) : Token :=
  if text = "(" then .opening else if text = ")" then .closing else .word text

/-- What a text gives from some place on: the characters of a word that may go on to the left of
that place, and the tokens after them. -/
structure Cut where
  word : List Char
  tokens : List Token

def Cut.flush (cut : Cut) : List Token :=
  if cut.word.isEmpty then cut.tokens else .word (String.ofList cut.word) :: cut.tokens

def Cut.extend (c : Char) (cut : Cut) : Cut :=
  if c = '(' then ⟨[], .opening :: cut.flush⟩
  else if c = ')' then ⟨[], .closing :: cut.flush⟩
  else if Text.isBlank c then ⟨[], cut.flush⟩
  else ⟨c :: cut.word, cut.tokens⟩

def scan (source : List Char) : List Token :=
  (source.foldr Cut.extend ⟨[], []⟩).flush

/-- The tokens of a text. -/
def tokenize (source : String) : List Token :=
  scan source.toList

/-- How many lists are open after a token, given how many were before; a closing parenthesis
outside any list leaves none open. -/
def nesting (depth : Nat) : Token → Nat
  | .opening => depth + 1
  | .closing => depth - 1
  | .word _ => depth

/-- Whether the tokens end inside an open list. -/
def needsMore (tokens : List Token) : Bool :=
  0 < tokens.foldl nesting 0

end Token

end SmallScheme
