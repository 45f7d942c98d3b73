import SmallScheme.Text.Printable

/-!
Quoted text: a text between quote marks in which every character that could mislead a reader of a
message is escaped. A text with an apostrophe and no double quote goes between double quotes,
every other text between apostrophes.
-/

set_option autoImplicit false
set_option relaxedAutoImplicit false

namespace SmallScheme.Text.Quoted

def apostrophe : Char := Char.ofNat 39

def doubleQuote : Char := Char.ofNat 34

def backslash : Char := Char.ofNat 92

def markFor (text : List Char) : Char :=
  if text.contains apostrophe && !text.contains doubleQuote then doubleQuote else apostrophe

/-- The last hexadecimal digits of a number, in lower case, as many as the width says. -/
def hex (width n : Nat) : List Char :=
  (List.range width).reverse.map fun place => Nat.digitChar (n / Nat.pow 16 place % 16)

/-- A character without a printed form, by its code point in two, four or eight digits. -/
def numeric (c : Char) : List Char :=
  if c.toNat < 0x100 then backslash :: 'x' :: hex 2 c.toNat
  else if c.toNat < 0x10000 then backslash :: 'u' :: hex 4 c.toNat
  else backslash :: 'U' :: hex 8 c.toNat

def escape (mark c : Char) : List Char :=
  if c = mark || c = backslash then [backslash, c]
  else if c = '\t' then [backslash, 't']
  else if c = '\n' then [backslash, 'n']
  else if c = '\r' then [backslash, 'r']
  else if isPrintable c then [c]
  else numeric c

def quote (text : String) : String :=
  let mark := markFor text.toList
  String.ofList (mark :: (text.toList.flatMap (escape mark) ++ [mark]))

end SmallScheme.Text.Quoted
