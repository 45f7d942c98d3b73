import SmallScheme.Text.Split

/-!
Paths of program files. A path is written without empty and single-dot parts; double-dot parts stay. A
path that starts with a slash is absolute, and exactly two slashes are kept.
-/

set_option autoImplicit false
set_option relaxedAutoImplicit false

namespace SmallScheme.CommandLine

structure Path where
  /-- The slashes of an absolute path. -/
  anchor : String
  parts : List String
  deriving DecidableEq, Repr

namespace Path

/-- The slashes that an absolute path keeps. -/
def anchorOf (text : List Char) : String :=
  match text.takeWhile (· = '/') with
  | [] => ""
  | [_, _] => "//"
  | _ => "/"

def ofText (text : String) : Path :=
  let parts := (Text.splitAt '/' text.toList).map String.ofList
  ⟨anchorOf text.toList, parts.filter fun part => part != "" && part != "."⟩

/-- The path in its written form; the path without parts is the working directory. -/
def text (p : Path) : String :=
  let joined := p.anchor ++ "/".intercalate p.parts
  if joined = "" then "." else joined

/-- Whether the path holds the character that ends names, so that no file can have it. -/
def hasNul (p : Path) : Bool :=
  p.text.toList.contains (Char.ofNat 0)

end Path

end SmallScheme.CommandLine
