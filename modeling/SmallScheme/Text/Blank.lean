import SmallScheme.Text.Ranges

/-!
Blank characters: the Unicode white space together with the four information separators.
Blanks separate the words of a program and carry no other meaning.
-/

set_option autoImplicit false
set_option relaxedAutoImplicit false

namespace SmallScheme.Text

def blankRanges : Ranges :=
  [(0x09, 0x0D), (0x1C, 0x20), (0x85, 0x85), (0xA0, 0xA0), (0x1680, 0x1680), (0x2000, 0x200A),
    (0x2028, 0x2029), (0x202F, 0x202F), (0x205F, 0x205F), (0x3000, 0x3000)]

theorem blankRanges_ascending : blankRanges.Ascending := by
  decide

def isBlank (c : Char) : Bool :=
  blankRanges.contains c.toNat

theorem isBlank_iff (c : Char) :
    isBlank c = true ↔ ∃ range ∈ blankRanges, range.1 ≤ c.toNat ∧ c.toNat ≤ range.2 :=
  Ranges.contains_iff blankRanges_ascending

/-- Blanks that may stand around a number on the command line: the separators are no such blank. -/
def isMargin (c : Char) : Bool :=
  isBlank c && !(0x1C ≤ c.toNat && c.toNat ≤ 0x1F)

end SmallScheme.Text
