/-!
How many arguments a procedure takes.
-/

set_option autoImplicit false
set_option relaxedAutoImplicit false

namespace SmallScheme

/-- The least and, unless it is open, the greatest number of arguments. The bounds are any integers: a
least number below zero asks for nothing, and a greatest number below zero cannot be met. -/
structure Arity where
  least : Int
  most : Option Int
  deriving DecidableEq, Repr

namespace Arity

def exactly (n : Nat) : Arity :=
  ⟨n, some n⟩

def atLeast (n : Nat) : Arity :=
  ⟨n, none⟩

def accepts (a : Arity) (n : Nat) : Bool :=
  a.least ≤ n && a.most.all ((n : Int) ≤ ·)

theorem accepts_exactly {n k : Nat} : (exactly n).accepts k = true ↔ k = n := by
  simp [accepts, exactly]
  omega

theorem accepts_atLeast {n k : Nat} : (atLeast n).accepts k = true ↔ n ≤ k := by
  simp [accepts, atLeast]

/-- The arity in words, as messages give it. -/
def text (a : Arity) : String :=
  match a.most with
  | none => s!"at least {a.least}"
  | some most => if most = a.least then s!"{a.least}" else s!"{a.least} to {most}"

end Arity

end SmallScheme
