import SmallScheme.Failure

/-!
Arithmetic on rows of numbers, from left to right.
-/

set_option autoImplicit false
set_option relaxedAutoImplicit false

namespace SmallScheme.Primitive

/-- The sum, starting from the integer zero. Every addition of binary64 numbers rounds by itself. This is
how the platform sums up to its release 3.11; later releases make up for the rounding errors, which can
change the last digits. -/
def sum (xs : List Number) : Except NumericFault Number := do
  (← xs.foldlM Number.add (.int 0)).finite

def product (xs : List Number) : Except NumericFault Number := do
  (← xs.foldlM Number.mul (.int 1)).finite

/-- The first number less the others, or its negative if there are none. -/
def difference (x : Number) (xs : List Number) : Except NumericFault Number := do
  if xs.isEmpty then return x.neg
  (← xs.foldlM Number.sub x).finite

/-- The first number divided by the others, or its reciprocal if there are none. -/
def quotient (x : Number) (xs : List Number) : Except NumericFault Number := do
  if xs.isEmpty then (← Number.div (.int 1) x).finite
  else (← xs.foldlM Number.div x).finite

def power (base exponent : Number) : Except NumericFault Number := do
  (← base.power exponent).finite

/-- The first of the greatest numbers. -/
def greatest (x : Number) (xs : List Number) : Number :=
  xs.foldl (fun best y => if y.gt best then y else best) x

/-- The first of the least numbers. -/
def least (x : Number) (xs : List Number) : Number :=
  xs.foldl (fun best y => if y.lt best then y else best) x

def chain (related : Number → Number → Bool) (xs : List Number) : Bool :=
  (xs.zip xs.tail).all fun pair => related pair.1 pair.2

end SmallScheme.Primitive
