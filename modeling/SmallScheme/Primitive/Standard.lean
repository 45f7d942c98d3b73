import SmallScheme.Machine

/-!
The global frame: the primitive procedures, the two truth values and pi.
-/

set_option autoImplicit false
set_option relaxedAutoImplicit false

namespace SmallScheme.Primitive

/-- The primitive procedures of the global frame, in the order of their definition. -/
def standard : List Primitive :=
  [⟨"+", .add, .atLeast 0⟩,
    ⟨"*", .multiply, .atLeast 0⟩,
    ⟨"-", .subtract, .atLeast 1⟩,
    ⟨"/", .divide, .atLeast 1⟩,
    ⟨"abs", .abs, .exactly 1⟩,
    ⟨"max", .max, .atLeast 1⟩,
    ⟨"min", .min, .atLeast 1⟩,
    ⟨"expt", .expt, .exactly 2⟩,
    ⟨"round", .round, .exactly 1⟩,
    ⟨">", .greater, .atLeast 0⟩,
    ⟨"<", .less, .atLeast 0⟩,
    ⟨">=", .atLeast, .atLeast 0⟩,
    ⟨"<=", .atMost, .atLeast 0⟩,
    ⟨"=", .equalNumbers, .atLeast 0⟩,
    ⟨"equal?", .isEqual, .exactly 2⟩,
    ⟨"eq?", .isSame, .exactly 2⟩,
    ⟨"not", .not, .exactly 1⟩,
    ⟨"cons", .cons, .exactly 2⟩,
    ⟨"car", .car, .exactly 1⟩,
    ⟨"cdr", .cdr, .exactly 1⟩,
    ⟨"append", .append, .atLeast 0⟩,
    ⟨"list", .list, .atLeast 0⟩,
    ⟨"length", .length, .exactly 1⟩,
    ⟨"list?", .isList, .exactly 1⟩,
    ⟨"null?", .isNull, .exactly 1⟩,
    ⟨"symbol?", .isSymbol, .exactly 1⟩,
    ⟨"number?", .isNumber, .exactly 1⟩,
    ⟨"procedure?", .isProcedure, .exactly 1⟩,
    ⟨"apply", .apply, .exactly 2⟩,
    ⟨"map", .map, .atLeast 2⟩]

/-- The primitive that interrupts the evaluation. It is not in the global frame by itself. -/
def interrupt : Primitive :=
  ⟨"interrupt!", .interrupt, .atLeast 0⟩

/-- The bindings of a new global frame whose primitives are numbered from the given number on. -/
def globals (next : Nat) : Bindings :=
  (standard.zipIdx next).map (fun (p, n) => (p.name, Value.primitive (.made n) p)) ++
    [("#t", .bool true), ("#f", .bool false), ("pi", .number (.float Binary64.pi))]

end SmallScheme.Primitive

namespace SmallScheme.Action

def newGlobals : Action FrameId :=
  change fun s =>
    { s with made := s.made + Primitive.standard.length }.addFrame
      (Primitive.globals s.made) none

def definePrimitive (frame : FrameId) (p : Primitive) : Action Unit := do
  let identity ← change Store.make
  define frame p.name (.primitive identity p)

end SmallScheme.Action
