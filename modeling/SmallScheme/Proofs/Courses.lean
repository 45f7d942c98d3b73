import Mathlib.Data.List.Basic
import SmallScheme.Primitive.Run

/-!
The courses that primitives take. What a primitive does with so many arguments has one of a few shapes:
it refuses them, computes with numbers, tests values, takes lists apart or puts them together, or calls
the first of them. So what is to be shown of all primitives is shown of these shapes, and nothing else
needs to know which primitives there are.
-/

set_option autoImplicit false
set_option relaxedAutoImplicit false

namespace SmallScheme

namespace Operation

def isArithmetic : Operation → Bool
  | .add | .multiply | .subtract | .divide | .abs | .max | .min | .expt | .round | .length => true
  | _ => false

/-- How many arguments there have to be for the operation to do anything. -/
def takes : Operation → Arity
  | .add | .multiply | .greater | .less | .atLeast | .atMost | .equalNumbers | .append | .list
  | .interrupt => .atLeast 0
  | .subtract | .divide | .max | .min => .atLeast 1
  | .map => .atLeast 2
  | .expt | .isEqual | .isSame | .cons | .apply => .exactly 2
  | .abs | .round | .not | .car | .cdr | .length | .isList | .isNull | .isSymbol | .isNumber
  | .isProcedure => .exactly 1

variable {operation : Operation} {args : List Value}

theorem exists_singleton_of_accepts (accepted : operation.takes.accepts args.length = true)
    (h : operation.takes = .exactly 1) : ∃ x, args = [x] := by
  rw [h, Arity.accepts_exactly] at accepted
  exact List.length_eq_one_iff.mp accepted

theorem exists_pair_of_accepts (accepted : operation.takes.accepts args.length = true)
    (h : operation.takes = .exactly 2) : ∃ x y, args = [x, y] := by
  rw [h, Arity.accepts_exactly] at accepted
  exact List.length_eq_two.mp accepted

theorem exists_cons_of_accepts (accepted : operation.takes.accepts args.length = true)
    (h : operation.takes = .atLeast 1) : ∃ x xs, args = x :: xs := by
  rw [h, Arity.accepts_atLeast] at accepted
  exact List.exists_cons_of_length_pos accepted

theorem exists_cons_cons_of_accepts (accepted : operation.takes.accepts args.length = true)
    (h : operation.takes = .atLeast 2) : ∃ x y rest, args = x :: y :: rest := by
  rw [h, Arity.accepts_atLeast] at accepted
  obtain ⟨x, rest, rfl⟩ := List.exists_cons_of_length_pos (Nat.zero_lt_of_lt accepted)
  obtain ⟨y, rest, rfl⟩ := List.exists_cons_of_length_pos (Nat.lt_of_succ_lt_succ accepted)
  exact ⟨x, y, rest, rfl⟩

end Operation

namespace Primitive

/-- What an arithmetic operation makes of as many numbers as it takes. -/
def calculate : Operation → List Number → Except NumericFault Number
  | .add, xs => sum xs
  | .multiply, xs => product xs
  | .subtract, x :: xs => difference x xs
  | .divide, x :: xs => quotient x xs
  | .abs, [x] => return x.abs
  | .max, x :: xs => return greatest x xs
  | .min, x :: xs => return least x xs
  | .expt, [x, y] => power x y
  | .round, [x] => x.round
  | _, _ => return .int 0

/-- What the primitive does with any arguments of which there are so many, in any room and with any way
to call. -/
inductive Course (p : Primitive) : Nat → Prop
  | misapplied {n : Nat} : ¬ p.operation.takes.accepts n = true →
      (∀ room call args, args.length = n →
        p.run room call args = .raise (.arity p.name p.arity args.length)) → Course p n
  | calculates {n : Nat} : p.operation.isArithmetic = true → (∀ room call args, args.length = n →
      p.run room call args =
        .lift do numeric p.name (calculate p.operation (← numbers room p.name args))) → Course p n
  | compares {n : Nat} {related : Number → Number → Bool} : p.operation.isArithmetic = false →
      (∀ room call args, args.length = n →
        p.run room call args = .lift (compared room p.name related args)) → Course p n
  | equal : p.operation = .isEqual → (∀ room call a b,
      p.run room call [a, b] = .lift do return .bool (← a.equal room b)) → Course p 2
  | same : p.operation = .isSame →
      (∀ room call a b, p.run room call [a, b] = return .bool (a.same b)) → Course p 2
  | tests {test : Value → Bool} : p.operation.isArithmetic = false →
      test ∈ [fun a => !a.isTrue, Value.isList, Value.isNull, Value.isSymbol, Value.isNumber,
        Value.isProcedure] →
      (∀ room call a, p.run room call [a] = return .bool (test a)) → Course p 1
  | cons : p.operation = .cons → (∀ room call a rest, p.run room call [a, rest] = (do
      .newList (a :: (← .lift (items room p.name rest))))) → Course p 2
  | car : p.operation = .car → (∀ room call a, p.run room call [a] = (do
      match ← .lift (items room p.name a) with
      | [] => .raise (.emptyList p.name)
      | first :: _ => return first)) → Course p 1
  | cdr : p.operation = .cdr → (∀ room call a, p.run room call [a] = (do
      match ← .lift (items room p.name a) with
      | [] => .raise (.emptyList p.name)
      | _ :: rest => .newList rest)) → Course p 1
  | append {n : Nat} : p.operation = .append → (∀ room call args, p.run room call args = (do
      .newList (← .lift (args.mapM (items room p.name))).flatten)) → Course p n
  | list {n : Nat} : p.operation = .list →
      (∀ room call args, p.run room call args = .newList args) → Course p n
  | length : p.operation = .length → (∀ room call a,
      p.run room call [a] = .lift do return .number (.int (← items room p.name a).length)) → Course p 1
  | apply : p.operation = .apply → (∀ room call f a, p.run room call [f, a] = (do
      .lift (procedure room p.name f)
      call f (← .lift (items room p.name a)))) → Course p 2
  | map {n : Nat} : p.operation = .map → (∀ room call f row rows,
      p.run room call (f :: row :: rows) = mapped room p.name call f (row :: rows)) → Course p (n + 2)
  | interrupt {n : Nat} : p.operation = .interrupt →
      (∀ room call args, p.run room call args = .fail .interrupted) → Course p n

variable {α : Type} {p : Primitive} {room : Nat} {call : Value → List Value → Action Value}
  {callee : String} {args : List Value}

private theorem numbers_cons_bind (x : Value) (xs : List Value)
    (f : List Number → Except Failure α) :
    numbers room callee (x :: xs) >>= f = (do
      let n ← number room callee x
      let ns ← numbers room callee xs
      f (n :: ns)) := by
  simp only [numbers, List.mapM_cons, bind_assoc, pure_bind]

theorem run_of_not_accepts (h : ¬ p.operation.takes.accepts args.length = true) :
    p.run room call args = .raise (.arity p.name p.arity args.length) := by
  obtain ⟨name, operation, arity⟩ := p
  cases operation <;> rcases args with _ | ⟨_, _ | ⟨_, _ | ⟨_, _⟩⟩⟩ <;>
    first
    | rfl
    | simp [Operation.takes, Arity.accepts_atLeast, Arity.accepts_exactly] at h

theorem course (p : Primitive) (n : Nat) : p.Course n := by
  by_cases accepted : p.operation.takes.accepts n = true
  · have one (h : p.operation.takes = .exactly 1) : n = 1 := by
      rwa [h, Arity.accepts_exactly] at accepted
    have two (h : p.operation.takes = .exactly 2) : n = 2 := by
      rwa [h, Arity.accepts_exactly] at accepted
    obtain ⟨name, operation, arity⟩ := p
    cases operation with
    | add | multiply => exact .calculates rfl fun _ _ _ _ => rfl
    | subtract | divide | max | min =>
      refine .calculates rfl fun room call args count => ?_
      subst count
      obtain ⟨x, xs, rfl⟩ := Operation.exists_cons_of_accepts accepted rfl
      rw [numbers_cons_bind]
      rfl
    | abs | round =>
      obtain rfl := one rfl
      refine .calculates rfl fun room call args count => ?_
      obtain ⟨x, rfl⟩ := List.length_eq_one_iff.mp count
      rw [numbers_cons_bind]
      rfl
    | expt =>
      obtain rfl := two rfl
      refine .calculates rfl fun room call args count => ?_
      obtain ⟨x, y, rfl⟩ := List.length_eq_two.mp count
      simp only [numbers_cons_bind]
      rfl
    | greater | less | atLeast | atMost | equalNumbers => exact .compares rfl fun _ _ _ _ => rfl
    | isEqual =>
      obtain rfl := two rfl
      exact .equal rfl fun _ _ _ _ => rfl
    | isSame =>
      obtain rfl := two rfl
      exact .same rfl fun _ _ _ _ => rfl
    | not | isList | isNull | isSymbol | isNumber | isProcedure =>
      obtain rfl := one rfl
      exact .tests rfl (by simp) fun _ _ _ => rfl
    | cons =>
      obtain rfl := two rfl
      exact .cons rfl fun _ _ _ _ => rfl
    | car =>
      obtain rfl := one rfl
      exact .car rfl fun _ _ _ => rfl
    | cdr =>
      obtain rfl := one rfl
      exact .cdr rfl fun _ _ _ => rfl
    | append => exact .append rfl fun _ _ _ => rfl
    | list => exact .list rfl fun _ _ _ => rfl
    | length =>
      obtain rfl := one rfl
      exact .length rfl fun _ _ _ => rfl
    | apply =>
      obtain rfl := two rfl
      exact .apply rfl fun _ _ _ _ => rfl
    | map =>
      obtain ⟨n, rfl⟩ := Nat.exists_eq_add_of_le' (Arity.accepts_atLeast.mp accepted)
      exact .map rfl fun _ _ _ _ _ => rfl
    | interrupt => exact .interrupt rfl fun _ _ _ => rfl
  · refine .misapplied accepted fun room call args count => run_of_not_accepts ?_
    rwa [count]

end Primitive

end SmallScheme
