import SmallScheme.Proofs.WrongType
import SmallScheme.Proofs.ZeroDivisor

/-!
Chains of comparisons. A comparison takes any number of arguments, checks that all of them are numbers,
and then tests each against the next one only. No test rounds, so the order of finite numbers is that of
their exact values, whatever their kinds and sizes. That order is transitive, and hence a chain of tests
says how every two of the numbers are ordered.
-/

set_option autoImplicit false
set_option relaxedAutoImplicit false

namespace SmallScheme

namespace Binary64

def exact : Binary64 → ℚ
  | .finite negative code => units negative code / unitsPerOne
  | _ => 0

private theorem compare_units (x y : Int) :
    compare ((x : ℚ) / unitsPerOne) ((y : ℚ) / unitsPerOne) = compare x y := by
  have pos : (0 : ℚ) < unitsPerOne := by exact_mod_cast unitsPerOne_pos
  have increasing : StrictMono fun n : Int => (n : ℚ) / unitsPerOne := by
    intro a b less
    exact div_lt_div_of_pos_right (Int.cast_lt.mpr less) pos
  rw [← cmp_eq_compare, ← cmp_eq_compare]
  exact increasing.cmp_map_eq x y

private theorem int_eq_units (n : Int) : (n : ℚ) = ((n * unitsPerOne : Int) : ℚ) / unitsPerOne := by
  have nonzero : (unitsPerOne : ℚ) ≠ 0 := by exact_mod_cast unitsPerOne_pos.ne'
  rw [Int.cast_mul, Int.cast_natCast, mul_div_cancel_right₀ _ nonzero]

private theorem compareInt?_eq (n : Int) {y : Binary64} (h : y.isFinite = true) :
    compareInt? n y = some (compare (n : ℚ) y.exact) := by
  cases y with
  | finite negative code => rw [compareInt?, exact, int_eq_units n, compare_units]
  | infinite negative => cases h
  | nan => cases h

end Binary64

namespace Number

def exact : Number → ℚ
  | .int n => n
  | .float x => x.exact

/-- Finite numbers are ordered by their exact values. -/
theorem compare?_eq {a b : Number} (ha : a.isFinite = true) (hb : b.isFinite = true) :
    a.compare? b = some (compare a.exact b.exact) := by
  cases a with
  | int m =>
    cases b with
    | int n =>
      have same : compare (m : ℚ) (n : ℚ) = compare m n := by
        rw [← cmp_eq_compare, ← cmp_eq_compare]
        exact Int.cast_strictMono.cmp_map_eq m n
      rw [compare?, exact, exact, same]
    | float y => exact Binary64.compareInt?_eq m hb
  | float x =>
    cases b with
    | int n =>
      rw [compare?, Binary64.compareInt?_eq n ha, Option.map_some, ← Std.OrientedOrd.eq_swap]
      rfl
    | float y =>
      cases x with
      | finite s c =>
        cases y with
        | finite t d =>
          simp only [compare?, Binary64.compare?, exact, Binary64.exact, Binary64.compare_units]
        | infinite t => cases hb
        | nan => cases hb
      | infinite s => cases ha
      | nan => cases ha

end Number

inductive Comparison where
  | greater
  | less
  | atLeast
  | atMost
  | equal
  deriving DecidableEq

namespace Comparison

def primitive : Comparison → Primitive
  | .greater => ⟨">", .greater, .atLeast 0⟩
  | .less => ⟨"<", .less, .atLeast 0⟩
  | .atLeast => ⟨">=", .atLeast, .atLeast 0⟩
  | .atMost => ⟨"<=", .atMost, .atLeast 0⟩
  | .equal => ⟨"=", .equalNumbers, .atLeast 0⟩

/-- How the primitive tests a number against the next one. -/
def tests : Comparison → Number → Number → Bool
  | .greater => Number.gt
  | .less => Number.lt
  | .atLeast => Number.ge
  | .atMost => Number.le
  | .equal => Number.eq

/-- The order of two exact values that the comparison asks for. -/
def Holds : Comparison → ℚ → ℚ → Prop
  | .greater, p, q => p > q
  | .less, p, q => p < q
  | .atLeast, p, q => p ≥ q
  | .atMost, p, q => p ≤ q
  | .equal, p, q => p = q

instance (c : Comparison) : DecidableRel c.Holds :=
  match c with
  | .greater => fun p q => inferInstanceAs (Decidable (p > q))
  | .less => fun p q => inferInstanceAs (Decidable (p < q))
  | .atLeast => fun p q => inferInstanceAs (Decidable (p ≥ q))
  | .atMost => fun p q => inferInstanceAs (Decidable (p ≤ q))
  | .equal => fun p q => inferInstanceAs (Decidable (p = q))

def converse : Comparison → Comparison
  | .greater => .less
  | .less => .greater
  | .atLeast => .atMost
  | .atMost => .atLeast
  | .equal => .equal

variable (c : Comparison)

theorem primitive_mem_standard : c.primitive ∈ Primitive.standard := by
  cases c <;> decide

theorem holds_converse (p q : ℚ) : c.converse.Holds p q ↔ c.Holds q p := by
  cases c with
  | equal => exact eq_comm
  | _ => exact Iff.rfl

instance isTrans_holds : IsTrans ℚ c.Holds where
  trans p q r first second := by
    cases c with
    | greater => exact gt_trans first second
    | less => exact lt_trans first second
    | atLeast => exact ge_trans first second
    | atMost => exact le_trans first second
    | equal => exact Eq.trans first second

private theorem tests_iff {a b : Number} (ha : a.isFinite = true) (hb : b.isFinite = true) :
    c.tests a b = true ↔ c.Holds a.exact b.exact := by
  have order := Number.compare?_eq ha hb
  have lt : a.lt b = true ↔ a.exact < b.exact := by
    rw [Number.lt, order, decide_eq_true_eq, Option.some.injEq, compare_lt_iff_lt]
  have gt : a.gt b = true ↔ b.exact < a.exact := by
    rw [Number.gt, order, decide_eq_true_eq, Option.some.injEq, compare_gt_iff_gt]
  have eq : a.eq b = true ↔ a.exact = b.exact := by
    rw [Number.eq, order, decide_eq_true_eq, Option.some.injEq, compare_eq_iff_eq]
  cases c with
  | greater => exact gt
  | less => exact lt
  | atLeast =>
    rw [tests, Number.ge, Bool.or_eq_true, gt, eq, Holds, ge_iff_le, le_iff_lt_or_eq, eq_comm]
  | atMost => rw [tests, Number.le, Bool.or_eq_true, lt, eq, Holds, le_iff_lt_or_eq]
  | equal => exact eq

end Comparison

namespace Primitive

private theorem chain_iff_isChain {related : Number → Number → Bool} {R : Number → Number → Prop}
    {xs : List Number} (h : ∀ a ∈ xs, ∀ b ∈ xs, related a b = true ↔ R a b) :
    chain related xs = true ↔ xs.IsChain R := by
  induction xs with
  | nil => simp [chain]
  | cons x xs ih =>
    have later := ih fun a ha b hb => h a (List.mem_cons_of_mem x ha) b (List.mem_cons_of_mem x hb)
    cases xs with
    | nil => simp [chain]
    | cons y ys =>
      have first := h x List.mem_cons_self y (List.mem_cons_of_mem x List.mem_cons_self)
      have step : chain related (x :: y :: ys) = (related x y && chain related (y :: ys)) := rfl
      rw [step, Bool.and_eq_true, first, later, List.isChain_cons_cons]

/-- The numbers of a chain are all in order. -/
theorem chain_iff_pairwise (c : Comparison) {xs : List Number}
    (finite : ∀ x ∈ xs, x.isFinite = true) :
    chain c.tests xs = true ↔ xs.Pairwise fun a b => c.Holds a.exact b.exact := by
  have trans : IsTrans Number fun a b => c.Holds a.exact b.exact :=
    ⟨fun a b d => c.isTrans_holds.trans a.exact b.exact d.exact⟩
  rw [chain_iff_isChain fun a ha b hb => c.tests_iff (finite a ha) (finite b hb),
    List.isChain_iff_pairwise]

theorem exists_wrongType_of_numbers (room : Nat) (callee : String) {args : List Value}
    (h : ∃ v ∈ args, v.isNumber = false) :
    ∃ before v after failure, args = before ++ v :: after ∧ (∀ u ∈ before, u.isNumber = true) ∧
      v.isNumber = false ∧ numbers room callee args = .error failure ∧
      v.WrongType room (.notNumber callee) failure := by
  induction args with
  | nil => simp at h
  | cons a args ih =>
    cases number : a.isNumber with
    | false =>
      obtain ⟨failure, complained, wrong⟩ :=
        Value.exists_wrongType (α := Number) room (e := .notNumber callee) (fun _ => rfl) a
      refine ⟨[], a, args, failure, rfl, by simp, number, ?_, wrong⟩
      have refused : Primitive.number room callee a = complain room (.notNumber callee) a := by
        cases a with
        | number n => cases number
        | _ => rfl
      rw [numbers, List.mapM_cons, refused, complained]
      rfl
    | true =>
      obtain ⟨n, rfl⟩ : ∃ n, a = .number n := by
        cases a with
        | number n => exact ⟨n, rfl⟩
        | _ => cases number
      have later : ∃ v ∈ args, v.isNumber = false := by
        simpa [Value.isNumber] using h
      obtain ⟨before, v, after, failure, rfl, numeric, wrong, failed, ends⟩ := ih later
      refine ⟨.number n :: before, v, after, failure, rfl, ?_, wrong, ?_, ends⟩
      · exact List.forall_mem_cons.mpr ⟨rfl, numeric⟩
      · rw [numbers] at failed
        rw [numbers, List.mapM_cons, failed]
        rfl

end Primitive

namespace Comparison

theorem call_eq (c : Comparison) (depth : Nat) (i : Identity) (args : List Value) (m : Machine) :
    call (depth + 1) (.primitive i c.primitive) args m =
      (Primitive.compared depth c.primitive.name c.tests args, m) := by
  have accepted : c.primitive.arity.accepts args.length = true := by
    cases c <;> exact Arity.accepts_atLeast.mpr (Nat.zero_le _)
  simp only [call, Eval.application, accepted, if_true]
  cases c <;> rfl

theorem call_numbers (c : Comparison) (depth : Nat) (i : Identity) {xs : List Number}
    (finite : ∀ x ∈ xs, x.isFinite = true) (m : Machine) :
    call (depth + 1) (.primitive i c.primitive) (xs.map .number) m =
      (.ok (.bool (decide (xs.Pairwise fun a b => c.Holds a.exact b.exact))), m) := by
  have decided : Primitive.chain c.tests xs =
      decide (xs.Pairwise fun a b => c.Holds a.exact b.exact) := by
    rw [Bool.eq_iff_iff, Primitive.chain_iff_pairwise c finite, decide_eq_true_eq]
  rw [call_eq, Primitive.compared, Primitive.numbers_number, ← decided]
  rfl

theorem call_numbers_eq_true_iff (c : Comparison) (depth : Nat) (i : Identity) {xs : List Number}
    (finite : ∀ x ∈ xs, x.isFinite = true) (m : Machine) :
    call (depth + 1) (.primitive i c.primitive) (xs.map .number) m = (.ok (.bool true), m) ↔
      xs.Pairwise fun a b => c.Holds a.exact b.exact := by
  rw [call_numbers c depth i finite m]
  simp only [Prod.mk.injEq, Except.ok.injEq, Value.bool.injEq, decide_eq_true_eq, and_true]

end Comparison

/-- A comparison of values that are not all numbers fails because of the first that is none, however the
numbers before it compare. A comparison of finite numbers is true just if any two of them, in the order in
which they stand, compare so by their exact values. So it says of the numbers what its converse says of
them in reverse, and numbers are equal just if they are in order both ways. -/
theorem comparison_orders_all_pairs (c : Comparison) (depth : Nat) (i : Comparison → Identity)
    (m : Machine) :
    let outcome (c : Comparison) (args : List Value) :=
      call (depth + 1) (.primitive (i c) c.primitive) args m
    let holds (c : Comparison) (xs : List Number) :=
      outcome c (xs.map .number) = (.ok (.bool true), m)
    c.primitive ∈ Primitive.standard ∧
    (∀ args, (∃ v ∈ args, v.isNumber = false) →
      ∃ before v after failure, args = before ++ v :: after ∧ (∀ u ∈ before, u.isNumber = true) ∧
        v.isNumber = false ∧ outcome c args = (.error failure, m) ∧
        v.WrongType depth (.notNumber c.primitive.name) failure) ∧
    ∀ xs : List Number, (∀ x ∈ xs, x.isFinite = true) →
      outcome c (xs.map .number) =
        (.ok (.bool (decide (xs.Pairwise fun a b => c.Holds a.exact b.exact))), m) ∧
      (holds c xs ↔ holds c.converse xs.reverse) ∧
      (holds .equal xs ↔ holds .atMost xs ∧ holds .atLeast xs) := by
  intro outcome holds
  refine ⟨c.primitive_mem_standard, fun args other => ?_, fun xs finite => ⟨?_, ?_, ?_⟩⟩
  · obtain ⟨before, v, after, failure, split, numeric, wrong, failed, ends⟩ :=
      Primitive.exists_wrongType_of_numbers depth c.primitive.name other
    refine ⟨before, v, after, failure, split, numeric, wrong, ?_, ends⟩
    change call _ _ _ _ = _
    rw [c.call_eq, Primitive.compared, failed]
    rfl
  · exact c.call_numbers depth (i c) finite m
  · have reversed : ∀ x ∈ xs.reverse, x.isFinite = true := fun x hx =>
      finite x (List.mem_reverse.mp hx)
    have forwards : holds c xs ↔ _ := c.call_numbers_eq_true_iff depth (i c) finite m
    have backwards : holds c.converse xs.reverse ↔ _ :=
      c.converse.call_numbers_eq_true_iff depth (i c.converse) reversed m
    rw [forwards, backwards, List.pairwise_reverse]
    simp only [c.holds_converse]
  · have each (d : Comparison) : holds d xs ↔ _ := d.call_numbers_eq_true_iff depth (i d) finite m
    rw [each, each, each, ← List.pairwise_and_iff]
    simp only [Comparison.Holds, ge_iff_le, le_antisymm_iff]

/-- An integer between two numbers to which it could be rounded; one number in two kinds; and a truth
value after numbers that are not in order. -/
theorem comparison_orders_all_pairs_beyond_rounding :
    let rising : List Number :=
      [.float (.ofInt (2 ^ 53)), .int (2 ^ 53 + 1), .float (.ofInt (2 ^ 53 + 2))]
    let level : List Number := [.int 1, .float (.ofInt 1), .int 1]
    let outcome (c : Comparison) (args : List Value) :=
      call 6 (.primitive (.made 9) c.primitive) args (Machine.start 30)
    let holds (c : Comparison) (xs : List Number) :=
      outcome c (xs.map .number) = (.ok (.bool true), Machine.start 30)
    holds .less rising ∧ holds .greater rising.reverse ∧
      holds .equal level ∧ holds .atMost level ∧ holds .atLeast level ∧
      ∃ failure,
        outcome .less [.number (.int 2), .number (.int 1), .bool true] =
          (.error failure, Machine.start 30) ∧
        Value.WrongType 5 (.notNumber "<") (.bool true) failure := by
  intro rising level outcome holds
  have orders (c : Comparison) :=
    comparison_orders_all_pairs c 5 (fun _ => .made 9) (Machine.start 30)
  have finiteRising : ∀ x ∈ rising, x.isFinite = true := by decide +kernel
  have finiteLevel : ∀ x ∈ level, x.isFinite = true := by decide +kernel
  have ordered : rising.Pairwise fun a b => Comparison.less.Holds a.exact b.exact :=
    (Primitive.chain_iff_pairwise .less finiteRising).mp (by decide +kernel)
  have even : level.Pairwise fun a b => Comparison.equal.Holds a.exact b.exact :=
    (Primitive.chain_iff_pairwise .equal finiteLevel).mp (by decide +kernel)
  obtain ⟨-, refuses, less⟩ := orders .less
  obtain ⟨-, -, equal⟩ := orders .equal
  obtain ⟨compared, backwards, -⟩ := less rising finiteRising
  obtain ⟨compared', -, bothWays⟩ := equal level finiteLevel
  rw [decide_eq_true ordered] at compared
  rw [decide_eq_true even] at compared'
  have both := bothWays.mp compared'
  refine ⟨compared, backwards.mp compared, compared', both.1, both.2, ?_⟩
  obtain ⟨before, v, after, failure, split, numeric, other, failed, wrong⟩ :=
    refuses [.number (.int 2), .number (.int 1), .bool true] ⟨.bool true, by simp, rfl⟩
  obtain rfl : v = .bool true := by
    have inside : v ∈ [.number (.int 2), .number (.int 1), .bool true] := by simp [split]
    simp only [List.mem_cons, List.not_mem_nil, or_false] at inside
    rcases inside with rfl | rfl | rfl
    · cases other
    · cases other
    · rfl
  exact ⟨failure, failed, wrong⟩

end SmallScheme
