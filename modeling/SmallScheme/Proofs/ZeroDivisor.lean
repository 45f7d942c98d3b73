import SmallScheme.Eval
import SmallScheme.Primitive.Standard
import SmallScheme.Proofs.Operands

/-!
Division by zero. The divisors are taken one after the other, and each is compared with zero just before
it divides. Two binary64 numbers always have a quotient, which may be an infinity, but an integer may be
too large to be divided or to divide. So a zero is reported unless a division before it fails, and that
depends on the integers alone.
-/

set_option autoImplicit false
set_option relaxedAutoImplicit false

namespace SmallScheme

namespace Number

variable {a b x : Number} {before after : List Number}

theorem exists_first_zero {ds : List Number} (h : ∃ d ∈ ds, d.IsZero) :
    ∃ before zero after, ds = before ++ zero :: after ∧ zero.IsZero ∧ ∀ d ∈ before, ¬ d.IsZero := by
  obtain ⟨d, hd, hz⟩ := h
  have some : (ds.find? isZero).isSome = true := List.find?_isSome.mpr ⟨d, hd, isZero_iff.mpr hz⟩
  obtain ⟨zero, found⟩ := Option.isSome_iff_exists.mp some
  obtain ⟨hzero, before, after, split, nonzero⟩ := List.find?_eq_some_iff_append.mp found
  refine ⟨before, zero, after, split, isZero_iff.mp hzero, fun e he zero => ?_⟩
  have untrue := nonzero e he
  rw [isZero_iff.mpr zero] at untrue
  cases untrue

/-- The numbers have no quotient, because of integers that are too large. The quotient of two integers
need not be large if they are. -/
def Overflows : Number → Number → Prop
  | .int m, .int n => Binary64.overflow * n.natAbs ≤ m.natAbs
  | a, b => a.Huge ∨ b.Huge

/-- What a division by one number comes to, by the divisor and the sizes. -/
inductive Divided (a b : Number) : Except NumericFault Number → Prop
  | zeroDivisor : b.IsZero → Divided a b (.error .zeroDivisor)
  | overflow {fault : NumericFault} : ¬ b.IsZero → a.Overflows b →
      fault = .integerOperand ∨ fault = .integerQuotient → Divided a b (.error fault)
  | quotient (q : Binary64) : ¬ b.IsZero → ¬ a.Overflows b → Divided a b (.ok (.float q))

private theorem divided_of_operands (hb : ¬ b.IsZero)
    (overflows : a.Overflows b ↔ a.Huge ∨ b.Huge) :
    Divided a b (do
      let x ← a.operand
      let y ← b.operand
      return .float (x.div y)) := by
  by_cases first : a.Huge
  · rw [operand_of_huge first]
    exact .overflow hb (overflows.mpr (.inl first)) (.inl rfl)
  obtain ⟨x, hx⟩ := exists_operand first
  by_cases second : b.Huge
  · rw [hx, operand_of_huge second]
    exact .overflow hb (overflows.mpr (.inr second)) (.inl rfl)
  obtain ⟨y, hy⟩ := exists_operand second
  rw [hx, hy]
  exact .quotient (x.div y) hb fun h => (overflows.mp h).elim first second

private theorem divided_intQuotient {m n : Int} (hn : ¬ (Number.int n).IsZero) :
    Divided (.int m) (.int n) (intQuotient m n) := by
  have pos : 0 < n.natAbs := by
    rw [Int.natAbs_pos]
    rintro rfl
    exact hn (.inl rfl)
  have finite := Binary64.isFinite_ofRatio_iff_lt ((m < 0) != (n < 0)) m.natAbs pos
  simp only [intQuotient]
  split
  · rename_i small
    exact .quotient _ hn (Nat.not_le.mpr (finite.mp small))
  · rename_i large
    exact .overflow hn (Nat.not_lt.mp (mt finite.mpr large)) (.inr rfl)

private theorem divided (a b : Number) : Divided a b (a.div b) := by
  unfold div
  split
  · rename_i zero
    exact .zeroDivisor (isZero_iff.mp zero)
  rename_i nonzero
  have hb := mt isZero_iff.mpr nonzero
  cases a with
  | float x => exact divided_of_operands hb (by cases b <;> exact Iff.rfl)
  | int m =>
    cases b with
    | float y => exact divided_of_operands hb Iff.rfl
    | int n => exact divided_intQuotient hb

/-- One of the divisions by the numbers one after the other overflows. From the first quotient on an
integer meets a binary64 number. -/
def OverflowsAlong (x : Number) : List Number → Prop
  | [] => False
  | d :: ds => x.Overflows d ∨ ∃ e ∈ ds, e.Huge

private theorem overflowsAlong_float {q : Binary64} {ds : List Number} :
    OverflowsAlong (.float q) ds ↔ ∃ d ∈ ds, d.Huge := by
  cases ds with
  | nil => simp [OverflowsAlong]
  | cons d ds => simp [OverflowsAlong, Overflows, Huge]

theorem not_overflowsAlong (hx : ¬ x.Huge) (nonzero : ∀ d ∈ before, ¬ d.IsZero)
    (small : ∀ d ∈ before, ¬ d.Huge) : ¬ OverflowsAlong x before := by
  cases before with
  | nil => exact id
  | cons d ds =>
    obtain ⟨hd, others⟩ := List.forall_mem_cons.mp small
    have first : ¬ x.Overflows d := by
      have meets : ¬ (x.Huge ∨ d.Huge) := not_or.mpr ⟨hx, hd⟩
      cases x with
      | float y => cases d <;> exact meets
      | int m =>
        cases d with
        | float y => exact meets
        | int n =>
          have pos : 1 ≤ n.natAbs := by
            rw [Nat.one_le_iff_ne_zero, Int.natAbs_ne_zero]
            rintro rfl
            exact nonzero _ List.mem_cons_self (.inl rfl)
          intro overflows
          exact hx ((Nat.le_mul_of_pos_right _ pos).trans overflows)
    rintro (overflows | ⟨e, he, huge⟩)
    · exact first overflows
    · exact others e he huge

private theorem foldlM_div (nonzero : ∀ d ∈ before, ¬ d.IsZero) :
    (¬ OverflowsAlong x before ∧ ∃ y, before.foldlM div x = .ok y) ∨
    (OverflowsAlong x before ∧ ∃ fault, (fault = .integerOperand ∨ fault = .integerQuotient) ∧
      before.foldlM div x = .error fault) := by
  induction before generalizing x with
  | nil => exact .inl ⟨id, x, rfl⟩
  | cons d ds ih =>
    obtain ⟨hd, others⟩ := List.forall_mem_cons.mp nonzero
    have first := divided x d
    rw [List.foldlM_cons]
    generalize x.div d = result at first ⊢
    cases first with
    | zeroDivisor zero => exact absurd zero hd
    | @overflow fault _ overflows which => exact .inr ⟨.inl overflows, fault, which, rfl⟩
    | quotient q _ fits =>
      have along : OverflowsAlong x (d :: ds) ↔ OverflowsAlong (.float q) ds := by
        rw [overflowsAlong_float]
        exact or_iff_right fits
      rw [along]
      exact ih others

end Number

namespace Primitive

def dividend (x : Number) : List Number → Number
  | [] => .int 1
  | _ => x

/-- What divides: all but the first number, or the only one. -/
def divisors (x : Number) : List Number → List Number
  | [] => [x]
  | xs => xs

variable {x : Number} {xs before after : List Number} {zero : Number}

theorem dividend_not_huge (h : ¬ x.Huge) : ¬ (dividend x xs).Huge := by
  cases xs with
  | nil =>
    have one : ¬ Binary64.overflow ≤ 1 := by decide +kernel
    exact one
  | cons y ys => exact h

theorem divisors_subset : divisors x xs ⊆ x :: xs := by
  cases xs with
  | nil => exact List.Subset.refl [x]
  | cons y ys => exact List.subset_cons_self x (y :: ys)

private theorem quotient_eq (x : Number) (xs : List Number) :
    quotient x xs = (divisors x xs).foldlM Number.div (dividend x xs) >>= Number.finite := by
  cases xs with
  | nil =>
    rw [divisors, List.foldlM_cons]
    simp only [List.foldlM_nil, bind_pure]
    rfl
  | cons y ys => rfl

/-- The first zero among the divisors is reported unless a division before it overflows. -/
theorem quotient_of_zero (split : divisors x xs = before ++ zero :: after) (hz : zero.IsZero)
    (nonzero : ∀ d ∈ before, ¬ d.IsZero) :
    (¬ Number.OverflowsAlong (dividend x xs) before ∧ quotient x xs = .error .zeroDivisor) ∨
    (Number.OverflowsAlong (dividend x xs) before ∧
      ∃ fault, (fault = .integerOperand ∨ fault = .integerQuotient) ∧
        quotient x xs = .error fault) := by
  have stops (a : Number) : a.div zero = .error .zeroDivisor := by
    simp only [Number.div, if_pos (Number.isZero_iff.mpr hz)]
  rw [quotient_eq, split, List.foldlM_append]
  rcases Number.foldlM_div (x := dividend x xs) nonzero with
    ⟨fits, y, divided⟩ | ⟨overflows, fault, which, failed⟩
  · refine .inl ⟨fits, ?_⟩
    simp only [divided, List.foldlM_cons, stops, bind, Except.bind]
  · refine .inr ⟨overflows, fault, which, ?_⟩
    simp only [failed, bind, Except.bind]

/-- Without a zero the quotient is finite, or it overflows in one way or another. -/
theorem quotient_of_nonzero (nonzero : ∀ d ∈ divisors x xs, ¬ d.IsZero) :
    (∃ q, quotient x xs = .ok q) ∨
    ∃ fault, (fault = .integerOperand ∨ fault = .integerQuotient ∨ ∃ y, fault = .notFinite y) ∧
      quotient x xs = .error fault := by
  rw [quotient_eq]
  rcases Number.foldlM_div (x := dividend x xs) nonzero with
    ⟨-, q, divided⟩ | ⟨-, fault, which, failed⟩
  · rw [divided]
    rcases q.finite_cases with finite | ⟨y, infinite⟩
    · exact .inl ⟨q, finite⟩
    · exact .inr ⟨.notFinite y, .inr (.inr ⟨y, rfl⟩), infinite⟩
  · rw [failed]
    exact .inr ⟨fault, which.imp id .inl, rfl⟩

theorem numbers_number (room : Nat) (callee : String) (xs : List Number) :
    numbers room callee (xs.map .number) = .ok xs := by
  induction xs with
  | nil => rfl
  | cons x xs ih =>
    rw [numbers] at ih
    rw [numbers, List.map_cons, List.mapM_cons, ih]
    rfl

theorem call_divide (depth : Nat) (i : Identity) (x : Number) (xs : List Number) (m : Machine) :
    call (depth + 1) (.primitive i ⟨"/", .divide, .atLeast 1⟩) ((x :: xs).map .number) m =
      (numeric "/" (quotient x xs), m) := by
  have accepted : (Arity.atLeast 1).accepts (.number x :: xs.map Value.number).length = true := by
    simp [Arity.accepts, Arity.atLeast]
  rw [List.map_cons]
  simp only [call, Eval.application, accepted, if_true, run, number, numbers_number, bind,
    Except.bind]
  rfl

/-- A zero among the divisors is reported, unless a division before it overflows: one of an integer by
an integer that is too small for it, or one in which a huge integer meets a binary64 number. That is an
error too, but another one. If no integer is huge, every zero is reported, and if no divisor is zero,
none is. -/
theorem division_by_zero_reports (depth : Nat) (i : Identity) (x : Number) (xs : List Number)
    (m : Machine) :
    let outcome := call (depth + 1) (.primitive i ⟨"/", .divide, .atLeast 1⟩)
      ((x :: xs).map .number) m
    let reported := outcome = (.error (.error (.numeric "/" .zeroDivisor)), m)
    let overflowed := ∃ e : Error, e.kind = .numericOverflow ∧ outcome = (.error (.error e), m)
    (∀ before zero after, divisors x xs = before ++ zero :: after → zero.IsZero →
      (∀ d ∈ before, ¬ d.IsZero) →
      (¬ Number.OverflowsAlong (dividend x xs) before → reported) ∧
      (Number.OverflowsAlong (dividend x xs) before → overflowed)) ∧
    ((∀ a ∈ x :: xs, ¬ a.Huge) → (∃ d ∈ divisors x xs, d.IsZero) → reported) ∧
    ((∀ d ∈ divisors x xs, ¬ d.IsZero) → (∃ q, outcome = (.ok (.number q), m)) ∨ overflowed) := by
  intro outcome reported overflowed
  have ran : outcome = (numeric "/" (quotient x xs), m) := call_divide depth i x xs m
  have first (before : List Number) (zero : Number) (after : List Number)
      (split : divisors x xs = before ++ zero :: after) (hz : zero.IsZero)
      (nonzero : ∀ d ∈ before, ¬ d.IsZero) :
      (¬ Number.OverflowsAlong (dividend x xs) before → reported) ∧
      (Number.OverflowsAlong (dividend x xs) before → overflowed) := by
    rcases quotient_of_zero split hz nonzero with ⟨fits, result⟩ | ⟨overflows, fault, which, result⟩
    · rw [result] at ran
      exact ⟨fun _ => ran, fun overflows => absurd overflows fits⟩
    · rw [result] at ran
      refine ⟨fun fits => absurd overflows fits, fun _ => ⟨.numeric "/" fault, ?_, ran⟩⟩
      rcases which with rfl | rfl <;> rfl
  refine ⟨first, fun small zero => ?_, fun nonzero => ?_⟩
  · obtain ⟨before, zero, after, split, hz, nonzero⟩ := Number.exists_first_zero zero
    have smallBefore : ∀ d ∈ before, ¬ d.Huge := fun d hd =>
      small d (divisors_subset (split ▸ List.mem_append_left _ hd))
    have smallFirst : ¬ (dividend x xs).Huge := dividend_not_huge (small x List.mem_cons_self)
    have fits := Number.not_overflowsAlong smallFirst nonzero smallBefore
    exact (first before zero after split hz nonzero).1 fits
  · rcases quotient_of_nonzero nonzero with ⟨q, result⟩ | ⟨fault, which, result⟩
    · rw [result] at ran
      exact .inl ⟨q, ran⟩
    · rw [result] at ran
      refine .inr ⟨.numeric "/" fault, ?_, ran⟩
      rcases which with rfl | rfl | ⟨y, rfl⟩ <;> rfl

/-- The quotient of two integers overflows before the zero is met. A zero of a binary64 number that
comes first is reported, and where there is no zero there is a quotient. -/
theorem division_by_zero_reports_first :
    let outcome (x : Number) (xs : List Number) :=
      call 1 (.primitive (.made 3) ⟨"/", .divide, .atLeast 1⟩) ((x :: xs).map .number)
        (Machine.start 30)
    (∃ e : Error, e.kind = .numericOverflow ∧
      outcome (.int (10 ^ 400)) [.int 3, .int 0] = (.error (.error e), Machine.start 30)) ∧
    outcome (.int (10 ^ 400)) [.float (.zero true), .int 3] =
      (.error (.error (.numeric "/" .zeroDivisor)), Machine.start 30) ∧
    outcome (.int 7) [.int 0] = (.error (.error (.numeric "/" .zeroDivisor)), Machine.start 30) ∧
    ∃ q, outcome (.int 7) [.int 2] = (.ok (.number q), Machine.start 30) := by
  intro outcome
  have reports (x : Number) (xs : List Number) :=
    division_by_zero_reports 0 (.made 3) x xs (Machine.start 30)
  have nonzero (n : Int) (hn : n ≠ 0) : ∀ d ∈ [Number.int n], ¬ d.IsZero := by
    intro d hd
    rw [List.mem_singleton.mp hd]
    rintro (zero | ⟨negative, zero⟩)
    · exact hn (Number.int.inj zero)
    · cases zero
  have large : Binary64.overflow * (3 : Int).natAbs ≤ (10 ^ 400 : Int).natAbs := by decide +kernel
  have small : ∀ a ∈ [Number.int 7, Number.int 0], ¬ a.Huge := by
    have seven : ¬ Binary64.overflow ≤ (7 : Int).natAbs := by decide +kernel
    have none : ¬ Binary64.overflow ≤ (0 : Int).natAbs := by decide +kernel
    intro a ha
    rcases List.mem_pair.mp ha with rfl | rfl
    · exact seven
    · exact none
  refine ⟨?_, ?_, ?_, ?_⟩
  · obtain ⟨first, -, -⟩ := reports (.int (10 ^ 400)) [.int 3, .int 0]
    exact (first [.int 3] (.int 0) [] rfl (.inl rfl) (nonzero 3 (by decide))).2 (.inl large)
  · obtain ⟨first, -, -⟩ := reports (.int (10 ^ 400)) [.float (.zero true), .int 3]
    exact (first [] (.float (.zero true)) [.int 3] rfl (.inr ⟨true, rfl⟩) nofun).1 id
  · obtain ⟨-, each, -⟩ := reports (.int 7) [.int 0]
    exact each small ⟨.int 0, List.mem_cons_self, .inl rfl⟩
  · obtain ⟨-, -, none⟩ := reports (.int 7) [.int 2]
    have given : (outcome (.int 7) [.int 2]).1.isOk = true := by decide +kernel
    rcases none (nonzero 2 (by decide)) with quotient | ⟨e, -, failed⟩
    · exact quotient
    · change outcome (.int 7) [.int 2] = _ at failed
      rw [failed] at given
      cases given

end Primitive

end SmallScheme
