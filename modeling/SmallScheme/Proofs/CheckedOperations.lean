import SmallScheme.Proofs.Operands
import SmallScheme.Proofs.PartialOperations

/-!
Checks and operations. Where a routine has checked its arguments, the operations that it uses stay inside
their domain, but for overflows; and they give what the arithmetic of numbers gives. So the routine of an
arithmetic primitive ends as the primitive does, once the handler has turned overflows into errors.
-/

set_option autoImplicit false
set_option relaxedAutoImplicit false

namespace SmallScheme

namespace Bare

variable {α β γ δ φ : Type} {name : String} {room : Nat}

/-- Two computations end alike: with results that stand in a relation, or with failures that are the
same once the handler has seen the first one. -/
inductive Alike (name : String) (raise : φ → Raised) (R : α → β → Prop) :
    Except Raised α → Except φ β → Prop
  | ok {a : α} {b : β} : R a b → Alike name raise R (.ok a) (.ok b)
  | error {raised : Raised} {failure : φ} : handle name raised = raise failure →
      Alike name raise R (.error raised) (.error failure)

theorem Alike.bind {raise : φ → Raised} {R : α → β → Prop} {S : γ → δ → Prop}
    {x : Except Raised α} {y : Except φ β} {f : α → Except Raised γ} {g : β → Except φ δ}
    (h : Alike name raise R x y) (hf : ∀ a b, R a b → Alike name raise S (f a) (g b)) :
    Alike name raise S (x >>= f) (y >>= g) := by
  cases h with
  | ok related => exact hf _ _ related
  | error same => exact .error same

private theorem handle_of (failure : Failure) : handle name (.of failure) = .of failure := by
  cases failure <;> rfl

/-- A failure of the program is raised as it is. -/
theorem failing_alike (y : Except Failure α) : Alike name .of Eq (y.mapError Raised.of) y := by
  cases y with
  | ok a => exact .ok rfl
  | error failure => exact .error (handle_of failure)

section Checks

variable {R : α → β → Prop}

private theorem refuse_alike {message : String → String} {e : String → Error}
    (same : ∀ text, (e text).kind = .wrongType ∧ (e text).message = message text) (v : Value) :
    Alike name .of R (refuse room message v) (Primitive.complain room e v) := by
  unfold refuse Primitive.complain
  cases v.literal room with
  | error failure => exact .error (handle_of failure)
  | ok text =>
    refine .error ?_
    obtain ⟨kind, words⟩ := same text
    change Raised.error .wrongType (message text) = .error (e text).kind (e text).message
    rw [kind, words]

private theorem checkNumber_alike (callee : String) (v : Value) :
    Alike name .of (fun _ n => v = .number n) (checkNumbers room callee [v])
      (Primitive.number room callee v) := by
  cases v with
  | number n => exact .ok rfl
  | _ => exact refuse_alike (e := .notNumber callee) (fun _ => ⟨rfl, rfl⟩) _

private theorem checkNumbers_cons (callee : String) (v : Value) (vs : List Value) :
    checkNumbers room callee (v :: vs) =
      (do checkNumbers room callee [v]; checkNumbers room callee vs) := by
  by_cases number : v.isNumber = true
  · simp only [checkNumbers, number, if_true]
    rfl
  · simp only [checkNumbers, if_neg number, refuse]
    cases v.literal room <;> rfl

private theorem checkNumbers_alike (callee : String) (args : List Value) :
    Alike name .of (fun _ ns => args = ns.map .number) (checkNumbers room callee args)
      (Primitive.numbers room callee args) := by
  induction args with
  | nil => exact .ok rfl
  | cons v args ih =>
    rw [checkNumbers_cons, Primitive.numbers, List.mapM_cons]
    refine (checkNumber_alike callee v).bind fun _ n first => ?_
    rw [← bind_pure (checkNumbers room callee args)]
    refine ih.bind fun _ ns others => .ok ?_
    rw [first, others, List.map_cons]

theorem checkList_alike (callee : String) (v : Value) :
    Alike name .of Eq (checkList room callee v) (Primitive.items room callee v) := by
  cases v with
  | list i items => exact .ok rfl
  | _ => exact refuse_alike (e := .notList callee) (fun _ => ⟨rfl, rfl⟩) _

theorem checkProcedure_alike (callee : String) (v : Value) :
    Alike name .of (fun _ _ => v.isProcedure = true) (checkProcedure room callee v)
      (Primitive.procedure room callee v) := by
  unfold checkProcedure Primitive.procedure
  split
  · rename_i procedure
    exact .ok procedure
  · exact refuse_alike (e := .notProcedure callee) (fun _ => ⟨rfl, rfl⟩) v

theorem mapM_alike {f : α → Except Raised γ} {g : α → Except Failure δ} {S : γ → δ → Prop}
    (each : ∀ a, Alike name .of S (f a) (g a)) (xs : List α) :
    Alike name .of (List.Forall₂ S) (xs.mapM f) (xs.mapM g) := by
  induction xs with
  | nil => exact .ok .nil
  | cons x xs ih =>
    rw [List.mapM_cons, List.mapM_cons]
    exact (each x).bind fun _ _ first => ih.bind fun _ _ others => .ok (.cons first others)

end Checks

/-- The error that the handler makes of a fault, or a check raises, for a fault of arithmetic. -/
def arithmetic (name : String) (fault : NumericFault) : Raised :=
  .of (.error (.numeric name fault))

private theorem handle_overflow {fault : NumericFault} {text : String}
    (kind : (Error.numeric name fault).kind = .numericOverflow)
    (message : Error.numericMessage name fault = name ++ (": " ++ text)) :
    handle name (.fault (.overflow text)) = arithmetic name fault := by
  change Raised.error .numericOverflow (name ++ ": " ++ text) =
    .error (Error.numeric name fault).kind (Error.numericMessage name fault)
  rw [kind, message, String.append_assoc]

section Operations

def IsNumber (v : Value) (n : Number) : Prop :=
  v = .number n

private theorem bare_bind (x : Except Fault α) (f : α → Except Fault β) :
    bare (x >>= f) = bare x >>= fun a => bare (f a) := by
  cases x <;> rfl

private theorem bare_foldlM (f : α → β → Except Fault α) (a : α) (xs : List β) :
    bare (xs.foldlM f a) = xs.foldlM (fun a x => bare (f a x)) a := by
  induction xs generalizing a with
  | nil => rfl
  | cons x xs ih =>
    rw [List.foldlM_cons, List.foldlM_cons, bare_bind]
    congr 1
    funext a
    exact ih a

private theorem foldlM_alike {f : Value → Value → Except Raised Value}
    {g : Number → Number → Except NumericFault Number}
    (each : ∀ a b, Alike name (arithmetic name) IsNumber (f (.number a) (.number b)) (g a b))
    (a : Number) (ns : List Number) :
    Alike name (arithmetic name) IsNumber ((ns.map .number).foldlM f (.number a)) (ns.foldlM g a) := by
  induction ns generalizing a with
  | nil => exact .ok rfl
  | cons n ns ih =>
    rw [List.map_cons, List.foldlM_cons, List.foldlM_cons]
    refine (each a n).bind fun v b result => ?_
    rw [result]
    exact ih b

private theorem operand_alike (a : Number) :
    Alike name (arithmetic name) (fun x y => x = y ∧ a.operand = .ok y)
      (bare (operand (.number a))) a.operand := by
  cases a with
  | float x => exact .ok ⟨rfl, rfl⟩
  | int n =>
    simp only [operand, toFloat, Number.operand]
    split
    · exact .ok ⟨rfl, rfl⟩
    · exact .error (handle_overflow rfl rfl)

private theorem operands_alike {R : α → β → Prop}
    {f : Binary64 → Binary64 → Except Raised α} {g : Binary64 → Binary64 → Except NumericFault β}
    {a b : Number} (each : ∀ x y, a.operand = .ok x → b.operand = .ok y →
      Alike name (arithmetic name) R (f x y) (g x y)) :
    Alike name (arithmetic name) R
      (do f (← bare (operand (.number a))) (← bare (operand (.number b))))
      (do g (← a.operand) (← b.operand)) := by
  refine (operand_alike a).bind fun x _ ⟨same, first⟩ => ?_
  subst same
  refine (operand_alike b).bind fun y _ ⟨same, second⟩ => ?_
  subst same
  exact each x y first second

theorem mixed_alike (onInts : Int → Int → Int) (onFloats : Binary64 → Binary64 → Binary64)
    (a b : Number) :
    Alike name (arithmetic name) IsNumber (bare (mixed onInts onFloats (.number a) (.number b)))
      (Number.mixed onInts onFloats a b) := by
  have rounded : Alike name (arithmetic name) IsNumber
      (bare (do
        let x ← operand (.number a)
        let y ← operand (.number b)
        return .number (.float (onFloats x y))))
      (do
        let x ← a.operand
        let y ← b.operand
        return .float (onFloats x y)) := by
    simp only [bare_bind]
    exact operands_alike fun x y _ _ => .ok rfl
  cases a with
  | float x => exact rounded
  | int m =>
    cases b with
    | float y => exact rounded
    | int n => exact .ok rfl

private theorem intQuotient_alike {m n : Int} (hn : n ≠ 0) :
    Alike name (arithmetic name) IsNumber (bare (intQuotient m n)) (Number.intQuotient m n) := by
  simp only [intQuotient, Number.intQuotient, if_neg hn]
  split
  · exact .ok rfl
  · exact .error (handle_overflow rfl rfl)

private theorem divideBy_alike (a b : Number) :
    Alike name (arithmetic name) IsNumber (divideBy (.number a) (.number b)) (a.div b) := by
  unfold divideBy checkDivisor equalsZero Number.div
  dsimp only
  by_cases zero : b.isZero = true
  · rw [if_pos zero, if_pos zero]
    exact .error rfl
  rw [if_neg zero, if_neg zero]
  have rounded : Alike name (arithmetic name) IsNumber
      (bare (do floatQuotient (← operand (.number a)) (← operand (.number b))))
      (do
        let x ← a.operand
        let y ← b.operand
        return .float (x.div y)) := by
    simp only [bare_bind]
    refine operands_alike fun x y _ divisor => ?_
    have nonzero : ¬ y.compare? (.zero false) = some .eq := by
      intro compared
      obtain ⟨negative, rfl⟩ := Binary64.compare?_zero_eq_iff.mp compared
      exact zero (Number.isZero_of_operand divisor)
    rw [floatQuotient, if_neg nonzero]
    exact .ok rfl
  cases a with
  | float x => exact rounded
  | int m =>
    cases b with
    | float y => exact rounded
    | int n =>
      refine intQuotient_alike ?_
      rintro rfl
      exact zero (Number.isZero_iff.mpr (.inl rfl))

private theorem checkFinite_alike (n : Number) :
    Alike name (arithmetic name) (fun q n => q = .value (.number n))
      (checkFinite name (.value (.number n))) n.finite := by
  cases n with
  | int n => exact .ok rfl
  | float x =>
    simp only [checkFinite, Number.finite]
    split
    · exact .ok rfl
    · exact .error rfl

private theorem exists_numberText {a : Number} {x : Binary64} (h : a.operand = .ok x) :
    ∃ text, a.text? = some text ∧ numberText (.number a) = .ok text := by
  obtain ⟨text, written⟩ := Number.exists_text h
  refine ⟨text, written, ?_⟩
  simp only [numberText, Number.text, written]
  rfl

private theorem floatPower_error {x y : Binary64} {fault : NumericFault}
    (h : Number.floatPower x y = .error fault) :
    fault = .powerRange ∨ fault = .complexRange ∨ ∃ a b, fault = .notReal a b := by
  unfold Number.floatPower Number.finitePower at h
  dsimp only at h
  split at h
  · cases h
  split at h
  all_goals try cases h
  · split at h <;> cases h
  · split at h <;> cases h
  · split at h
    · cases h
    · split at h
      · split at h
        · cases h
          exact .inr (.inr ⟨_, _, rfl⟩)
        · cases h
          exact .inr (.inl rfl)
      · split at h
        · cases h
        · split at h
          · cases h
          · cases h
            exact .inl rfl

/-- What a power comes to when its operands have been rounded, by the power of the rounded ones. -/
inductive Powered (a b : Number) : Except NumericFault Binary64 → Except NumericFault Number → Prop
  | real (z : Binary64) : Powered a b (.ok z) (.ok (.float z))
  | complex (x y : Number) : Powered a b (.error (.notReal x y)) (.error (.notReal a b))
  | range {fault : NumericFault} : fault = .powerRange ∨ fault = .complexRange →
      Powered a b (.error fault) (.error fault)

private theorem power_of_operands {a b : Number} (unchecked : ¬ (a.isZero && b.lt (.int 0)) = true)
    (inexact : ∀ m n, a = .int m → b ≠ .int (.ofNat n)) :
    ∃ g : Binary64 → Binary64 → Except NumericFault Number,
      a.power b = (do g (← a.operand) (← b.operand)) ∧
      ∀ x y, Powered a b (Number.floatPower x y) (g x y) := by
  unfold Number.power
  rw [if_neg unchecked]
  split
  · exact absurd rfl (inexact _ _ rfl)
  refine ⟨_, rfl, fun x y => ?_⟩
  cases result : Number.floatPower x y with
  | ok z => exact .real z
  | error fault =>
    rcases floatPower_error result with rfl | rfl | ⟨u, v, rfl⟩
    · exact .range (.inl rfl)
    · exact .range (.inr rfl)
    · exact .complex u v

private theorem power_operands {a b : Number} (inexact : ∀ m n, a = .int m → b ≠ .int (.ofNat n)) :
    power (.number a) (.number b) =
      (do floatPower (← operand (.number a)) (← operand (.number b))) := by
  unfold power
  split
  · rename_i m n first second
    exact absurd (Value.number.inj second) (inexact m n (Value.number.inj first))
  · rfl

private theorem checkReal_complex {a b : Number} {x y : Binary64} (first : a.operand = .ok x)
    (second : b.operand = .ok y) :
    checkReal name (.number a) (.number b) .complex =
      .error (.error .wrongType (Error.numericMessage name (.notReal a b))) := by
  obtain ⟨base, hbase, baseText⟩ := exists_numberText first
  obtain ⟨exponent, hexponent, exponentText⟩ := exists_numberText second
  have message : Error.numericMessage name (.notReal a b) =
      s!"{name} of {base} to {exponent} is not a real number" := by
    rw [Error.numericMessage, hbase, hexponent, Option.getD_some, Option.getD_some]
  rw [checkReal, baseText, exponentText, message]
  rfl

/-- A zero base is checked, so there is a power, which may be complex, or an overflow. -/
theorem power_alike {a b : Number} (checked : (a.isZero && b.lt (.int 0)) = false) :
    Alike name (arithmetic name) (fun q n => q = .value (.number n))
      (do checkReal name (.number a) (.number b) (← bare (power (.number a) (.number b))))
      (a.power b >>= Number.finite) := by
  have unchecked : ¬ (a.isZero && b.lt (.int 0)) = true := by
    rw [checked]
    exact Bool.false_ne_true
  by_cases exact : ∃ m n, a = .int m ∧ b = .int (.ofNat n)
  · obtain ⟨m, n, rfl, rfl⟩ := exact
    simp only [Number.power, if_neg unchecked]
    exact .ok rfl
  have inexact (m : Int) (n : Nat) (first : a = .int m) : b ≠ .int (.ofNat n) :=
    fun second => exact ⟨m, n, first, second⟩
  obtain ⟨g, rounded, powered⟩ := power_of_operands unchecked inexact
  rw [rounded, power_operands inexact]
  simp only [bare_bind, bind_assoc]
  refine operands_alike fun x y first second => ?_
  have domain : ¬ (y.isFinite ∧ x.compare? (.zero false) = some .eq ∧
      y.compare? (.zero false) = some .lt) := by
    rintro ⟨-, zero, negative⟩
    obtain ⟨sign, rfl⟩ := Binary64.compare?_zero_eq_iff.mp zero
    rw [Number.isZero_of_operand first, Number.lt_zero_of_operand second negative] at checked
    cases checked
  rw [floatPower, if_neg domain]
  have outcome := powered x y
  generalize Number.floatPower x y = result at outcome ⊢
  generalize g x y = result' at outcome ⊢
  cases outcome with
  | real z => exact checkFinite_alike (.float z)
  | complex =>
    change Alike name (arithmetic name) _ (checkReal name (.number a) (.number b) .complex)
      (.error (.notReal a b))
    rw [checkReal_complex first second]
    exact .error rfl
  | range which => rcases which with rfl | rfl <;> exact .error (handle_overflow rfl rfl)

private theorem nearest_toFloat {x : Binary64} (h : x.isFinite = true) :
    (do toFloat (← nearest (.number (.float x)))) = .ok x.round := by
  cases x with
  | nan => cases h
  | infinite negative => cases h
  | finite negative code =>
    have finite := Binary64.isFinite_round h
    exact if_pos finite

private theorem best_numbers (r : Number → Number → Bool) (x : Number) (xs : List Number) :
    best (related r) ((x :: xs).map .number) =
      .ok (.number (xs.foldl (fun best y => if r y best then y else best) x)) := by
  rw [List.map_cons, best]
  induction xs generalizing x with
  | nil => rfl
  | cons y ys ih =>
    have chosen : (do return if ← related r (.number y) (.number x) then .number y else .number x) =
        (.ok (.number (if r y x then y else x)) : Except Fault Value) := by
      change Except.ok (if r y x = true then Value.number y else Value.number x) = _
      split <;> rfl
    rw [List.map_cons, List.foldlM_cons, List.foldl_cons, chosen]
    exact ih _

private theorem chain_numbers (r : Number → Number → Bool) (ns : List Number) :
    ((ns.map Value.number).zip (ns.map Value.number).tail).allM
      (fun pair => related r pair.1 pair.2) = .ok (Primitive.chain r ns) := by
  rw [Primitive.chain, ← List.map_tail, List.zip_map]
  induction ns.zip ns.tail with
  | nil => rfl
  | cons pair pairs ih =>
    rw [List.map_cons, List.allM_cons, List.all_cons, ih]
    change (if r pair.1 pair.2 = true then Except.ok (pairs.all fun pair => r pair.1 pair.2)
      else Except.ok false) = _
    cases r pair.1 pair.2 <;> rfl

end Operations

section Routines

def IsValue (q : Quantity) (v : Value) : Prop :=
  q = .value v

private theorem numeric_alike {x : Except Raised Quantity} {y : Except NumericFault Number}
    (h : Alike name (arithmetic name) (fun q n => q = .value (.number n)) x y) :
    Alike name .of IsValue x (Primitive.numeric name y) := by
  cases h with
  | ok same => exact .ok same
  | error same => exact .error same

theorem total_alike {op : Value → Value → Except Fault Value}
    {g : Number → Number → Except NumericFault Number}
    (each : ∀ a b, Alike name (arithmetic name) IsNumber (bare (op (.number a) (.number b))) (g a b))
    (start : Int) (args : List Value) :
    Alike name .of IsValue (total room name op start args)
      (do Primitive.numeric name ((← Primitive.numbers room name args).foldlM g (.int start) >>=
        Number.finite)) := by
  refine (checkNumbers_alike name args).bind fun _ ns given => numeric_alike ?_
  rw [given, bare_foldlM]
  refine (foldlM_alike each (.int start) ns).bind fun v n result => ?_
  rw [result]
  exact checkFinite_alike n

private theorem checkFirst_alike {R : α → β → Prop} {x : Value} {xs : List Value}
    {f : Except Raised α} {g : Number → List Number → Except Failure β}
    (each : ∀ n ns, x = .number n → xs = ns.map .number → Alike name .of R f (g n ns)) :
    Alike name .of R (do checkNumbers room name (x :: xs); f)
      (do
        let n ← Primitive.number room name x
        g n (← Primitive.numbers room name xs)) := by
  rw [checkNumbers_cons, bind_assoc]
  refine (checkNumber_alike name x).bind fun _ n first => ?_
  exact (checkNumbers_alike name xs).bind fun _ ns others => each n ns first others

theorem difference_alike (x : Value) (xs : List Value) :
    Alike name .of IsValue (difference room name (x :: xs))
      (do
        let n ← Primitive.number room name x
        Primitive.numeric name (Primitive.difference n (← Primitive.numbers room name xs))) := by
  refine checkFirst_alike fun n ns first others => numeric_alike ?_
  rw [first, others]
  cases ns with
  | nil => exact .ok rfl
  | cons k ks =>
    change Alike name _ _
      (do checkFinite name (.value (← bare (((k :: ks).map Value.number).foldlM
        (mixed (· - ·) Binary64.sub) (.number n)))))
      ((k :: ks).foldlM Number.sub n >>= Number.finite)
    rw [bare_foldlM]
    refine (foldlM_alike (mixed_alike _ _) n (k :: ks)).bind fun v n result => ?_
    rw [result]
    exact checkFinite_alike n

theorem quotient_alike (x : Value) (xs : List Value) :
    Alike name .of IsValue (quotient room name (x :: xs))
      (do
        let n ← Primitive.number room name x
        Primitive.numeric name (Primitive.quotient n (← Primitive.numbers room name xs))) := by
  refine checkFirst_alike fun n ns first others => numeric_alike ?_
  rw [first, others]
  cases ns with
  | nil =>
    refine (divideBy_alike (.int 1) n).bind fun v n result => ?_
    rw [result]
    exact checkFinite_alike n
  | cons k ks =>
    refine (foldlM_alike divideBy_alike n (k :: ks)).bind fun v n result => ?_
    rw [result]
    exact checkFinite_alike n

theorem magnitude_alike (x : Value) :
    Alike name .of IsValue (magnitude room name x)
      (do return Value.number (← Primitive.number room name x).abs) := by
  refine (checkNumber_alike name x).bind fun _ n given => ?_
  rw [given]
  exact .ok rfl

theorem chosen_alike (r : Number → Number → Bool) (x : Value) (xs : List Value) :
    Alike name .of IsValue (chosen room name r (x :: xs))
      (do
        let n ← Primitive.number room name x
        return Value.number ((← Primitive.numbers room name xs).foldl
          (fun best y => if r y best then y else best) n)) := by
  refine checkFirst_alike fun n ns first others => ?_
  have all : x :: xs = (n :: ns).map Value.number := by rw [first, others, List.map_cons]
  rw [all, best_numbers]
  exact .ok rfl

theorem raised_alike (x y : Value) :
    Alike name .of IsValue (raised room name x y)
      (do
        let base ← Primitive.number room name x
        Primitive.numeric name (Primitive.power base (← Primitive.number room name y))) := by
  rw [raised, checkNumbers_cons, bind_assoc]
  refine (checkNumber_alike name x).bind fun _ a first => ?_
  refine (checkNumber_alike name y).bind fun _ b second => numeric_alike ?_
  rw [first, second]
  have zero : checkBase (.number a) (.number b) =
      if a.isZero && b.lt (.int 0) then
        .error (.error .divisionByZero "zero raised to a negative power") else .ok () := by
    change (if a.isZero = true then (if b.lt (.int 0) = true then _ else _) else _) = _
    cases a.isZero <;> cases b.lt (.int 0) <;> rfl
  rw [zero]
  by_cases checked : (a.isZero && b.lt (.int 0)) = true
  · rw [if_pos checked]
    have none : a.power b = .error .zeroToNegativePower := by
      unfold Number.power
      exact if_pos checked
    rw [Primitive.power, none]
    exact .error rfl
  · rw [if_neg checked]
    exact power_alike (Bool.eq_false_iff.mpr checked)

theorem rounded_alike (x : Value) :
    Alike name .of IsValue (rounded room name x)
      (do Primitive.numeric name (← Primitive.number room name x).round) := by
  refine (checkNumber_alike name x).bind fun _ n given => numeric_alike ?_
  rw [given]
  cases n with
  | int n => exact .ok rfl
  | float x =>
    by_cases finite : x.isFinite = true
    · have checked : checkFinite name (.value (.number (.float x))) =
          .ok (.value (.number (.float x))) := if_pos finite
      have kept : (Number.float x).finite = .ok (.float x) := if_pos finite
      rw [checked, Number.round, kept]
      change Alike name _ _
        (do
          let y ← bare (do toFloat (← nearest (.number (.float x))))
          return Quantity.value (.number (.float y)))
        (Except.ok (Number.float x.round))
      rw [nearest_toFloat finite]
      exact .ok rfl
    · have checked : checkFinite name (.value (.number (.float x))) =
          .error (.error .numericOverflow s!"{name} produced {x.text}") := if_neg finite
      have refused : (Number.float x).finite = .error (.notFinite x) := if_neg finite
      rw [checked, Number.round, refused]
      exact .error rfl

theorem chained_alike (r : Number → Number → Bool) (args : List Value) :
    Alike name .of IsValue (chained room name r args) (Primitive.compared room name r args) := by
  refine (checkNumbers_alike name args).bind fun _ ns given => ?_
  rw [given, chain_numbers]
  exact .ok rfl

end Routines

end Bare

end SmallScheme
