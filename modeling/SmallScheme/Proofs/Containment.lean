import SmallScheme.Proofs.CheckedOperations
import SmallScheme.Proofs.Recovery

/-!
No fault of a partial operation leaves a primitive. The routine of a primitive over partial operations
does what the primitive does, on every machine: it gives the same value or raises the same failure, and
leaves the same machine. Its own failures are few, and whatever else it raises was raised by a procedure
that it called.
-/

set_option autoImplicit false
set_option relaxedAutoImplicit false

namespace SmallScheme

namespace Bare

variable {α β γ δ : Type} {name : String} {room : Nat}

/-- From the same machine two computations end alike, and they leave the same machine. -/
def Simulates (name : String) (R : α → β → Prop) (x : Routine α) (y : Action β) : Prop :=
  ∀ m, Alike name .of R (x m).1 (y m).1 ∧ (x m).2 = (y m).2

namespace Simulates

variable {R : α → β → Prop} {S : γ → δ → Prop}

private theorem lift {x : Except Raised α} {y : Except Failure β} (h : Alike name .of R x y) :
    Simulates name R (.lift x) (.lift y) :=
  fun _ => ⟨h, rfl⟩

private theorem pure {a : α} {b : β} (h : R a b) : Simulates name R (pure a) (pure b) :=
  fun _ => ⟨.ok h, rfl⟩

private theorem ofAction (y : Action α) : Simulates name Eq (.ofAction y) y :=
  fun m => ⟨failing_alike (y m).1, rfl⟩

private theorem bind {x : Routine α} {y : Action β} {f : α → Routine γ} {g : β → Action δ}
    (h : Simulates name R x y) (hf : ∀ a b, R a b → Simulates name S (f a) (g b)) :
    Simulates name S (x >>= f) (y >>= g) := by
  intro m
  have first := h m
  rw [Action.bind_apply, Routine.bind_apply]
  generalize x m = r at first ⊢
  generalize y m = r' at first ⊢
  obtain ⟨result, n⟩ := r
  obtain ⟨result', n'⟩ := r'
  obtain ⟨alike, same⟩ := first
  cases same
  cases alike with
  | ok related => exact hf _ _ related n
  | error same => exact ⟨.error same, rfl⟩

private theorem mapM {f : α → Routine γ} {g : α → Action γ}
    (each : ∀ a, Simulates name Eq (f a) (g a))
    (xs : List α) : Simulates name Eq (xs.mapM f) (xs.mapM g) := by
  induction xs with
  | nil => exact pure rfl
  | cons x xs ih =>
    rw [List.mapM_cons, List.mapM_cons]
    refine (each x).bind fun b _ first => ?_
    subst first
    refine ih.bind fun bs _ others => ?_
    subst others
    exact pure rfl

private theorem map {x : Routine α} {y : Action β} {f : α → γ} {T : γ → β → Prop}
    (h : Simulates name R x y) (hf : ∀ a b, R a b → T (f a) b) :
    Simulates name T (do return f (← x)) y := by
  rw [← bind_pure y]
  exact h.bind fun a b related => pure (hf a b related)

private theorem fresh (items : List Value) :
    Simulates name IsValue (fresh items) (Action.newList items) :=
  (ofAction (Action.newList items)).map fun _ _ same => congrArg Quantity.value same

private theorem invoke {call : Value → List Value → Action Value} {f : Value}
    (h : f.isProcedure = true) (given : List Value) :
    Simulates name Eq (invoke (fun f given => .ofAction (call f given)) f given) (call f given) := by
  rw [Bare.invoke, if_pos h]
  exact ofAction (call f given)

end Simulates

section Primitives

variable {call : Value → List Value → Action Value}

private theorem checkNonempty_simulates {f : List Value → Routine Quantity}
    {g : Value → List Value → Action Value} (v : Value)
    (each : ∀ x xs, Simulates name IsValue (f (x :: xs)) (g x xs)) :
    Simulates name IsValue (do f (← .lift (checkNonempty room name v))) (do
      match ← .lift (Primitive.items room name v) with
      | [] => .raise (.emptyList name)
      | x :: xs => g x xs) := by
  have split : (do f (← .lift (checkNonempty room name v))) = (do
      let items ← Routine.lift (checkList room name v)
      f (← .lift (if items.isEmpty then
        .error (.error .emptyListAccess s!"{name} of empty list") else .ok items))) := by
    funext m
    rw [Routine.bind_apply, Routine.bind_apply]
    unfold checkNonempty
    cases checkList room name v with
    | error raised => rfl
    | ok items => cases items <;> rfl
  rw [split]
  refine (Simulates.lift (checkList_alike name v)).bind fun items _ same => ?_
  subst same
  cases items with
  | nil => exact fun _ => ⟨.error rfl, rfl⟩
  | cons x xs => exact each x xs

private theorem applied_simulates (f a : Value) :
    Simulates name IsValue (applied room name (fun f given => .ofAction (call f given)) f a) (do
      .lift (Primitive.procedure room name f)
      call f (← .lift (Primitive.items room name a))) := by
  refine (Simulates.lift (checkProcedure_alike name f)).bind fun _ _ procedure => ?_
  refine (Simulates.lift (checkList_alike name a)).bind fun items _ same => ?_
  subst same
  exact (Simulates.invoke procedure items).map fun _ _ same => congrArg Quantity.value same

private theorem mapped_simulates (f : Value) (rows : List Value) :
    Simulates name IsValue (mapped room name (fun f given => .ofAction (call f given)) f rows)
      (Primitive.mapped room name call f rows) := by
  refine (Simulates.lift (checkProcedure_alike name f)).bind fun _ _ procedure => ?_
  refine (Simulates.lift (mapM_alike (checkList_alike name) rows)).bind fun tables _ same => ?_
  rw [List.forall₂_eq_eq_eq] at same
  subst same
  cases tables with
  | nil => exact .fresh []
  | cons first others =>
    dsimp only
    split
    · refine (Simulates.mapM (fun given => .invoke procedure given) _).bind fun items _ same => ?_
      subst same
      exact .fresh items
    · exact fun _ => ⟨.error rfl, rfl⟩

/-- On as many arguments as it takes, the routine of a primitive does what the primitive does. -/
theorem routine_simulates (operation : Operation) (hop : operation ≠ .interrupt) (arity' : Arity)
    {args : List Value} (accepted : operation.takes.accepts args.length = true) :
    Simulates name IsValue
      (routine room name (fun f given => .ofAction (call f given)) operation args)
      (Primitive.run room call ⟨name, operation, arity'⟩ args) := by
  have one := Operation.exists_singleton_of_accepts accepted
  have two := Operation.exists_pair_of_accepts accepted
  have some := Operation.exists_cons_of_accepts accepted
  cases operation with
  | interrupt => exact absurd rfl hop
  | add => exact .lift (total_alike (mixed_alike _ _) 0 args)
  | multiply => exact .lift (total_alike (mixed_alike _ _) 1 args)
  | greater | less | atLeast | atMost | equalNumbers => exact .lift (chained_alike _ args)
  | subtract =>
    obtain ⟨x, xs, rfl⟩ := some rfl
    exact .lift (difference_alike x xs)
  | divide =>
    obtain ⟨x, xs, rfl⟩ := some rfl
    exact .lift (quotient_alike x xs)
  | max | min =>
    obtain ⟨x, xs, rfl⟩ := some rfl
    exact .lift (chosen_alike _ x xs)
  | abs =>
    obtain ⟨x, rfl⟩ := one rfl
    exact .lift (magnitude_alike x)
  | expt =>
    obtain ⟨x, y, rfl⟩ := two rfl
    exact .lift (raised_alike x y)
  | round =>
    obtain ⟨x, rfl⟩ := one rfl
    exact .lift (rounded_alike x)
  | isEqual =>
    obtain ⟨x, y, rfl⟩ := two rfl
    refine .lift ((failing_alike (x.equal room y)).bind fun b _ same => ?_)
    subst same
    exact .ok rfl
  | isSame =>
    obtain ⟨x, y, rfl⟩ := two rfl
    exact .pure rfl
  | not | isList | isNull | isSymbol | isNumber | isProcedure =>
    obtain ⟨x, rfl⟩ := one rfl
    exact .pure rfl
  | cons =>
    obtain ⟨x, y, rfl⟩ := two rfl
    refine (Simulates.lift (checkList_alike name y)).bind fun items _ same => ?_
    subst same
    exact .fresh (x :: items)
  | car =>
    obtain ⟨x, rfl⟩ := one rfl
    exact checkNonempty_simulates x fun _ _ => .pure rfl
  | cdr =>
    obtain ⟨x, rfl⟩ := one rfl
    exact checkNonempty_simulates x fun _ rest => .fresh rest
  | append =>
    refine (Simulates.lift (mapM_alike (checkList_alike name) args)).bind fun tables _ same => ?_
    rw [List.forall₂_eq_eq_eq] at same
    subst same
    exact .fresh tables.flatten
  | list => exact .fresh args
  | length =>
    obtain ⟨x, rfl⟩ := one rfl
    refine .lift ((checkList_alike name x).bind fun items _ same => ?_)
    subst same
    exact .ok rfl
  | apply =>
    obtain ⟨x, y, rfl⟩ := two rfl
    exact applied_simulates x y
  | map =>
    obtain ⟨f, row, rows, rfl⟩ := Operation.exists_cons_cons_of_accepts accepted rfl
    exact mapped_simulates f (row :: rows)

end Primitives

/-- How the call of a primitive ends: with a value, with an error of its own, because an argument has no
text that an error could show, or because nothing may nest any deeper. What a called procedure raises
ends only the primitives that call. -/
inductive Ends (room : Nat) (call : Value → List Value → Routine Value) (p : Primitive)
    (args : List Value) : Except Raised Quantity → Prop
  | value (v : Value) : Ends room call p args (.ok (.value v))
  | error {kind : Error.Kind} {message : String} :
      kind ∈ [.arityMismatch, .wrongType, .divisionByZero, .emptyListAccess, .numericOverflow] →
      Ends room call p args (.error (.error kind message))
  | unwritten {v : Value} : v ∈ args → v.literal room = .error (.digitLimit none) →
      Ends room call p args (.error (.failure (.digitLimit none)))
  | depthExhausted : Ends room call p args (.error (.failure .depthExhausted))
  | called {f : Value} {rest given : List Value} {m n : Machine} {raised : Raised} :
      p.operation = .apply ∨ p.operation = .map → args = f :: rest →
      call f given m = (.error raised, n) → Ends room call p args (.error (handle p.name raised))

section Ends

variable {call : Value → List Value → Routine Value} {p : Primitive} {args : List Value}

/-- A failure that a primitive may end with, whatever it calls. -/
def Refused (room : Nat) (call : Value → List Value → Routine Value) (p : Primitive)
    (args : List Value) (failure : Failure) : Prop :=
  Ends room call p args (.error (.of failure))

private theorem refuses : Failure.Refuses (Refused room call p args) where
  error := by
    intro e own
    refine .error ?_
    cases kind : e.kind <;> rw [kind] at own <;> simp [Error.Kind.family] at own ⊢
  depthExhausted := .depthExhausted

private theorem literal_refused {v : Value} (hv : v ∈ args) :
    FailsWith (Refused room call p args) (v.literal room) := by
  intro failure unwritten
  cases FailsWith.writing .literal room v failure unwritten with
  | digitLimit => exact .unwritten hv unwritten
  | depthExhausted => exact .depthExhausted

/-- From any machine the routine ends in one of these ways, once the handler has seen it. -/
def Contained (room : Nat) (call : Value → List Value → Routine Value) (p : Primitive)
    (args : List Value) (x : Routine Quantity) : Prop :=
  ∀ m, Ends room call p args ((x m).1.mapError (handle p.name))

namespace Contained

private theorem of_simulates {x : Routine Quantity} {y : Action Value}
    (h : Simulates p.name IsValue x y) (fails : ∀ m, FailsWith (Refused room call p args) (y m).1) :
    Contained room call p args x := by
  intro m
  have alike := (h m).1
  have refused := fails m
  generalize (x m).1 = result at alike ⊢
  generalize (y m).1 = result' at alike refused
  cases alike with
  | ok same =>
    rw [same]
    exact .value _
  | error same =>
    have ends := refused _ rfl
    rw [Refused, ← same] at ends
    exact ends

private theorem check {R : α → β → Prop} {x : Except Raised α} {y : Except Failure β}
    {f : α → Routine Quantity} (alike : Alike p.name .of R x y)
    (fails : FailsWith (Refused room call p args) y)
    (hf : ∀ a b, R a b → Contained room call p args (f a)) :
    Contained room call p args (.lift x >>= f) := by
  intro m
  rw [Routine.bind_apply]
  cases alike with
  | ok related => exact hf _ _ related m
  | error same =>
    have ends := fails _ rfl
    rw [Refused, ← same] at ends
    exact ends

private theorem fresh (items : List Value) : Contained room call p args (fresh items) :=
  fun _ => .value _

private theorem bind_call {f : Value} {rest : List Value} {k : Value → Routine Quantity}
    (calls : p.operation = .apply ∨ p.operation = .map) (first : args = f :: rest)
    (procedure : f.isProcedure = true) (given : List Value)
    (hk : ∀ v, Contained room call p args (k v)) :
    Contained room call p args (invoke call f given >>= k) := by
  intro m
  rw [invoke, if_pos procedure, Routine.bind_apply]
  rcases result : call f given m with ⟨raised | v, n⟩
  · exact .called calls first result
  · exact hk v n

private theorem bind_calls {f : Value} {rest : List Value} {k : List Value → Routine Quantity}
    (calls : p.operation = .apply ∨ p.operation = .map) (first : args = f :: rest)
    (procedure : f.isProcedure = true) (columns : List (List Value))
    (hk : ∀ vs, Contained room call p args (k vs)) :
    Contained room call p args (columns.mapM (invoke call f) >>= k) := by
  induction columns generalizing k with
  | nil => exact hk []
  | cons given columns ih =>
    simp only [List.mapM_cons, bind_assoc, pure_bind]
    exact bind_call calls first procedure given fun v => ih fun vs => hk (v :: vs)

end Contained

private theorem applied_contained {f a : Value} (hp : p.operation = .apply) :
    Contained room call p [f, a] (applied room p.name call f a) := by
  have first : FailsWith (Refused room call p [f, a]) (f.literal room) :=
    literal_refused List.mem_cons_self
  have second : FailsWith (Refused room call p [f, a]) (a.literal room) :=
    literal_refused (List.mem_cons_of_mem f List.mem_cons_self)
  refine .check (checkProcedure_alike p.name f) (.procedure refuses p.name first) fun _ _ hf => ?_
  refine .check (checkList_alike p.name a) (.items refuses p.name second) fun given _ _ => ?_
  exact .bind_call (.inl hp) rfl hf given fun v _ => .value v

private theorem mapped_contained {f : Value} {rows : List Value} (hp : p.operation = .map) :
    Contained room call p (f :: rows) (mapped room p.name call f rows) := by
  have text {v : Value} (hv : v ∈ f :: rows) :
      FailsWith (Refused room call p (f :: rows)) (v.literal room) := literal_refused hv
  have tables : FailsWith (Refused room call p (f :: rows))
      (rows.mapM (Primitive.items room p.name)) :=
    .mapM fun v hv => .items refuses p.name (text (List.mem_cons_of_mem f hv))
  refine .check (checkProcedure_alike p.name f) (.procedure refuses p.name (text List.mem_cons_self))
    fun _ _ hf => ?_
  refine .check (mapM_alike (checkList_alike p.name) rows) tables fun tables _ _ => ?_
  cases tables with
  | nil => exact .fresh []
  | cons first others =>
    dsimp only
    split
    · exact .bind_calls (.inr hp) rfl hf _ .fresh
    · exact fun _ => .error (by simp)

private theorem routine_of_native {operation : Operation} (ha : operation ≠ .apply)
    (hm : operation ≠ .map) (call call' : Value → List Value → Routine Value) :
    routine room name call operation args = routine room name call' operation args := by
  cases operation with
  | apply => exact absurd rfl ha
  | map => exact absurd rfl hm
  | _ => rcases args with _ | ⟨_, _ | ⟨_, _ | ⟨_, _⟩⟩⟩ <;> rfl

private theorem routine_contained (hop : p.operation ≠ .interrupt)
    (accepted : p.operation.takes.accepts args.length = true) :
    Contained room call p args (routine room p.name call p.operation args) := by
  by_cases ha : p.operation = .apply
  · rw [ha] at accepted
    obtain ⟨f, a, rfl⟩ := Operation.exists_pair_of_accepts accepted rfl
    rw [ha]
    exact applied_contained ha
  by_cases hm : p.operation = .map
  · rw [hm] at accepted
    obtain ⟨f, row, rows, rfl⟩ := Operation.exists_cons_cons_of_accepts accepted rfl
    rw [hm]
    exact mapped_contained hm
  · -- The others call nothing, so they end as the primitive does with any caller.
    let silent : Value → List Value → Action Value := fun _ _ => .fail .depthExhausted
    have closed : Failure.Refuses (Refused room call p args) := refuses
    have keeps : (p.run room silent args).Keeps Effect.quiet.outside (Refused room call p args) :=
      Effect.quiet.primitive_keeps closed
        (fun _ _ => ⟨Effect.quiet.refl, fun _ => .error closed.depthExhausted⟩) p
        (fun _ hv => literal_refused hv) fun interrupts => absurd interrupts hop
    rw [routine_of_native ha hm call fun f given => .ofAction (silent f given)]
    exact .of_simulates (routine_simulates p.operation hop p.arity accepted) keeps.failure

end Ends

private theorem standard_arity :
    ∀ p ∈ Primitive.standard, p.arity = p.operation.takes ∧ p.operation ≠ .interrupt := by
  decide

theorem primitive_ends {p : Primitive} (hp : p ∈ Primitive.standard) (room : Nat)
    (callee : Value → List Value → Routine Value) (args : List Value) (m : Machine) :
    Ends room callee p args (primitive room callee p args m).1 := by
  obtain ⟨same, hop⟩ := standard_arity p hp
  unfold primitive
  by_cases accepted : p.arity.accepts args.length = true
  · rw [if_pos accepted]
    rw [same] at accepted
    exact routine_contained hop accepted m
  · rw [if_neg accepted]
    exact .error (by simp)

private theorem Simulates.handled {x : Routine Quantity} {y : Action Value}
    (h : Simulates name IsValue x y) (m : Machine) :
    ((x m).1.mapError (handle name), (x m).2) =
      (((y m).1.mapError Raised.of).map Quantity.value, (y m).2) := by
  obtain ⟨alike, left⟩ := h m
  rw [left]
  congr 1
  generalize (x m).1 = result at alike ⊢
  generalize (y m).1 = result' at alike ⊢
  cases alike with
  | ok same => exact congrArg Except.ok same
  | error same => exact congrArg Except.error same

theorem of_ne_fault {failure : Failure} {fault : Fault} : Raised.of failure ≠ .fault fault := by
  cases failure <;> nofun

/-- Over the calls of the evaluator, the routine with its handler does what the primitive does. -/
theorem primitive_eq_call {p : Primitive} (hp : p ∈ Primitive.standard) (depth : Nat) (i : Identity)
    (args : List Value) (m : Machine) :
    let outcome := call (depth + 1) (.primitive i p) args m
    primitive depth (fun f given => .ofAction (call depth f given)) p args m =
      ((outcome.1.mapError Raised.of).map Quantity.value, outcome.2) := by
  obtain ⟨same, hop⟩ := standard_arity p hp
  unfold primitive
  simp only [call, Eval.application]
  by_cases accepted : p.arity.accepts args.length = true
  · rw [if_pos accepted, if_pos accepted]
    rw [same] at accepted
    exact (routine_simulates p.operation hop p.arity accepted).handled m
  · rw [if_neg accepted, if_neg accepted]
    rfl

/-- No standard primitive lets a fault of a partial operation out. Whatever number and kind of arguments
it is called with, and whatever it calls, it ends with a value, with one of five kinds of errors, for want
of a text or of depth, or, if it calls, with what was raised there. Over the calls of the evaluator it is
the primitive itself, and no fault is raised at all. -/
theorem primitive_contains_faults {p : Primitive} (hp : p ∈ Primitive.standard) (depth : Nat)
    (args : List Value) (m : Machine) :
    (∀ callee : Value → List Value → Routine Value,
      Ends depth callee p args (primitive depth callee p args m).1) ∧
    ∀ i : Identity,
      let outcome := call (depth + 1) (.primitive i p) args m
      let run := primitive depth (fun f given => .ofAction (call depth f given)) p args m
      run = ((outcome.1.mapError Raised.of).map Quantity.value, outcome.2) ∧
      ∀ fault, run.1 ≠ .error (.fault fault) := by
  refine ⟨fun callee => primitive_ends hp depth callee args m, fun i => ?_⟩
  have same := primitive_eq_call hp depth i args m
  refine ⟨same, fun fault escaped => ?_⟩
  rw [same] at escaped
  cases result : (call (depth + 1) (.primitive i p) args m).1 with
  | ok v =>
    rw [result] at escaped
    cases escaped
  | error failure =>
    rw [result] at escaped
    exact of_ne_fault (Except.error.inj escaped)

/-- A quotient too large for a binary64 number, and a divisor that is a negative zero: the operation
fails on both, the handler makes an error of the first fault, and the check keeps the second one away. -/
theorem primitive_contains_faults_division :
    let divide : Primitive := ⟨"/", .divide, .atLeast 1⟩
    let huge : Value := .number (.int (10 ^ 400))
    let three : Value := .number (.int 3)
    let zero : Value := .number (.float (.zero true))
    let callee : Value → List Value → Routine Value := fun _ _ => .lift (.error (.fault .index))
    let result (args : List Value) := (primitive 5 callee divide args (Machine.start 30)).1
    let raised (args : List Value) : Option Raised :=
      match result args with
      | .error raised => some raised
      | .ok _ => none
    divide ∈ Primitive.standard ∧
      raised [huge, three] =
        some (.error .numericOverflow "/: integer division result too large for a float") ∧
      raised [three, zero] = some (.error .divisionByZero "division by zero") ∧
      Ends 5 callee divide [huge, three] (result [huge, three]) ∧
      Ends 5 callee divide [three, zero] (result [three, zero]) := by
  intro divide huge three zero callee result raised
  have member : divide ∈ Primitive.standard := by decide
  have first := primitive_contains_faults member 5 [huge, three] (Machine.start 30)
  have second := primitive_contains_faults member 5 [three, zero] (Machine.start 30)
  exact ⟨member, by decide +kernel, by decide +kernel, first.1 callee, second.1 callee⟩

end Bare

end SmallScheme
