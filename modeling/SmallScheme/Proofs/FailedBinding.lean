import Mathlib.Algebra.Group.Int.Defs
import SmallScheme.Primitive.Standard
import SmallScheme.Proofs.BigStep.Forms
import SmallScheme.Proofs.Effect

/-!
Definitions and assignments that fail. The value is computed, then bound, and then written in a debug
message. What fails before the binding leaves what the expression left, and this is so for every error
of a program. A value that cannot be written fails after it, and its binding stays.
-/

set_option autoImplicit false
set_option relaxedAutoImplicit false

namespace SmallScheme

open BigStep (keyword)

/-- The frame that the form gives the name its value in: a definition in its own frame, an assignment in
the frame where the name is found. -/
def SpecialForm.target? (form : SpecialForm) (s : Store) (r : FrameId) (name : String) :
    Option FrameId :=
  match form with
  | .definition => some r
  | _ => s.owner? r name

/-- How a definition or an assignment fails, by what its expression came to: with it, for want of a
frame that binds the name, or by a value that cannot be written. -/
inductive BindingFails (depth : Nat) (form : SpecialForm) (r : FrameId) (name : String) :
    Except Failure Value × Machine → Failure → Machine → Prop
  | expression {failure : Failure} {n : Machine} :
      BindingFails depth form r name (.error failure, n) failure n
  | nowhere {v : Value} {n : Machine} : form.target? n.store r name = none →
      BindingFails depth form r name (.ok v, n) (.error (.unbound name)) n
  /-- It comes too late for the binding. -/
  | unwritten {v : Value} {n : Machine} {owner : FrameId} {failure : Failure} :
      form.target? n.store r name = some owner → v.literal depth = .error failure →
      BindingFails depth form r name (.ok v, n) failure
        { n with store := n.store.define owner name v }

section

variable {depth : Nat} {form : SpecialForm} {i : Identity} {name : String} {e : Value} {r : FrameId}
  {m n : Machine} {v : Value}

private theorem binding_of_error (hform : form = .assignment ∨ form = .definition)
    {failure : Failure} (h : eval depth e r m = (.error failure, n)) :
    eval (depth + 1) (.list i [keyword form, .symbol name, e]) r m = (.error failure, n) := by
  rcases hform with rfl | rfl
  · change (eval depth e r >>= _) m = _
    rw [Action.bind_apply, h]
  · change (eval depth e r >>= _) m = _
    rw [Action.bind_apply, h]

private theorem binding_of_nowhere (hform : form = .assignment ∨ form = .definition)
    (h : eval depth e r m = (.ok v, n)) (nowhere : form.target? n.store r name = none) :
    eval (depth + 1) (.list i [keyword form, .symbol name, e]) r m =
      (.error (.error (.unbound name)), n) := by
  rcases hform with rfl | rfl
  · change (eval depth e r >>= _) m = _
    simp only [Action.bind_apply, h, BigStep.assign_of_none nowhere]
  · cases nowhere

/-- The message comes last; its text is the only thing that can fail once the name is bound. -/
theorem binding_of_target (hform : form = .assignment ∨ form = .definition)
    (h : eval depth e r m = (.ok v, n)) {owner : FrameId}
    (target : form.target? n.store r name = some owner) :
    ∃ message : String → String,
      eval (depth + 1) (.list i [keyword form, .symbol name, e]) r m =
        let bound : Machine := { n with store := n.store.define owner name v }
        match v.literal depth with
        | .error failure => (.error failure, bound)
        | .ok text =>
            (.ok .unit, { bound with journal := bound.journal.add ⟨.debug, message text⟩ }) := by
  rcases hform with rfl | rfl
  · refine ⟨fun text => s!"set! {name} = {text}", ?_⟩
    change (eval depth e r >>= _) m = _
    rw [Action.bind_apply, h]
    change (Action.assign r name v >>= _) n = _
    rw [Action.bind_apply, BigStep.assign_of_some target]
    change (Action.lift (v.literal depth) >>= _) _ = _
    rw [Action.bind_apply, Action.lift]
    cases v.literal depth <;> rfl
  · cases target
    let place := (n.store.define r name v).describe r
    refine ⟨fun text => s!"define {name} = {text} in {place}", ?_⟩
    change (eval depth e r >>= _) m = _
    rw [Action.bind_apply, h]
    change (Action.lift (v.literal depth) >>= _) { n with store := n.store.define r name v } = _
    rw [Action.bind_apply, Action.lift]
    cases v.literal depth <;> rfl

/-- A definition or an assignment fails in one of these ways. -/
theorem eval_binding_error_iff (hform : form = .assignment ∨ form = .definition) {failure : Failure}
    {o : Machine} :
    eval (depth + 1) (.list i [keyword form, .symbol name, e]) r m = (.error failure, o) ↔
      BindingFails depth form r name (eval depth e r m) failure o := by
  rcases h : eval depth e r m with ⟨failure' | v, n⟩
  · rw [binding_of_error hform h]
    constructor
    · rintro ⟨⟩
      exact .expression
    · rintro ⟨⟩
      rfl
  cases target : form.target? n.store r name with
  | none =>
    rw [binding_of_nowhere hform h target]
    constructor
    · rintro ⟨⟩
      exact .nowhere target
    · rintro (_ | _ | ⟨found, -⟩)
      · rfl
      · cases target.symm.trans found
  | some owner =>
    obtain ⟨message, run⟩ := binding_of_target (i := i) hform h target
    rw [run]
    cases written : v.literal depth with
    | ok text =>
      constructor
      · rintro ⟨⟩
      · rintro (_ | nowhere | ⟨-, unwritten⟩)
        · cases target.symm.trans nowhere
        · cases written.symm.trans unwritten
    | error failure' =>
      constructor
      · rintro ⟨⟩
        exact .unwritten target written
      · rintro (_ | nowhere | ⟨found, unwritten⟩)
        · cases target.symm.trans nowhere
        · cases target.symm.trans found
          cases written.symm.trans unwritten
          rfl

/-- A definition or an assignment fails with its expression, or because the name of an assignment is
bound nowhere, or because its value cannot be written. An error of the program leaves all that the
expression left. So does every failure, but for a value with too many digits or too deep to be written:
then the value is bound before the form fails. -/
theorem failed_binding_writes (hform : form = .assignment ∨ form = .definition) (depth : Nat)
    (i : Identity) (name : String) (e : Value) (r : FrameId) (m : Machine) :
    let alone := eval depth e r m
    let whole := eval (depth + 1) (.list i [keyword form, .symbol name, e]) r m
    (∀ failure o, whole = (.error failure, o) ↔ BindingFails depth form r name alone failure o) ∧
    (∀ error o, whole = (.error (.error error), o) → o = alone.2) ∧
    ∀ failure o, whole = (.error failure, o) →
      o = alone.2 ∨
      ∃ v owner, alone.1 = .ok v ∧ form.target? alone.2.store r name = some owner ∧
        v.literal depth = .error failure ∧ failure.Writing ∧
        o = { alone.2 with store := alone.2.store.define owner name v } := by
  intro alone whole
  have ways (failure : Failure) (o : Machine) : whole = (.error failure, o) ↔
      BindingFails depth form r name alone failure o := eval_binding_error_iff hform
  have late (failure : Failure) (o : Machine) (failed : whole = (.error failure, o)) :
      o = alone.2 ∨
      ∃ v owner, alone.1 = .ok v ∧ form.target? alone.2.store r name = some owner ∧
        v.literal depth = .error failure ∧ failure.Writing ∧
        o = { alone.2 with store := alone.2.store.define owner name v } := by
    have fails := (ways failure o).mp failed
    generalize alone = a at fails ⊢
    cases fails with
    | expression => exact .inl rfl
    | nowhere => exact .inl rfl
    | unwritten target unwritten =>
      have writing : failure.Writing := FailsWith.writing .literal depth _ failure unwritten
      exact .inr ⟨_, _, rfl, target, unwritten, writing, rfl⟩
  refine ⟨ways, fun error o failed => ?_, late⟩
  rcases late _ o failed with same | ⟨_, _, _, _, _, writing, _⟩
  · exact same
  · cases writing

end

/-- A name that is bound is defined again, to an integer of 4301 digits: the form fails, and the name has
the new value. -/
theorem failed_binding_writes_long_integer :
    let globals : Machine := (Action.newGlobals (Machine.start 30)).2
    let m : Machine := (Program.run 20 0 "(define x 1)" globals).2
    let e : Value := .list (.written 2) [.symbol "expt", .number (.int 10), .number (.int 4300)]
    let alone := eval 19 e 0 m
    let whole := eval 20 (.list (.written 1) [keyword .definition, .symbol "x", e]) 0 m
    let shows (n : Machine) : Option Number := (n.store.lookup? 0 "x").bind Value.number?
    whole.1 = .error (.digitLimit none) ∧ shows m = some (.int 1) ∧
      shows alone.2 = some (.int 1) ∧ shows whole.2 = some (.int (10 ^ 4300)) ∧
      BindingFails 19 .definition 0 "x" alone (.digitLimit none) whole.2 := by
  intro globals m e alone whole shows
  have before : shows m = some (.int 1) := by decide +kernel
  have kept : shows alone.2 = some (.int 1) := by decide +kernel
  have bound : shows whole.2 = some (.int (10 ^ 4300)) := by decide +kernel
  have stopped : whole.1.map (fun _ => ()) = .error (.digitLimit none) := by decide +kernel
  have definition : SpecialForm.definition = .assignment ∨ SpecialForm.definition = .definition :=
    .inr rfl
  obtain ⟨ways, -, -⟩ := failed_binding_writes definition 19 (.written 1) "x" e 0 m
  rcases ran : whole with ⟨failure | v, o⟩
  · rw [ran] at stopped bound
    obtain rfl : failure = .digitLimit none := Except.error.inj stopped
    exact ⟨rfl, before, kept, bound, (ways _ o).mp ran⟩
  · rw [ran] at stopped
    cases stopped

end SmallScheme
