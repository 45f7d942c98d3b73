import SmallScheme.Proofs.BigStep.Forms
import SmallScheme.Proofs.WellFormed

/-!
What goes on while a program is evaluated, moment by moment. One level of an evaluation or a call is
opened into a plan: the evaluations and calls of the next level that it asks for, one after the other,
and what it does itself at the end. The evaluator does what its plans say, so the moments at which its
evaluations and calls begin and end are read off the plans, in the order in which they come.
-/

set_option autoImplicit false
set_option relaxedAutoImplicit false

namespace SmallScheme

/-- What the evaluator can be busy with. -/
inductive Activity where
  | eval (e : Value) (frame : FrameId)
  | call (f : Value) (args : List Value)

namespace Activity

def perform (depth : Nat) : Activity → Action Value
  | .eval e frame => SmallScheme.eval depth e frame
  | .call f args => SmallScheme.call depth f args

def values : Activity → List Value
  | .eval e _ => [e]
  | .call f args => f :: args

end Activity

/-- One level of an activity, opened. It asks for activities of the next level; a frame may be made
before them, and what is done at the end asks for nothing. -/
inductive Plan where
  | finish (x : Action Value)
  | enter (x : Action FrameId) (next : FrameId → Plan)
  | ask (a : Activity) (next : Value → Plan)

namespace Plan

def run (perform : Activity → Action Value) : Plan → Action Value
  | .finish x => x
  | .enter x next => do (next (← x)).run perform
  | .ask a next => do (next (← perform a)).run perform

def result (a : Activity) : Plan :=
  .ask a fun v => .finish (return v)

def each (next : List Value → Plan) : List Activity → Plan
  | [] => next []
  | a :: rest => .ask a fun v => each (fun vs => next (v :: vs)) rest

def last (v : Value) : List Activity → Plan
  | [] => .finish (return v)
  | a :: rest => .ask a fun v => last v rest

def noEval (_ : Value) (_ : FrameId) : Action Value :=
  Action.fail .depthExhausted

def noCall (_ : Value) (_ : List Value) : Action Value :=
  Action.fail .depthExhausted

def ofForm (room : Nat) (frame : FrameId) (form : Form) : Plan :=
  match form with
  | .conditional test consequent alternative =>
      .ask (.eval test frame) fun v =>
        .result (.eval (if v.isTrue then consequent else alternative) frame)
  | .assignment _ e | .definition _ e =>
      .ask (.eval e frame) fun v =>
        .finish (Eval.form room (fun _ _ => return v) noCall frame form)
  | .sequence es => last .unit (es.map (.eval · frame))
  | .application operator operands =>
      .ask (.eval operator frame) fun f =>
        each (fun args => .result (.call f args)) (operands.map (.eval · frame))
  | _ => .finish (Eval.form room noEval noCall frame form)

/-- A primitive on arguments whose number it accepts. Two primitives call procedures. -/
def ofPrimitive (room : Nat) (p : Primitive) (args : List Value) : Plan :=
  match p.operation, args with
  | .apply, [f, a] =>
      match Primitive.procedure room p.name f, Primitive.items room p.name a with
      | .ok _, .ok items => .result (.call f items)
      | _, _ => .finish (p.run room noCall args)
  | .map, f :: row :: rows =>
      match Primitive.procedure room p.name f, (row :: rows).mapM (Primitive.items room p.name) with
      | .ok _, .ok (first :: others) =>
          if others.all (·.length = first.length) then
            each (fun vs => .finish (Action.newList vs))
              ((Primitive.columns first others).map (.call f))
          else .finish (p.run room noCall args)
      | _, _ => .finish (p.run room noCall args)
  | _, _ => .finish (p.run room noCall args)

/-- What one level of an activity does, with so many levels left for what it asks for. -/
def ofActivity (room : Nat) : Activity → Plan
  | .eval (.list _ (head :: rest)) frame => ofForm room frame (Form.ofList head rest)
  | .eval e frame => .finish (Eval.expression room noEval noCall e frame)
  | .call (.procedure _ params body outer) args =>
      .enter (Action.enter params args (some outer)) fun inner => .result (.eval body inner)
  | .call (.primitive i p) args =>
      if p.arity.accepts args.length then ofPrimitive room p args
      else .finish (Eval.application room noEval noCall (.primitive i p) args)
  | .call f args => .finish (Eval.application room noEval noCall f args)

variable {perform : Activity → Action Value} {room depth : Nat}

@[simp] theorem run_finish (x : Action Value) : (finish x).run perform = x :=
  rfl

@[simp] theorem run_result (a : Activity) : (result a).run perform = perform a := by
  simp [result, run]

private theorem run_each (next : List Value → Plan) (as : List Activity) :
    (each next as).run perform = (do (next (← as.mapM perform)).run perform) := by
  induction as generalizing next with
  | nil => simp [each]
  | cons a rest ih => simp [each, run, ih]

private theorem run_last (v : Value) (as : List Activity) :
    (last v as).run perform = as.foldlM (fun _ a => perform a) v := by
  induction as generalizing v with
  | nil => rfl
  | cons a rest ih => simp [last, run, ih]

private theorem run_ofForm (frame : FrameId) (form : Form) :
    (ofForm room frame form).run (Activity.perform depth) =
      Eval.form room (eval depth) (call depth) frame form := by
  cases form with
  | conditional test consequent alternative =>
    simp only [ofForm, run, run_result, Eval.form, Activity.perform]
    congr 1
    funext v
    split <;> rfl
  | assignment name e => simp [ofForm, run, Eval.form, Activity.perform]
  | definition name e => simp [ofForm, run, Eval.form, Activity.perform]
  | sequence es =>
    rw [ofForm, run_last, List.foldlM_map]
    rfl
  | application operator operands =>
    simp only [ofForm, run, run_each, run_result, Eval.form, Activity.perform, List.mapM_map]
    rfl
  | _ => rfl

theorem lift_ok_bind {α β : Type} (a : α) (f : α → Action β) : Action.lift (.ok a) >>= f = f a :=
  rfl

private theorem run_ofPrimitive (p : Primitive) (args : List Value) :
    (ofPrimitive room p args).run (Activity.perform depth) = p.run room (call depth) args := by
  unfold ofPrimitive
  split
  · rename_i f a operation
    rw [BigStep.run_apply operation, BigStep.run_apply operation]
    cases Primitive.procedure room p.name f with
    | error failure => rfl
    | ok _ =>
      cases Primitive.items room p.name a with
      | error failure => rfl
      | ok items => exact run_result _
  · rename_i f row rows operation
    rw [BigStep.run_map operation (by simp), BigStep.run_map operation (by simp)]
    simp only [Primitive.mapped]
    cases Primitive.procedure room p.name f with
    | error failure => rfl
    | ok _ =>
      cases (row :: rows).mapM (Primitive.items room p.name) with
      | error failure => rfl
      | ok tables =>
        cases tables with
        | nil => rfl
        | cons first others =>
          simp only [lift_ok_bind]
          split
          · simp only [run_each, List.mapM_map]
            rfl
          · rfl
  · rename_i args _ _ notApply notMap
    by_cases native : p.operation ≠ .apply ∧ p.operation ≠ .map
    · exact BigStep.run_of_native native.1 native.2
    · have misapplied : (p.operation = .apply ∧ args.length ≠ 2) ∨
          (p.operation = .map ∧ args.length < 2) := by
        rcases Decidable.not_and_iff_or_not.mp native with apply | map
        · refine .inl ⟨not_not.mp apply, fun two => ?_⟩
          obtain ⟨f, a, rfl⟩ := List.length_eq_two.mp two
          exact notApply f a (not_not.mp apply) rfl
        · refine .inr ⟨not_not.mp map, ?_⟩
          obtain _ | ⟨f, _ | ⟨row, rows⟩⟩ := args
          · exact Nat.two_pos
          · exact Nat.one_lt_two
          · exact absurd rfl (notMap f row rows (not_not.mp map))
      rw [run_finish, BigStep.run_misapplied misapplied, BigStep.run_misapplied misapplied]

/-- The evaluator does what its plans say. -/
theorem run_ofActivity (depth : Nat) (a : Activity) :
    (ofActivity depth a).run (Activity.perform depth) = a.perform (depth + 1) := by
  unfold ofActivity
  split
  · exact run_ofForm _ _
  · rename_i e frame other
    rw [run_finish]
    simp only [Activity.perform, eval]
    cases e with
    | list i items =>
      cases items with
      | nil => rfl
      | cons head rest => exact absurd rfl (other i head rest)
    | _ => rfl
  · simp only [run, run_result]
    rfl
  · rename_i i p args
    simp only [Activity.perform, call, Eval.application]
    split
    · exact run_ofPrimitive p args
    · rfl
  · rename_i f args procedure primitive
    rw [run_finish]
    simp only [Activity.perform, call]
    cases f with
    | procedure i params body outer => exact absurd rfl (procedure i params body outer)
    | primitive i p => exact absurd rfl (primitive i p)
    | _ => rfl

end Plan

/-- What happens at one moment, with the machine on which it happens. -/
inductive Moment where
  | begins (depth : Nat) (a : Activity) (m : Machine)
  | ends (a : Activity) (outcome : Except Failure Value) (m : Machine)
  /-- The host is about to take in a datum that it has read. -/
  | reads (d : Datum) (m : Machine)
  /-- Nothing goes on. -/
  | rests (h : Host)

namespace Moment

def machine : Moment → Machine
  | .begins _ _ m => m
  | .ends _ _ m => m
  | .reads _ m => m
  | .rests h => h.machine

/-- The values that are at hand, besides those that are bound. -/
def atHand : Moment → List Value
  | .begins _ a _ => a.values
  | .ends a (.ok v) _ => v :: a.values
  | .ends a (.error _) _ => a.values
  | .reads _ _ => []
  | .rests h => h.held

/-- The value can be met at the moment: it stands in a value at hand or in a binding of some frame. -/
def Sees (μ : Moment) (u : Value) : Prop :=
  (∃ v ∈ μ.atHand, u.Occurs v) ∨ ∃ f, ∃ pair ∈ μ.machine.store.bindings f, u.Occurs pair.2

end Moment

def Plan.moments (perform : Activity → Action Value) (inner : Activity → Machine → List Moment) :
    Plan → Machine → List Moment
  | .finish _, _ => []
  | .enter x next, m =>
      match x m with
      | (.ok f, n) => (next f).moments perform inner n
      | (.error _, _) => []
  | .ask a next, m =>
      inner a m ++
        match perform a m with
        | (.ok v, n) => (next v).moments perform inner n
        | (.error _, _) => []

private theorem Plan.exists_inner_of_mem {perform : Activity → Action Value}
    {inner : Activity → Machine → List Moment} {plan : Plan} {m : Machine} {μ : Moment}
    (h : μ ∈ plan.moments perform inner m) : ∃ a n, μ ∈ inner a n := by
  induction plan generalizing m with
  | finish x => simp [moments] at h
  | enter x next ih =>
    simp only [moments] at h
    split at h
    · exact ih _ h
    · simp at h
  | ask a next ih =>
    rw [moments] at h
    rcases List.mem_append.mp h with h | h
    · exact ⟨a, m, h⟩
    · split at h
      · exact ih _ h
      · simp at h

namespace Activity

/-- The moments of an activity: it begins, it goes through what it asks for, and it ends. -/
def moments : Nat → Activity → Machine → List Moment
  | 0, a, m => [.begins 0 a m, .ends a (.error .depthExhausted) m]
  | depth + 1, a, m =>
      .begins (depth + 1) a m ::
        ((Plan.ofActivity depth a).moments (perform depth) (moments depth) m ++
          [.ends a (a.perform (depth + 1) m).1 (a.perform (depth + 1) m).2])

theorem perform_zero (a : Activity) (m : Machine) :
    a.perform 0 m = (.error .depthExhausted, m) := by
  cases a <;> rfl

theorem begins_mem_moments (depth : Nat) (a : Activity) (m : Machine) :
    .begins depth a m ∈ a.moments depth m := by
  cases depth <;> exact List.mem_cons_self

theorem ends_mem_moments (depth : Nat) (a : Activity) (m : Machine) :
    .ends a (a.perform depth m).1 (a.perform depth m).2 ∈ a.moments depth m := by
  cases depth with
  | zero => simp [moments, perform_zero]
  | succ depth => simp [moments]

/-- At each moment of an activity something begins or ends. -/
theorem begins_or_ends_of_mem {depth : Nat} {a : Activity} {m : Machine} {μ : Moment}
    (h : μ ∈ a.moments depth m) :
    (∃ d b n, μ = .begins d b n) ∨ ∃ b outcome n, μ = .ends b outcome n := by
  induction depth generalizing a m with
  | zero =>
    simp only [moments, List.mem_cons, List.not_mem_nil, or_false] at h
    rcases h with rfl | rfl
    · exact .inl ⟨_, _, _, rfl⟩
    · exact .inr ⟨_, _, _, rfl⟩
  | succ depth ih =>
    simp only [moments, List.mem_cons, List.mem_append, List.not_mem_nil, or_false] at h
    rcases h with rfl | h | rfl
    · exact .inl ⟨_, _, _, rfl⟩
    · obtain ⟨b, n, h⟩ := Plan.exists_inner_of_mem h
      exact ih h
    · exact .inr ⟨_, _, _, rfl⟩

end Activity

end SmallScheme
