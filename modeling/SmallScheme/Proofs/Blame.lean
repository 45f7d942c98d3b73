import SmallScheme.Proofs.Chronology
import SmallScheme.Proofs.Recovery

/-!
What failures are due to. An evaluation fails by an error of the program, by running out of depth, by
writing an integer that has too many digits, or by an interrupt. In the last two cases a value is to
blame, and it can be met at some moment of the evaluation: each level either shows only values that it
was given or that it got from the next level, or it fails with the next level.
-/

set_option autoImplicit false
set_option relaxedAutoImplicit false

namespace SmallScheme

def Value.Overlong (v : Value) : Prop :=
  ∃ k : Int, v = .number (.int k) ∧ Nat.pow 10 Number.digitLimit ≤ k.natAbs

namespace Failure

/-- The value is to blame for the failure. -/
inductive Culprit : Failure → Value → Prop
  | overlong {v : Value} : v.Overlong → Culprit (.digitLimit none) v
  | interrupt {i : Identity} {p : Primitive} : p.operation = .interrupt →
      Culprit .interrupted (.primitive i p)

/-- The failure is an error, or there was no depth left, or one of the given values is to blame. -/
inductive Due (given : Value → Prop) : Failure → Prop
  | error {e : Error} : e.kind.family ≠ .reading → Due given (.error e)
  | depthExhausted : Due given .depthExhausted
  | culprit {failure : Failure} {v : Value} : given v → Culprit failure v → Due given failure

variable {given more : Value → Prop}

private theorem Admits.due : Admits (Due given) :=
  ⟨.error, .depthExhausted⟩

theorem Due.mono {failure : Failure} (h : failure.Due given) (imp : ∀ v, given v → more v) :
    failure.Due more := by
  cases h with
  | error family => exact .error family
  | depthExhausted => exact .depthExhausted
  | culprit hv blame => exact .culprit (imp _ hv) blame

end Failure

namespace FailsWith

open Failure (Due)

variable {given : Value → Prop} {room : Nat} {v : Value}

private theorem due_text (n : Number) : FailsWith (Due (· = .number n)) n.text := by
  cases n with
  | int k =>
    simp only [Number.text, Number.text?]
    split
    · exact ok _
    · rename_i none
      split at none
      · cases none
      · rename_i long
        exact error (.culprit rfl (.overlong ⟨k, rfl, Nat.not_lt.mp long⟩))
  | float x => exact ok _

theorem due_write (style : Style) (room : Nat) (v : Value) :
    FailsWith (Due (·.Occurs v)) (v.write style room) := by
  induction room generalizing v with
  | zero => exact error .depthExhausted
  | succ room ih =>
    cases v with
    | number n =>
      refine (due_text n).mono fun due => due.mono ?_
      rintro _ rfl
      exact .self _
    | list i items =>
      have parts : FailsWith (Due (·.Occurs (.list i items))) (items.mapM (Value.write style room)) :=
        mapM fun item hi => (ih item).mono fun due => due.mono fun _ => .item hi
      exact parts.bind fun _ => ok _
    | _ => exact ok _

private theorem due_literal (h : ∀ u, u.Occurs v → given u) :
    FailsWith (Due given) (v.literal room) :=
  (due_write .literal room v).mono fun due => due.mono h

private theorem due_procedure (i : Identity) (params : List String) (body : Value)
    (frame : FrameId) :
    FailsWith (Due given) ((Value.procedure i params body frame).literal room) := by
  cases room with
  | zero => exact error .depthExhausted
  | succ room => exact ok _

end FailsWith

namespace Plan

open Failure (Due)

/-- The failures of a plan that it does not have from the activities that it asks for are due to the
given values, or to what it was given by such activities. -/
def Owes : Plan → (Value → Prop) → Prop
  | .finish x, given => ∀ m, FailsWith (Due given) (x m).1
  | .enter x next, given => (∀ m, FailsWith (Due given) (x m).1) ∧ ∀ f, (next f).Owes given
  | .ask _ next, given => ∀ v, (next v).Owes fun u => given u ∨ u.Occurs v

variable {given : Value → Prop} {room : Nat}

private theorem owes_result (a : Activity) : (result a).Owes given :=
  fun v _ => .ok v

private theorem owes_each {next : List Value → Plan} (h : ∀ vs given, (next vs).Owes given)
    (as : List Activity) : (each next as).Owes given := by
  induction as generalizing next given with
  | nil => exact h [] given
  | cons a as ih => exact fun v => ih fun vs => h (v :: vs)

private theorem owes_last (v : Value) (as : List Activity) : (last v as).Owes given := by
  induction as generalizing v given with
  | nil => exact fun _ => .ok v
  | cons a as ih => exact fun v => ih v

private theorem noCall_keeps (f : Value) (args : List Value) :
    (noCall f args).Keeps Effect.quiet.outside (Due given) :=
  ⟨Effect.quiet.refl, fun _ => .error .depthExhausted⟩

private theorem owes_ofForm (frame : FrameId) {form : Form}
    (unnamed : ∀ special got, form = .unnamed special got → ∀ u, u.Occurs got → given u) :
    (ofForm room frame form).Owes given := by
  have refl := Effect.quiet.refl
  have trans {m n o : Machine} : Effect.quiet.outside m n → Effect.quiet.outside n o →
      Effect.quiet.outside m o := Effect.quiet.outside_trans
  have text (v : Value) : (Action.lift (v.literal room)).Keeps Effect.quiet.outside
      (Due fun u => given u ∨ u.Occurs v) := .lift refl (.due_literal fun _ => .inr)
  cases form with
  | quote datum => exact fun _ => .ok datum
  | conditional test consequent alternative => exact fun v => owes_result _
  | sequence es => exact owes_last _ _
  | application operator operands => exact fun f => owes_each (fun _ _ => owes_result _) _
  | assignment name e =>
    intro v
    refine Action.Keeps.failure (R := Effect.quiet.outside) ?_
    simp only [Eval.form, pure_bind]
    refine (Effect.quiet.assign_keeps_of_admits .due frame name v).bind trans fun _ => ?_
    refine (text v).bind trans fun _ => ?_
    exact (Effect.quiet.report_keeps _).bind trans fun _ => .pure refl _
  | definition name e =>
    intro v
    refine Action.Keeps.failure (R := Effect.quiet.outside) ?_
    simp only [Eval.form, pure_bind]
    refine .bind trans (.change fun m => Effect.quiet.define m frame name v) fun _ => ?_
    refine (text v).bind trans fun _ => (Action.Keeps.view refl _).bind trans fun _ => ?_
    exact (Effect.quiet.report_keeps _).bind trans fun _ => .pure refl _
  | abstraction params body =>
    refine Action.Keeps.failure (R := Effect.quiet.outside) ?_
    refine .bind trans (.change Effect.quiet.make) fun i => ?_
    refine .bind trans (.lift refl (.due_procedure i params body frame)) fun _ => ?_
    refine (Action.Keeps.view refl _).bind trans fun _ => ?_
    exact (Effect.quiet.report_keeps _).bind trans fun _ => .pure refl _
  | misshapen special => exact fun _ => .error (.error (by rintro ⟨⟩))
  | unnamed special got =>
    intro m
    exact .complain (e := .formSymbol special) (fun _ => .error (by rintro ⟨⟩))
      (.due_literal (unnamed special got rfl))
  | unparametrised => exact fun _ => .error (.error (by rintro ⟨⟩))

private theorem mem_of_unnamed {head got : Value} {rest : List Value} {form : SpecialForm}
    (h : Form.ofList head rest = .unnamed form got) : got ∈ rest := by
  rcases Form.ofList_cases head rest with ⟨special, -, same⟩ | ⟨-, same⟩
  · refine Form.mem_of_mem_special special ?_
    rw [← same, h]
    exact List.mem_cons_self
  · rw [same] at h
    cases h

private theorem owes_ofPrimitive {i : Identity} {p : Primitive} {args : List Value}
    (hp : given (.primitive i p)) (h : ∀ v ∈ args, ∀ u, u.Occurs v → given u) :
    (ofPrimitive room p args).Owes given := by
  have refuses : Failure.Refuses (Due given) := Failure.Admits.due.refuses
  have native : ∀ m, FailsWith (Due given) (p.run room noCall args m).1 :=
    (Effect.quiet.primitive_keeps refuses noCall_keeps p (fun v hv => .due_literal (h v hv))
      fun interrupt => .culprit hp (.interrupt interrupt)).failure
  unfold ofPrimitive
  split
  · split
    · exact owes_result _
    · exact native
  · split
    · split
      · refine owes_each (fun vs given => ?_) _
        exact fun _ => .ok _
      · exact native
    · exact native
  · exact native

private theorem owes_ofActivity (room : Nat) (a : Activity) :
    (ofActivity room a).Owes fun u => ∃ v ∈ a.values, u.Occurs v := by
  unfold ofActivity
  split
  · rename_i i head rest frame
    refine owes_ofForm frame fun form got unnamed u occurs => ?_
    have inside : got ∈ head :: rest := List.mem_cons_of_mem head (mem_of_unnamed unnamed)
    exact ⟨_, List.mem_singleton.mpr rfl, .item inside occurs⟩
  · rename_i e frame other
    cases e with
    | symbol name =>
      intro m
      simp only [Eval.expression, Action.lookup, Action.bind_apply, Action.view]
      cases m.store.lookup? frame name with
      | some v => exact .ok v
      | none => exact .error (.error (by rintro ⟨⟩))
    | list i items =>
      cases items with
      | nil => exact fun _ => .error (.error (by rintro ⟨⟩))
      | cons head rest => exact absurd rfl (other i head rest)
    | _ => exact fun _ => .ok _
  · refine ⟨fun m => ?_, fun _ => owes_result _⟩
    unfold Action.enter
    split
    · exact .ok _
    · exact .error (.error (by rintro ⟨⟩))
  · rename_i i p args
    split
    · refine owes_ofPrimitive (i := i) ⟨_, List.mem_cons_self, .self _⟩ fun v hv u occurs => ?_
      exact ⟨v, List.mem_cons_of_mem _ hv, occurs⟩
    · rename_i refused
      intro m
      simp only [Eval.application, if_neg refused]
      exact .error (.error (by rintro ⟨⟩))
  · rename_i f args procedure primitive
    have text : FailsWith (Due fun u => ∃ v ∈ (Activity.call f args).values, u.Occurs v)
        (f.literal room) := .due_literal fun u occurs => ⟨f, List.mem_cons_self, occurs⟩
    have refused := (Effect.quiet.refused_keeps .due text).failure
    cases f with
    | procedure i params body outer => exact absurd rfl (procedure i params body outer)
    | primitive i p => exact absurd rfl (primitive i p)
    | _ => exact refused

/-- A plan fails with one of the activities that it asks for, or something that was given to it is to
blame. -/
theorem due_of_run {perform : Activity → Action Value} {inner : Activity → Machine → List Moment}
    (asked : ∀ {a m failure n}, perform a m = (.error failure, n) →
      failure.Due fun u => ∃ μ ∈ inner a m, μ.Sees u)
    (ended : ∀ {a m v n}, perform a m = (.ok v, n) → ∃ μ ∈ inner a m, v ∈ μ.atHand)
    {plan : Plan} (h : plan.Owes given) {m n : Machine} {failure : Failure}
    (failed : plan.run perform m = (.error failure, n)) :
    failure.Due fun u => given u ∨ ∃ μ ∈ plan.moments perform inner m, μ.Sees u := by
  induction plan generalizing given m with
  | finish x => exact (h m failure (congrArg Prod.fst failed)).mono fun _ => .inl
  | enter x next ih =>
    -- A frame is made before the first moment, so nothing else can be to blame for its failure.
    simp only [run, Action.bind_apply] at failed
    simp only [moments]
    rcases entered : x m with ⟨failure' | f, o⟩
    · rw [entered] at failed
      cases failed
      have due := h.1 m failure (congrArg Prod.fst entered)
      exact due.mono fun _ => .inl
    · rw [entered] at failed
      exact ih f (h.2 f) failed
  | ask a next ih =>
    simp only [run, Action.bind_apply] at failed
    simp only [moments]
    rcases performed : perform a m with ⟨failure' | v, o⟩
    · rw [performed] at failed
      cases failed
      refine (asked performed).mono ?_
      rintro u ⟨μ, hμ, seen⟩
      exact .inr ⟨μ, List.mem_append_left _ hμ, seen⟩
    · rw [performed] at failed
      refine (ih v (h v) failed).mono ?_
      -- What occurs in the result was at hand when the activity that gave it ended.
      rintro u ((hu | occurs) | ⟨μ, hμ, seen⟩)
      · exact .inl hu
      · obtain ⟨μ, hμ, hand⟩ := ended performed
        exact .inr ⟨μ, List.mem_append_left _ hμ, .inl ⟨v, hand, occurs⟩⟩
      · exact .inr ⟨μ, List.mem_append_right _ hμ, seen⟩

end Plan

/-- If an activity fails otherwise than by an error or for lack of depth, a value that can be met at one
of its moments is to blame. -/
theorem Activity.due_of_perform {depth : Nat} {a : Activity} {m n : Machine} {failure : Failure}
    (failed : a.perform depth m = (.error failure, n)) :
    failure.Due fun u => ∃ μ ∈ a.moments depth m, μ.Sees u := by
  induction depth generalizing a m failure n with
  | zero =>
    rw [perform_zero] at failed
    cases failed
    exact .depthExhausted
  | succ depth ih =>
    rw [← Plan.run_ofActivity] at failed
    have ended {a : Activity} {m n : Machine} {v : Value} (h : a.perform depth m = (.ok v, n)) :
        ∃ μ ∈ a.moments depth m, v ∈ μ.atHand := by
      refine ⟨_, ends_mem_moments depth a m, ?_⟩
      rw [h]
      exact List.mem_cons_self
    refine (Plan.due_of_run ih ended (Plan.owes_ofActivity depth a) failed).mono ?_
    rintro u (begun | ⟨μ, hμ, seen⟩)
    · exact ⟨_, begins_mem_moments (depth + 1) a m, .inl begun⟩
    · exact ⟨μ, List.mem_cons_of_mem _ (List.mem_append_left _ hμ), seen⟩

end SmallScheme
