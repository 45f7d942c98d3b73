import SmallScheme.Proofs.History
import SmallScheme.Proofs.NumberForm
import SmallScheme.Proofs.Rounding

/-!
Finite numbers. Few operations check that their result is finite, so that no infinity and no
non-number ever arises is a matter of all of them together: texts hold finite numbers only, and from
finite numbers each operation makes finite numbers or fails. Hence every number is finite that can be
met at any moment of any history.
-/

set_option autoImplicit false
set_option relaxedAutoImplicit false

namespace SmallScheme

namespace Number

private theorem isFinite_of_finite {a b : Number} (h : a.finite = .ok b) : b.isFinite = true := by
  cases a with
  | int n =>
    cases h
    rfl
  | float x =>
    simp only [finite] at h
    split at h
    · rename_i checked
      cases h
      exact checked
    · cases h

private theorem isFinite_neg {a : Number} (h : a.isFinite = true) : a.neg.isFinite = true := by
  cases a with
  | int n => rfl
  | float x => cases x <;> first | rfl | cases h

private theorem isFinite_abs {a : Number} (h : a.isFinite = true) : a.abs.isFinite = true := by
  cases a with
  | int n => rfl
  | float x => cases x <;> first | rfl | cases h

end Number

namespace Primitive

variable {xs : List Number} {x n : Number}

private theorem isFinite_of_checked {r : Except NumericFault Number}
    (h : (do (← r).finite) = .ok n) : n.isFinite = true := by
  obtain ⟨a, -, checked⟩ := Except.exists_of_bind h
  exact Number.isFinite_of_finite checked

private theorem isFinite_difference (hx : x.isFinite = true) (h : difference x xs = .ok n) :
    n.isFinite = true := by
  cases xs with
  | nil =>
    cases h
    exact Number.isFinite_neg hx
  | cons y ys => exact isFinite_of_checked h

private theorem isFinite_quotient (h : quotient x xs = .ok n) : n.isFinite = true := by
  cases xs with
  | nil => exact isFinite_of_checked h
  | cons y ys => exact isFinite_of_checked h

private theorem isFinite_chosen {better : Number → Number → Bool} (hx : x.isFinite = true)
    (hxs : ∀ y ∈ xs, y.isFinite = true) :
    (xs.foldl (fun best y => if better y best then y else best) x).isFinite = true := by
  induction xs generalizing x with
  | nil => exact hx
  | cons y ys ih =>
    obtain ⟨hy, others⟩ := List.forall_mem_cons.mp hxs
    refine ih ?_ others
    dsimp only
    split
    · exact hy
    · exact hx

private theorem isFinite_round (h : x.round = .ok n) : n.isFinite = true := by
  obtain ⟨a, checked, rounded⟩ := Except.exists_of_bind h
  have finite := Number.isFinite_of_finite checked
  cases a with
  | int k =>
    cases rounded
    rfl
  | float y =>
    cases rounded
    exact Binary64.isFinite_round finite

end Primitive

namespace Value

/-- Every number that stands in the value is finite. -/
def Finite (v : Value) : Prop :=
  ∀ n, Occurs (.number n) v → n.isFinite = true

theorem finite_number {n : Number} : Finite (.number n) ↔ n.isFinite = true := by
  constructor
  · intro h
    exact h n (.self _)
  · rintro h _ ⟨⟩
    exact h

theorem finite_list {i : Identity} {items : List Value} :
    Finite (.list i items) ↔ ∀ v ∈ items, v.Finite := by
  constructor
  · intro h v hv n occurs
    exact h n (.item hv occurs)
  · rintro h n (_ | ⟨hv, occurs⟩)
    exact h _ hv n occurs

private theorem finite_procedure {i : Identity} {params : List String} {body : Value}
    {frame : FrameId} :
    Finite (.procedure i params body frame) ↔ body.Finite := by
  constructor
  · intro h n occurs
    exact h n (.body occurs)
  · rintro h n (_ | _ | occurs)
    exact h n occurs

private theorem finite_of_ofWord {word : String} {d : Datum} (h : Datum.ofWord word = .ok d)
    (next : Nat) :
    (ofDatum next d).1.Finite := by
  cases Datum.classified_iff.mpr h with
  | integer => exact finite_number.mpr rfl
  | float _ finite => exact finite_number.mpr finite
  | symbol => rintro n ⟨⟩

mutual

theorem finite_of_spells {tokens : List Token} {d : Datum} (h : Datum.Spells tokens d) (next : Nat) :
    (ofDatum next d).1.Finite := by
  match h with
  | .atom word => exact finite_of_ofWord word next
  | .list each => exact finite_list.mpr (finite_of_spellsEach each (next + 1))

private theorem finite_of_spellsEach {tokens : List Token} {data : List Datum}
    (h : Datum.SpellsEach tokens data) (next : Nat) : ∀ v ∈ (ofData next data).1, v.Finite := by
  match h with
  | .nil => simp [ofData]
  | .cons first each =>
    intro v hv
    rcases List.mem_cons.mp hv with rfl | hv
    · exact finite_of_spells first next
    · exact finite_of_spellsEach each _ v hv

end

end Value

namespace Primitive

variable {room : Nat} {callee : String} {args : List Value}

private theorem isFinite_number {v : Value} {n : Number} (hv : v.Finite)
    (h : number room callee v = .ok n) :
    n.isFinite = true := by
  cases v with
  | number k =>
    cases h
    exact Value.finite_number.mp hv
  | _ =>
    obtain ⟨text, -, failed⟩ := Except.exists_of_bind h
    cases failed

private theorem isFinite_numbers {xs : List Number} (hargs : ∀ v ∈ args, v.Finite)
    (h : numbers room callee args = .ok xs) : ∀ x ∈ xs, x.isFinite = true := by
  induction args generalizing xs with
  | nil =>
    cases h
    simp
  | cons v args ih =>
    obtain ⟨hv, others⟩ := List.forall_mem_cons.mp hargs
    rw [numbers, List.mapM_cons] at h
    obtain ⟨x, first, h⟩ := Except.exists_of_bind h
    obtain ⟨rest, later, h⟩ := Except.exists_of_bind h
    cases h
    exact List.forall_mem_cons.mpr ⟨isFinite_number hv first, ih others later⟩

private theorem ok_of_numeric {r : Except NumericFault Number} {n : Number}
    (h : numeric callee r = .ok (.number n)) : r = .ok n := by
  cases r with
  | error fault => cases h
  | ok k =>
    cases h
    rfl

private theorem isFinite_calculate {operation : Operation} {xs : List Number} {n : Number}
    (hxs : ∀ x ∈ xs, x.isFinite = true) (h : calculate operation xs = .ok n) : n.isFinite = true := by
  unfold calculate at h
  split at h
  · exact isFinite_of_checked h
  · exact isFinite_of_checked h
  · exact isFinite_difference (List.forall_mem_cons.mp hxs).1 h
  · exact isFinite_quotient h
  · cases h
    exact Number.isFinite_abs (List.forall_mem_cons.mp hxs).1
  · cases h
    exact isFinite_chosen (List.forall_mem_cons.mp hxs).1 (List.forall_mem_cons.mp hxs).2
  · cases h
    exact isFinite_chosen (List.forall_mem_cons.mp hxs).1 (List.forall_mem_cons.mp hxs).2
  · exact isFinite_of_checked h
  · exact isFinite_round h
  · cases h
    rfl

/-- An operation on finite numbers gives a finite number or none. -/
theorem isFinite_run {p : Primitive} {call : Value → List Value → Action Value} {m : Machine}
    {n : Number} (arithmetic : p.operation.isArithmetic = true) (hargs : ∀ v ∈ args, v.Finite)
    (h : (p.run room call args m).1 = .ok (.number n)) : n.isFinite = true := by
  obtain ⟨k, count⟩ : ∃ k, args.length = k := ⟨_, rfl⟩
  cases p.course k with
  | misapplied _ ran =>
    rw [ran room call args count] at h
    cases h
  | calculates _ ran =>
    rw [ran room call args count] at h
    obtain ⟨xs, found, h⟩ := Except.exists_of_bind h
    exact isFinite_calculate (isFinite_numbers hargs found) (ok_of_numeric h)
  | length _ ran =>
    obtain ⟨v, rfl⟩ := List.length_eq_one_iff.mp count
    rw [ran] at h
    obtain ⟨items, -, h⟩ := Except.exists_of_bind h
    cases h
    rfl
  | compares other | tests other => cases arithmetic.symm.trans other
  | equal op | same op | cons op | car op | cdr op | append op | list op | apply op | map op
  | interrupt op => cases op ▸ arithmetic

private theorem finite_globals (next : Nat) : ∀ pair ∈ globals next, pair.2.Finite := by
  intro pair hp
  rcases List.mem_append.mp hp with hp | hp
  · obtain ⟨⟨p, k⟩, -, rfl⟩ := List.mem_map.mp hp
    rintro n ⟨⟩
  · simp only [List.mem_cons, List.not_mem_nil, or_false] at hp
    rcases hp with rfl | rfl | rfl
    · rintro n ⟨⟩
    · rintro n ⟨⟩
    · exact Value.finite_number.mpr (by decide +kernel)

end Primitive

def Invariant.finite : Invariant where
  World := Unit
  later _ _ := True
  holds _ := Value.Finite
  counts _ _ _ := True
  origin := ()
  later_refl _ := trivial
  later_trans _ _ := trivial
  holds_later _ h := h
  item h hv := Value.finite_list.mp h _ hv
  body h := Value.finite_procedure.mp h
  unit _ := by rintro n ⟨⟩
  bool _ b := by rintro n ⟨⟩
  symbol _ name := by rintro n ⟨⟩
  number h := Value.finite_number.mpr h
  arithmetic hop hargs h := Value.finite_number.mpr (Primitive.isFinite_run hop hargs h)
  start := trivial
  newList _ h := ⟨(), trivial, trivial, Value.finite_list.mpr h⟩
  newProcedure _ _ _ h := ⟨(), trivial, trivial, Value.finite_procedure.mpr h⟩
  load _ spelled := ⟨(), trivial, trivial, Value.finite_of_spells spelled _⟩
  globals _ := ⟨(), trivial, trivial, Primitive.finite_globals _⟩

/-- Every number in any binding is finite. -/
def Machine.Finite (m : Machine) : Prop :=
  ∀ f, ∀ pair ∈ m.store.bindings f, pair.2.Finite

private theorem Machine.finite_iff_sound {m : Machine} : m.Finite ↔ Invariant.finite.Sound () m :=
  ⟨fun h => ⟨trivial, h⟩, fun h => h.bound⟩

/-- What a call gives and leaves is finite, if what it begins with is. -/
theorem call_finite (depth : Nat) {f : Value} {args : List Value} {m : Machine} (hf : f.Finite)
    (hargs : ∀ v ∈ args, v.Finite) (hm : m.Finite) :
    (call depth f args m).2.Finite ∧ ∀ v, (call depth f args m).1 = .ok v → v.Finite := by
  obtain ⟨w', -, ended⟩ := Activity.exists_along (I := Invariant.finite) (a := .call f args) depth
    (Machine.finite_iff_sound.mp hm) (List.forall_mem_cons.mpr ⟨hf, hargs⟩)
  exact ⟨Machine.finite_iff_sound.mpr ended.machine, ended.result⟩

theorem Host.History.finite {threshold : Nat} {ms : List Moment} {h : Host}
    (history : History (start threshold) ms h) :
    (∀ μ ∈ ms, ∀ n, μ.Sees (.number n) → n.isFinite = true) ∧ h.machine.Finite ∧
      ∀ v, h.Handed v → v.Finite := by
  obtain ⟨w, along, rests⟩ := history.exists_along (holdsAt_start Invariant.finite threshold)
  refine ⟨fun μ hμ n seen => ?_, rests.machine.bound, fun v hv => hv.holds rests⟩
  obtain ⟨u, -, holds, -⟩ := along.holdsAt hμ
  exact Value.finite_number.mp (holds.sees seen)

/-- What is read from a text holds finite numbers only. A primitive procedure, called with values that
hold only such, gives such a value or fails. So at every moment of every history, failing forms
included, each number that can be met is finite: in what is evaluated, in results, in the bindings of
all frames, in lists at any depth and in the bodies of procedures. The running of a text, its evaluation
with recovery and a session are histories, in particular those in a fresh global frame. -/
theorem numbers_stay_finite :
    (∀ depth tokens d next, .ok d ∈ Datum.readings depth tokens → (Value.ofDatum next d).1.Finite) ∧
    (∀ (i : Identity) (p : Primitive) (depth : Nat) (args : List Value) (m : Machine),
      (∀ v ∈ args, v.Finite) → m.Finite →
        (call depth (.primitive i p) args m).2.Finite ∧
          ∀ v, (call depth (.primitive i p) args m).1 = .ok v → v.Finite) ∧
    (∀ (threshold : Nat) (ms : List Moment) (h : Host), Host.History (.start threshold) ms h →
      (∀ μ ∈ ms, ∀ n, μ.Sees (.number n) → n.isFinite = true) ∧ h.machine.Finite ∧
        (∀ v, h.Handed v → v.Finite) ∧
        ∀ (depth : Nat) (f : FrameId) (source : String),
          h.Traces Host.Handed (Program.run depth f source) ∧
          (∀ echo, h.Traces (fun _ _ => True) (Program.evalSource depth f echo source)) ∧
          ∀ prompts events, h.Traces (fun _ _ => True) (Session.run depth f prompts events)) ∧
    ∀ (threshold depth : Nat) (source : String),
      let r := Program.run depth 0 source ((Host.start threshold).did Action.newGlobals).machine
      r.2.Finite ∧ ∀ v, r.1 = .ok v → v.Finite := by
  refine ⟨fun depth tokens d next read => ?_, fun i p depth args m hargs hm => ?_,
    fun threshold ms h history => ?_, fun threshold depth source => ?_⟩
  · obtain ⟨form, spelled⟩ := Datum.spells_of_mem_readings read
    exact Value.finite_of_spells spelled next
  · have primitive : (Value.primitive i p).Finite := by rintro n ⟨⟩
    exact call_finite depth primitive hargs hm
  · obtain ⟨moments, machine, handed⟩ := history.finite
    exact ⟨moments, machine, handed, fun depth f source => ⟨.run h depth f source,
      fun echo => .evalSource h depth f echo source, .session h depth f⟩⟩
  · intro r
    obtain ⟨ms, h, history, machine, result⟩ :=
      Host.Traces.run ((Host.start threshold).did Action.newGlobals) depth 0 source
    have whole : Host.History (.start threshold) _ h := .cons (.globals _) history
    obtain ⟨-, finite, handed⟩ := whole.finite
    exact ⟨machine ▸ finite, fun v returned => handed v (result v returned)⟩

/-- A product beyond the finite numbers: its form fails, the name stays unbound, and what is bound
after it is finite. -/
theorem numbers_stay_finite_overflow :
    let globals := (Host.start 30).did Action.newGlobals
    let source := "(define x (* -1e308 10)) (define f (lambda (y) (list y 1e308)))"
    let r := Program.evalSource 20 0 false source globals.machine
    r.1.toOption = some 1 ∧ r.2.store.binds "x" 0 = false ∧ r.2.store.binds "f" 0 = true ∧
      r.2.Finite := by
  intro globals source r
  have reached : Host.History (.start 30) [.rests globals] globals := .cons (.globals _) (.nil _)
  obtain ⟨-, -, -, histories⟩ := numbers_stay_finite.2.2.1 30 _ globals reached
  obtain ⟨ms, h, history, machine, -⟩ := (histories 20 0 source).2.1 false
  obtain ⟨-, finite, -⟩ := numbers_stay_finite.2.2.1 30 _ h (reached.append history)
  exact ⟨by decide +kernel, by decide +kernel, by decide +kernel, machine ▸ finite⟩

end SmallScheme
