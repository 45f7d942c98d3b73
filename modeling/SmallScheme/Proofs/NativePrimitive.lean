import SmallScheme.Proofs.BigStep.Forms
import SmallScheme.Proofs.WellFormed

/-!
Primitives that call nothing. What such a primitive gives is computed from its arguments alone: a value,
or the items of a new list. With enough room the outcome is always the same, and it is not that of running
out. Nothing is in the result but numbers, truth values and what is in the arguments.
-/

set_option autoImplicit false
set_option relaxedAutoImplicit false

namespace SmallScheme

variable {α β : Type}

/-- A computation that is given room. With enough of it the outcome is one and the same, and not that of
running out; and what it gives with any room has the property. -/
structure Settled (P : α → Prop) (x : Nat → Except Failure α) : Prop where
  eventually : ∃ out, out ≠ .error .depthExhausted ∧ ∃ least, ∀ room, least ≤ room → x room = out
  holds : ∀ room a, x room = .ok a → P a

namespace Settled

variable {P : α → Prop} {Q : β → Prop} {x : Nat → Except Failure α}

private theorem ok {a : α} (h : P a) : Settled P fun _ => .ok a where
  eventually := ⟨.ok a, nofun, 0, fun _ _ => rfl⟩
  holds := by
    rintro _ _ ⟨⟩
    exact h

private theorem error {failure : Failure} (finished : failure ≠ .depthExhausted) :
    Settled P fun _ => .error failure where
  eventually := ⟨_, fun h => finished (Except.error.inj h), 0, fun _ _ => rfl⟩
  holds := nofun

private theorem bind {f : Nat → α → Except Failure β} (hx : Settled P x)
    (hf : ∀ a, P a → Settled Q fun room => f room a) : Settled Q fun room => x room >>= f room where
  eventually := by
    obtain ⟨out, finished, least, h⟩ := hx.eventually
    cases out with
    | error failure =>
      refine ⟨.error failure, fun he => finished (congrArg _ (Except.error.inj he)), least, ?_⟩
      intro room hroom
      rw [h room hroom]
      rfl
    | ok a =>
      obtain ⟨out, finished, least', h'⟩ := (hf a (hx.holds least a (h least (Nat.le_refl _)))).eventually
      refine ⟨out, finished, max least least', fun room hroom => ?_⟩
      rw [h room (Nat.le_trans (Nat.le_max_left _ _) hroom)]
      exact h' room (Nat.le_trans (Nat.le_max_right _ _) hroom)
  holds := by
    intro room b given
    cases ha : x room with
    | error failure =>
      rw [ha] at given
      cases given
    | ok a =>
      rw [ha] at given
      exact (hf a (hx.holds room a ha)).holds room b given

theorem mono {Q : α → Prop} (hx : Settled P x) (imp : ∀ a, P a → Q a) : Settled Q x :=
  ⟨hx.eventually, fun room a given => imp a (hx.holds room a given)⟩

private theorem map {f : α → β} (hx : Settled P x) (hf : ∀ a, P a → Q (f a)) :
    Settled Q fun room => do return f (← x room) :=
  hx.bind fun a ha => .ok (hf a ha)

theorem mapM {f : Nat → α → Except Failure β} {xs : List α}
    (hf : ∀ a ∈ xs, Settled Q fun room => f room a) :
    Settled (fun bs => ∀ b ∈ bs, Q b) fun room => xs.mapM (f room) := by
  induction xs with
  | nil => exact .ok (by simp)
  | cons a xs ih =>
    obtain ⟨first, others⟩ := List.forall_mem_cons.mp hf
    simp only [List.mapM_cons]
    refine first.bind fun b hb => (ih others).bind fun bs hbs => .ok ?_
    exact List.forall_mem_cons.mpr ⟨hb, hbs⟩

private theorem succ (fails : ∀ a, x 0 ≠ .ok a) (h : Settled P fun room => x (room + 1)) :
    Settled P x where
  eventually := by
    obtain ⟨out, finished, least, h⟩ := h.eventually
    refine ⟨out, finished, least + 1, fun room hroom => ?_⟩
    cases room with
    | zero => exact absurd hroom (Nat.not_succ_le_zero least)
    | succ room => exact h room (Nat.le_of_succ_le_succ hroom)
  holds := by
    intro room a given
    cases room with
    | zero => exact absurd given (fails a)
    | succ room => exact h.holds room a given

theorem literal (v : Value) : Settled (fun _ => True) fun room => v.literal room where
  eventually := ⟨v.spelling .literal, BigStep.spelling_finished .literal v, v.nesting + 1,
    fun _ hroom => Value.write_eq_spelling .literal v hroom⟩
  holds _ _ _ := trivial

theorem complain (e : String → Error) (v : Value) :
    Settled P fun room => Primitive.complain room e v :=
  (literal v).bind fun _ _ => .error nofun

private theorem number (callee : String) (v : Value) :
    Settled (fun _ => True) fun room => Primitive.number room callee v := by
  cases v with
  | number n => exact .ok trivial
  | _ => exact complain _ _

private theorem numbers (callee : String) (args : List Value) :
    Settled (fun _ => True) fun room => Primitive.numbers room callee args :=
  (mapM (Q := fun _ => True) fun v _ => number callee v).mono fun _ _ => trivial

theorem items (callee : String) (v : Value) :
    Settled (fun items => ∃ i, v = .list i items) fun room => Primitive.items room callee v := by
  cases v with
  | list i items => exact .ok ⟨i, rfl⟩
  | _ => exact complain _ _

theorem procedure (callee : String) (v : Value) :
    Settled (fun _ => True) fun room => Primitive.procedure room callee v := by
  unfold Primitive.procedure
  split
  · exact .ok trivial
  · exact complain _ _

private theorem numeric (callee : String) (r : Except NumericFault Number) :
    Settled (fun v => ∃ n, v = .number n) fun _ => Primitive.numeric callee r := by
  cases r with
  | error fault => exact .error nofun
  | ok n => exact .ok ⟨n, rfl⟩

mutual

private theorem equal (a b : Value) : Settled (fun _ => True) fun room => a.equal room b := by
  refine succ nofun ?_
  match a, b with
  | .list _ xs, .list _ ys =>
    simp only [Value.equal]
    split
    · exact equalEach xs ys
    · exact .ok trivial
  | .unit, _ | .bool _, _ | .number _, _ | .symbol _, _ | .procedure _ _ _ _, _ | .primitive _ _, _
  | .list _ _, .unit | .list _ _, .bool _ | .list _ _, .number _ | .list _ _, .symbol _
  | .list _ _, .procedure _ _ _ _ | .list _ _, .primitive _ _ => exact .ok trivial

private theorem equalEach (xs ys : List Value) :
    Settled (fun _ => True) fun room => (xs.zip ys).allM fun pair => pair.1.equal room pair.2 := by
  match xs, ys with
  | [], _ => exact .ok trivial
  | _ :: _, [] => exact .ok trivial
  | x :: xs, y :: ys =>
    simp only [List.zip_cons_cons, List.allM_cons]
    refine (equal x y).bind fun same _ => ?_
    cases same with
    | true => exact equalEach xs ys
    | false => exact .ok trivial

end

end Settled

/-- What a primitive that calls nothing gives: a value, or a new list of the items. -/
inductive Product where
  | value (v : Value)
  | list (items : List Value)

namespace Product

def values : Product → List Value
  | .value v => [v]
  | .list items => items

def deliver : Product → Action Value
  | .value v => return v
  | .list items => Action.newList items

end Product

/-- The value is a number or a truth value, or it is somewhere in one of the arguments. -/
inductive Value.From (args : List Value) : Value → Prop
  | bool (b : Bool) : From args (.bool b)
  | number (n : Number) : From args (.number n)
  | part {a v : Value} : a ∈ args → v.Occurs a → From args v

theorem Value.From.eachProcedure {Q : Value → FrameId → Prop} {args : List Value} {v : Value}
    (h : v.From args) (given : ∀ a ∈ args, a.EachProcedure Q) : v.EachProcedure Q := by
  cases h with
  | bool b => exact .atom rfl nofun
  | number n => exact .atom rfl nofun
  | part ha occurs => exact (given _ ha).occurs occurs

/-- With any room the action delivers what is computed from the arguments alone. -/
def Delivers (args : List Value) (x : Nat → Action Value) : Prop :=
  ∃ y : Nat → Except Failure Product,
    Settled (fun product => ∀ v ∈ product.values, v.From args) y ∧
      ∀ room, x room = (do (← Action.lift (y room)).deliver)

namespace Delivers

variable {args : List Value}

private theorem fail {failure : Failure} (finished : failure ≠ .depthExhausted) :
    Delivers args fun _ => Action.fail failure :=
  ⟨_, .error finished, fun _ => rfl⟩

private theorem pure {v : Value} (h : v.From args) : Delivers args fun _ => return v :=
  ⟨fun _ => .ok (.value v), .ok (List.forall_mem_singleton.mpr h), fun _ => rfl⟩

private theorem newList {items : List Value} (h : ∀ v ∈ items, v.From args) :
    Delivers args fun _ => Action.newList items :=
  ⟨fun _ => .ok (.list items), .ok h, fun _ => rfl⟩

private theorem bind {P : α → Prop} {x : Nat → Except Failure α} {k : α → Action Value}
    (hx : Settled P x) (hk : ∀ a, P a → Delivers args fun _ => k a) :
    Delivers args fun room => Action.lift (x room) >>= k := by
  have computed : ∀ a, ∃ y : Nat → Except Failure Product, P a →
      Settled (fun product => ∀ v ∈ product.values, v.From args) y ∧
        ∀ room, k a = (do (← Action.lift (y room)).deliver) := by
    intro a
    by_cases ha : P a
    · obtain ⟨y, hy⟩ := hk a ha
      exact ⟨y, fun _ => hy⟩
    · exact ⟨fun _ => .error .depthExhausted, fun h => absurd h ha⟩
  choose y hy using computed
  refine ⟨fun room => x room >>= fun a => y a room, hx.bind fun a ha => (hy a ha).1, fun room => ?_⟩
  beta_reduce
  cases hroom : x room with
  | error failure => rfl
  | ok a => exact (hy a (hx.holds room a hroom)).2 room

private theorem lift {x : Nat → Except Failure Value} (h : Settled (Value.From args) x) :
    Delivers args fun room => Action.lift (x room) := by
  have delivered := bind h fun v hv => pure hv
  simpa only [bind_pure] using delivered

end Delivers

namespace Primitive

variable {args : List Value}

private theorem from_items {a : Value} {items : List Value} (ha : a ∈ args)
    (h : ∃ i, a = .list i items) : ∀ v ∈ items, v.From args := by
  obtain ⟨i, rfl⟩ := h
  exact fun v hv => .part ha (.item hv (.self v))

private theorem from_number {v : Value} (h : ∃ n, v = .number n) : v.From args := by
  obtain ⟨n, rfl⟩ := h
  exact .number n

/-- A primitive delivers what it computes from its arguments, or it calls the first of them: once, on
the items of the second, or on the columns of the others. -/
theorem run_cases (p : Primitive) (args : List Value)
    (call : Nat → Value → List Value → Action Value) :
    (Delivers args fun room => p.run room (call room) args) ∨
      (∃ f a, args = [f, a] ∧ ∀ room, p.run room (call room) args = (do
        Action.lift (procedure room p.name f)
        call room f (← Action.lift (items room p.name a)))) ∨
      ∃ f rows, args = f :: rows ∧
        ∀ room, p.run room (call room) args = mapped room p.name (call room) f rows := by
  have number := Settled.numbers p.name args
  have items {a : Value} (h : a ∈ args) := (Settled.items p.name a).mono fun _ => from_items h
  obtain ⟨n, count⟩ : ∃ n, args.length = n := ⟨_, rfl⟩
  cases p.course n with
  | apply _ ran =>
    obtain ⟨f, a, rfl⟩ := List.length_eq_two.mp count
    exact .inr (.inl ⟨f, a, rfl, fun room => ran room (call room) f a⟩)
  | map _ ran =>
    obtain ⟨f, others, rfl⟩ := List.exists_of_length_succ args count
    obtain ⟨row, rows, rfl⟩ := List.exists_of_length_succ others (Nat.succ.inj count)
    exact .inr (.inr ⟨f, row :: rows, rfl, fun room => ran room (call room) f row rows⟩)
  | misapplied _ ran =>
    simp only [ran _ _ args count]
    exact .inl (.fail (by rintro ⟨⟩))
  | calculates _ ran =>
    simp only [ran _ _ args count]
    have computed (r : Except NumericFault Number) :=
      (Settled.numeric p.name r).mono fun v hv => (from_number hv : v.From args)
    exact .inl (.lift (number.bind fun _ _ => computed _))
  | compares _ ran =>
    simp only [ran _ _ args count]
    exact .inl (.lift (number.map fun _ _ => .bool _))
  | equal _ ran =>
    obtain ⟨a, b, rfl⟩ := List.length_eq_two.mp count
    simp only [ran]
    exact .inl (.lift ((Settled.equal a b).map fun _ _ => .bool _))
  | same _ ran =>
    obtain ⟨a, b, rfl⟩ := List.length_eq_two.mp count
    simp only [ran]
    exact .inl (.pure (.bool _))
  | tests _ _ ran =>
    obtain ⟨a, rfl⟩ := List.length_eq_one_iff.mp count
    simp only [ran]
    exact .inl (.pure (.bool _))
  | cons _ ran =>
    obtain ⟨a, rest, rfl⟩ := List.length_eq_two.mp count
    simp only [ran]
    refine .inl (.bind (items (by simp)) fun rest hrest => .newList ?_)
    exact List.forall_mem_cons.mpr ⟨.part List.mem_cons_self (.self a), hrest⟩
  | car _ ran =>
    obtain ⟨a, rfl⟩ := List.length_eq_one_iff.mp count
    simp only [ran]
    refine .inl (.bind (items List.mem_cons_self) fun parts hparts => ?_)
    cases parts with
    | nil => exact .fail (by rintro ⟨⟩)
    | cons first _ => exact .pure (hparts first List.mem_cons_self)
  | cdr _ ran =>
    obtain ⟨a, rfl⟩ := List.length_eq_one_iff.mp count
    simp only [ran]
    refine .inl (.bind (items List.mem_cons_self) fun parts hparts => ?_)
    cases parts with
    | nil => exact .fail (by rintro ⟨⟩)
    | cons _ rest => exact .newList fun v hv => hparts v (List.mem_cons_of_mem _ hv)
  | append _ ran =>
    simp only [ran]
    have tables := Settled.mapM fun a ha => items ha
    refine .inl (.bind tables fun tables htables => .newList fun v hv => ?_)
    obtain ⟨table, htable, hv⟩ := List.mem_flatten.mp hv
    exact htables table htable v hv
  | list _ ran =>
    simp only [ran]
    exact .inl (.newList fun v hv => .part hv (.self v))
  | length _ ran =>
    obtain ⟨a, rfl⟩ := List.length_eq_one_iff.mp count
    simp only [ran]
    exact .inl (.lift ((items List.mem_cons_self).map fun _ _ => .number _))
  | interrupt _ ran =>
    simp only [ran]
    exact .inl (.fail (by rintro ⟨⟩))

end Primitive

end SmallScheme
