import SmallScheme.Proofs.Chronology
import SmallScheme.Proofs.Reading

/-!
Invariants of values. An invariant says what holds of every value that a program can meet and of the
numbers of objects there are, depending on a world that grows while the program runs. It has to hold of
the values that come from outside and of those that are made; then it holds at every moment of
every evaluation, in worlds that come one after the other.
-/

set_option autoImplicit false
set_option relaxedAutoImplicit false

namespace SmallScheme

structure Invariant where
  World : Type
  /-- The second world comes after the first. -/
  later : World → World → Prop
  holds : World → Value → Prop
  /-- What holds of how many objects stand in text and how many were made. -/
  counts : World → Nat → Nat → Prop
  origin : World
  later_refl : ∀ w, later w w
  later_trans : ∀ {u v w}, later u v → later v w → later u w
  holds_later : ∀ {w w' v}, later w w' → holds w v → holds w' v
  item : ∀ {w i items v}, holds w (.list i items) → v ∈ items → holds w v
  body : ∀ {w i params body f}, holds w (.procedure i params body f) → holds w body
  unit : ∀ w, holds w .unit
  bool : ∀ w b, holds w (.bool b)
  symbol : ∀ w name, holds w (.symbol name)
  number : ∀ {w n}, Number.isFinite n = true → holds w (.number n)
  arithmetic : ∀ {w room call p args m n}, Operation.isArithmetic p.operation = true →
    (∀ v ∈ args, holds w v) → (Primitive.run room call p args m).1 = .ok (.number n) →
    holds w (.number n)
  start : counts origin 0 0
  newList : ∀ {w written made items}, counts w written made → (∀ v ∈ items, holds w v) →
    ∃ w', later w w' ∧ counts w' written (made + 1) ∧ holds w' (.list (.made made) items)
  newProcedure : ∀ {w written made body} params f, counts w written made → holds w body →
    ∃ w', later w w' ∧ counts w' written (made + 1) ∧
      holds w' (.procedure (.made made) params body f)
  load : ∀ {w written made tokens d}, counts w written made → Datum.Spells tokens d →
    ∃ w', later w w' ∧ counts w' (Value.ofDatum written d).2 made ∧
      holds w' (Value.ofDatum written d).1
  globals : ∀ {w written made}, counts w written made →
    ∃ w', later w w' ∧ counts w' written (made + Primitive.standard.length) ∧
      ∀ pair ∈ Primitive.globals made, holds w' pair.2

namespace Invariant

variable (I : Invariant)

/-- The invariant holds of a machine: of its numbers of objects, and of whatever is bound. -/
structure Sound (w : I.World) (m : Machine) : Prop where
  counts : I.counts w m.store.written m.store.made
  bound : ∀ f, ∀ pair ∈ m.store.bindings f, I.holds w pair.2

variable {I} {w w' : I.World} {m : Machine}

theorem Sound.of_store {n : Machine} (h : I.Sound w m) (same : n.store = m.store) : I.Sound w n :=
  ⟨by rw [same]; exact h.counts, by rw [same]; exact h.bound⟩

private theorem Sound.define (h : I.Sound w m) (f : FrameId) (name : String) {v : Value}
    (hv : I.holds w v) : I.Sound w { m with store := m.store.define f name v } := by
  refine ⟨h.counts, fun g pair hp => ?_⟩
  rcases Store.mem_bindings_define hp with hp | rfl
  · exact h.bound g pair hp
  · exact hv

theorem Sound.addFrame (h : I.Sound w m) {bindings : Bindings} (outer : Option FrameId)
    (hb : ∀ pair ∈ bindings, I.holds w pair.2) :
    I.Sound w { m with store := (m.store.addFrame bindings outer).2 } := by
  refine ⟨h.counts, fun g pair hp => ?_⟩
  rcases Store.mem_bindings_addFrame hp with hp | hp
  · exact h.bound g pair hp
  · exact hb pair hp

theorem Sound.recount (h : I.Sound w m) (hw : I.later w w') {written made : Nat}
    (hc : I.counts w' written made) :
    I.Sound w' { m with store := { m.store with written, made } } :=
  ⟨hc, fun f pair hp => I.holds_later hw (h.bound f pair hp)⟩

def correspondence (I : Invariant) : Correspondence where
  World := I.World
  later := I.later
  machines w m m' := I.Sound w m ∧ m = m'
  values w v v' := I.holds w v ∧ v = v'
  frames _ := Eq
  data d := ∃ tokens, Datum.Spells tokens d
  excused _ := False
  later_refl := I.later_refl
  later_trans := I.later_trans
  values_later hw h := ⟨I.holds_later hw h.1, h.2⟩
  frames_later _ h := h
  alike := by
    rintro w v _ ⟨hv, rfl⟩
    cases v with
    | unit => exact .unit
    | bool b => exact .bool b
    | number n => exact .number n
    | symbol name => exact .symbol name
    | list i items => exact .list (List.forall₂_same.mpr fun u hu => ⟨I.item hv hu, rfl⟩)
    | procedure i params body f => exact .procedure ⟨I.body hv, rfl⟩ rfl
    | primitive i p => exact .primitive
  same := by
    rintro w a _ b _ ⟨-, rfl⟩ ⟨-, rfl⟩
    rfl
  unit w := ⟨I.unit w, rfl⟩
  bool w b := ⟨I.bool w b, rfl⟩
  number hop hargs result := ⟨I.arithmetic hop ((List.forall₂_and_left _ _).mp hargs).1 result, rfl⟩
  lookup := by
    rintro w m _ f _ name ⟨hm, rfl⟩ rfl -
    cases found : m.store.lookup? f name with
    | none => exact .none
    | some v =>
      obtain ⟨owner, -, bound⟩ := Store.mem_of_lookup? found
      exact .some ⟨hm.bound owner _ bound, rfl⟩
  owner := by
    rintro w m _ f _ name ⟨hm, rfl⟩ rfl -
    cases m.store.owner? f name with
    | none => exact .none
    | some owner => exact .some rfl
  describe := by
    rintro w m _ f _ ⟨-, rfl⟩ rfl
    rfl
  define := by
    rintro w m _ f _ name v _ ⟨hm, rfl⟩ rfl ⟨hv, rfl⟩ -
    exact ⟨w, I.later_refl w, hm.define f name hv, rfl⟩
  newFrame := by
    rintro w m _ i j params body _ f _ args args' ⟨hm, rfl⟩ ⟨-, same⟩ hargs -
    obtain ⟨-, -, -, rfl⟩ := Value.procedure.inj same
    obtain ⟨given, equal⟩ := (List.forall₂_and_left _ _).mp hargs
    obtain rfl : args = args' := by simpa using equal
    refine ⟨w, I.later_refl w, rfl, hm.addFrame (some f) fun pair hp => ?_, rfl⟩
    exact given pair.2 (List.of_mem_zip (Bindings.mem_ofList hp)).2
  newList := by
    rintro w m _ items items' ⟨hm, rfl⟩ hitems
    obtain ⟨given, equal⟩ := (List.forall₂_and_left _ _).mp hitems
    obtain rfl : items = items' := by simpa using equal
    obtain ⟨w', hw, counts, holds⟩ := I.newList hm.counts given
    exact ⟨w', hw, ⟨hm.recount hw counts, rfl⟩, holds, rfl⟩
  newProcedure := by
    rintro w m _ params body _ f _ ⟨hm, rfl⟩ ⟨hbody, rfl⟩ rfl -
    obtain ⟨w', hw, counts, holds⟩ := I.newProcedure params f hm.counts hbody
    exact ⟨w', hw, ⟨hm.recount hw counts, rfl⟩, holds, rfl⟩
  load := by
    rintro w m _ d ⟨hm, rfl⟩ ⟨tokens, spelled⟩
    obtain ⟨w', hw, counts, holds⟩ := I.load hm.counts spelled
    exact ⟨w', hw, ⟨hm.recount hw counts, rfl⟩, holds, rfl⟩
  report := by
    rintro w m _ severity message ⟨hm, rfl⟩
    exact ⟨w, I.later_refl w, hm.of_store rfl, rfl⟩
  emit := by
    rintro w m _ text ⟨hm, rfl⟩
    exact ⟨w, I.later_refl w, hm.of_store rfl, rfl⟩

structure Ended (I : Invariant) (w : I.World) (r : Except Failure Value × Machine) : Prop where
  machine : I.Sound w r.2
  result : ∀ v, r.1 = .ok v → I.holds w v

private theorem Ended.of_error {n : Machine} {failure : Failure} (h : I.Sound w n) :
    I.Ended w (.error failure, n) :=
  ⟨h, by rintro v ⟨⟩⟩

theorem exists_ended {r : Except Failure Value × Machine}
    (h : I.correspondence.Agrees w I.correspondence.values r r) :
    ∃ w', I.later w w' ∧ I.Ended w' r := by
  cases h with
  | ok hw hm hv =>
    refine ⟨_, hw, hm.1, ?_⟩
    rintro _ ⟨⟩
    exact hv.1
  | error hw hm => exact ⟨_, hw, .of_error hm.1⟩
  | excused impossible => exact impossible.elim

theorem forall₂_values {vs : List Value} (h : ∀ v ∈ vs, I.holds w v) :
    List.Forall₂ (I.correspondence.values w) vs vs :=
  List.forall₂_same.mpr fun v hv => ⟨h v hv, rfl⟩

/-- The invariant holds of what is met at a moment. -/
structure HoldsAt (I : Invariant) (w : I.World) (μ : Moment) : Prop where
  machine : I.Sound w μ.machine
  atHand : ∀ v ∈ μ.atHand, I.holds w v

private theorem holds_of_occurs {u v : Value} (h : u.Occurs v) (hv : I.holds w v) :
    I.holds w u := by
  induction h with
  | self => exact hv
  | item hw _ ih => exact ih (I.item hv hw)
  | body _ ih => exact ih (I.body hv)

theorem HoldsAt.sees {μ : Moment} {u : Value} (h : I.HoldsAt w μ) (seen : μ.Sees u) :
    I.holds w u := by
  rcases seen with ⟨v, hv, occurs⟩ | ⟨f, pair, hp, occurs⟩
  · exact holds_of_occurs occurs (h.atHand v hv)
  · exact holds_of_occurs occurs (h.machine.bound f pair hp)

/-- The invariant holds at moments that come one after the other, from the first world to the second. -/
inductive Along (I : Invariant) : I.World → List Moment → I.World → Prop
  | nil {w w' : I.World} : I.later w w' → Along I w [] w'
  | cons {w u w' : I.World} {μ : Moment} {ms : List Moment} : I.later w u → I.HoldsAt u μ →
      Along I u ms w' → Along I w (μ :: ms) w'

namespace Along

variable {u : I.World} {ms ns : List Moment} {μ ν : Moment}

theorem later (h : I.Along w ms w') : I.later w w' := by
  induction h with
  | nil hw => exact hw
  | cons hw _ _ ih => exact I.later_trans hw ih

private theorem earlier (hw : I.later u w) (h : I.Along w ms w') : I.Along u ms w' := by
  cases h with
  | nil h => exact .nil (I.later_trans hw h)
  | cons h hμ rest => exact .cons (I.later_trans hw h) hμ rest

theorem append (h : I.Along w ms u) (h' : I.Along u ns w') : I.Along w (ms ++ ns) w' := by
  induction h with
  | nil hw => exact h'.earlier hw
  | cons hw hμ _ ih => exact .cons hw hμ (ih h')

private theorem single (hw : I.later w w') (h : I.HoldsAt w' μ) : I.Along w [μ] w' :=
  .cons hw h (.nil (I.later_refl w'))

theorem holdsAt (h : I.Along w ms w') (hμ : μ ∈ ms) :
    ∃ u, I.later w u ∧ I.HoldsAt u μ ∧ I.later u w' := by
  induction h with
  | nil => simp at hμ
  | cons hw first rest ih =>
    rcases List.mem_cons.mp hμ with rfl | hμ
    · exact ⟨_, hw, first, rest.later⟩
    · obtain ⟨u, hu, holds, last⟩ := ih hμ
      exact ⟨u, I.later_trans hw hu, holds, last⟩

theorem holdsAt_of_le (h : I.Along w ms w') {j k : Nat} (order : j ≤ k) (hj : ms[j]? = some μ)
    (hk : ms[k]? = some ν) : ∃ u v, I.HoldsAt u μ ∧ I.later u v ∧ I.HoldsAt v ν := by
  induction h generalizing j k with
  | nil => simp at hj
  | @cons w x w' first ms hw holds rest ih =>
    cases k with
    | zero =>
      cases Nat.le_zero.mp order
      obtain rfl : first = μ := by simpa using hj
      obtain rfl : first = ν := by simpa using hk
      exact ⟨x, x, holds, I.later_refl x, holds⟩
    | succ k =>
      have hk : ms[k]? = some ν := by simpa using hk
      cases j with
      | zero =>
        obtain rfl : first = μ := by simpa using hj
        obtain ⟨v, hv, second, -⟩ := rest.holdsAt (List.mem_of_getElem? hk)
        exact ⟨x, v, holds, hv, second⟩
      | succ j => exact ih (Nat.le_of_succ_le_succ order) (by simpa using hj) hk

end Along

end Invariant

namespace Plan

variable {I : Invariant} {w w' : I.World} {m : Machine}

/-- A plan that keeps the invariant, if what it asks for does. -/
def Follows (I : Invariant) : Plan → I.World → Prop
  | .finish x, w => ∀ m, I.Sound w m →
      I.correspondence.Agrees w I.correspondence.values (x m) (x m)
  | .enter x next, w =>
      (∀ m, I.Sound w m → I.correspondence.Agrees w I.correspondence.frames (x m) (x m)) ∧
        ∀ u f, I.later w u → (next f).Follows I u
  | .ask a next, w =>
      (∀ v ∈ a.values, I.holds w v) ∧ ∀ u v, I.later w u → I.holds u v → (next v).Follows I u

private theorem follows_result {a : Activity} (h : ∀ v ∈ a.values, I.holds w v) :
    (result a).Follows I w :=
  ⟨h, fun _ _ _ hv _ hm => .pure ⟨hm, rfl⟩ ⟨hv, rfl⟩⟩

private theorem follows_each {next : List Value → Plan} {as : List Activity}
    (h : ∀ a ∈ as, ∀ v ∈ a.values, I.holds w v)
    (hnext : ∀ u vs, I.later w u → (∀ v ∈ vs, I.holds u v) → (next vs).Follows I u) :
    (each next as).Follows I w := by
  induction as generalizing w next with
  | nil => exact hnext w [] (I.later_refl w) (by simp)
  | cons a as ih =>
    obtain ⟨first, others⟩ := List.forall_mem_cons.mp h
    refine ⟨first, fun u v hu hv => ih (fun b hb x hx => I.holds_later hu (others b hb x hx)) ?_⟩
    intro x vs hx hvs
    refine hnext x (v :: vs) (I.later_trans hu hx) ?_
    exact List.forall_mem_cons.mpr ⟨I.holds_later hx hv, hvs⟩

private theorem follows_last {v : Value} {as : List Activity}
    (h : ∀ a ∈ as, ∀ v ∈ a.values, I.holds w v)
    (hv : I.holds w v) : (last v as).Follows I w := by
  induction as generalizing w v with
  | nil => exact fun m hm => .pure ⟨hm, rfl⟩ ⟨hv, rfl⟩
  | cons a as ih =>
    obtain ⟨first, others⟩ := List.forall_mem_cons.mp h
    exact ⟨first, fun u x hu hx => ih (fun b hb y hy => I.holds_later hu (others b hb y hy)) hx⟩

private theorem noEval_agrees : I.correspondence.EvalsAgree noEval noEval :=
  fun hm _ _ => .fail _ hm

private theorem noCall_agrees : I.correspondence.CallsAgree noCall noCall :=
  fun hm _ _ => .fail _ hm

private theorem follows_ofForm (room : Nat) (frame : FrameId) {form : Form}
    (h : I.correspondence.FormsAgree w form form) : (ofForm room frame form).Follows I w := by
  have alone : ∀ m, I.Sound w m → I.correspondence.Agrees w I.correspondence.values
      (Eval.form room noEval noCall frame form m) (Eval.form room noEval noCall frame form m) :=
    fun m hm => Correspondence.form_agrees noEval_agrees noCall_agrees (.refl room) ⟨hm, rfl⟩ rfl h
  have noted {u : I.World} {v : Value} {m m' : Machine} (hm : I.correspondence.machines u m m')
      (hv : I.correspondence.values u v v) : I.correspondence.Agrees u (fun _ => Eq)
        (Action.lift (v.literal room) m) (Action.lift (v.literal room) m') :=
    .lift hm (Correspondence.write_settles .literal hv (.refl room))
  cases h with
  | conditional test consequent alternative =>
    refine ⟨by simpa [Activity.values] using test.1, fun u v hu _ => follows_result ?_⟩
    simp only [Activity.values, List.mem_singleton, forall_eq]
    split
    · exact I.holds_later hu consequent.1
    · exact I.holds_later hu alternative.1
  | assignment hname he =>
    refine ⟨by simpa [Activity.values] using he.1, fun u v hu hv m hm => ?_⟩
    have hname := I.correspondence.values_later hu hname
    simp only [Eval.form, pure_bind]
    refine (Correspondence.Agrees.assign (C := I.correspondence) ⟨hm, rfl⟩ rfl ⟨hv, rfl⟩ hname).bind
      fun x _ _ n n' hx hn _ => ?_
    refine (noted hn ⟨I.holds_later hx hv, rfl⟩).bind fun y text _ o o' _ ho same => ?_
    subst same
    exact (Correspondence.Agrees.report .debug _ ho).bind fun z _ _ q q' _ hq _ =>
      .pure hq (I.correspondence.unit z)
  | definition hname he =>
    refine ⟨by simpa [Activity.values] using he.1, fun u v hu hv m hm => ?_⟩
    have hname := I.correspondence.values_later hu hname
    simp only [Eval.form, pure_bind]
    refine (Correspondence.Agrees.define (C := I.correspondence) ⟨hm, rfl⟩ rfl ⟨hv, rfl⟩ hname).bind
      fun x _ _ n n' hx hn _ => ?_
    refine (noted hn ⟨I.holds_later hx hv, rfl⟩).bind fun y text _ o _ _ ho same => ?_
    subst same
    obtain ⟨sound, rfl⟩ := ho
    exact (Correspondence.Agrees.report (C := I.correspondence) .debug _ ⟨sound, rfl⟩).bind
      fun z _ _ q q' _ hq _ => .pure hq (I.correspondence.unit z)
  | sequence hes =>
    refine follows_last ?_ (I.unit w)
    simpa [Activity.values] using ((List.forall₂_and_left _ _).mp hes).1
  | application hg hes =>
    refine ⟨by simpa [Activity.values] using hg.1, fun u f hu hf => follows_each ?_ ?_⟩
    · simpa [Activity.values] using fun e he =>
        I.holds_later hu (((List.forall₂_and_left _ _).mp hes).1 e he)
    · intro x vs hx hvs
      exact follows_result (List.forall_mem_cons.mpr ⟨I.holds_later hx hf, hvs⟩)
  | _ => exact alone

private theorem follows_ofPrimitive (room : Nat) (p : Primitive) {args : List Value}
    (h : ∀ v ∈ args, I.holds w v) :
    (ofPrimitive room p args).Follows I w := by
  have native : ∀ m, I.Sound w m → I.correspondence.Agrees w I.correspondence.values
      (p.run room noCall args m) (p.run room noCall args m) := fun m hm =>
    Correspondence.run_agrees p ⟨hm, rfl⟩ (.refl room) noCall_agrees (Invariant.forall₂_values h)
  unfold ofPrimitive
  split
  · rename_i f a _
    obtain ⟨hf, ha, -⟩ : I.holds w f ∧ I.holds w a ∧ True := by simpa using h
    split
    · rename_i items _ found
      have given := Correspondence.items_settles (C := I.correspondence) p.name ⟨ha, rfl⟩
        (.refl room)
      rw [found] at given
      cases given with
      | ok hitems =>
        exact follows_result (List.forall_mem_cons.mpr ⟨hf, ((List.forall₂_and_left _ _).mp hitems).1⟩)
    · exact native
  · rename_i f row rows _
    obtain ⟨hf, hrows⟩ := List.forall_mem_cons.mp h
    split
    · rename_i first others _ found
      have given := Correspondence.Settles.mapM (Invariant.forall₂_values hrows)
        fun _ _ hv => Correspondence.items_settles p.name hv (.refl room)
      rw [found] at given
      split
      · cases given with
        | ok htables =>
          refine follows_each ?_ fun u vs _ hvs m hm => ?_
          · intro a ha
            obtain ⟨column, hcolumn, rfl⟩ := List.mem_map.mp ha
            refine List.forall_mem_cons.mpr ⟨hf, fun v hv => ?_⟩
            obtain ⟨table, htable, hv⟩ := BigStep.mem_columns hcolumn hv
            have items := List.forall₂_same.mp htables table htable
            exact (List.forall₂_same.mp items v hv).1
          · exact .newList ⟨hm, rfl⟩ (Invariant.forall₂_values hvs)
      · exact native
    · exact native
  · exact native

/-- The plan of an activity keeps the invariant. -/
theorem follows_ofActivity (room : Nat) {a : Activity} (h : ∀ v ∈ a.values, I.holds w v) :
    (ofActivity room a).Follows I w := by
  unfold ofActivity
  split
  · rename_i i head rest frame
    have list : I.holds w (.list i (head :: rest)) := by simpa [Activity.values] using h
    refine follows_ofForm room frame (Correspondence.ofList_agrees ⟨?_, rfl⟩ ?_)
    · exact I.item list List.mem_cons_self
    · exact Invariant.forall₂_values fun v hv => I.item list (List.mem_cons_of_mem head hv)
  · rename_i e frame _
    have given : I.holds w e := by simpa [Activity.values] using h
    exact fun m hm => Correspondence.expression_agrees noEval_agrees noCall_agrees (.refl room)
      ⟨hm, rfl⟩ ⟨given, rfl⟩ rfl
  · rename_i i params body outer args
    obtain ⟨hf, hargs⟩ := List.forall_mem_cons.mp h
    refine ⟨fun m hm => .enter (i := i) (j := i) ⟨hm, rfl⟩ ⟨hf, rfl⟩ (Invariant.forall₂_values hargs),
      fun u inner hu => follows_result ?_⟩
    simpa [Activity.values] using I.holds_later hu (I.body hf)
  · rename_i i p args
    obtain ⟨hf, hargs⟩ := List.forall_mem_cons.mp h
    split
    · exact follows_ofPrimitive room p hargs
    · exact fun m hm => Correspondence.application_agrees noEval_agrees noCall_agrees (.refl room)
        ⟨hm, rfl⟩ ⟨hf, rfl⟩ (Invariant.forall₂_values hargs)
  · obtain ⟨hf, hargs⟩ := List.forall_mem_cons.mp h
    exact fun m hm => Correspondence.application_agrees noEval_agrees noCall_agrees (.refl room)
      ⟨hm, rfl⟩ ⟨hf, rfl⟩ (Invariant.forall₂_values hargs)

theorem exists_along {perform : Activity → Action Value} {inner : Activity → Machine → List Moment}
    (asked : ∀ {w a m}, I.Sound w m → (∀ v ∈ a.values, I.holds w v) →
      ∃ w', I.Along w (inner a m) w' ∧ I.Ended w' (perform a m))
    {plan : Plan} (h : plan.Follows I w) (hm : I.Sound w m) :
    ∃ w', I.Along w (plan.moments perform inner m) w' ∧ I.Ended w' (plan.run perform m) := by
  induction plan generalizing w m with
  | finish x =>
    obtain ⟨w', hw, ended⟩ := Invariant.exists_ended (h m hm)
    exact ⟨w', .nil hw, ended⟩
  | enter x next ih =>
    have entered := h.1 m hm
    simp only [moments, run, Action.bind_apply]
    generalize x m = r at entered
    cases entered with
    | ok hu hn _ =>
      obtain ⟨w', along, ended⟩ := ih _ (h.2 _ _ hu) hn.1
      exact ⟨w', along.earlier hu, ended⟩
    | error hu hn => exact ⟨_, .nil hu, .of_error hn.1⟩
    | excused impossible => exact impossible.elim
  | ask a next ih =>
    obtain ⟨u, first, ended⟩ := asked hm h.1
    simp only [moments, run, Action.bind_apply]
    generalize perform a m = r at ended
    obtain ⟨failure | v, n⟩ := r
    · exact ⟨u, by simpa using first, .of_error ended.machine⟩
    · obtain ⟨w', rest, last⟩ := ih v (h.2 u v first.later (ended.result v rfl)) ended.machine
      exact ⟨w', first.append rest, last⟩

end Plan

namespace Activity

variable {I : Invariant} {w : I.World} {a : Activity} {m : Machine}

/-- The invariant holds at every moment of an activity that begins with values that it holds of. -/
theorem exists_along (depth : Nat) (hm : I.Sound w m) (h : ∀ v ∈ a.values, I.holds w v) :
    ∃ w', I.Along w (a.moments depth m) w' ∧ I.Ended w' (a.perform depth m) := by
  induction depth generalizing w a m with
  | zero =>
    rw [perform_zero]
    have ends : I.HoldsAt w (.ends a (.error .depthExhausted) m) := ⟨hm, h⟩
    exact ⟨w, .cons (I.later_refl w) ⟨hm, h⟩ (.single (I.later_refl w) ends), .of_error hm⟩
  | succ depth ih =>
    obtain ⟨w', along, ended⟩ := Plan.exists_along ih (Plan.follows_ofActivity depth h) hm
    rw [Plan.run_ofActivity] at ended
    have begun : ∀ v ∈ a.values, I.holds w' v := fun v hv => I.holds_later along.later (h v hv)
    have ends : I.HoldsAt w' (.ends a (a.perform (depth + 1) m).1 (a.perform (depth + 1) m).2) := by
      obtain ⟨machine, result⟩ := ended
      refine ⟨machine, ?_⟩
      cases outcome : (a.perform (depth + 1) m).1 with
      | error failure => exact begun
      | ok v => exact List.forall_mem_cons.mpr ⟨result v outcome, begun⟩
    exact ⟨w', .cons (I.later_refl w) ⟨hm, h⟩ (along.append (.single (I.later_refl w') ends)), ended⟩

end Activity

end SmallScheme
