import SmallScheme.Proofs.BigStep.Adequacy
import SmallScheme.Proofs.Finiteness
import SmallScheme.Proofs.Place

/-!
The identity of objects. At any moment certain objects exist, each under an identity of its own; they
stay what they are, and what is made gets an identity that none of them has. So two objects that
are the same are equal in all their parts, whenever they are met, and what a list operation or an
abstraction gives is the same as nothing that was there before.
-/

set_option autoImplicit false
set_option relaxedAutoImplicit false

namespace SmallScheme

/-- The identity is one of the first so many in text, or of the first so many made. -/
def Identity.Before (written made : Nat) : Identity → Prop
  | .written n => n < written
  | .made n => n < made

theorem Identity.Before.mono {written made written' made' : Nat} {i : Identity}
    (h : i.Before written made) (hw : written ≤ written') (hm : made ≤ made') :
    i.Before written' made' := by
  cases i with
  | written n => exact Nat.lt_of_lt_of_le h hw
  | made n => exact Nat.lt_of_lt_of_le h hm

namespace Value

/-- The identity of an object; other values have none. -/
def identity? : Value → Option Identity
  | .list i _ => some i
  | .procedure i _ _ _ => some i
  | .primitive i _ => some i
  | _ => none

theorem exists_of_isList {v : Value} (h : v.isList = true) : ∃ i items, v = .list i items := by
  cases v with
  | list i items => exact ⟨i, items, rfl⟩
  | _ => cases h

/-- Objects that are the same have one identity. -/
theorem identity?_eq_of_same {u v : Value} (h : u.same v = true) : u.identity? = v.identity? := by
  cases u <;> cases v <;> simp_all [same, identity?]

theorem Occurs.trans {u v w : Value} (h : u.Occurs v) (h' : v.Occurs w) : u.Occurs w := by
  induction h' with
  | self => exact h
  | item hw _ ih => exact .item hw ih
  | body _ ih => exact .body ih

end Value

/-- The objects that exist, when there are so many in text and so many made. -/
structure Coherent (exist : Value → Prop) (written made : Nat) : Prop where
  issued : ∀ {v i}, exist v → v.identity? = some i → i.Before written made
  /-- An identity stands for one object. -/
  unique : ∀ {u v i}, exist u → exist v → u.identity? = some i → v.identity? = some i → u = v

private theorem Coherent.extend {exist new : Value → Prop} {written made written' made' : Nat}
    (h : Coherent exist written made) (hw : written ≤ written') (hm : made ≤ made')
    (issued : ∀ {v i}, new v → v.identity? = some i →
      ¬ i.Before written made ∧ i.Before written' made')
    (unique : ∀ {u v i}, new u → new v → u.identity? = some i → v.identity? = some i → u = v) :
    Coherent (fun v => exist v ∨ new v) written' made' := by
  constructor
  · rintro v i (he | hn) hi
    · exact (h.issued he hi).mono hw hm
    · exact (issued hn hi).2
  · rintro u v i (hu | hu) (hv | hv) hi hj
    · exact h.unique hu hv hi hj
    · exact absurd (h.issued hu hi) (issued hv hj).1
    · exact absurd (h.issued hv hj) (issued hu hi).1
    · exact unique hu hv hi hj

/-- All objects in a value exist. -/
def Value.ExistsIn (exist : Value → Prop) (v : Value) : Prop :=
  ∀ u i, u.Occurs v → u.identity? = some i → exist u

private theorem Value.existsIn_atom {exist : Value → Prop} {v : Value} (none : v.identity? = none) :
    v.ExistsIn exist := by
  intro u i occurs hi
  cases occurs with
  | self => simp [none] at hi
  | item _ _ => simp [identity?] at none
  | body _ => simp [identity?] at none

private theorem Coherent.make {exist : Value → Prop} {written made : Nat} {v : Value}
    (h : Coherent exist written made) (hi : v.identity? = some (.made made)) :
    Coherent (fun u => exist u ∨ u = v) written (made + 1) := by
  refine h.extend (Nat.le_refl _) (Nat.le_succ _) ?_ ?_
  · rintro _ i rfl hv
    rw [hi] at hv
    cases hv
    exact ⟨Nat.lt_irrefl _, Nat.lt_succ_self _⟩
  · rintro u _ i rfl rfl - -
    rfl

theorem Value.exists_list_of_text {next : Nat} {d : Datum} {u : Value} {i : Identity}
    (h : u.Occurs (ofDatum next d).1) (hi : u.identity? = some i) :
    ∃ n xs, i = .written n ∧ u = .list (.written n) xs ∧ next ≤ n ∧ n < next + d.lists := by
  obtain ⟨k, part, rfl⟩ := exists_datum_of_occurs h
  cases part with
  | number n => cases hi
  | symbol name => cases hi
  | list items =>
    cases hi
    obtain ⟨path, found⟩ := exists_at?_of_occurs h
    obtain ⟨n, same, low, high⟩ := written_of_at? found
    cases same
    exact ⟨_, _, rfl, rfl, low, high⟩

private theorem Coherent.read {exist : Value → Prop} {written made : Nat}
    (h : Coherent exist written made)
    (d : Datum) :
    Coherent (fun v => exist v ∨ v.Occurs (Value.ofDatum written d).1)
      (Value.ofDatum written d).2 made := by
  rw [Value.ofDatum_next]
  refine h.extend (Nat.le_add_right _ _) (Nat.le_refl _) ?_ ?_
  · intro v i occurs hi
    obtain ⟨n, xs, rfl, rfl, low, high⟩ := Value.exists_list_of_text occurs hi
    exact ⟨Nat.not_lt.mpr low, high⟩
  · intro u v i hu hv hi hj
    obtain ⟨n, xs, rfl, rfl, -, -⟩ := Value.exists_list_of_text hu hi
    obtain ⟨n', ys, same, rfl, -, -⟩ := Value.exists_list_of_text hv hj
    cases same
    rw [Value.items_unique hu hv]

private theorem Coherent.globals {exist : Value → Prop} {written made : Nat}
    (h : Coherent exist written made) :
    Coherent (fun v => exist v ∨ ∃ pair ∈ Primitive.standard.zipIdx made,
        v = .primitive (.made pair.2) pair.1)
      written (made + Primitive.standard.length) := by
  refine h.extend (Nat.le_refl _) (Nat.le_add_right _ _) ?_ ?_
  · rintro v i ⟨⟨p, n⟩, hp, rfl⟩ hi
    cases hi
    obtain ⟨low, high, -⟩ := List.mem_zipIdx hp
    exact ⟨Nat.not_lt.mpr low, high⟩
  · rintro u v i ⟨⟨p, n⟩, hp, rfl⟩ ⟨⟨q, k⟩, hq, rfl⟩ hi hj
    cases hi
    cases hj
    obtain ⟨-, -, first⟩ := List.mem_zipIdx hp
    obtain ⟨-, -, second⟩ := List.mem_zipIdx hq
    rw [first, second]

/-- Every object that is met exists, and the objects that exist stay what they are. -/
def Invariant.coherent : Invariant where
  World := Value → Prop
  later w w' := ∀ v, w v → w' v
  holds w v := v.ExistsIn w
  counts := Coherent
  origin _ := False
  later_refl _ _ h := h
  later_trans h h' v hv := h' v (h v hv)
  holds_later h hv u i occurs hi := h u (hv u i occurs hi)
  item h hv u i occurs hi := h u i (.item hv occurs) hi
  body h u i occurs hi := h u i (.body occurs) hi
  unit _ := Value.existsIn_atom rfl
  bool _ _ := Value.existsIn_atom rfl
  symbol _ _ := Value.existsIn_atom rfl
  number _ := Value.existsIn_atom rfl
  arithmetic _ _ _ := Value.existsIn_atom rfl
  start := ⟨nofun, nofun⟩
  newList := by
    intro w written made items coherent hitems
    have parts {u : Value} {i : Identity} (occurs : u.Occurs (.list (.made made) items))
        (hi : u.identity? = some i) : w u ∨ u = .list (.made made) items := by
      cases occurs with
      | self => exact .inr rfl
      | item hv occurs => exact .inl (hitems _ hv u i occurs hi)
    exact ⟨_, fun _ => .inl, coherent.make rfl, fun u i => parts⟩
  newProcedure := by
    intro w written made body params f coherent hbody
    have parts {u : Value} {i : Identity}
        (occurs : u.Occurs (.procedure (.made made) params body f)) (hi : u.identity? = some i) :
        w u ∨ u = .procedure (.made made) params body f := by
      cases occurs with
      | self => exact .inr rfl
      | body occurs => exact .inl (hbody u i occurs hi)
    exact ⟨_, fun _ => .inl, coherent.make rfl, fun u i => parts⟩
  load coherent _ := ⟨_, fun _ => .inl, coherent.read _, fun _ _ occurs _ => .inr occurs⟩
  globals := by
    intro w written made coherent
    refine ⟨_, fun _ => .inl, coherent.globals, fun pair hp => ?_⟩
    rcases List.mem_append.mp hp with hp | hp
    · obtain ⟨⟨p, n⟩, hn, rfl⟩ := List.mem_map.mp hp
      intro u i occurs _
      cases occurs
      exact .inr ⟨(p, n), hn, rfl⟩
    · simp only [List.mem_cons, List.not_mem_nil, or_false] at hp
      rcases hp with rfl | rfl | rfl <;> exact Value.existsIn_atom rfl

private theorem Invariant.HoldsAt.exists_of_sees {exist : Value → Prop} {μ : Moment} {u : Value}
    {i : Identity}
    (h : Invariant.coherent.HoldsAt exist μ) (seen : μ.Sees u) (hi : u.identity? = some i) : exist u :=
  h.sees seen u i (.self u) hi

section Sameness

namespace Value

/-- The values are equal, as far as there is room to compare them. -/
def Equals (u v : Value) : Prop :=
  ∀ room, u.equal room v = .ok true ∨ (u.equal room v = .error .depthExhausted ∧ room ≤ u.nesting)

theorem same_self {v : Value} (h : v.Finite) : v.same v = true := by
  cases v with
  | number n =>
    cases n with
    | int k => simp [same]
    | float x =>
      cases x with
      | finite s c => simp [same, Binary64.compare?]
      | infinite s => cases finite_number.mp h
      | nan => cases finite_number.mp h
  | _ => simp [same]

private theorem allM_equal_self {room : Nat} {xs : List Value}
    (each : ∀ x ∈ xs, x.equal room x = .ok true ∨
      (x.equal room x = .error .depthExhausted ∧ room ≤ x.nesting)) :
    (xs.zip xs).allM (fun pair => pair.1.equal room pair.2) = .ok true ∨
      ((xs.zip xs).allM (fun pair => pair.1.equal room pair.2) = .error .depthExhausted ∧
        room ≤ nestings xs) := by
  induction xs with
  | nil => exact .inl rfl
  | cons x xs ih =>
    obtain ⟨first, others⟩ := List.forall_mem_cons.mp each
    rw [List.zip_cons_cons, List.allM_cons]
    rcases first with first | ⟨first, deep⟩
    · rw [first]
      rcases ih others with rest | ⟨rest, deep⟩
      · exact .inl rest
      · exact .inr ⟨rest, Nat.le_trans deep (Nat.le_max_right _ _)⟩
    · rw [first]
      exact .inr ⟨rfl, Nat.le_trans deep (Nat.le_max_left _ _)⟩

private theorem equals_self {v : Value} (h : v.Finite) : v.Equals v := by
  intro room
  induction room generalizing v with
  | zero => exact .inr ⟨rfl, Nat.zero_le _⟩
  | succ room ih =>
    cases v with
    | list i items =>
      rw [equal, if_pos rfl]
      rcases allM_equal_self fun x hx => ih (finite_list.mp h x hx) with equal | ⟨exhausted, deep⟩
      · exact .inl equal
      · exact .inr ⟨exhausted, Nat.succ_le_succ deep⟩
    | _ => exact .inl (congrArg Except.ok (same_self h))

theorem equals_of_same {u v : Value} (h : u.Finite) (same : u.same v = true)
    (one : u.identity?.isSome = true → u = v) : u.Equals v := by
  intro room
  cases u with
  | list i items =>
    obtain rfl := one rfl
    exact equals_self h room
  | _ =>
    cases room with
    | zero => exact .inr ⟨rfl, Nat.zero_le _⟩
    | succ room => exact .inl (congrArg Except.ok same)

end Value

end Sameness

section Making

def Effect.making : Effect where
  inside _ m n := m.store.made ≤ n.store.made
  outside m n := m.store.made ≤ n.store.made
  refl _ := Nat.le_refl _
  outside_trans := Nat.le_trans
  inside_trans := Nat.le_trans
  inside_of_outside := id
  define _ _ _ _ := Nat.le_refl _
  assign _ _ := Nat.le_refl _
  make _ := Nat.le_succ _
  load _ _ := Nat.le_refl _
  note _ _ := Nat.le_refl _
  enter h := h

/-- The activities that give a new object: the calls of primitives that give a list, and the evaluation
of abstractions. -/
inductive Activity.Makes : Activity → Prop
  | list {i : Identity} {p : Primitive} {args : List Value} :
      p.operation ∈ [.list, .cons, .cdr, .append, .map] → Makes (.call (.primitive i p) args)
  | procedure {i : Identity} {rest : List Value} {f : FrameId} :
      Makes (.eval (.list i (BigStep.keyword .abstraction :: rest)) f)

/-- The value is a list or a procedure that was made when there were so many objects, or later. -/
structure Value.MadeSince (made : Nat) (v : Value) : Prop where
  kind : v.isList = true ∨ v.isProcedure = true
  identity : ∃ k, v.identity? = some (.made k) ∧ made ≤ k

private theorem Action.exists_of_bind {α β : Type} {x : Action α} {g : α → Action β}
    {m n : Machine} {b : β}
    (h : (x >>= g) m = (.ok b, n)) : ∃ a o, x m = (.ok a, o) ∧ g a o = (.ok b, n) := by
  rcases BigStep.bind_cases h with ⟨failure, -, impossible⟩ | found
  · cases impossible
  · exact found

theorem Action.exists_of_lift_bind {α β : Type} {r : Except Failure α} {g : α → Action β}
    {m n : Machine} {b : β} (h : (Action.lift r >>= g) m = (.ok b, n)) :
    ∃ a, r = .ok a ∧ g a m = (.ok b, n) := by
  obtain ⟨a, o, lifted, h⟩ := exists_of_bind h
  obtain ⟨found, rfl⟩ := Prod.mk.inj lifted
  exact ⟨a, found, h⟩

variable {depth : Nat} {m n : Machine} {v : Value}

private theorem madeSince_of_newList {made : Nat} {items : List Value}
    (h : Action.newList items m = (.ok v, n)) (later : made ≤ m.store.made) : v.MadeSince made := by
  cases h
  exact ⟨.inl rfl, _, rfl, later⟩

private theorem madeSince_of_lift {α : Type} {r : Except Failure α} {g : α → List Value}
    (h : (do Action.newList (g (← Action.lift r))) m = (.ok v, n)) : v.MadeSince m.store.made := by
  obtain ⟨a, -, h⟩ := Action.exists_of_lift_bind h
  exact madeSince_of_newList h (Nat.le_refl _)

private theorem madeSince_of_mapped {callee : String} {f : Value} {rows : List Value}
    (h : Primitive.mapped depth callee (call depth) f rows m = (.ok v, n)) :
    v.MadeSince m.store.made := by
  obtain ⟨_, -, h⟩ := Action.exists_of_lift_bind h
  obtain ⟨tables, -, h⟩ := Action.exists_of_lift_bind h
  cases tables with
  | nil => exact madeSince_of_newList h (Nat.le_refl _)
  | cons first others =>
    dsimp only at h
    split at h
    · obtain ⟨vs, o, called, h⟩ := Action.exists_of_bind h
      have keeps := Action.Keeps.mapM Effect.making.refl Effect.making.outside_trans
        (Effect.making.call_keeps depth f) (Primitive.columns first others)
      have grown := keeps.effect m
      rw [called] at grown
      exact madeSince_of_newList h grown
    · cases h

private theorem madeSince_of_run {p : Primitive} {args : List Value}
    (hp : p.operation ∈ [.list, .cons, .cdr, .append, .map])
    (h : p.run depth (call depth) args m = (.ok v, n)) : v.MadeSince m.store.made := by
  obtain ⟨name, operation, arity⟩ := p
  simp only [List.mem_cons, List.not_mem_nil, or_false] at hp
  rcases hp with rfl | rfl | rfl | rfl | rfl
  · exact madeSince_of_newList h (Nat.le_refl _)
  · obtain _ | ⟨a, _ | ⟨b, _ | ⟨c, rest⟩⟩⟩ := args
    · cases h
    · cases h
    · exact madeSince_of_lift (g := (a :: ·)) h
    · cases h
  · obtain _ | ⟨a, _ | ⟨b, rest⟩⟩ := args
    · cases h
    · obtain ⟨items, -, h⟩ := Action.exists_of_lift_bind h
      cases items with
      | nil => cases h
      | cons first rest => exact madeSince_of_newList h (Nat.le_refl _)
    · cases h
  · exact madeSince_of_lift (g := List.flatten) h
  · obtain _ | ⟨f, _ | ⟨row, rows⟩⟩ := args
    · cases h
    · cases h
    · exact madeSince_of_mapped h

private theorem madeSince_of_abstraction {i : Identity} {rest : List Value} {f : FrameId}
    (h : eval depth (.list i (BigStep.keyword .abstraction :: rest)) f m = (.ok v, n)) :
    v.MadeSince m.store.made := by
  cases depth with
  | zero => cases h
  | succ depth =>
    simp only [eval, Eval.expression, BigStep.ofList_keyword] at h
    by_cases two : rest.length = 2
    · obtain ⟨params, body, rfl⟩ := List.length_eq_two.mp two
      simp only [Form.special] at h
      split at h
      · obtain ⟨_, _, made, h⟩ := Action.exists_of_bind h
        cases made
        obtain ⟨_, -, h⟩ := Action.exists_of_lift_bind h
        cases h
        exact ⟨.inr rfl, _, rfl, Nat.le_refl _⟩
      · cases h
    · rw [BigStep.special_misshapen rfl two] at h
      cases h

theorem Activity.Makes.madeSince {a : Activity} (makes : a.Makes)
    (h : a.perform depth m = (.ok v, n)) : v.MadeSince m.store.made := by
  cases makes with
  | list hp =>
    cases depth with
    | zero => cases h
    | succ depth =>
      simp only [perform, SmallScheme.call, Eval.application] at h
      split at h
      · exact madeSince_of_run hp h
      · cases h
  | procedure => exact madeSince_of_abstraction h

theorem Value.MadeSince.not_same {made : Nat} {u : Value} (h : v.MadeSince made)
    (before : ∀ k, u.identity? = some (.made k) → k < made) : u.same v = false := by
  obtain ⟨-, k, hk, later⟩ := h
  by_contra same
  rw [Bool.not_eq_false] at same
  exact absurd (before k (identity?_eq_of_same same ▸ hk)) (Nat.not_lt.mpr later)

end Making

private theorem Moment.Sees.of_occurs {μ : Moment} {u v : Value} (h : μ.Sees v)
    (occurs : u.Occurs v) :
    μ.Sees u := by
  rcases h with ⟨w, hw, inside⟩ | ⟨f, pair, hp, inside⟩
  · exact .inl ⟨w, hw, occurs.trans inside⟩
  · exact .inr ⟨f, pair, hp, occurs.trans inside⟩

/-- In the text that is read at the given moment, the value stands at the given place. -/
def Stands (ms : List Moment) (k : Nat) (path : List Nat) (v : Value) : Prop :=
  ∃ d m, ms[k]? = some (.reads d m) ∧ (Value.ofDatum m.store.written d).1.at? path = some v

def quotation (i : Identity) (v : Value) : Value :=
  .list i [BigStep.keyword .quote, v]

namespace Host.History

variable {threshold : Nat} {ms : List Moment} {h : Host} {μ ν : Moment} {u v : Value}

theorem finite_of_sees (history : History (start threshold) ms h) (hμ : μ ∈ ms) (seen : μ.Sees v) :
    v.Finite :=
  fun n occurs => history.finite.1 μ hμ n (seen.of_occurs occurs)

/-- An object stays what it is. -/
theorem eq_of_same (history : History (start threshold) ms h) (hμ : μ ∈ ms) (hν : ν ∈ ms)
    (hu : μ.Sees u) (hv : ν.Sees v) (same : u.same v = true) (object : u.identity?.isSome = true) :
    u = v := by
  obtain ⟨exist, along, rests⟩ := history.exists_along (holdsAt_start Invariant.coherent threshold)
  obtain ⟨i, hi⟩ := Option.isSome_iff_exists.mp object
  have hj : v.identity? = some i := Value.identity?_eq_of_same same ▸ hi
  -- both objects exist in the last world
  obtain ⟨_, -, first, later⟩ := along.holdsAt hμ
  obtain ⟨_, -, second, later'⟩ := along.holdsAt hν
  exact rests.machine.counts.unique (later u (first.exists_of_sees hu hi))
    (later' v (second.exists_of_sees hv hj)) hi hj

/-- What is made is the same as nothing that was met before. -/
theorem not_same_of_makes (history : History (start threshold) ms h) {j k depth : Nat}
    {a : Activity} {m n : Machine} (hk : ms[k]? = some (.begins depth a m)) (makes : a.Makes)
    (made : a.perform depth m = (.ok v, n)) (order : j ≤ k) (hj : ms[j]? = some μ)
    (seen : μ.Sees u) : u.same v = false := by
  obtain ⟨exist, along, -⟩ := history.exists_along (holdsAt_start Invariant.coherent threshold)
  obtain ⟨_, _, first, later, second⟩ := along.holdsAt_of_le order hj hk
  exact (makes.madeSince made).not_same fun _ hu =>
    second.machine.counts.issued (later u (first.exists_of_sees seen hu)) hu

theorem exists_sees_of_stands (history : History (start threshold) ms h) {k : Nat} {p : List Nat}
    (stands : Stands ms k p v) : ∃ μ, ms[k + 1]? = some μ ∧ μ.Sees v := by
  obtain ⟨d, m, hk, found⟩ := stands
  obtain ⟨rest, next, held⟩ := history.exists_rests_of_reads hk
  exact ⟨_, next, .inl ⟨_, held, Value.occurs_of_at? found⟩⟩

private theorem not_same_of_earlier (history : History (start threshold) ms h) {k l : Nat}
    {p q : List Nat} {i j : Identity} {xs ys : List Value} (order : k < l)
    (hp : Stands ms k p (.list i xs)) (hq : Stands ms l q (.list j ys)) : i ≠ j := by
  rintro rfl
  obtain ⟨d, m, hl, found⟩ := hq
  obtain ⟨n, rfl, low, -⟩ := Value.written_of_at? found
  obtain ⟨μ, next, seen⟩ := history.exists_sees_of_stands hp
  obtain ⟨exist, along, -⟩ := history.exists_along (holdsAt_start Invariant.coherent threshold)
  obtain ⟨_, _, first, later, second⟩ := along.holdsAt_of_le order next hl
  have issued := second.machine.counts.issued (later _ (first.exists_of_sees seen rfl)) rfl
  exact absurd issued (Nat.not_lt.mpr low)

/-- Lists at different places in texts are different objects. -/
theorem not_same_of_places (history : History (start threshold) ms h) {k l : Nat}
    {p q : List Nat} {i j : Identity} {xs ys : List Value} (apart : (k, p) ≠ (l, q))
    (hp : Stands ms k p (.list i xs)) (hq : Stands ms l q (.list j ys)) : i ≠ j := by
  rcases Nat.lt_trichotomy k l with before | rfl | after
  · exact history.not_same_of_earlier before hp hq
  · -- In one text the number of a list determines its place.
    rintro rfl
    obtain ⟨d, m, hk, first⟩ := hp
    obtain ⟨d', m', hl, second⟩ := hq
    obtain ⟨rfl, rfl⟩ : d = d' ∧ m = m' := by simpa [hk] using hl
    exact apart (by rw [Value.at?_unique first second])
  · exact (history.not_same_of_earlier after hq hp).symm

end Host.History

theorem Stands.quoted {ms : List Moment} {k : Nat} {p : List Nat} {i : Identity} {v : Value}
    (h : Stands ms k p (quotation i v)) : Stands ms k (p ++ [1]) v := by
  obtain ⟨d, m, hk, found⟩ := h
  exact ⟨d, m, hk, by rw [Value.at?_append, found]; rfl⟩

theorem eval_quotation (depth : Nat) (i : Identity) (v : Value) (f : FrameId) (m : Machine) :
    eval (depth + 1) (quotation i v) f m = (.ok v, m) := by
  simp only [quotation, eval, Eval.expression, BigStep.ofList_keyword]
  rfl

/-- What a list operation or an abstraction gives is not the same as anything that was there before,
nor as anything in a text. Objects that are met at any two moments of a history, and are the same, are
equal in all their parts, so they print alike; values that are the same are equal. A quotation gives the
same value whenever it is evaluated, and quotations at different places in texts give lists that
are not the same. -/
theorem object_identity_coherent {threshold : Nat} {ms : List Moment} {h : Host}
    (history : Host.History (.start threshold) ms h) :
    (∀ (k depth : Nat) (a : Activity) (m n : Machine) (v : Value),
      ms[k]? = some (.begins depth a m) → a.Makes → a.perform depth m = (.ok v, n) →
        (v.isList = true ∨ v.isProcedure = true) ∧
        (∀ (j : Nat) (μ : Moment) (u : Value), j ≤ k → ms[j]? = some μ → μ.Sees u →
          u.same v = false) ∧
        ∀ (next : Nat) (d : Datum) (u : Value), u.Occurs (Value.ofDatum next d).1 →
          u.same v = false) ∧
    (∀ μ ∈ ms, ∀ ν ∈ ms, ∀ u v, μ.Sees u → ν.Sees v → u.same v = true →
      u.Equals v ∧
        (u.identity?.isSome = true → u = v ∧ ∀ room, u.display room = v.display room)) ∧
    (∀ k p i x, Stands ms k p (quotation i x) →
      (∀ depth e f m, .begins (depth + 1) (.eval e f) m ∈ ms → e.same (quotation i x) = true →
        eval (depth + 1) e f m = (.ok x, m)) ∧
      x.same x = true ∧
      ∀ l q j y, Stands ms l q (quotation j y) → (k, p) ≠ (l, q) → x.isList = true →
        y.isList = true → x.same y = false) ∧
    ∀ depth f source, h.Traces Host.Handed (Program.run depth f source) := by
  refine ⟨fun k depth a m n v hk makes made => ⟨(makes.madeSince made).kind, ?_, ?_⟩,
    fun μ hμ ν hν u v hu hv same => ⟨?_, fun object => ?_⟩,
    fun k p i x stands => ⟨?_, ?_, ?_⟩, fun depth f source => .run h depth f source⟩
  · exact fun j μ u order hj seen => history.not_same_of_makes hk makes made order hj seen
  · intro next d u occurs
    refine (makes.madeSince made).not_same fun k hu => ?_
    obtain ⟨_, _, written, -⟩ := Value.exists_list_of_text occurs hu
    cases written
  · refine Value.equals_of_same (history.finite_of_sees hμ hu) same fun object => ?_
    exact history.eq_of_same hμ hν hu hv same object
  · obtain rfl := history.eq_of_same hμ hν hu hv same object
    exact ⟨rfl, fun _ => rfl⟩
  · intro depth e f m begins same
    obtain ⟨μ, next, seen⟩ := history.exists_sees_of_stands stands
    have object : e.identity?.isSome = true := by rw [Value.identity?_eq_of_same same]; rfl
    have hand : Moment.Sees (.begins (depth + 1) (.eval e f) m) e :=
      .inl ⟨e, List.mem_singleton.mpr rfl, .self e⟩
    rw [history.eq_of_same begins (List.mem_of_getElem? next) hand seen same object]
    exact eval_quotation depth i x f m
  · obtain ⟨μ, next, seen⟩ := history.exists_sees_of_stands stands.quoted
    exact Value.same_self (history.finite_of_sees (List.mem_of_getElem? next) seen)
  · intro l q j y other apart hx hy
    obtain ⟨a, xs, rfl⟩ := Value.exists_of_isList hx
    obtain ⟨b, ys, rfl⟩ := Value.exists_of_isList hy
    have inside : (k, p ++ [1]) ≠ (l, q ++ [1]) := by simpa using apart
    simpa [Value.same] using history.not_same_of_places inside stands.quoted other.quoted

/-- Two empty lists made by the same call, and two empty lists quoted in one text: they are equal,
and not the same. -/
theorem object_identity_coherent_empty_lists :
    let list : Value := .primitive (.made 21) ⟨"list", .list, .atLeast 0⟩
    let quoted : Datum := .list [.symbol "quote", .list []]
    let found := ((Host.start 30).did Action.newGlobals).got (Action.lookup 0 "list")
    let first := found.got (call 1 list [])
    let second := first.got (call 1 list [])
    let last := second.got (Action.load (.list [quoted, quoted]))
    let text : Value := .list (.written 0) [quotation (.written 1) (.list (.written 2) []),
      quotation (.written 3) (.list (.written 4) [])]
    last.held = [text, .list (.made 31) [], .list (.made 30) [], list] ∧
      Value.equal 1 (.list (.made 30) []) (.list (.made 31) []) = .ok true ∧
      Value.same (.list (.made 30) []) (.list (.made 31) []) = false ∧
      Value.same (.list (.written 2) []) (.list (.written 4) []) = false := by
  intro list quoted found first second last text
  have held : found.Handed list := .held List.mem_cons_self
  have given : ∀ v ∈ (Activity.call list []).values, found.Handed v := by
    simpa [Activity.values] using held
  have held' : first.Handed list := .held (List.mem_cons_of_mem _ List.mem_cons_self)
  have given' : ∀ v ∈ (Activity.call list []).values, first.Handed v := by
    simpa [Activity.values] using held'
  have word : Datum.ofWord "quote" = .ok (.symbol "quote") := rfl
  have spelled : Datum.Spells _ quoted := .list (.cons (.atom word) (.cons (.list .nil) .nil))
  have history : Host.History (.start 30) _ last :=
    .cons (.globals _) (.cons (.lookup _ 0 "list") (.cons (.perform 1 given)
      (.cons (.perform 1 given') (.cons (.read (.list (.cons spelled (.cons spelled .nil))))
        (.nil _)))))
  obtain ⟨made, -, places, -⟩ := object_identity_coherent history
  obtain ⟨-, apart, -⟩ := made 5 1 (.call list []) first.machine second.machine
    (.list (.made 31) []) rfl (.list (by decide)) rfl
  obtain ⟨-, -, elsewhere⟩ := places 8 [0] (.written 1) (.list (.written 2) [])
    ⟨.list [quoted, quoted], second.machine, rfl, rfl⟩
  refine ⟨rfl, rfl, ?_, ?_⟩
  · exact apart 4 (.rests first) _ (by decide) rfl (.inl ⟨_, List.mem_cons_self, .self _⟩)
  · exact elsewhere 8 [1] (.written 3) _ ⟨.list [quoted, quoted], second.machine, rfl, rfl⟩
      (by decide) rfl rfl

end SmallScheme
