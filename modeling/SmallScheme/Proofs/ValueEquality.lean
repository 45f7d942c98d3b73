import SmallScheme.Proofs.Isolation
import SmallScheme.Proofs.NativePrimitive
import SmallScheme.Proofs.ObjectIdentity
import SmallScheme.Proofs.WrongType

/-!
Sameness and equality of values. Sameness goes by the values of atoms and the identity of objects, and
equality compares lists item by item down to values that are the same. Both are equivalences on values
without the number that is no number, and sameness is the finer one. Equality is kept by the primitives
that take lists apart and put them together.
-/

set_option autoImplicit false
set_option relaxedAutoImplicit false

namespace SmallScheme

namespace Value

section Same

/-- What sameness goes by: the value of an atom, or the kind and the identity of an object. -/
inductive Mark where
  | unit
  | bool (b : Bool)
  | int (n : Int)
  | units (n : Int)
  | infinite (negative : Bool)
  | symbol (name : String)
  | list (i : Identity)
  | procedure (i : Identity)
  | primitive (i : Identity)

def mark? : Value → Option Mark
  | .unit => some .unit
  | .bool b => some (.bool b)
  | .number (.int n) => some (.int n)
  | .number (.float (.finite s c)) => some (.units (Binary64.units s c))
  | .number (.float (.infinite s)) => some (.infinite s)
  | .number (.float .nan) => none
  | .symbol name => some (.symbol name)
  | .list i _ => some (.list i)
  | .procedure i _ _ _ => some (.procedure i)
  | .primitive i _ => some (.primitive i)

private theorem same_float_iff (x y : Binary64) :
    same (.number (.float x)) (.number (.float y)) = true ↔
      (mark? (.number (.float x))).isSome = true ∧
        mark? (.number (.float x)) = mark? (.number (.float y)) := by
  rw [same, decide_eq_true_eq]
  cases x with
  | nan => simp [mark?, Binary64.compare?]
  | infinite s =>
    cases y with
    | nan => simp [mark?, Binary64.compare?]
    | infinite t => cases s <;> cases t <;> simp [mark?, Binary64.compare?]
    | finite t d => cases s <;> simp [mark?, Binary64.compare?]
  | finite s c =>
    cases y with
    | nan => simp [mark?, Binary64.compare?]
    | infinite t => cases t <;> simp [mark?, Binary64.compare?]
    | finite t d => simp [mark?, Binary64.compare?]

variable {a b c : Value}

private theorem same_iff : a.same b = true ↔ a.mark?.isSome = true ∧ a.mark? = b.mark? := by
  cases a with
  | number m =>
    cases b with
    | number n =>
      cases m with
      | int k => rcases n with l | (_ | _ | _) <;> simp [same, mark?]
      | float x =>
        cases n with
        | int l => rcases x with _ | _ | _ <;> simp [same, mark?]
        | float y => exact same_float_iff x y
    | _ => rcases m with k | (_ | _ | _) <;> simp [same, mark?]
  | _ => rcases b with _ | _ | (_ | (_ | _ | _)) | _ | _ | _ | _ <;> simp [same, mark?]

private theorem same_self_iff : a.same a = true ↔ a ≠ .number (.float .nan) := by
  rw [same_iff]
  rcases a with _ | _ | (_ | (_ | _ | _)) | _ | _ | _ | _ <;> simp [mark?]

theorem same_symm (h : a.same b = true) : b.same a = true := by
  obtain ⟨marked, equal⟩ := same_iff.mp h
  exact same_iff.mpr ⟨equal ▸ marked, equal.symm⟩

theorem same_trans (h : a.same b = true) (h' : b.same c = true) : a.same c = true := by
  obtain ⟨marked, equal⟩ := same_iff.mp h
  obtain ⟨-, equal'⟩ := same_iff.mp h'
  exact same_iff.mpr ⟨marked, equal.trans equal'⟩

private theorem kind_eq_of_same (h : a.same b = true) : a.kind = b.kind := by
  unfold same at h
  split at h <;> first | rfl | cases h

private theorem isList_eq_of_same (h : a.same b = true) : a.isList = b.isList := by
  unfold same at h
  split at h <;> first | rfl | cases h

end Same

section Coincidence

mutual

/-- Structural equality of values, with no bound on nesting. -/
def coincides : Value → Value → Bool
  | .list _ xs, .list _ ys => coincideEach xs ys
  | a, b => a.same b

def coincideEach : List Value → List Value → Bool
  | [], [] => true
  | x :: xs, y :: ys => x.coincides y && coincideEach xs ys
  | _, _ => false

end

variable {a b c : Value} {xs ys : List Value}

private theorem coincides_of_not_lists (h : a.isList = false ∨ b.isList = false) :
    a.coincides b = a.same b := by
  cases a with
  | list i xs =>
    cases b with
    | list j ys => simp [isList] at h
    | _ => rfl
  | _ => rfl

private theorem coincideEach_iff :
    coincideEach xs ys = true ↔ List.Forall₂ (fun x y => x.coincides y = true) xs ys := by
  induction xs generalizing ys with
  | nil => cases ys <;> simp [coincideEach]
  | cons x xs ih =>
    cases ys with
    | nil => simp [coincideEach]
    | cons y ys => rw [coincideEach, Bool.and_eq_true, List.forall₂_cons, ih]

private theorem coincides_list {i j : Identity} :
    (Value.list i xs).coincides (.list j ys) = true ↔
      List.Forall₂ (fun x y => x.coincides y = true) xs ys :=
  coincideEach_iff

theorem coincides_list_iff_get (i j : Identity) (xs ys : List Value) :
    (Value.list i xs).coincides (.list j ys) = true ↔
      xs.length = ys.length ∧ ∀ n (hx : n < xs.length) (hy : n < ys.length),
        (xs.get ⟨n, hx⟩).coincides (ys.get ⟨n, hy⟩) = true := by
  rw [coincides_list, List.forall₂_iff_get]

private theorem exists_list_of_coincides {i : Identity} (h : (Value.list i xs).coincides b = true) :
    ∃ j ys, b = .list j ys ∧ List.Forall₂ (fun x y => x.coincides y = true) xs ys := by
  cases b with
  | list j ys => exact ⟨j, ys, rfl, coincides_list.mp h⟩
  | _ => cases h

/-- Two lists are compared as lists, and all other values by sameness. -/
theorem coincides_cases (h : a.coincides b = true) :
    (∃ i j xs ys, a = .list i xs ∧ b = .list j ys ∧
      List.Forall₂ (fun x y => x.coincides y = true) xs ys) ∨
    (a.isList = false ∧ b.isList = false ∧ a.same b = true) := by
  cases a with
  | list i xs =>
    obtain ⟨j, ys, rfl, each⟩ := exists_list_of_coincides h
    exact .inl ⟨i, j, xs, ys, rfl, rfl, each⟩
  | _ => exact .inr ⟨rfl, (isList_eq_of_same h).symm, h⟩

theorem kind_eq_of_coincides (h : a.coincides b = true) : a.kind = b.kind := by
  rcases coincides_cases h with ⟨i, j, xs, ys, rfl, rfl, -⟩ | ⟨-, -, same⟩
  · rfl
  · exact kind_eq_of_same same

/-- The number that is no number is not among the items of the value at any depth. -/
def NaNFree (v : Value) : Prop :=
  ¬ ShownIn (.number (.float .nan)) v

private theorem nanFree_list {i : Identity} : NaNFree (.list i xs) ↔ ∀ v ∈ xs, v.NaNFree := by
  constructor
  · exact fun free v hv shown => free (.item hv shown)
  · rintro free (_ | ⟨hv, shown⟩)
    exact free _ hv shown

theorem same_self_of_nanFree (h : a.NaNFree) : a.same a = true := by
  refine same_self_iff.mpr ?_
  rintro rfl
  exact h (.self _)

-- The proofs go by the first value. A list is left to the rows of items, which are shorter.
mutual

theorem coincides_self {a : Value} (h : a.NaNFree) : a.coincides a = true := by
  match a with
  | .list i xs => exact coincides_list.mpr (coincideEach_self (nanFree_list.mp h))
  | .unit | .bool _ | .number _ | .symbol _ | .procedure _ _ _ _ | .primitive _ _ =>
    exact same_self_of_nanFree h

private theorem coincideEach_self {xs : List Value} (h : ∀ v ∈ xs, v.NaNFree) :
    List.Forall₂ (fun x y => x.coincides y = true) xs xs := by
  match xs with
  | [] => exact .nil
  | x :: xs =>
    obtain ⟨first, others⟩ := List.forall_mem_cons.mp h
    exact .cons (coincides_self first) (coincideEach_self others)

end

mutual

theorem coincides_symm {a b : Value} (h : a.coincides b = true) : b.coincides a = true := by
  match a with
  | .list i xs =>
    obtain ⟨j, ys, rfl, each⟩ := exists_list_of_coincides h
    exact coincides_list.mpr (coincideEach_symm each)
  | .unit | .bool _ | .number _ | .symbol _ | .procedure _ _ _ _ | .primitive _ _ =>
    rw [coincides_of_not_lists (.inr rfl)]
    exact same_symm h

private theorem coincideEach_symm {xs ys : List Value}
    (h : List.Forall₂ (fun x y => x.coincides y = true) xs ys) :
    List.Forall₂ (fun x y => x.coincides y = true) ys xs := by
  match xs, ys, h with
  | [], [], .nil => exact .nil
  | x :: xs, y :: ys, .cons first others =>
    exact .cons (coincides_symm first) (coincideEach_symm others)

end

mutual

theorem coincides_trans {a b c : Value} (h : a.coincides b = true) (h' : b.coincides c = true) :
    a.coincides c = true := by
  match a with
  | .list i xs =>
    obtain ⟨j, ys, rfl, each⟩ := exists_list_of_coincides h
    obtain ⟨k, zs, rfl, each'⟩ := exists_list_of_coincides h'
    exact coincides_list.mpr (coincideEach_trans each each')
  | .unit | .bool _ | .number _ | .symbol _ | .procedure _ _ _ _ | .primitive _ _ =>
    rcases coincides_cases h with ⟨_, _, _, _, impossible, -, -⟩ | ⟨-, other, -⟩
    · cases impossible
    · rw [coincides_of_not_lists (.inl other)] at h'
      exact same_trans h h'

private theorem coincideEach_trans {xs ys zs : List Value}
    (h : List.Forall₂ (fun x y => x.coincides y = true) xs ys)
    (h' : List.Forall₂ (fun x y => x.coincides y = true) ys zs) :
    List.Forall₂ (fun x y => x.coincides y = true) xs zs := by
  match xs, ys, zs, h, h' with
  | [], [], [], .nil, .nil => exact .nil
  | x :: xs, y :: ys, z :: zs, .cons first others, .cons first' others' =>
    exact .cons (coincides_trans first first') (coincideEach_trans others others')

end

theorem coincides_of_same {exist : Value → Prop} {written made : Nat}
    (coherent : Coherent exist written made) (ha : a.ExistsIn exist) (hb : b.ExistsIn exist)
    (free : a.NaNFree) (h : a.same b = true) : a.coincides b = true := by
  cases a with
  | list i xs =>
    have identity : b.identity? = some i := (identity?_eq_of_same h).symm
    have one : Value.list i xs = b :=
      coherent.unique (ha _ i (.self _) rfl) (hb b i (.self b) identity) rfl identity
    rw [← one]
    exact coincides_self free
  | _ => exact h

end Coincidence

section Room

variable {room : Nat}

private theorem allM_equal_cases
    (each : ∀ a b : Value, a.equal room b = .ok (a.coincides b) ∨
      (a.equal room b = .error .depthExhausted ∧ room ≤ a.nesting ∧ room ≤ b.nesting))
    {xs ys : List Value} (h : xs.length = ys.length) :
    (xs.zip ys).allM (fun pair => pair.1.equal room pair.2) = .ok (coincideEach xs ys) ∨
      ((xs.zip ys).allM (fun pair => pair.1.equal room pair.2) = .error .depthExhausted ∧
        room ≤ nestings xs ∧ room ≤ nestings ys) := by
  induction xs generalizing ys with
  | nil =>
    obtain rfl : ys = [] := List.length_eq_zero_iff.mp h.symm
    exact .inl rfl
  | cons x xs ih =>
    cases ys with
    | nil => cases h
    | cons y ys =>
      have later := ih (Nat.succ.inj h)
      rw [List.zip_cons_cons, List.allM_cons, coincideEach]
      rcases each x y with first | ⟨first, deep, deep'⟩
      · rw [first]
        cases x.coincides y with
        | false => exact .inl rfl
        | true =>
          rcases later with others | ⟨others, deep, deep'⟩
          · exact .inl others
          · refine .inr ⟨others, ?_, ?_⟩
            · exact Nat.le_trans deep (Nat.le_max_right _ _)
            · exact Nat.le_trans deep' (Nat.le_max_right _ _)
      · rw [first]
        refine .inr ⟨rfl, ?_, ?_⟩
        · exact Nat.le_trans deep (Nat.le_max_left _ _)
        · exact Nat.le_trans deep' (Nat.le_max_left _ _)

/-- The comparison finds out whether the values are equal, or both are nested deeper than there is
room. -/
theorem equal_cases (room : Nat) (a b : Value) :
    a.equal room b = .ok (a.coincides b) ∨
      (a.equal room b = .error .depthExhausted ∧ room ≤ a.nesting ∧ room ≤ b.nesting) := by
  -- By the room, as the comparison itself goes; the items of two lists are compared one level further.
  induction room generalizing a b with
  | zero => exact .inr ⟨rfl, Nat.zero_le _, Nat.zero_le _⟩
  | succ room ih =>
    cases a with
    | list i xs =>
      cases b with
      | list j ys =>
        rw [equal]
        by_cases length : xs.length = ys.length
        · rw [if_pos length]
          rcases allM_equal_cases ih length with compared | ⟨exhausted, deep, deep'⟩
          · exact .inl compared
          · exact .inr ⟨exhausted, Nat.succ_le_succ deep, Nat.succ_le_succ deep'⟩
        · have different : coincideEach xs ys = false := by
            rw [Bool.eq_false_iff]
            exact fun each => length (coincideEach_iff.mp each).length_eq
          rw [if_neg length, coincides, different]
          exact .inl rfl
      | _ => exact .inl rfl
    | _ => exact .inl rfl

end Room

end Value

namespace Action

/-- Where the first action gives a value, the second one gives an equal value, on any machines. -/
def GivesEqual (x y : Action Value) : Prop :=
  ∀ m n u o, x m = (.ok u, o) → ∃ v o', y n = (.ok v, o') ∧ u.coincides v = true

namespace GivesEqual

private theorem raise (e : Error) (y : Action Value) : (Action.raise e).GivesEqual y :=
  nofun

private theorem pure {u v : Value} (h : u.coincides v = true) :
    (Pure.pure u : Action Value).GivesEqual (Pure.pure v) := by
  rintro m n _ _ ⟨⟩
  exact ⟨v, n, rfl, h⟩

private theorem newList {xs ys : List Value}
    (h : List.Forall₂ (fun x y => x.coincides y = true) xs ys) :
    (Action.newList xs).GivesEqual (Action.newList ys) := by
  rintro m n _ _ ⟨⟩
  exact ⟨_, _, rfl, Value.coincides_list.mpr h⟩

private theorem lift_bind {α : Type} {r r' : Except Failure α} {k k' : α → Action Value}
    (h : ∀ a, r = .ok a → ∃ b, r' = .ok b ∧ (k a).GivesEqual (k' b)) :
    (Action.lift r >>= k).GivesEqual (Action.lift r' >>= k') := by
  intro m n u o given
  obtain ⟨a, ha, given⟩ := exists_of_lift_bind given
  obtain ⟨b, rfl, equal⟩ := h a ha
  exact equal m n u o given

end GivesEqual

end Action

namespace Primitive

variable {room : Nat} {name : String} {args args' : List Value}

private theorem exists_items_of_coincides {v v' : Value} {xs : List Value}
    (h : v.coincides v' = true) (given : items room name v = .ok xs) :
    ∃ ys, items room name v' = .ok ys ∧ List.Forall₂ (fun x y => x.coincides y = true) xs ys := by
  obtain ⟨i, rfl⟩ := (Settled.items name v).holds room xs given
  obtain ⟨j, ys, rfl, each⟩ := Value.exists_list_of_coincides h
  exact ⟨ys, rfl, each⟩

private theorem exists_tables_of_coincide {tables : List (List Value)}
    (h : List.Forall₂ (fun x y => x.coincides y = true) args args')
    (given : args.mapM (items room name) = .ok tables) :
    ∃ tables', args'.mapM (items room name) = .ok tables' ∧
      List.Forall₂ (List.Forall₂ fun x y => x.coincides y = true) tables tables' := by
  induction h generalizing tables with
  | nil =>
    cases given
    exact ⟨[], rfl, .nil⟩
  | cons first _ ih =>
    rw [List.mapM_cons] at given
    obtain ⟨xs, hx, given⟩ := Except.exists_of_bind given
    obtain ⟨rest, hrest, given⟩ := Except.exists_of_bind given
    cases given
    obtain ⟨ys, hy, each⟩ := exists_items_of_coincides first hx
    obtain ⟨rest', hrest', others⟩ := ih hrest
    refine ⟨ys :: rest', ?_, .cons each others⟩
    rw [List.mapM_cons, hy, hrest']
    rfl

private theorem run_givesEqual {p : Primitive} (hp : p.operation ∈ [.cons, .car, .cdr, .append])
    (h : List.Forall₂ (fun x y => x.coincides y = true) args args')
    (call : Value → List Value → Action Value) :
    (p.run room call args).GivesEqual (p.run room call args') := by
  obtain ⟨name, operation, arity⟩ := p
  simp only [List.mem_cons, List.not_mem_nil, or_false] at hp
  rcases hp with rfl | rfl | rfl | rfl
  · rcases h with _ | ⟨first, _ | ⟨second, _ | _⟩⟩
    · exact .raise _ _
    · exact .raise _ _
    · refine .lift_bind fun xs given => ?_
      obtain ⟨ys, given', each⟩ := exists_items_of_coincides second given
      exact ⟨ys, given', .newList (.cons first each)⟩
    · exact .raise _ _
  · rcases h with _ | ⟨first, _ | _⟩
    · exact .raise _ _
    · refine .lift_bind fun xs given => ?_
      obtain ⟨ys, given', each⟩ := exists_items_of_coincides first given
      refine ⟨ys, given', ?_⟩
      cases each with
      | nil => exact .raise _ _
      | cons equal _ => exact .pure equal
    · exact .raise _ _
  · rcases h with _ | ⟨first, _ | _⟩
    · exact .raise _ _
    · refine .lift_bind fun xs given => ?_
      obtain ⟨ys, given', each⟩ := exists_items_of_coincides first given
      refine ⟨ys, given', ?_⟩
      cases each with
      | nil => exact .raise _ _
      | cons _ others => exact .newList others
    · exact .raise _ _
  · refine .lift_bind fun tables given => ?_
    obtain ⟨tables', given', each⟩ := exists_tables_of_coincide h given
    exact ⟨tables', given', .newList (List.rel_flatten each)⟩

theorem call_givesEqual {p : Primitive} (hp : p.operation ∈ [.cons, .car, .cdr, .append])
    (h : List.Forall₂ (fun x y => x.coincides y = true) args args') (depth : Nat) (i j : Identity) :
    (call (depth + 1) (.primitive i p) args).GivesEqual (call (depth + 1) (.primitive j p) args') := by
  simp only [call, Eval.application, ← h.length_eq]
  split
  · exact run_givesEqual hp h (call depth)
  · exact .raise _ _

theorem call_isSame (depth : Nat) (i : Identity) (a b : Value) (m : Machine) :
    call (depth + 1) (.primitive i ⟨"eq?", .isSame, .exactly 2⟩) [a, b] m =
      (.ok (.bool (a.same b)), m) :=
  rfl

theorem call_isEqual_cases (depth : Nat) (i : Identity) (a b : Value) (m : Machine) :
    let outcome := call (depth + 1) (.primitive i ⟨"equal?", .isEqual, .exactly 2⟩) [a, b] m
    outcome = (.ok (.bool (a.coincides b)), m) ∨
      (outcome = (.error .depthExhausted, m) ∧ depth ≤ a.nesting ∧ depth ≤ b.nesting) := by
  intro outcome
  have ran : outcome = ((do return .bool (← a.equal depth b)), m) := rfl
  rcases Value.equal_cases depth a b with compared | ⟨exhausted, deep, deep'⟩
  · rw [compared] at ran
    exact .inl ran
  · rw [exhausted] at ran
    exact .inr ⟨ran, deep, deep'⟩

end Primitive

theorem Value.ExistsIn.mono {exist exist' : Value → Prop} {v : Value} (h : v.ExistsIn exist)
    (imp : ∀ u, exist u → exist' u) : v.ExistsIn exist' :=
  fun u i occurs hi => imp u (h u i occurs hi)

private theorem Value.ShownIn.occurs {u v : Value} (h : u.ShownIn v) : u.Occurs v := by
  induction h with
  | self => exact .self u
  | item hw _ ih => exact .item hw ih

private theorem Value.Finite.nanFree {v : Value} (h : v.Finite) : v.NaNFree := by
  intro shown
  cases h _ shown.occurs

theorem Host.History.exists_coherent {threshold : Nat} {ms : List Moment} {h : Host}
    (history : Host.History (.start threshold) ms h) :
    ∃ exist written made, Coherent exist written made ∧
      ∀ μ ∈ ms, ∀ v, μ.Sees v → v.ExistsIn exist ∧ v.NaNFree := by
  obtain ⟨exist, along, rests⟩ := history.exists_along (holdsAt_start Invariant.coherent threshold)
  refine ⟨exist, _, _, rests.machine.counts, fun μ hμ v seen => ⟨?_, ?_⟩⟩
  · obtain ⟨_, -, first, later⟩ := along.holdsAt hμ
    exact Value.ExistsIn.mono (first.sees seen) later
  · exact (history.finite_of_sees hμ seen).nanFree

/-- One primitive finds out whether values are the same and another whether they are equal, unless both
are nested too deep. Both relations are equivalences on values without the number that is no number;
only their reflexivity needs this. Values of which one identity stands for one object are equal if they
are the same, and so it is with all values that are met in a history. Equal values are of one kind, and
lists are equal just if they are equally long and equal place by place. So the list primitives give equal
values for equal arguments. -/
theorem equality_laws (depth : Nat) (i j : Identity) (m : Machine) :
    let isSame : Primitive := ⟨"eq?", .isSame, .exactly 2⟩
    let isEqual : Primitive := ⟨"equal?", .isEqual, .exactly 2⟩
    let same (a b : Value) := call (depth + 1) (.primitive i isSame) [a, b] m
    let equal (a b : Value) := call (depth + 1) (.primitive j isEqual) [a, b] m
    [isSame, isEqual] ⊆ Primitive.standard ∧
    (∀ a b, same a b = (.ok (.bool (a.same b)), m)) ∧
    (∀ a b, equal a b = (.ok (.bool (a.coincides b)), m) ∨
      (equal a b = (.error .depthExhausted, m) ∧ depth ≤ a.nesting ∧ depth ≤ b.nesting)) ∧
    (∀ a : Value, a.NaNFree → a.same a = true ∧ a.coincides a = true) ∧
    (∀ a b : Value, (a.same b = true → b.same a = true) ∧
      (a.coincides b = true → b.coincides a = true)) ∧
    (∀ a b c : Value, (a.same b = true → b.same c = true → a.same c = true) ∧
      (a.coincides b = true → b.coincides c = true → a.coincides c = true)) ∧
    (∀ exist written made, Coherent exist written made → ∀ a b : Value, a.ExistsIn exist →
      b.ExistsIn exist → a.NaNFree → a.same b = true → a.coincides b = true) ∧
    (∀ threshold ms h, Host.History (.start threshold) ms h →
      ∃ exist written made, Coherent exist written made ∧
        ∀ μ ∈ ms, ∀ v, μ.Sees v → v.ExistsIn exist ∧ v.NaNFree) ∧
    (∀ a b : Value, a.coincides b = true → a.kind = b.kind) ∧
    (∀ k l xs ys, (Value.list k xs).coincides (.list l ys) = true ↔
      xs.length = ys.length ∧ ∀ n (hx : n < xs.length) (hy : n < ys.length),
        (xs.get ⟨n, hx⟩).coincides (ys.get ⟨n, hy⟩) = true) ∧
    ∀ p : Primitive, p.operation ∈ [.cons, .car, .cdr, .append] → ∀ args args',
      List.Forall₂ (fun x y => x.coincides y = true) args args' → ∀ k l,
        (call (depth + 1) (.primitive k p) args).GivesEqual
          (call (depth + 1) (.primitive l p) args') := by
  intro isSame isEqual same equal
  exact ⟨by decide,
    fun a b => Primitive.call_isSame depth i a b m,
    fun a b => Primitive.call_isEqual_cases depth j a b m,
    fun a free => ⟨Value.same_self_of_nanFree free, Value.coincides_self free⟩,
    fun a b => ⟨Value.same_symm, Value.coincides_symm⟩,
    fun a b c => ⟨Value.same_trans, Value.coincides_trans⟩,
    fun exist written made coherent a b ha hb free => Value.coincides_of_same coherent ha hb free,
    fun threshold ms h history => history.exists_coherent,
    fun a b => Value.kind_eq_of_coincides,
    Value.coincides_list_iff_get,
    fun p hp args args' each k l => Primitive.call_givesEqual hp each depth k l⟩

/-- A list that a history has made is the same as itself, hence equal to itself; it is equal to another
one with a zero of the other sign in it, and so are their first items. -/
theorem equality_laws_signed_zeros :
    let list : Value := .primitive (.made 21) ⟨"list", .list, .atLeast 0⟩
    let car : Value := .primitive (.made 18) ⟨"car", .car, .exactly 1⟩
    let zero : Value := .number (.float (.zero false))
    let found := ((Host.start 30).did Action.newGlobals).got (Action.lookup 0 "list")
    let x : Value := .list (.made 30) [zero]
    let y : Value := .list (.written 0) [.number (.float (.zero true))]
    let equal (a b : Value) :=
      call 10 (.primitive (.made 14) ⟨"equal?", .isEqual, .exactly 2⟩) [a, b] (Machine.start 30)
    (found.got (call 1 list [zero])).held = [x, list] ∧ x.same x = true ∧ x.coincides x = true ∧
      x.same y = false ∧ x.coincides y = true ∧ equal y x = (.ok (.bool true), Machine.start 30) ∧
      ∃ v n, call 10 car [y] (Machine.start 30) = (.ok v, n) ∧ zero.coincides v = true := by
  intro list car zero found x y equal
  obtain ⟨-, -, compared, -, symm, -, refined, met, -, -, congruent⟩ :=
    equality_laws 9 (.made 15) (.made 14) (Machine.start 30)
  have held : found.Handed list := .held List.mem_cons_self
  have given : ∀ v ∈ (Activity.call list [zero]).values, found.Handed v := by
    intro v hv
    rcases List.mem_pair.mp hv with rfl | rfl
    · exact held
    · exact .number rfl
  have history : Host.History (.start 30) _ (found.got (call 1 list [zero])) :=
    .cons (.globals _) (.cons (.lookup _ 0 "list") (.cons (.perform 1 given) (.nil _)))
  obtain ⟨exist, written, made, coherent, together⟩ := met 30 _ _ history
  have seen : Moment.Sees (.rests (found.got (call 1 list [zero]))) x :=
    .inl ⟨x, List.mem_cons_self, .self x⟩
  obtain ⟨there, free⟩ := together _ (List.mem_cons_of_mem _ (List.mem_cons_of_mem _
    (List.mem_append_right _ List.mem_cons_self))) x seen
  have same : x.same x = true := by decide +kernel
  have alike : x.coincides y = true := by decide +kernel
  refine ⟨rfl, same, refined exist written made coherent x x there there free same, by decide +kernel,
    alike, ?_, ?_⟩
  · rcases compared y x with answered | ⟨-, deep, -⟩
    · rwa [(symm x y).2 alike] at answered
    · simp [y, Value.nesting, Value.nestings] at deep
  · have first : call 10 car [x] (Machine.start 30) = (.ok zero, Machine.start 30) := rfl
    exact congruent ⟨"car", .car, .exactly 1⟩ (by simp) [x] [y] (.cons alike .nil) (.made 18) (.made 18)
      _ _ _ _ first

end SmallScheme
