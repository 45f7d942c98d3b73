import Mathlib.Logic.Relation
import SmallScheme.Primitive.Standard
import SmallScheme.Proofs.Correspondence.Evaluation
import SmallScheme.Proofs.Scope

/-!
Well-formed stores: outer frames are older, and no procedure anywhere in a binding captures a frame that
does not exist. Everything that can be done with a machine keeps its store well formed, adds frames
without touching the links of those that are there, and gives values whose captured frames exist.
-/

set_option autoImplicit false
set_option relaxedAutoImplicit false

namespace SmallScheme

namespace Value

/-- The first value is the second or stands somewhere inside it: in a list at any depth, or in the
body of a procedure. -/
inductive Occurs : Value → Value → Prop
  | self (v : Value) : Occurs v v
  | item {v w : Value} {i : Identity} {items : List Value} : w ∈ items → Occurs v w →
      Occurs v (.list i items)
  | body {v body : Value} {i : Identity} {params : List String} {frame : FrameId} :
      Occurs v body → Occurs v (.procedure i params body frame)

/-- Every procedure that occurs in the value has a body and captures a frame such as is said. -/
def EachProcedure (Q : Value → FrameId → Prop) (v : Value) : Prop :=
  ∀ i params body frame, Occurs (.procedure i params body frame) v → Q body frame

theorem mem_ofData {data : List Datum} {next : Nat} {v : Value}
    (h : v ∈ (ofData next data).1) : ∃ d ∈ data, ∃ n, v = (ofDatum n d).1 := by
  induction data generalizing next with
  | nil => simp [ofData] at h
  | cons d data ih =>
    simp only [ofData, List.mem_cons] at h
    rcases h with rfl | h
    · exact ⟨d, List.mem_cons_self, next, rfl⟩
    · obtain ⟨d', hd', n, he⟩ := ih h
      exact ⟨d', List.mem_cons_of_mem d hd', n, he⟩

theorem forall_mem_ofData {P : Value → Prop} {data : List Datum}
    (h : ∀ d ∈ data, ∀ n, P (ofDatum n d).1) (next : Nat) : ∀ v ∈ (ofData next data).1, P v := by
  intro v hv
  obtain ⟨d, hd, n, rfl⟩ := mem_ofData hv
  exact h d hd n

section EachProcedure

variable {Q : Value → FrameId → Prop} {v : Value}

theorem EachProcedure.atom (list : v.isList = false) (procedure : ∀ i params body frame,
    v ≠ .procedure i params body frame) : v.EachProcedure Q := by
  intro i params body frame ho
  cases ho with
  | self => exact absurd rfl (procedure _ _ _ _)
  | item => cases list
  | body => exact absurd rfl (procedure _ _ _ _)

theorem eachProcedure_list {i : Identity} {items : List Value} :
    EachProcedure Q (.list i items) ↔ ∀ v ∈ items, v.EachProcedure Q := by
  constructor
  · intro h v hv j params body frame ho
    exact h j params body frame (.item hv ho)
  · intro h j params body frame ho
    cases ho with
    | item hw ho => exact h _ hw j params body frame ho

theorem eachProcedure_procedure {i : Identity} {params : List String} {body : Value}
    {frame : FrameId} :
    EachProcedure Q (.procedure i params body frame) ↔ body.EachProcedure Q ∧ Q body frame := by
  constructor
  · intro h
    exact ⟨fun j ps b f ho => h j ps b f (.body ho), h i params body frame (.self _)⟩
  · rintro ⟨hbody, here⟩ j ps b f ho
    cases ho with
    | self => exact here
    | body ho => exact hbody j ps b f ho

theorem EachProcedure.occurs {u : Value} (h : v.EachProcedure Q) (ho : u.Occurs v) :
    u.EachProcedure Q := by
  induction ho with
  | self => exact h
  | item hw _ ih => exact ih (eachProcedure_list.mp h _ hw)
  | body _ ih => exact ih (eachProcedure_procedure.mp h).1

mutual

/-- There are no procedures in program text. -/
theorem eachProcedure_ofDatum (next : Nat) (d : Datum) : (ofDatum next d).1.EachProcedure Q := by
  cases d with
  | number n => exact .atom rfl nofun
  | symbol name => exact .atom rfl nofun
  | list items => exact eachProcedure_list.mpr (eachProcedure_ofData (next + 1) items)

private theorem eachProcedure_ofData (next : Nat) (data : List Datum) :
    ∀ v ∈ (ofData next data).1, v.EachProcedure Q := by
  cases data with
  | nil => simp [ofData]
  | cons d rest =>
    intro v hv
    rcases List.mem_cons.mp hv with rfl | hv
    · exact eachProcedure_ofDatum next d
    · exact eachProcedure_ofData (ofDatum next d).2 rest v hv

end

theorem eachProcedure_globals (next : Nat) :
    ∀ pair ∈ Primitive.globals next, pair.2.EachProcedure Q := by
  intro pair hp
  rcases List.mem_append.mp hp with hp | hp
  · obtain ⟨⟨p, n⟩, -, rfl⟩ := List.mem_map.mp hp
    exact .atom rfl nofun
  · simp only [List.mem_cons, List.not_mem_nil, or_false] at hp
    rcases hp with rfl | rfl | rfl <;> exact .atom rfl nofun

end EachProcedure

/-- Every procedure that occurs in the value captures one of the first so many frames. -/
def Within (size : Nat) (v : Value) : Prop :=
  ∀ i params body frame, Occurs (.procedure i params body frame) v → frame < size

theorem Within.mono {size size' : Nat} (h : size ≤ size') {v : Value} (hv : v.Within size) :
    v.Within size' :=
  fun i params body frame ho => Nat.lt_of_lt_of_le (hv i params body frame ho) h

private theorem within_unit (size : Nat) : Within size .unit :=
  EachProcedure.atom rfl nofun

private theorem within_bool (size : Nat) (b : Bool) : Within size (.bool b) :=
  EachProcedure.atom rfl nofun

private theorem within_number (size : Nat) (n : Number) : Within size (.number n) :=
  EachProcedure.atom rfl nofun

private theorem within_symbol (size : Nat) (name : String) : Within size (.symbol name) :=
  EachProcedure.atom rfl nofun

private theorem within_primitive (size : Nat) (i : Identity) (p : Primitive) :
    Within size (.primitive i p) :=
  EachProcedure.atom rfl nofun

theorem within_list {size : Nat} {i : Identity} {items : List Value} :
    Within size (.list i items) ↔ ∀ v ∈ items, v.Within size :=
  eachProcedure_list

theorem within_procedure {size : Nat} {i : Identity} {params : List String} {body : Value}
    {frame : FrameId} :
    Within size (.procedure i params body frame) ↔ body.Within size ∧ frame < size :=
  eachProcedure_procedure

theorem within_ofDatum (size next : Nat) (d : Datum) : (ofDatum next d).1.Within size :=
  eachProcedure_ofDatum next d

end Value

namespace Store

/-- What holds of every store that arises. -/
structure WellFormed (s : Store) : Prop where
  older : s.OuterOlder
  within : ∀ f, ∀ pair ∈ s.bindings f, pair.2.Within s.frames.size

/-- The second store has the frames of the first, with the same outer links, and perhaps more. -/
structure Grows (s s' : Store) : Prop where
  size : s.frames.size ≤ s'.frames.size
  outer : ∀ f, f < s.frames.size → s'.outer? f = s.outer? f

theorem Grows.refl (s : Store) : s.Grows s :=
  ⟨Nat.le_refl _, fun _ _ => rfl⟩

theorem Grows.trans {s t u : Store} (h : s.Grows t) (h' : t.Grows u) : s.Grows u :=
  ⟨Nat.le_trans h.size h'.size, fun f hf =>
    (h'.outer f (Nat.lt_of_lt_of_le hf h.size)).trans (h.outer f hf)⟩

variable {s : Store} {f : FrameId} {name : String}

theorem wellFormed_empty : Store.empty.WellFormed :=
  ⟨by simp [OuterOlder, outer?, empty], by simp [bindings, empty]⟩

private theorem WellFormed.resolves (h : s.WellFormed) {owner : FrameId} {value : Value}
    (found : s.Resolves name f owner value) : value.Within s.frames.size :=
  h.within owner _ (Bindings.mem_of_get? (found.owner? h.older).2)

private theorem grows_define (s : Store) (f : FrameId) (name : String) (value : Value) :
    s.Grows (s.define f name value) :=
  ⟨Nat.le_of_eq (s.size_define f name value).symm, fun g _ => s.outer?_define f g name value⟩

theorem WellFormed.define (h : s.WellFormed) {value : Value} (hv : value.Within s.frames.size) :
    (s.define f name value).WellFormed := by
  refine ⟨fun g g' ho => h.older g g' ?_, fun g pair hp => ?_⟩
  · rwa [outer?_define] at ho
  · rw [size_define]
    rcases mem_bindings_define hp with hp | rfl
    · exact h.within g pair hp
    · exact hv

theorem grows_addFrame (s : Store) (bindings : Bindings) (outer : Option FrameId) :
    s.Grows (s.addFrame bindings outer).2 := by
  refine ⟨?_, fun g hg => ?_⟩
  · rw [size_addFrame]
    exact Nat.le_succ _
  · simp only [outer?, frames_addFrame_of_lt hg]

theorem WellFormed.addFrame (h : s.WellFormed) {bindings : Bindings} {outer : Option FrameId}
    (houter : ∀ g, outer = some g → g < s.frames.size)
    (hb : ∀ pair ∈ bindings, pair.2.Within s.frames.size) :
    (s.addFrame bindings outer).2.WellFormed := by
  refine ⟨OuterOlder.addFrame h.older houter, fun g pair hp => ?_⟩
  rw [size_addFrame]
  rcases mem_bindings_addFrame hp with hp | hp
  · exact (h.within g pair hp).mono (Nat.le_succ _)
  · exact (hb pair hp).mono (Nat.le_succ _)

end Store

private theorem eq_and_forall_of_forall₂ {α : Type} {P : α → Prop} {xs ys : List α}
    (h : List.Forall₂ (fun x y => x = y ∧ P x) xs ys) : xs = ys ∧ ∀ x ∈ xs, P x := by
  induction h with
  | nil => exact ⟨rfl, by simp⟩
  | cons first _ ih => exact ⟨by rw [first.1, ih.1], List.forall_mem_cons.mpr ⟨first.2, ih.2⟩⟩

theorem within_zip {size : Nat} {params : List String} {args : List Value}
    (h : ∀ v ∈ args, v.Within size) :
    ∀ pair ∈ Bindings.ofList (params.zip args), pair.2.Within size :=
  fun pair hp => h pair.2 (List.of_mem_zip (Bindings.mem_ofList hp)).2

def Correspondence.wellFormed : Correspondence where
  World := Store
  later := Store.Grows
  machines s m m' := m = m' ∧ m.store = s ∧ s.WellFormed
  values s v v' := v = v' ∧ v.Within s.frames.size
  frames s f f' := f = f' ∧ f < s.frames.size
  data _ := True
  excused _ := False
  later_refl := Store.Grows.refl
  later_trans := Store.Grows.trans
  values_later := by
    rintro s s' v _ hs ⟨rfl, hv⟩
    exact ⟨rfl, hv.mono hs.size⟩
  frames_later := by
    rintro s s' f _ hs ⟨rfl, hf⟩
    exact ⟨rfl, Nat.lt_of_lt_of_le hf hs.size⟩
  alike := by
    rintro s v _ ⟨rfl, hv⟩
    cases v with
    | unit => exact .unit
    | bool b => exact .bool b
    | number n => exact .number n
    | symbol name => exact .symbol name
    | list i items =>
      exact .list (List.forall₂_same.mpr fun w hw => ⟨rfl, Value.within_list.mp hv w hw⟩)
    | procedure i params body frame =>
      obtain ⟨hbody, hframe⟩ := Value.within_procedure.mp hv
      exact .procedure ⟨rfl, hbody⟩ ⟨rfl, hframe⟩
    | primitive i p => exact .primitive
  same := by
    rintro s a _ b _ ⟨rfl, -⟩ ⟨rfl, -⟩
    rfl
  unit s := ⟨rfl, Value.within_unit _⟩
  bool s b := ⟨rfl, Value.within_bool _ b⟩
  number _ _ _ := ⟨rfl, Value.within_number _ _⟩
  lookup := by
    rintro s m _ f _ name ⟨rfl, rfl, hs⟩ ⟨rfl, hf⟩ -
    rcases Store.resolves_or_unresolved hs.older hf name with ⟨owner, value, found⟩ | missing
    · rw [found.lookup? hs.older]
      exact .some ⟨rfl, hs.resolves found⟩
    · rw [missing.lookup? hs.older]
      exact .none
  owner := by
    rintro s m _ f _ name ⟨rfl, rfl, hs⟩ ⟨rfl, hf⟩ -
    rcases Store.resolves_or_unresolved hs.older hf name with ⟨owner, value, found⟩ | missing
    · rw [(found.owner? hs.older).1]
      exact .some ⟨rfl, found.lt⟩
    · rw [missing.owner? hs.older]
      exact .none
  describe := by
    rintro s m _ f _ ⟨rfl, -⟩ ⟨rfl, -⟩
    rfl
  define := by
    rintro s m _ f _ name v _ ⟨rfl, rfl, hs⟩ ⟨rfl, -⟩ ⟨rfl, hv⟩ -
    exact ⟨_, Store.grows_define _ _ _ _, rfl, rfl, hs.define hv⟩
  newFrame := by
    rintro s m _ i j params body _ f _ args args' ⟨rfl, rfl, hs⟩ ⟨heq, hp⟩ hargs -
    obtain ⟨-, -, -, rfl⟩ := Value.procedure.inj heq
    obtain ⟨rfl, within⟩ := eq_and_forall_of_forall₂ hargs
    have hf := (Value.within_procedure.mp hp).2
    refine ⟨_, Store.grows_addFrame _ (.ofList (params.zip args)) (some f), ⟨rfl, ?_⟩, rfl, rfl, ?_⟩
    · rw [Store.size_addFrame]
      exact Nat.lt_succ_self _
    · refine hs.addFrame ?_ (within_zip within)
      rintro _ ⟨⟩
      exact hf
  newList := by
    rintro s m _ items items' ⟨rfl, rfl, hs⟩ hitems
    obtain ⟨rfl, within⟩ := eq_and_forall_of_forall₂ hitems
    exact ⟨m.store.make.2, ⟨Nat.le_refl _, fun _ _ => rfl⟩, ⟨rfl, rfl, ⟨hs.older, hs.within⟩⟩, rfl,
      Value.within_list.mpr within⟩
  newProcedure := by
    rintro s m _ params body _ f _ ⟨rfl, rfl, hs⟩ ⟨rfl, hbody⟩ ⟨rfl, hf⟩ -
    exact ⟨m.store.make.2, ⟨Nat.le_refl _, fun _ _ => rfl⟩, ⟨rfl, rfl, ⟨hs.older, hs.within⟩⟩, rfl,
      Value.within_procedure.mpr ⟨hbody, hf⟩⟩
  load := by
    rintro s m _ d ⟨rfl, rfl, hs⟩ -
    exact ⟨{ m.store with written := (Value.ofDatum m.store.written d).2 },
      ⟨Nat.le_refl _, fun _ _ => rfl⟩, ⟨rfl, rfl, ⟨hs.older, hs.within⟩⟩, rfl,
      Value.within_ofDatum _ _ d⟩
  report := by
    rintro s m _ severity message ⟨rfl, rfl, hs⟩
    exact ⟨_, .refl _, rfl, rfl, hs⟩
  emit := by
    rintro s m _ text ⟨rfl, rfl, hs⟩
    exact ⟨_, .refl _, rfl, rfl, hs⟩

/-- What one action on a well-formed store leaves behind. -/
theorem Correspondence.Agrees.wellFormed {α β : Type} {s : Store} {Q : Store → α → β → Prop}
    {r : Except Failure α × Machine} {r' : Except Failure β × Machine}
    (h : Correspondence.wellFormed.Agrees s Q r r') :
    r.2.store.WellFormed ∧ s.Grows r.2.store ∧
      ∀ a b, r.1 = .ok a → r'.1 = .ok b → Q r.2.store a b := by
  cases h with
  | ok hs hm hq =>
    obtain ⟨-, rfl, hw⟩ := hm
    refine ⟨hw, hs, ?_⟩
    rintro _ _ ⟨⟩ ⟨⟩
    exact hq
  | error hs hm =>
    obtain ⟨-, rfl, hw⟩ := hm
    exact ⟨hw, hs, by simp⟩
  | excused impossible => exact impossible.elim

/-- A machine in the hands of a host, and the values that the host got from it. -/
structure Host where
  machine : Machine
  held : List Value

namespace Host

def size (h : Host) : Nat :=
  h.machine.store.frames.size

/-- The values that a host can hand in: those it got and their parts, atoms, primitives, and the lists
and procedures that it can put together from them. -/
inductive Supplied (h : Host) : Value → Prop
  | held {v : Value} : v ∈ h.held → Supplied h v
  | unit : Supplied h .unit
  | bool (b : Bool) : Supplied h (.bool b)
  | number (n : Number) : Supplied h (.number n)
  | symbol (name : String) : Supplied h (.symbol name)
  | primitive (i : Identity) (p : Primitive) : Supplied h (.primitive i p)
  | list {i : Identity} {items : List Value} : (∀ v ∈ items, Supplied h v) →
      Supplied h (.list i items)
  | procedure {i : Identity} {params : List String} {body : Value} {frame : FrameId} :
      Supplied h body → frame < h.size → Supplied h (.procedure i params body frame)
  | item {i : Identity} {items : List Value} {v : Value} : Supplied h (.list i items) → v ∈ items →
      Supplied h v
  | body {i : Identity} {params : List String} {body : Value} {frame : FrameId} :
      Supplied h (.procedure i params body frame) → Supplied h body

def did {α : Type} (h : Host) (x : Action α) : Host :=
  { h with machine := (x h.machine).2 }

def got (h : Host) (x : Action Value) : Host :=
  match x h.machine with
  | (.ok v, m) => ⟨m, v :: h.held⟩
  | (.error _, m) => ⟨m, h.held⟩

/-- What a host can do. Frames that it names have to exist. -/
inductive Step : Host → Host → Prop
  | globals (h : Host) : Step h (h.did Action.newGlobals)
  | enter {h : Host} {args : List Value} {outer : Option FrameId} (params : List String) :
      (∀ v ∈ args, h.Supplied v) → (∀ f, outer = some f → f < h.size) →
      Step h (h.did (Action.enter params args outer))
  | define {h : Host} {f : FrameId} {v : Value} (name : String) : f < h.size → h.Supplied v →
      Step h (h.did (Action.define f name v))
  | assign {h : Host} {f : FrameId} {v : Value} (name : String) : f < h.size → h.Supplied v →
      Step h (h.did (Action.assign f name v))
  | lookup {h : Host} {f : FrameId} (name : String) : f < h.size →
      Step h (h.got (Action.lookup f name))
  | eval {h : Host} {f : FrameId} {e : Value} (depth : Nat) : f < h.size → h.Supplied e →
      Step h (h.got (SmallScheme.eval depth e f))
  | call {h : Host} {f : Value} {args : List Value} (depth : Nat) : h.Supplied f →
      (∀ v ∈ args, h.Supplied v) → Step h (h.got (SmallScheme.call depth f args))
  | run {h : Host} {f : FrameId} (depth : Nat) (source : String) : f < h.size →
      Step h (h.got (Program.run depth f source))
  | evalSource {h : Host} {f : FrameId} (depth : Nat) (echo : Bool) (source : String) :
      f < h.size → Step h (h.did (Program.evalSource depth f echo source))

/-- The invariant of all that a host does. -/
structure Sound (h : Host) : Prop where
  store : h.machine.store.WellFormed
  held : ∀ v ∈ h.held, v.Within h.size

theorem Sound.supplied {h : Host} (sound : h.Sound) {v : Value} (hv : h.Supplied v) :
    v.Within h.size := by
  induction hv with
  | held hv => exact sound.held _ hv
  | unit => exact Value.within_unit _
  | bool b => exact Value.within_bool _ b
  | number n => exact Value.within_number _ n
  | symbol name => exact Value.within_symbol _ name
  | primitive i p => exact Value.within_primitive _ i p
  | list _ ih => exact Value.within_list.mpr ih
  | procedure _ hf ih => exact Value.within_procedure.mpr ⟨ih, hf⟩
  | item _ hv ih => exact Value.within_list.mp ih _ hv
  | body _ ih => exact (Value.within_procedure.mp ih).1

section Steps

variable {h : Host} {α : Type} {Q : Store → α → α → Prop}

private theorem Sound.did (sound : h.Sound) {x : Action α}
    (agrees : Correspondence.wellFormed.Agrees h.machine.store Q (x h.machine) (x h.machine)) :
    (h.did x).Sound ∧ h.machine.store.Grows (h.did x).machine.store := by
  obtain ⟨wellFormed, grows, -⟩ := agrees.wellFormed
  exact ⟨⟨wellFormed, fun v hv => (sound.held v hv).mono grows.size⟩, grows⟩

private theorem Sound.got (sound : h.Sound) {x : Action Value}
    (agrees : Correspondence.wellFormed.Agrees h.machine.store Correspondence.wellFormed.values
      (x h.machine) (x h.machine)) :
    (h.got x).Sound ∧ h.machine.store.Grows (h.got x).machine.store := by
  obtain ⟨wellFormed, grows, result⟩ := agrees.wellFormed
  unfold Host.got
  split
  · rename_i v m hx
    rw [hx] at wellFormed grows result
    have before : ∀ w ∈ h.held, w.Within m.store.frames.size :=
      fun w hw => (sound.held w hw).mono grows.size
    exact ⟨⟨wellFormed, List.forall_mem_cons.mpr ⟨(result v v rfl rfl).2, before⟩⟩, grows⟩
  · rename_i failure m hx
    rw [hx] at wellFormed grows
    exact ⟨⟨wellFormed, fun w hw => (sound.held w hw).mono grows.size⟩, grows⟩

end Steps

theorem newGlobals_agrees {m : Machine} (hs : m.store.WellFormed) :
    Correspondence.wellFormed.Agrees m.store (fun _ _ _ => True) (Action.newGlobals m)
      (Action.newGlobals m) := by
  let counted : Store := { m.store with made := m.store.made + Primitive.standard.length }
  have wellFormed : counted.WellFormed := ⟨hs.older, hs.within⟩
  have same : m.store.Grows counted := ⟨Nat.le_refl _, fun _ _ => rfl⟩
  have grows := same.trans (Store.grows_addFrame counted (Primitive.globals m.store.made) none)
  exact .ok grows ⟨rfl, rfl, wellFormed.addFrame (by simp) (Value.eachProcedure_globals _)⟩ trivial

private theorem enter_agrees {m : Machine} (hs : m.store.WellFormed) (params : List String)
    {args : List Value} {outer : Option FrameId}
    (hargs : ∀ v ∈ args, v.Within m.store.frames.size)
    (houter : ∀ f, outer = some f → f < m.store.frames.size) :
    Correspondence.wellFormed.Agrees m.store (fun _ _ _ => True) (Action.enter params args outer m)
      (Action.enter params args outer m) := by
  unfold Action.enter
  split
  · exact .ok (Store.grows_addFrame _ _ outer) ⟨rfl, rfl, hs.addFrame houter (within_zip hargs)⟩ trivial
  · exact .fail _ ⟨rfl, rfl, hs⟩

/-- One step keeps the invariant and the outer links. -/
theorem Step.sound {h h' : Host} (step : Step h h') (sound : h.Sound) :
    h'.Sound ∧ h.machine.store.Grows h'.machine.store := by
  have here : Correspondence.wellFormed.machines h.machine.store h.machine h.machine :=
    ⟨rfl, rfl, sound.store⟩
  cases step with
  | globals => exact sound.did (newGlobals_agrees sound.store)
  | enter params hargs houter =>
    exact sound.did (enter_agrees sound.store params (fun v hv => sound.supplied (hargs v hv)) houter)
  | define name hf hv =>
    exact sound.did (Correspondence.Agrees.define here ⟨rfl, hf⟩ ⟨rfl, sound.supplied hv⟩
      ⟨rfl, Value.within_symbol _ name⟩)
  | assign name hf hv =>
    exact sound.did (Correspondence.Agrees.assign here ⟨rfl, hf⟩ ⟨rfl, sound.supplied hv⟩
      ⟨rfl, Value.within_symbol _ name⟩)
  | lookup name hf =>
    exact sound.got (Correspondence.Agrees.lookup here ⟨rfl, hf⟩ ⟨rfl, Value.within_symbol _ name⟩)
  | eval depth hf he =>
    exact sound.got (Correspondence.eval_agrees (.refl depth) here ⟨rfl, sound.supplied he⟩ ⟨rfl, hf⟩)
  | call depth hf hargs =>
    have given : List.Forall₂ (Correspondence.wellFormed.values h.machine.store) _ _ :=
      List.forall₂_same.mpr fun v hv => ⟨rfl, sound.supplied (hargs v hv)⟩
    exact sound.got (Correspondence.call_agrees (.refl depth) here ⟨rfl, sound.supplied hf⟩ given)
  | run depth source hf =>
    exact sound.got (Correspondence.program_agrees (fun _ _ _ _ => trivial) here ⟨rfl, hf⟩)
  | evalSource depth echo source hf =>
    exact sound.did (Correspondence.steps_agree (fun _ excused => excused) (.refl depth)
      (fun _ _ => trivial) here ⟨rfl, hf⟩)

/-- Any number of steps. -/
abbrev Reaches : Host → Host → Prop :=
  Relation.ReflTransGen Step

theorem Reaches.sound {h h' : Host} (reaches : Reaches h h') (sound : h.Sound) :
    h'.Sound ∧ h.machine.store.Grows h'.machine.store := by
  induction reaches with
  | refl => exact ⟨sound, .refl _⟩
  | tail _ step ih =>
    obtain ⟨sound, grows⟩ := ih
    obtain ⟨sound, further⟩ := step.sound sound
    exact ⟨sound, grows.trans further⟩

def start (threshold : Nat) : Host :=
  ⟨.start threshold, []⟩

theorem sound_start (threshold : Nat) : (start threshold).Sound :=
  ⟨Store.wellFormed_empty, by simp [start]⟩

/-- Whatever a host does, the store stays well formed and its outer links stay as they are; what the
host holds or can put together captures frames that exist; and every search for a name and every
count of outer frames ends, having met frames that exist only. -/
theorem reaches_wellFormed {threshold : Nat} {h h' : Host} (reached : Reaches (start threshold) h)
    (reaches : Reaches h h') :
    let s := h'.machine.store
    s.WellFormed ∧ h.machine.store.Grows s ∧
      (∀ v, h'.Supplied v → v.Within s.frames.size) ∧
      ∀ f, f < s.frames.size →
        s.Walk f (s.chain f) ∧
        (∀ path, s.Walk f path →
          s.describe f = s!"<Env depth={path.length - 1} names={(s.bindings f).length}>") ∧
        ∀ name,
          (∃ owner value, s.Resolves name f owner value ∧ owner < s.frames.size ∧
            s.owner? f name = some owner ∧ s.lookup? f name = some value) ∨
          (s.Unresolved name f ∧ s.owner? f name = none ∧ s.lookup? f name = none) := by
  obtain ⟨sound, -⟩ := reached.sound (sound_start threshold)
  obtain ⟨sound, grows⟩ := reaches.sound sound
  refine ⟨sound.store, grows, fun v hv => sound.supplied hv, fun f hf => ?_⟩
  have older := sound.store.older
  have walk := Store.walk_chain older hf
  refine ⟨walk, fun path other => by rw [← walk.unique other]; rfl, fun name => ?_⟩
  rcases Store.resolves_or_unresolved older hf name with ⟨owner, value, found⟩ | missing
  · exact .inl ⟨owner, value, found, found.lt, (found.owner? older).1, found.lookup? older⟩
  · exact .inr ⟨missing, missing.owner? older, missing.lookup? older⟩

/-- A procedure made inside another call, and then a call of it that fails. -/
theorem reaches_wellFormed_inner_procedure :
    let globals := (start 30).did Action.newGlobals
    let made := globals.got (Program.run 20 0 "(define f ((lambda (x) (lambda (y) (+ x z))) 1))")
    let failed := made.got (Program.run 20 0 "(f 2)")
    Reaches (start 30) made ∧ Reaches made failed ∧ failed.size = 3 ∧
      failed.machine.store.WellFormed ∧ failed.machine.store.Walk 2 (failed.machine.store.chain 2) ∧
      failed.machine.store.chain 2 = [2, 1, 0] := by
  intro globals made failed
  have first : 0 < globals.size := by decide +kernel
  have second : 0 < made.size := by decide +kernel
  have third : 2 < failed.size := by decide +kernel
  have reached : Reaches (start 30) made := .tail (.single (.globals _)) (.run 20 _ first)
  have reaches : Reaches made failed := .single (.run 20 _ second)
  obtain ⟨wellFormed, -, -, frames⟩ := reaches_wellFormed reached reaches
  exact ⟨reached, reaches, by decide +kernel, wellFormed, (frames 2 third).1, by decide +kernel⟩

end Host

end SmallScheme
