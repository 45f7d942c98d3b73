import SmallScheme.Proofs.NativePrimitive
import SmallScheme.Proofs.ReaderOutcome
import SmallScheme.Proofs.Sequencing

/-!
What a program does not ask for cannot influence it. A name that is none of a text's words is never looked
up while the text runs, and neither is a keyword that stands at the head of lists only. So two runs in
global frames that differ in what that name is bound to go side by side, step by step.
-/

set_option autoImplicit false
set_option relaxedAutoImplicit false

namespace SmallScheme

variable {α β : Type}

namespace Bindings

variable {name other : String}

def without (name : String) (bindings : Bindings) : Bindings :=
  bindings.filter (·.1 ≠ name)

private theorem without_cons (name : String) (pair : String × Value) (rest : Bindings) :
    without name (pair :: rest) =
      if pair.1 = name then rest.without name else pair :: rest.without name := by
  by_cases same : pair.1 = name <;> simp [without, same]

private theorem get?_without (h : other ≠ name) (bindings : Bindings) :
    (bindings.without name).get? other = bindings.get? other := by
  induction bindings with
  | nil => rfl
  | cons pair rest ih =>
    rw [without_cons]
    by_cases same : pair.1 = name
    · simp [same, get?, h.symm, ih]
    · simp [same, get?, ih]

private theorem without_put_of_ne (h : other ≠ name) (value : Value) (bindings : Bindings) :
    (bindings.put other value).without name = (bindings.without name).put other value := by
  induction bindings with
  | nil => simp [without, put, h]
  | cons pair rest ih =>
    rw [without_cons, put]
    by_cases found : pair.1 = other
    · simp [found, h, without_cons, put]
    · by_cases same : pair.1 = name <;> simp [found, same, without_cons, put, ih, h.symm]

private theorem without_put_self (name : String) (value : Value) (bindings : Bindings) :
    (bindings.put name value).without name = bindings.without name := by
  induction bindings with
  | nil => simp [without, put]
  | cons pair rest ih =>
    rw [without_cons, put]
    by_cases same : pair.1 = name <;> simp [same, without_cons, ih]

end Bindings

namespace Store

variable {s : Store} {f g : FrameId} {name other : String}

def without (s : Store) (frame : FrameId) (name : String) : Store :=
  { s with
    frames := s.frames.modify frame fun f => { f with bindings := f.bindings.without name } }

private theorem size_without (s : Store) (f : FrameId) (name : String) :
    (s.without f name).frames.size = s.frames.size := by
  simp [without]

private theorem outer?_without (s : Store) (f g : FrameId) (name : String) :
    (s.without f name).outer? g = s.outer? g := by
  simp only [outer?, without, Array.getElem?_modify]
  split
  · cases s.frames[g]? <;> rfl
  · rfl

private theorem bindings_without_self (s : Store) (f : FrameId) (name : String) :
    (s.without f name).bindings f = (s.bindings f).without name := by
  simp only [bindings, without, Array.getElem?_modify, if_true]
  cases s.frames[f]? <;> rfl

private theorem bindings_without_of_ne (h : g ≠ f) (s : Store) (name : String) :
    (s.without f name).bindings g = s.bindings g := by
  simp [bindings, without, Array.getElem?_modify, h.symm]

private theorem mem_of_mem_bindings_without {pair : String × Value}
    (h : pair ∈ (s.without f name).bindings g) : pair ∈ s.bindings g := by
  by_cases same : g = f
  · subst same
    rw [bindings_without_self] at h
    exact List.mem_of_mem_filter h
  · rwa [bindings_without_of_ne same] at h

private theorem get?_without (h : other ≠ name) (s : Store) (f g : FrameId) :
    ((s.without f name).bindings g).get? other = (s.bindings g).get? other := by
  by_cases same : g = f
  · rw [same, bindings_without_self, Bindings.get?_without h]
  · rw [bindings_without_of_ne same]

private theorem owner?_without (h : other ≠ name) (s : Store) (f g : FrameId) :
    (s.without f name).owner? g other = s.owner? g other := by
  have binds : (s.without f name).binds other = s.binds other := by
    funext o
    simp only [Store.binds, get?_without h]
  rw [owner?, binds, chain_congr (fun o => s.outer?_without f o name) g, owner?]

private theorem lookup?_without (h : other ≠ name) (s : Store) (f g : FrameId) :
    (s.without f name).lookup? g other = s.lookup? g other := by
  simp only [lookup?, owner?_without h, get?_without h]

private theorem without_define_of_ne (h : other ≠ name) (s : Store) (f g : FrameId)
    (value : Value) :
    (s.define g other value).without f name = (s.without f name).define g other value := by
  simp only [without, define, Store.mk.injEq, and_true]
  refine Array.ext_getElem? fun i => ?_
  simp only [Array.getElem?_modify]
  cases s.frames[i]? with
  | none => simp
  | some frame =>
    by_cases hf : f = i <;> by_cases hg : g = i <;> simp [hf, hg, Bindings.without_put_of_ne h]

theorem without_define_self (s : Store) (f : FrameId) (name : String) (value : Value) :
    (s.define f name value).without f name = s.without f name := by
  simp only [without, define, Store.mk.injEq, and_true]
  refine Array.ext_getElem? fun i => ?_
  simp only [Array.getElem?_modify]
  cases s.frames[i]? with
  | none => simp
  | some frame => by_cases hf : f = i <;> simp [hf, Bindings.without_put_self]

private theorem without_addFrame (h : f < s.frames.size) (bindings : Bindings)
    (outer : Option FrameId) :
    (s.addFrame bindings outer).2.without f name = ((s.without f name).addFrame bindings outer).2 := by
  simp only [without, addFrame, Store.mk.injEq, and_true]
  refine Array.ext_getElem? fun i => ?_
  simp only [Array.getElem?_modify, Array.getElem?_push, Array.size_modify]
  by_cases hf : f = i
  · subst hf
    simp [Nat.ne_of_lt h]
  · simp [hf]

end Store

namespace Value

variable {name : String}

/-- Expressions that do not ask for the name: it occurs in them, if at all, as a keyword at the head of
lists. -/
inductive Avoids (name : String) : Value → Prop
  | number (n : Number) : Avoids name (.number n)
  | symbol {other : String} : other ≠ name → Avoids name (.symbol other)
  | list {i : Identity} {items : List Value} : (∀ v ∈ items, Avoids name v) →
      Avoids name (.list i items)
  | headed {i : Identity} {rest : List Value} {form : SpecialForm} : name = form.keyword →
      (∀ v ∈ rest, Avoids name v) → Avoids name (.list i (.symbol name :: rest))

private theorem Avoids.eachProcedure {Q : Value → FrameId → Prop} {e : Value} (h : e.Avoids name) :
    e.EachProcedure Q := by
  induction h with
  | number => exact .atom rfl nofun
  | symbol => exact .atom rfl nofun
  | list _ ih => exact eachProcedure_list.mpr ih
  | headed _ _ ih => exact eachProcedure_list.mpr (List.forall_mem_cons.mpr ⟨.atom rfl nofun, ih⟩)

private theorem Avoids.parts {i : Identity} {head : Value} {rest : List Value}
    (h : Avoids name (.list i (head :: rest))) :
    ∀ part ∈ (Form.ofList head rest).parts, part.Avoids name := by
  intro part hp
  cases h with
  | list items =>
    obtain ⟨first, others⟩ := List.forall_mem_cons.mp items
    rcases Form.ofList_cases head rest with ⟨special, -, same⟩ | ⟨-, same⟩
    · rw [same] at hp
      exact others part (Form.mem_of_mem_special special hp)
    · rw [same] at hp
      exact items part hp
  | @headed _ _ form keyword others =>
    subst keyword
    have same := BigStep.ofList_keyword form rest
    rw [BigStep.keyword] at same
    rw [same] at hp
    exact others part (Form.mem_of_mem_special form hp)

/-- Calling what is in the value asks for the name nowhere and happens in frames from the given one on. -/
def Harmless (name : String) (g : FrameId) (v : Value) : Prop :=
  v.EachProcedure fun body frame => body.Avoids name ∧ g ≤ frame

end Value

/-- The frames from the given one on are a world of their own: what is bound in them is harmless, and no
other frames are around them. -/
structure Store.Sealed (name : String) (g : FrameId) (s : Store) : Prop where
  present : g < s.frames.size
  harmless : ∀ f, g ≤ f → ∀ pair ∈ s.bindings f, pair.2.Harmless name g
  inward : ∀ f o, g ≤ f → s.outer? f = some o → g ≤ o

namespace Store.Sealed

variable {name other : String} {g f : FrameId} {s : Store} {v : Value}

private theorem le_of_mem_chain (h : s.Sealed name g) (hf : g ≤ f) : ∀ o ∈ s.chain f, g ≤ o := by
  have within (k : Nat) : ∀ f, g ≤ f → ∀ o ∈ s.chainWithin k f, g ≤ o := by
    induction k with
    | zero => simp [chainWithin]
    | succ k ih =>
      intro f hf
      refine List.forall_mem_cons.mpr ⟨hf, ?_⟩
      cases ho : s.outer? f with
      | none => simp
      | some o => exact ih o (h.inward f o hf ho)
  exact within (f + 1) f hf

private theorem lookup (h : s.Sealed name g) (hf : g ≤ f) (found : s.lookup? f other = some v) :
    v.Harmless name g := by
  obtain ⟨owner, chained, bound⟩ := mem_of_lookup? found
  exact h.harmless owner (h.le_of_mem_chain hf owner chained) _ bound

private theorem define (h : s.Sealed name g) (hv : v.Harmless name g) (f : FrameId)
    (other : String) :
    (s.define f other v).Sealed name g := by
  refine ⟨?_, fun o ho pair hp => ?_, fun o o' ho linked => ?_⟩
  · rw [size_define]
    exact h.present
  · rcases mem_bindings_define hp with hp | rfl
    · exact h.harmless o ho pair hp
    · exact hv
  · rw [outer?_define] at linked
    exact h.inward o o' ho linked

private theorem addFrame {bindings : Bindings} (h : s.Sealed name g) (hf : g ≤ f)
    (hb : ∀ pair ∈ bindings, pair.2.Harmless name g) :
    (s.addFrame bindings (some f)).2.Sealed name g := by
  refine ⟨?_, fun o ho pair hp => ?_, fun o o' ho linked => ?_⟩
  · rw [size_addFrame]
    exact Nat.lt_succ_of_lt h.present
  · rcases mem_bindings_addFrame hp with hp | hp
    · exact h.harmless o ho pair hp
    · exact hb pair hp
  · rcases outer?_addFrame_cases linked with linked | ⟨-, linked⟩
    · exact h.inward o o' ho linked
    · exact Option.some.inj linked ▸ hf

theorem newFrame {bindings : Bindings} (s : Store)
    (hb : ∀ pair ∈ bindings, pair.2.Harmless name s.frames.size) :
    (s.addFrame bindings none).2.Sealed name s.frames.size := by
  refine ⟨?_, fun o ho pair hp => ?_, fun o o' ho linked => ?_⟩
  · rw [size_addFrame]
    exact Nat.lt_succ_self _
  · rcases mem_bindings_addFrame hp with hp | hp
    · simp [Store.bindings, Array.getElem?_eq_none ho] at hp
    · exact hb pair hp
  · rcases outer?_addFrame_cases linked with linked | ⟨-, linked⟩
    · simp [outer?, Array.getElem?_eq_none ho] at linked
    · cases linked

theorem without (h : s.Sealed name g) (f : FrameId) (other : String) :
    (s.without f other).Sealed name g := by
  refine ⟨?_, fun o ho pair hp => ?_, fun o o' ho linked => ?_⟩
  · rw [size_without]
    exact h.present
  · exact h.harmless o ho pair (mem_of_mem_bindings_without hp)
  · rw [outer?_without] at linked
    exact h.inward o o' ho linked

end Store.Sealed

/-- Stores that are the same but for what the name is bound to in the given frame. -/
structure Store.Twins (name : String) (g : FrameId) (s t : Store) : Prop where
  same : s.without g name = t.without g name
  apart : (s.without g name).Sealed name g

namespace Store.Twins

variable {name other : String} {g f : FrameId} {s t : Store} {v : Value}

private theorem owner? (h : s.Twins name g t) (ho : other ≠ name) (f : FrameId) :
    s.owner? f other = t.owner? f other := by
  rw [← owner?_without ho s g, h.same, owner?_without ho]

private theorem lookup? (h : s.Twins name g t) (ho : other ≠ name) (f : FrameId) :
    s.lookup? f other = t.lookup? f other := by
  rw [← lookup?_without ho s g, h.same, lookup?_without ho]

theorem get? (h : s.Twins name g t) (ho : other ≠ name) (f : FrameId) :
    (s.bindings f).get? other = (t.bindings f).get? other := by
  rw [← get?_without ho s g, h.same, get?_without ho]

private theorem size (h : s.Twins name g t) : s.frames.size = t.frames.size := by
  rw [← s.size_without g name, h.same, size_without]

private theorem made (h : s.Twins name g t) : s.made = t.made := by
  have same := congrArg Store.made h.same
  exact same

private theorem written (h : s.Twins name g t) : s.written = t.written := by
  have same := congrArg Store.written h.same
  exact same

private theorem present (h : s.Twins name g t) : g < s.frames.size := by
  have present := h.apart.present
  rwa [size_without] at present

private theorem define (h : s.Twins name g t) (ho : other ≠ name) (hv : v.Harmless name g)
    (f : FrameId) :
    (s.define f other v).Twins name g (t.define f other v) := by
  constructor
  · rw [without_define_of_ne ho, without_define_of_ne ho, h.same]
  · rw [without_define_of_ne ho]
    exact h.apart.define hv f other

private theorem addFrame {bindings : Bindings} (h : s.Twins name g t) (hf : g ≤ f)
    (hb : ∀ pair ∈ bindings, pair.2.Harmless name g) :
    (s.addFrame bindings (some f)).2.Twins name g (t.addFrame bindings (some f)).2 := by
  constructor
  · rw [without_addFrame h.present, without_addFrame (h.size ▸ h.present), h.same]
  · rw [without_addFrame h.present]
    exact h.apart.addFrame hf hb

private theorem renumber (h : s.Twins name g t) {written written' made made' : Nat}
    (hw : written = written') (hm : made = made') :
    Store.Twins name g { s with written, made } { t with written := written', made := made' } := by
  subst hw hm
  have frames := congrArg Store.frames h.same
  exact ⟨congrArg (Store.mk · written made) frames, h.apart.present, h.apart.harmless, h.apart.inward⟩

end Store.Twins

/-- Two ends of an action that tell nothing apart: the same result, or the same failure, on twin
stores. -/
inductive SameEnd (name : String) (g : FrameId) (P : α → Prop) :
    Except Failure α × Machine → Except Failure α × Machine → Prop
  | ok {a : α} {m n : Machine} : P a → m.store.Twins name g n.store →
      SameEnd name g P (.ok a, m) (.ok a, n)
  | error (failure : Failure) {m n : Machine} : m.store.Twins name g n.store →
      SameEnd name g P (.error failure, m) (.error failure, n)

namespace SameEnd

variable {name : String} {g : FrameId} {P : α → Prop} {r r' : Except Failure α × Machine}

theorem outcome (h : SameEnd name g P r r') : r.1 = r'.1 := by
  cases h <;> rfl

theorem twins (h : SameEnd name g P r r') : r.2.store.Twins name g r'.2.store := by
  cases h <;> assumption

end SameEnd

/-- The action ends the same on twin stores, and what it gives has the property. -/
def Steady (name : String) (g : FrameId) (P : α → Prop) (x : Action α) : Prop :=
  ∀ m n : Machine, m.store.Twins name g n.store → SameEnd name g P (x m) (x n)

namespace Steady

variable {name : String} {g : FrameId} {P : α → Prop} {Q : β → Prop} {x : Action α}

private theorem pure {a : α} (h : P a) : Steady name g P (Pure.pure a) :=
  fun _ _ twins => .ok h twins

private theorem fail (failure : Failure) : Steady name g P (Action.fail failure) :=
  fun _ _ twins => .error failure twins

private theorem raise (e : Error) : Steady name g P (Action.raise e) :=
  fail (.error e)

private theorem lift {x : Except Failure α} (h : ∀ a, x = .ok a → P a) :
    Steady name g P (Action.lift x) := by
  cases x with
  | error failure => exact fail failure
  | ok a => exact pure (h a rfl)

private theorem settled {x : Nat → Except Failure α} (h : Settled P x) (room : Nat) :
    Steady name g P (Action.lift (x room)) :=
  lift (h.holds room)

private theorem bind {k : α → Action β} (hx : Steady name g P x)
    (hk : ∀ a, P a → Steady name g Q (k a)) :
    Steady name g Q (x >>= k) := by
  intro m n twins
  have ends := hx m n twins
  simp only [Action.bind_apply]
  generalize x m = r at ends ⊢
  generalize x n = r' at ends ⊢
  cases ends with
  | ok ha twins => exact hk _ ha _ _ twins
  | error failure twins => exact .error failure twins

private theorem mapM {f : α → Action β} {xs : List α} (hf : ∀ a ∈ xs, Steady name g Q (f a)) :
    Steady name g (fun bs => ∀ b ∈ bs, Q b) (xs.mapM f) := by
  induction xs with
  | nil => exact pure (by simp)
  | cons a xs ih =>
    obtain ⟨first, others⟩ := List.forall_mem_cons.mp hf
    rw [List.mapM_cons]
    refine first.bind fun b hb => (ih others).bind fun bs hbs => pure ?_
    exact List.forall_mem_cons.mpr ⟨hb, hbs⟩

private theorem foldlM {f : β → α → Action β} {xs : List α} {b : β} (hb : Q b)
    (hf : ∀ b, ∀ a ∈ xs, Steady name g Q (f b a)) : Steady name g Q (xs.foldlM f b) := by
  induction xs generalizing b with
  | nil => exact pure hb
  | cons a xs ih =>
    rw [List.foldlM_cons]
    refine (hf b a List.mem_cons_self).bind fun b hb => ih hb fun b a ha => ?_
    exact hf b a (List.mem_cons_of_mem _ ha)

private theorem noted {a : α} (h : P a) (hx : ∀ m, ∃ journal, x m = (.ok a, { m with journal })) :
    Steady name g P x := by
  intro m n twins
  obtain ⟨journal, hm⟩ := hx m
  obtain ⟨journal', hn⟩ := hx n
  rw [hm, hn]
  exact .ok h twins

private theorem change {f : Store → α × Store} (h : ∀ s t : Store, s.Twins name g t →
    (f s).1 = (f t).1 ∧ (f s).2.Twins name g (f t).2 ∧ P (f s).1) :
    Steady name g P (Action.change f) := by
  intro m n twins
  obtain ⟨same, after, ha⟩ := h m.store n.store twins
  show SameEnd name g P (.ok (f m.store).1, _) (.ok (f n.store).1, _)
  rw [← same]
  exact .ok ha after

private theorem newList {items : List Value} (h : ∀ v ∈ items, v.Harmless name g) :
    Steady name g (Value.Harmless name g) (Action.newList items) := by
  refine change fun s t twins => ⟨?_, ?_, Value.eachProcedure_list.mpr h⟩
  · exact congrArg (fun k => Value.list (.made k) items) twins.made
  · exact twins.renumber twins.written (congrArg (· + 1) twins.made)

private theorem make : Steady name g (fun _ => True) (Action.change Store.make) := by
  refine change fun s t twins => ⟨congrArg Identity.made twins.made, ?_, trivial⟩
  exact twins.renumber twins.written (congrArg (· + 1) twins.made)

private theorem lookup {other : String} {f : FrameId} (ho : other ≠ name) (hf : g ≤ f) :
    Steady name g (Value.Harmless name g) (Action.lookup f other) := by
  intro m n twins
  have same := twins.lookup? ho f
  cases found : m.store.lookup? f other with
  | none =>
    rw [BigStep.lookup_of_none found, BigStep.lookup_of_none (same ▸ found)]
    exact .error _ twins
  | some v =>
    rw [BigStep.lookup_of_some found, BigStep.lookup_of_some (same ▸ found)]
    -- It is found in the common part of the stores, so it is not what the name is bound to.
    rw [← Store.lookup?_without ho m.store g] at found
    exact .ok (twins.apart.lookup hf found) twins

private theorem define {other : String} {v : Value} (ho : other ≠ name) (hv : v.Harmless name g)
    (f : FrameId) : Steady name g (fun _ => True) (Action.define f other v) :=
  change fun _ _ twins => ⟨rfl, twins.define ho hv f, trivial⟩

private theorem assign {other : String} {v : Value} (ho : other ≠ name) (hv : v.Harmless name g)
    (f : FrameId) : Steady name g (fun _ => True) (Action.assign f other v) := by
  intro m n twins
  have same := twins.owner? ho f
  cases found : m.store.owner? f other with
  | none =>
    rw [BigStep.assign_of_none found, BigStep.assign_of_none (same ▸ found)]
    exact .error _ twins
  | some owner =>
    rw [BigStep.assign_of_some found, BigStep.assign_of_some (same ▸ found)]
    exact .ok trivial (twins.define ho hv owner)

private theorem enter {params : List String} {args : List Value} {f : FrameId} (hf : g ≤ f)
    (hargs : ∀ v ∈ args, v.Harmless name g) :
    Steady name g (fun inner => g ≤ inner) (Action.enter params args (some f)) := by
  unfold Action.enter
  split
  · refine change fun s t twins => ⟨twins.size, twins.addFrame hf fun pair hp => ?_, ?_⟩
    · exact hargs pair.2 (List.of_mem_zip (Bindings.mem_ofList hp)).2
    · exact Nat.le_of_lt twins.present
  · exact raise _

private theorem load {d : Datum} (h : ∀ next, (Value.ofDatum next d).1.Avoids name) :
    Steady name g (Value.Avoids name) (Action.load d) := by
  refine change fun s t twins => ⟨?_, twins.renumber ?_ twins.made, h s.written⟩
  · exact congrArg (fun next => (Value.ofDatum next d).1) twins.written
  · exact congrArg (fun next => (Value.ofDatum next d).2) twins.written

end Steady

section Evaluation

variable {name : String} {g f : FrameId} {room : Nat} {args : List Value}
  {eval : Value → FrameId → Action Value} {call : Value → List Value → Action Value}

def EvalSteady (name : String) (g : FrameId) (eval : Value → FrameId → Action Value) : Prop :=
  ∀ (e : Value) (f : FrameId), e.Avoids name → g ≤ f →
    Steady name g (Value.Harmless name g) (eval e f)

def CallSteady (name : String) (g : FrameId) (call : Value → List Value → Action Value) : Prop :=
  ∀ (f : Value) (args : List Value), f.Harmless name g → (∀ v ∈ args, v.Harmless name g) →
    Steady name g (Value.Harmless name g) (call f args)

private theorem Delivers.steady {x : Nat → Action Value} (h : Delivers args x)
    (hargs : ∀ v ∈ args, v.Harmless name g) (room : Nat) :
    Steady name g (Value.Harmless name g) (x room) := by
  obtain ⟨y, settled, delivers⟩ := h
  rw [delivers]
  refine (Steady.settled settled room).bind fun product from_args => ?_
  have harmless : ∀ v ∈ product.values, v.Harmless name g :=
    fun v hv => (from_args v hv).eachProcedure hargs
  cases product with
  | value v => exact .pure (harmless v (List.mem_singleton.mpr rfl))
  | list items => exact .newList harmless

private theorem harmless_items (callee : String) {v : Value} (hv : v.Harmless name g) :
    Settled (fun items => ∀ w ∈ items, w.Harmless name g)
      fun room => Primitive.items room callee v := by
  refine (Settled.items callee v).mono fun items hi => ?_
  obtain ⟨i, rfl⟩ := hi
  exact Value.eachProcedure_list.mp hv

private theorem mapped_steady (hcall : CallSteady name g call) (callee : String) {h : Value}
    {rows : List Value} (hh : h.Harmless name g) (hrows : ∀ row ∈ rows, row.Harmless name g) :
    Steady name g (Value.Harmless name g) (Primitive.mapped room callee call h rows) := by
  refine (Steady.settled (Settled.procedure callee h) room).bind fun _ _ => ?_
  have items := Settled.mapM fun row hrow => harmless_items callee (hrows row hrow)
  refine (Steady.settled items room).bind fun tables htables => ?_
  cases tables with
  | nil => exact .newList (by simp)
  | cons first others =>
    simp only
    split
    · refine (Steady.mapM fun column hc => hcall h column hh fun v hv => ?_).bind fun _ => .newList
      obtain ⟨table, ht, hv⟩ := BigStep.mem_columns hc hv
      exact htables table ht v hv
    · exact .raise _

private theorem primitive_steady (hcall : CallSteady name g call) (p : Primitive)
    (hargs : ∀ v ∈ args, v.Harmless name g) :
    Steady name g (Value.Harmless name g) (p.run room call args) := by
  rcases p.run_cases args fun _ => call with delivers | ⟨h, a, rfl, run⟩ | ⟨h, rows, rfl, run⟩
  · exact delivers.steady hargs room
  · rw [run]
    obtain ⟨hh, ha⟩ := List.forall_mem_cons.mp hargs
    refine (Steady.settled (Settled.procedure p.name h) room).bind fun _ _ => ?_
    refine (Steady.settled (harmless_items p.name (ha a List.mem_cons_self)) room).bind ?_
    exact fun items hitems => hcall h items hh hitems
  · rw [run]
    obtain ⟨hh, hrows⟩ := List.forall_mem_cons.mp hargs
    exact mapped_steady hcall p.name hh hrows

private theorem noted_steady {result : Value} (hr : result.Harmless name g) (v : Value)
    {k : String → Action Value}
    (hk : ∀ text m, ∃ journal, k text m = (.ok result, { m with journal })) :
    Steady name g (Value.Harmless name g) (Action.lift (v.literal room) >>= k) :=
  (Steady.settled (Settled.literal v) room).bind fun text _ => .noted hr (hk text)

private theorem form_steady (heval : EvalSteady name g eval) (hcall : CallSteady name g call)
    {form : Form} (avoids : ∀ part ∈ form.parts, part.Avoids name) (hf : g ≤ f) :
    Steady name g (Value.Harmless name g) (Eval.form room eval call f form) := by
  have unit : Value.Harmless name g .unit := .atom rfl nofun
  have evals {part : Value} (hp : part ∈ form.parts) := heval part f (avoids part hp) hf
  have named {other : String} (hp : .symbol other ∈ form.parts) : other ≠ name := by
    cases avoids _ hp
    assumption
  cases form with
  | quote d => exact .pure (avoids d (by simp [Form.parts])).eachProcedure
  | conditional test consequent alternative =>
    refine (evals (by simp [Form.parts])).bind fun v _ => ?_
    cases v.isTrue with
    | true => exact evals (by simp [Form.parts])
    | false => exact evals (by simp [Form.parts])
  | assignment other e =>
    have ho : other ≠ name := named (by simp [Form.parts])
    refine (evals (by simp [Form.parts])).bind fun v hv => (Steady.assign ho hv f).bind fun _ _ => ?_
    exact noted_steady unit v fun _ _ => ⟨_, rfl⟩
  | definition other e =>
    have ho : other ≠ name := named (by simp [Form.parts])
    refine (evals (by simp [Form.parts])).bind fun v hv => (Steady.define ho hv f).bind fun _ _ => ?_
    exact noted_steady unit v fun _ _ => ⟨_, rfl⟩
  | abstraction params body =>
    have hbody := avoids body (by simp [Form.parts])
    refine Steady.make.bind fun i _ => noted_steady ?_ _ fun _ _ => ⟨_, rfl⟩
    exact Value.eachProcedure_procedure.mpr ⟨hbody.eachProcedure, hbody, hf⟩
  | sequence es => exact .foldlM unit fun _ e he => evals he
  | application operator operands =>
    refine (evals List.mem_cons_self).bind fun h hh => ?_
    have each := Steady.mapM fun e he => evals (List.mem_cons_of_mem operator he)
    exact each.bind fun args hargs => hcall h args hh hargs
  | misshapen form => exact .raise _
  | unnamed form got => exact .settled (Settled.complain _ got) room
  | unparametrised => exact .raise _

private theorem expression_steady (heval : EvalSteady name g eval)
    (hcall : CallSteady name g call) :
    EvalSteady name g (Eval.expression room eval call) := by
  intro e f he hf
  cases e with
  | symbol other =>
    cases he with
    | symbol ho => exact .lookup ho hf
  | list i items =>
    cases items with
    | nil => exact .raise _
    | cons head rest => exact form_steady heval hcall he.parts hf
  | _ => exact .pure he.eachProcedure

private theorem application_steady (heval : EvalSteady name g eval)
    (hcall : CallSteady name g call) :
    CallSteady name g (Eval.application room eval call) := by
  intro h args hh hargs
  cases h with
  | procedure i params body frame =>
    obtain ⟨-, avoids, hframe⟩ := Value.eachProcedure_procedure.mp hh
    exact (Steady.enter hframe hargs).bind fun inner hinner => heval body inner avoids hinner
  | primitive i p =>
    simp only [Eval.application]
    split
    · exact primitive_steady hcall p hargs
    · exact .raise _
  | _ =>
    have written {x : Except Failure String} : Steady name g (fun _ => True) (Action.lift x) :=
      .lift fun _ _ => trivial
    exact written.bind fun _ _ => written.bind fun _ _ => .raise _

/-- Evaluation and calls, by the depth they may nest to. -/
theorem eval_call_steady (depth : Nat) :
    EvalSteady name g (SmallScheme.eval depth) ∧ CallSteady name g (SmallScheme.call depth) := by
  induction depth with
  | zero => exact ⟨fun _ _ _ _ => .fail _, fun _ _ _ _ => .fail _⟩
  | succ depth ih => exact ⟨expression_steady ih.1 ih.2, application_steady ih.1 ih.2⟩

end Evaluation

namespace Token

/-- The name is a keyword, and after these tokens it stands at the head of a list. -/
structure Heads (name : String) (before : List Token) : Prop where
  keyword : ∃ form : SpecialForm, name = form.keyword
  opened : before.getLast? = some .opening

/-- A text does not ask for the name: the name is none of its words, or is a keyword that stands at the
head of lists only. -/
def Unasked (tokens : List Token) (name : String) : Prop :=
  .word name ∉ tokens ∨
    (∃ form : SpecialForm, name = form.keyword) ∧
      ∀ before after, tokens = before ++ .word name :: after → before.getLast? = some .opening

private theorem Unasked.heads {tokens before after : List Token} {name : String}
    (h : Unasked tokens name)
    (split : tokens = before ++ .word name :: after) : Heads name before := by
  rcases h with absent | ⟨keyword, only⟩
  · exact absurd (by simp [split]) absent
  · exact ⟨keyword, only before after split⟩

end Token

namespace Datum

variable {whole : List Token} {name : String}

/-- The datum is an expression that avoids the name, whatever its lists are numbered from. -/
def Avoids (name : String) (d : Datum) : Prop :=
  ∀ next, (Value.ofDatum next d).1.Avoids name

private theorem Spells.not_heads {tokens : List Token} {d : Datum} (h : Spells tokens d)
    (before : List Token) : ¬ Token.Heads name (before ++ tokens) := by
  rintro ⟨-, opened⟩
  cases h with
  | atom => simp at opened
  | list =>
    rw [← List.cons_append, ← List.append_assoc, List.getLast?_concat] at opened
    cases opened

mutual

private theorem avoids_of_spells (unasked : Token.Unasked whole name)
    {before tokens after : List Token}
    {d : Datum} (h : Spells tokens d) (split : whole = before ++ (tokens ++ after)) :
    (d = .symbol name ∧ Token.Heads name before) ∨ d.Avoids name := by
  match h with
  | @Spells.atom text _ word =>
    rcases ofWord_cases word with ⟨n, rfl⟩ | rfl
    · exact .inr fun _ => .number n
    · by_cases same : text = name
      · subst same
        exact .inl ⟨rfl, unasked.heads split⟩
      · exact .inr fun _ => .symbol same
  | @Spells.list inner _ each =>
    -- Behind the opening parenthesis the keyword may stand once, as the first item.
    have inside : whole = (before ++ [.opening]) ++ (inner ++ (.closing :: after)) := by
      simpa using split
    rcases avoids_of_spellsEach unasked each inside with
      avoid | ⟨⟨⟨form, keyword⟩, -⟩, others, rfl, avoid⟩
    · exact .inr fun next => .list (Value.forall_mem_ofData avoid (next + 1))
    · exact .inr fun next => .headed keyword (Value.forall_mem_ofData avoid (next + 1))

private theorem avoids_of_spellsEach (unasked : Token.Unasked whole name)
    {before tokens after : List Token}
    {data : List Datum} (h : SpellsEach tokens data) (split : whole = before ++ (tokens ++ after)) :
    (∀ d ∈ data, d.Avoids name) ∨
      (Token.Heads name before ∧ ∃ others, data = .symbol name :: others ∧
        ∀ d ∈ others, d.Avoids name) := by
  match h with
  | .nil => exact .inl (by simp)
  | @SpellsEach.cons form others d rest first each =>
    have split : whole = before ++ (form ++ (others ++ after)) := by simpa using split
    have further : whole = (before ++ form) ++ (others ++ after) := by simpa using split
    have head := avoids_of_spells unasked first split
    rcases avoids_of_spellsEach unasked each further with avoid | ⟨heads, -⟩
    · rcases head with ⟨rfl, heads⟩ | avoids
      · exact .inr ⟨heads, rest, rfl, avoid⟩
      · exact .inl (List.forall_mem_cons.mpr ⟨avoids, avoid⟩)
    · exact absurd heads (first.not_heads before)

end

/-- The forms of a text that does not ask for the name avoid it. -/
theorem avoids_of_unasked (unasked : Token.Unasked whole name) {data : List Datum}
    (h : SpellsEach whole data) : ∀ d ∈ data, d.Avoids name := by
  have split : whole = [] ++ (whole ++ []) := by simp
  rcases avoids_of_spellsEach unasked h split with avoid | ⟨⟨-, opened⟩, -⟩
  · exact avoid
  · cases opened

end Datum

section Runs

variable {name : String} {g : FrameId} {depth : Nat} {source : String}

theorem run_steady (unasked : Token.Unasked (Token.tokenize source) name) {f : FrameId} (hf : g ≤ f) :
    Steady name g (Value.Harmless name g) (Program.run depth f source) := by
  refine (Steady.lift fun data read => (Datum.spellsEach_of_readings read).1).bind fun data each => ?_
  refine .foldlM (.atom rfl nofun) fun _ d hd => ?_
  refine (Steady.load (Datum.avoids_of_unasked unasked each d hd)).bind fun e he => ?_
  exact (eval_call_steady depth).1 e f he hf

/-- Run a text in a new global frame, in which a name may be bound besides. -/
def runBeside (depth : Nat) (name : String) (given : Option Value) (source : String) :
    Action Value := do
  let frame ← Action.newGlobals
  if let some v := given then Action.define frame name v
  Program.run depth frame source

/-- What a text does not ask for cannot influence it. However the name is bound in a new global frame, by
the first value, by the second, or as it was: the text gives the same result or fails in the same way, and
afterwards all other names are bound alike in that frame and everything in every other frame. -/
theorem unasked_binding_without_influence (depth : Nat) (source name : String)
    (unasked : Token.Unasked (Token.tokenize source) name) (given given' : Option Value) (m : Machine) :
    let g := m.store.frames.size
    let r := runBeside depth name given source m
    let r' := runBeside depth name given' source m
    r.1 = r'.1 ∧
      (∀ other, other ≠ name →
        (r.2.store.bindings g).get? other = (r'.2.store.bindings g).get? other) ∧
      r.2.store.without g name = r'.2.store.without g name := by
  intro g r r'
  -- In the part of the two stores that is the same, only the new global frame can be reached.
  have fresh : (Action.newGlobals m).2.store.Sealed name g :=
    .newFrame { m.store with made := m.store.made + Primitive.standard.length }
      (Value.eachProcedure_globals m.store.made)
  have bound (given : Option Value) : ∃ n, runBeside depth name given source m =
      Program.run depth g source n ∧
        n.store.without g name = (Action.newGlobals m).2.store.without g name := by
    cases given with
    | none => exact ⟨_, rfl, rfl⟩
    | some v => exact ⟨_, rfl, Store.without_define_self _ g name v⟩
  obtain ⟨n, hr, hn⟩ := bound given
  obtain ⟨n', hr', hn'⟩ := bound given'
  have steady : Steady name g (Value.Harmless name g) (Program.run depth g source) :=
    run_steady unasked (Nat.le_refl g)
  have ends := steady n n' ⟨hn.trans hn'.symm, hn ▸ fresh.without g name⟩
  rw [← hr, ← hr'] at ends
  exact ⟨ends.outcome, fun other ho => ends.twins.get? ho g, ends.twins.same⟩

/-- A procedure that is bound to the keyword of conditionals, and a number in place of a primitive: the
text gives the same list as without them. -/
theorem unasked_binding_without_influence_keyword :
    let source := "((lambda (x) (if x (list x) x)) pi)"
    let caller := Value.procedure (.made 99) ["car"] (.symbol "if") 0
    let m := Machine.start 30
    let shown (given : Option Value) (name : String) : Option String :=
      (runBeside 20 name given source m).1.toOption.bind fun v => (v.display 20).toOption
    Token.Unasked (Token.tokenize source) "if" ∧ Token.Unasked (Token.tokenize source) "car" ∧
      shown (some caller) "if" = some "(3.141592653589793)" ∧
      shown (some (.number (.int 5))) "car" = some "(3.141592653589793)" := by
  intro source caller m shown
  let before : List Token := [.opening, .opening, .word "lambda", .opening, .word "x", .closing]
  let after : List Token := [.word "x", .opening, .word "list", .word "x", .closing, .word "x",
    .closing, .closing, .word "pi", .closing]
  have tokens : Token.tokenize source = before ++ .opening :: .word "if" :: after := by
    decide +kernel
  have keyword : Token.Unasked (Token.tokenize source) "if" := by
    refine .inr ⟨⟨.conditional, rfl⟩, fun left right split => ?_⟩
    rw [tokens] at split
    simp only [before, after] at split
    simp [List.cons_eq_append_iff] at split
    obtain ⟨rfl, -⟩ := split
    rfl
  have builtin : Token.Unasked (Token.tokenize source) "car" := .inl (by decide +kernel)
  have plain : shown none "if" = some "(3.141592653589793)" := by decide +kernel
  refine ⟨keyword, builtin, ?_, ?_⟩
  · have same := (unasked_binding_without_influence 20 source "if" keyword (some caller) none m).1
    simp only [shown, same]
    exact plain
  · have same := (unasked_binding_without_influence 20 source "car" builtin
      (some (.number (.int 5))) none m).1
    simp only [shown, same]
    exact plain

end Runs

end SmallScheme
