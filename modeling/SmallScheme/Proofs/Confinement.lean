import SmallScheme.Proofs.Effect
import SmallScheme.Proofs.Scope

/-!
Definitions stay in their scope. Evaluation in a frame adds names to that frame only, after those that it
binds already. A call adds names to its own new frames only, and an assignment to none: it changes
the value of a name where the name is bound.
-/

set_option autoImplicit false
set_option relaxedAutoImplicit false

namespace SmallScheme

namespace Bindings

private theorem names_put_of_bound {name : String} {bindings : Bindings}
    (h : (bindings.get? name).isSome = true) (value : Value) :
    (bindings.put name value).names = bindings.names := by
  induction bindings with
  | nil => simp [get?] at h
  | cons pair rest ih =>
    obtain ⟨n, v⟩ := pair
    by_cases hn : n = name
    · simp [put, names, hn]
    · have later : (get? name rest).isSome = true := by simpa [get?, hn] using h
      have same : (put name value rest).map Prod.fst = rest.map Prod.fst := ih later
      simp [put, names, hn, same]

private theorem names_prefix_put (name : String) (value : Value) (bindings : Bindings) :
    bindings.names <+: (bindings.put name value).names := by
  induction bindings with
  | nil => exact List.nil_prefix
  | cons pair rest ih =>
    obtain ⟨n, v⟩ := pair
    by_cases hn : n = name
    · simp [put, names, hn]
    · have later : rest.map Prod.fst <+: (put name value rest).map Prod.fst := ih
      simpa [put, names, hn] using later

end Bindings

namespace Store

/-- From the first store to the second no frame is lost, no frame loses a name, and names are added to
the given frames only, of those that were there. -/
structure Confined (given : FrameId → Prop) (s s' : Store) : Prop where
  size : s.frames.size ≤ s'.frames.size
  kept : ∀ f, f < s.frames.size → (s.bindings f).names <+: (s'.bindings f).names
  confined : ∀ f, f < s.frames.size → ¬ given f → (s'.bindings f).names = (s.bindings f).names

namespace Confined

variable {given wider : FrameId → Prop} {s t u : Store}

private theorem of_names (size : s.frames.size ≤ t.frames.size)
    (names : ∀ f, f < s.frames.size → (t.bindings f).names = (s.bindings f).names) :
    s.Confined given t :=
  ⟨size, fun f hf => names f hf ▸ List.prefix_refl _, fun f hf _ => names f hf⟩

theorem trans (h : s.Confined given t) (h' : t.Confined given u) : s.Confined given u := by
  have still {f : FrameId} (hf : f < s.frames.size) := Nat.lt_of_lt_of_le hf h.size
  refine ⟨Nat.le_trans h.size h'.size, fun f hf => ?_, fun f hf hg => ?_⟩
  · exact (h.kept f hf).trans (h'.kept f (still hf))
  · rw [h'.confined f (still hf) hg, h.confined f hf hg]

theorem mono (imp : ∀ f, f < s.frames.size → given f → wider f) (h : s.Confined given t) :
    s.Confined wider t :=
  ⟨h.size, h.kept, fun f hf hw => h.confined f hf fun hg => hw (imp f hf hg)⟩

private theorem define (s : Store) (f : FrameId) (name : String) (value : Value) :
    s.Confined (· = f) (s.define f name value) := by
  refine ⟨Nat.le_of_eq (s.size_define f name value).symm, fun g hg => ?_, fun g _ hne => ?_⟩
  · by_cases he : g = f
    · subst he
      rw [bindings_define_self hg]
      exact Bindings.names_prefix_put name value _
    · simp only [bindings_define_of_ne he, List.prefix_refl]
  · rw [bindings_define_of_ne hne]

theorem redefine {f : FrameId} {name : String} (bound : s.binds name f = true) (value : Value) :
    s.Confined given (s.define f name value) := by
  refine .of_names (Nat.le_of_eq (s.size_define f name value).symm) fun g hg => ?_
  by_cases he : g = f
  · subst he
    rw [bindings_define_self hg, Bindings.names_put_of_bound bound]
  · rw [bindings_define_of_ne he]

private theorem addFrame (s : Store) (bindings : Bindings) (outer : Option FrameId) :
    s.Confined given (s.addFrame bindings outer).2 := by
  refine .of_names ?_ fun f hf => by rw [bindings_addFrame_of_lt hf]
  rw [size_addFrame]
  exact Nat.le_succ _

end Confined

theorem binds_of_owner? {s : Store} {f owner : FrameId} {name : String}
    (h : s.owner? f name = some owner) : s.binds name owner = true :=
  List.find?_some h

end Store

def Effect.confined : Effect where
  inside f m n := m.store.Confined (· = f) n.store
  outside m n := m.store.Confined (fun _ => False) n.store
  refl m := .of_names (Nat.le_refl _) fun _ _ => rfl
  outside_trans := Store.Confined.trans
  inside_trans := Store.Confined.trans
  inside_of_outside h := h.mono fun _ _ => False.elim
  define m f name v := .define m.store f name v
  assign v found := .redefine (Store.binds_of_owner? found) v
  make m := .of_names (Nat.le_refl _) fun _ _ => rfl
  load m written := .of_names (Nat.le_refl _) fun _ _ => rfl
  note m message := .of_names (Nat.le_refl _) fun _ _ => rfl
  enter := by
    intro m n bindings outer h
    have new : m.store.Confined (· = m.store.frames.size) (m.store.addFrame bindings outer).2 :=
      .addFrame m.store bindings outer
    exact (new.trans h).mono fun f hf he => Nat.lt_irrefl _ (he ▸ hf)

/-- Whether it ends with a result or a failure, evaluation in a frame leaves every frame that was there
with the names it had, in their order; only the frame itself may have gained names, after the others.
A call adds no name to any frame that was there, and an assignment none at all. -/
theorem names_stay_in_scope (depth : Nat) (m : Machine) :
    (∀ e r,
      let after := (eval depth e r m).2.store
      ∀ f, f < m.store.frames.size →
        f < after.frames.size ∧ (m.store.bindings f).names <+: (after.bindings f).names ∧
          (f ≠ r → (after.bindings f).names = (m.store.bindings f).names)) ∧
    (∀ g args,
      let after := (call depth g args m).2.store
      ∀ f, f < m.store.frames.size →
        f < after.frames.size ∧ (after.bindings f).names = (m.store.bindings f).names) ∧
    ∀ r name v,
      let after := (Action.assign r name v m).2.store
      ∀ f, f < m.store.frames.size →
        f < after.frames.size ∧ (after.bindings f).names = (m.store.bindings f).names := by
  refine ⟨fun e r => ?_, fun g args => ?_, fun r name v => ?_⟩
  · have evaluated := (Effect.confined.eval_keeps depth e r).effect m
    exact fun f hf => ⟨Nat.lt_of_lt_of_le hf evaluated.size, evaluated.kept f hf,
      evaluated.confined f hf⟩
  · have called := (Effect.confined.call_keeps depth g args).effect m
    exact fun f hf => ⟨Nat.lt_of_lt_of_le hf called.size, called.confined f hf id⟩
  · have assigned := (Effect.confined.assign_keeps r name v).effect m
    exact fun f hf => ⟨Nat.lt_of_lt_of_le hf assigned.size, assigned.confined f hf id⟩

/-- In an inner frame, a definition, an assignment to an outer name and a call that defines a name of
its own: the outer frame keeps its one name, with a new value, and the inner frame gains one. -/
theorem names_stay_in_scope_inner_frame :
    let outer : Store := (Store.empty.addFrame [("x", .bool true)] none).2
    let m : Machine := { Machine.start 30 with store := (outer.addFrame [] (some 0)).2 }
    let form (items : List Value) : Value := .list (.written 0) items
    let inner := form [.symbol "lambda", form [.symbol "z"],
      form [.symbol "define", .symbol "w", .symbol "z"]]
    let e := form [.symbol "begin", form [.symbol "define", .symbol "y", .bool false],
      form [.symbol "set!", .symbol "x", form [inner, .symbol "y"]]]
    let after := (eval 10 e 1 m).2.store
    0 < m.store.frames.size ∧ 1 < m.store.frames.size ∧ after.frames.size = 3 ∧
      (after.bindings 0).names = (m.store.bindings 0).names ∧
      (m.store.bindings 1).names <+: (after.bindings 1).names ∧
      (after.bindings 1).names = ["y"] ∧ (after.bindings 2).names = ["z", "w"] := by
  intro outer m form _ e after
  have first : 0 < m.store.frames.size := by decide
  have second : 1 < m.store.frames.size := by decide
  have evaluated := (names_stay_in_scope 10 m).1 e 1
  exact ⟨first, second, by decide +kernel, (evaluated 0 first).2.2 (by decide),
    (evaluated 1 second).2.1, by decide +kernel, by decide +kernel⟩

end SmallScheme
