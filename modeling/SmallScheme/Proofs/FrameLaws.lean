import SmallScheme.Proofs.BigStep.Forms
import SmallScheme.Proofs.Confinement

/-!
What a change of one frame is to a reader in another. A look-up goes along the chain of its frame and
takes the first value that it meets. So a definition is seen from just those frames whose search
reaches the defining frame, an assignment from just those that find the name in the same frame, and a
call's new frame hides nothing of the frames around it but the names of its parameters.
-/

set_option autoImplicit false
set_option relaxedAutoImplicit false

namespace SmallScheme

namespace Bindings

variable {name other : String}

private theorem get?_put_self (name : String) (value : Value) (bindings : Bindings) :
    (bindings.put name value).get? name = some value := by
  induction bindings with
  | nil => simp [put, get?]
  | cons pair rest ih =>
    by_cases same : pair.1 = name
    · simp [put, get?, same]
    · simp [put, get?, same, ih]

private theorem get?_put_of_ne (h : other ≠ name) (value : Value) (bindings : Bindings) :
    (bindings.put name value).get? other = bindings.get? other := by
  induction bindings with
  | nil => simp [put, get?, h.symm]
  | cons pair rest ih =>
    by_cases same : pair.1 = name
    · simp [put, get?, same, h.symm]
    · simp [put, get?, same, ih]

private theorem get?_foldl_put (name : String) (pairs : List (String × Value)) (bindings : Bindings) :
    let after := pairs.foldl (fun bindings pair => bindings.put pair.1 pair.2) bindings
    (∃ (k : Nat) (v : Value), pairs[k]? = some (name, v) ∧
        (∀ (j : Nat) w, k < j → pairs[j]? ≠ some (name, w)) ∧ after.get? name = some v) ∨
      ((∀ pair ∈ pairs, pair.1 ≠ name) ∧ after.get? name = bindings.get? name) := by
  induction pairs generalizing bindings with
  | nil => exact .inr ⟨by simp, rfl⟩
  | cons first pairs ih =>
    obtain ⟨n, u⟩ := first
    intro after
    rcases ih (bindings.put n u) with ⟨k, v, found, last, value⟩ | ⟨missing, value⟩
    · refine .inl ⟨k + 1, v, found, fun j w hj => ?_, value⟩
      obtain ⟨i, rfl⟩ : ∃ i, j = i + 1 := ⟨j - 1, by omega⟩
      exact last i w (by omega)
    · by_cases same : n = name
      · subst same
        refine .inl ⟨0, u, rfl, fun j w hj found => ?_, value.trans (get?_put_self n u bindings)⟩
        obtain ⟨i, rfl⟩ : ∃ i, j = i + 1 := ⟨j - 1, by omega⟩
        exact missing _ (List.mem_of_getElem? found) rfl
      · refine .inr ⟨List.forall_mem_cons.mpr ⟨same, missing⟩, ?_⟩
        exact value.trans (get?_put_of_ne (Ne.symm same) u bindings)

/-- A parameter that occurs more than once stands for the last of its arguments. -/
theorem get?_ofList_zip {params : List String} {args : List Value}
    (same : params.length = args.length) {name : String} (h : name ∈ params) :
    ∃ (k : Nat) (v : Value), params[k]? = some name ∧ (∀ j, k < j → params[j]? ≠ some name) ∧
      args[k]? = some v ∧ (ofList (params.zip args)).get? name = some v := by
  rcases get?_foldl_put name (params.zip args) [] with ⟨k, v, found, last, value⟩ | ⟨missing, -⟩
  · obtain ⟨param, arg⟩ := List.getElem?_zip_eq_some.mp found
    refine ⟨k, v, param, fun j hj again => ?_, arg, value⟩
    obtain ⟨bound, -⟩ := List.getElem?_eq_some_iff.mp again
    have given : args[j]? = some args[j] := List.getElem?_eq_getElem (same ▸ bound)
    exact last j _ hj (List.getElem?_zip_eq_some.mpr ⟨again, given⟩)
  · obtain ⟨k, bound, at_k⟩ := List.mem_iff_getElem.mp h
    have param : params[k]? = some name := List.getElem?_eq_some_iff.mpr ⟨bound, at_k⟩
    have given : args[k]? = some args[k] := List.getElem?_eq_getElem (same ▸ bound)
    have both : (params.zip args)[k]? = some (name, args[k]) :=
      List.getElem?_zip_eq_some.mpr ⟨param, given⟩
    exact absurd rfl (missing _ (List.mem_of_getElem? both))

private theorem get?_ofList_zip_of_not_mem {params : List String} (args : List Value)
    {name : String} (h : name ∉ params) : (ofList (params.zip args)).get? name = none := by
  rcases get?_foldl_put name (params.zip args) [] with ⟨k, v, found, -, -⟩ | ⟨-, value⟩
  · exact absurd (List.mem_of_getElem? (List.getElem?_zip_eq_some.mp found).1) h
  · exact value

end Bindings

section FirstHit

variable {α β : Type} {f f' : α → Option β} {r : α} {v : β}

private theorem findSome?_eq_of_reached (here : f' r = some v) (away : ∀ a, a ≠ r → f' a = f a)
    {before : List α} (silent : ∀ a ∈ before, f a = none) (after : List α) :
    (before ++ r :: after).findSome? f' = some v := by
  induction before with
  | nil => simp [here]
  | cons a before ih =>
    obtain ⟨first, silent⟩ := List.forall_mem_cons.mp silent
    by_cases same : a = r
    · simp [same, here]
    · have skipped : f' a = none := (away a same).trans first
      simpa [skipped] using ih silent

private theorem findSome?_eq_of_not_reached (away : ∀ a, a ≠ r → f' a = f a) {l : List α}
    (h : ¬ ∃ before after, l = before ++ r :: after ∧ ∀ a ∈ before, f a = none) :
    l.findSome? f' = l.findSome? f := by
  induction l with
  | nil => rfl
  | cons a l ih =>
    have other : a ≠ r := by
      rintro rfl
      exact h ⟨[], l, rfl, by simp⟩
    simp only [List.findSome?_cons, away a other]
    cases first : f a with
    | some b => rfl
    | none =>
      refine ih ?_
      rintro ⟨before, after, rfl, silent⟩
      exact h ⟨a :: before, after, rfl, List.forall_mem_cons.mpr ⟨first, silent⟩⟩

end FirstHit

namespace Store

variable {s : Store} {f g r : FrameId} {name other : String}

private theorem lookup?_eq_findSome? (s : Store) (f : FrameId) (name : String) :
    s.lookup? f name = (s.chain f).findSome? fun g => (s.bindings g).get? name := by
  simp only [lookup?, owner?]
  induction s.chain f with
  | nil => rfl
  | cons g frames ih =>
    cases found : (s.bindings g).get? name with
    | some v => simp [binds, found]
    | none => simpa [binds, found] using ih

private theorem lt_of_binds (h : s.binds name g = true) : g < s.frames.size := by
  refine Nat.lt_of_not_le fun beyond => ?_
  simp [binds, bindings, Array.getElem?_eq_none beyond, Bindings.get?] at h

private theorem binds_eq_false_iff : s.binds name g = false ↔ (s.bindings g).get? name = none := by
  cases found : (s.bindings g).get? name <;> simp [binds, found]

/-- A search for the name from the frame `f` comes to the frame `r`: it is on the chain of `f`, and no frame
of the chain before it binds the name. -/
def Exposes (s : Store) (name : String) (f r : FrameId) : Prop :=
  ∃ before after, s.chain f = before ++ r :: after ∧ ∀ g ∈ before, s.binds name g = false

/-- The frame that a name is found in is the one that a search comes to and that binds it. -/
theorem owner?_eq_some_iff : s.owner? f name = some r ↔ s.binds name r = true ∧ s.Exposes name f r := by
  simp [owner?, List.find?_eq_some_iff_append, Exposes]

private theorem chain_define (s : Store) (r f : FrameId) (name : String) (v : Value) :
    (s.define r name v).chain f = s.chain f :=
  chain_congr (fun g => s.outer?_define r g name v) f

private theorem get?_define_self (hr : r < s.frames.size) (name : String) (v : Value) :
    ((s.define r name v).bindings r).get? name = some v := by
  rw [bindings_define_self hr, Bindings.get?_put_self]

private theorem get?_define_of_ne (h : g ≠ r ∨ other ≠ name) (s : Store) (v : Value) :
    ((s.define r name v).bindings g).get? other = (s.bindings g).get? other := by
  by_cases same : g = r
  · subst same
    by_cases hg : g < s.frames.size
    · rw [bindings_define_self hg, Bindings.get?_put_of_ne (h.resolve_left (· rfl))]
    · have missing : s.frames[g]? = none := Array.getElem?_eq_none (Nat.le_of_not_lt hg)
      simp only [bindings, define, Array.getElem?_modify, missing, Option.map_none, ite_self]
  · rw [bindings_define_of_ne same]

private theorem lookup?_define_of_exposes (hr : r < s.frames.size) (h : s.Exposes name f r)
    (v : Value) :
    (s.define r name v).lookup? f name = some v := by
  obtain ⟨before, after, chain, unbound⟩ := h
  rw [lookup?_eq_findSome?, chain_define, chain]
  have silent : ∀ g ∈ before, (s.bindings g).get? name = none :=
    fun g hg => binds_eq_false_iff.mp (unbound g hg)
  refine findSome?_eq_of_reached ?_ (fun g hg => ?_) silent after
  · exact get?_define_self hr name v
  · exact get?_define_of_ne (.inl hg) s v

private theorem lookup?_define_of_not_exposes (h : ¬ (other = name ∧ s.Exposes name f r))
    (v : Value) :
    (s.define r name v).lookup? f other = s.lookup? f other := by
  rw [lookup?_eq_findSome?, chain_define, lookup?_eq_findSome?]
  by_cases same : other = name
  · subst same
    refine findSome?_eq_of_not_reached (fun g hg => get?_define_of_ne (.inl hg) s v) ?_
    rintro ⟨before, after, chain, silent⟩
    exact h ⟨rfl, before, after, chain, fun g hg => binds_eq_false_iff.mpr (silent g hg)⟩
  · simp only [get?_define_of_ne (.inr same)]

private theorem Walk.lt {path : List FrameId} (h : s.Walk f path) (hg : g ∈ path) :
    g < s.frames.size := by
  induction h with
  | last hframe _ =>
    rw [List.mem_singleton.mp hg]
    exact lt_of_frames hframe
  | outward hframe _ _ ih =>
    rcases List.mem_cons.mp hg with rfl | hg
    · exact lt_of_frames hframe
    · exact ih hg

private theorem Walk.addFrame {path : List FrameId} (h : s.Walk f path) (bindings : Bindings)
    (outer : Option FrameId) : (s.addFrame bindings outer).2.Walk f path := by
  have kept {g : FrameId} {frame : Frame} (hframe : s.frames[g]? = some frame) :
      (s.addFrame bindings outer).2.frames[g]? = some frame := by
    rwa [frames_addFrame_of_lt (lt_of_frames hframe)]
  induction h with
  | last hframe ho => exact .last (kept hframe) ho
  | outward hframe ho _ ih => exact .outward (kept hframe) ho ih

section NewFrame

variable {outer : FrameId}

private theorem OuterOlder.addInner (older : s.OuterOlder) (ho : outer < s.frames.size)
    (bindings : Bindings) : (s.addFrame bindings (some outer)).2.OuterOlder := by
  refine older.addFrame ?_
  rintro g ⟨⟩
  exact ho

private theorem lookup?_addFrame_of_lt (older : s.OuterOlder) (ho : outer < s.frames.size)
    (hf : f < s.frames.size) (bindings : Bindings) (name : String) :
    (s.addFrame bindings (some outer)).2.lookup? f name = s.lookup? f name := by
  have walk := walk_chain older hf
  have still : f < (s.addFrame bindings (some outer)).2.frames.size := by
    rw [size_addFrame]
    exact Nat.lt_succ_of_lt hf
  have chain : (s.addFrame bindings (some outer)).2.chain f = s.chain f :=
    (walk_chain (older.addInner ho bindings) still).unique (walk.addFrame bindings (some outer))
  have new (g : FrameId) (hg : g ≠ s.frames.size) :
      ((s.addFrame bindings (some outer)).2.bindings g).get? name = (s.bindings g).get? name := by
    simp [Store.bindings, Store.addFrame, Array.getElem?_push, hg]
  rw [lookup?_eq_findSome?, chain, lookup?_eq_findSome?]
  refine findSome?_eq_of_not_reached new ?_
  rintro ⟨before, after, split, -⟩
  have mem : s.frames.size ∈ s.chain f := by simp [split]
  exact Nat.lt_irrefl _ (walk.lt mem)

private theorem lookup?_addFrame_new (older : s.OuterOlder) (ho : outer < s.frames.size)
    (bindings : Bindings) (name : String) :
    (s.addFrame bindings (some outer)).2.lookup? s.frames.size name =
      (bindings.get? name).or (s.lookup? outer name) := by
  have older' := older.addInner ho bindings
  have frame := s.frames_addFrame_new bindings (some outer)
  rw [lookup?_eq_findSome?, chain_of_outer older' (outer?_of_frames frame), List.findSome?_cons,
    bindings_of_frames frame, ← lookup?_eq_findSome?, lookup?_addFrame_of_lt older ho ho]
  cases bindings.get? name <;> rfl

end NewFrame

end Store

namespace Action

variable {m : Machine} {f g r : FrameId} {name other : String} {v : Value}

private theorem lookup_congr {n : Machine} (h : n.store.lookup? g name = m.store.lookup? f name) :
    (lookup g name n).1 = (lookup f name m).1 := by
  cases found : m.store.lookup? f name with
  | some v => rw [BigStep.lookup_of_some found, BigStep.lookup_of_some (h.trans found)]
  | none => rw [BigStep.lookup_of_none found, BigStep.lookup_of_none (h.trans found)]

private theorem lookup_eq_ok (h : m.store.lookup? f name = some v) : (lookup f name m).1 = .ok v :=
  congrArg Prod.fst (BigStep.lookup_of_some h)

/-- An assignment is a definition in the frame where the name is found. -/
theorem assign_eq_define {owner : FrameId} (h : m.store.owner? r name = some owner) (v : Value) :
    assign r name v m = define owner name v m :=
  BigStep.assign_of_some h v

/-- How a new value of a name in one frame is seen from the others. -/
theorem lookup_define (hr : r < m.store.frames.size) (name : String) (v : Value) (f : FrameId)
    (other : String) :
    (other = name ∧ m.store.Exposes name f r → (lookup f other (define r name v m).2).1 = .ok v) ∧
      (¬ (other = name ∧ m.store.Exposes name f r) →
        (lookup f other (define r name v m).2).1 = (lookup f other m).1) := by
  constructor
  · rintro ⟨rfl, exposed⟩
    exact lookup_eq_ok (Store.lookup?_define_of_exposes hr exposed v)
  · intro hidden
    exact lookup_congr (Store.lookup?_define_of_not_exposes hidden v)

/-- How an assignment is seen: by those who find the name in the same frame. -/
theorem lookup_assign {owner : FrameId} (found : m.store.owner? r name = some owner) (v : Value)
    (f : FrameId) (other : String) :
    (other = name ∧ m.store.owner? f name = some owner →
        (lookup f other (assign r name v m).2).1 = .ok v) ∧
      (¬ (other = name ∧ m.store.owner? f name = some owner) →
        (lookup f other (assign r name v m).2).1 = (lookup f other m).1) := by
  have bound := (Store.owner?_eq_some_iff.mp found).1
  have seen := lookup_define (Store.lt_of_binds bound) name v f other
  rw [assign_eq_define found]
  simpa only [Store.owner?_eq_some_iff, bound, true_and] using seen

theorem names_assign {owner : FrameId} (found : m.store.owner? r name = some owner) (v : Value)
    (hf : f < m.store.frames.size) :
    ((assign r name v m).2.store.bindings f).names = (m.store.bindings f).names := by
  have confined : m.store.Confined (fun _ => False) (m.store.define owner name v) :=
    .redefine (Store.binds_of_owner? found) v
  rw [assign_eq_define found]
  exact confined.confined f hf id

theorem assign_eq_ok {owner : FrameId} (found : m.store.owner? r name = some owner) (v : Value) :
    (assign r name v m).1 = .ok () := by
  rw [assign_eq_define found]
  rfl

private theorem unbound_iff (m : Machine) (r : FrameId) (name : String) :
    (∀ g ∈ m.store.chain r, m.store.binds name g = false) ↔ m.store.owner? r name = none := by
  simp [Store.owner?]

theorem assign_fails_iff : (∃ failure, (assign r name v m).1 = .error failure) ↔
    ∀ g ∈ m.store.chain r, m.store.binds name g = false := by
  rw [unbound_iff]
  cases found : m.store.owner? r name with
  | none => simp [BigStep.assign_of_none found]
  | some owner => simp [assign_eq_ok found]

theorem assign_eq_error (missing : ∀ g ∈ m.store.chain r, m.store.binds name g = false) (v : Value) :
    assign r name v m = (.error (.error (.unbound name)), m) :=
  BigStep.assign_of_none ((unbound_iff m r name).mp missing) v

theorem enter_of_length_ne {params : List String} {args : List Value}
    (uneven : params.length ≠ args.length) : enter params args (some r) m =
      (.error (.error (.arity "procedure" (.exactly params.length) args.length)), m) := by
  simp only [enter, if_neg uneven]
  rfl

/-- What is looked up from the new frame of a call, and from the frames that were there. -/
theorem lookup_enter (older : m.store.OuterOlder) (hr : r < m.store.frames.size)
    {params : List String} {args : List Value} (even : params.length = args.length) :
    let entered := enter params args (some r) m
    entered.1 = .ok m.store.frames.size ∧
      (∀ name, (lookup m.store.frames.size name entered.2).1 =
        match (Bindings.ofList (params.zip args)).get? name with
        | some v => .ok v
        | none => (lookup r name m).1) ∧
      ∀ f name, f < m.store.frames.size →
        (lookup f name entered.2).1 = (lookup f name m).1 := by
  simp only [enter, if_pos even]
  refine ⟨rfl, fun name => ?_, fun f name hf => ?_⟩
  · have new := Store.lookup?_addFrame_new older hr (.ofList (params.zip args)) name
    cases bound : (Bindings.ofList (params.zip args)).get? name with
    | some v => exact lookup_eq_ok (new.trans (by rw [bound]; rfl))
    | none => exact lookup_congr (new.trans (by rw [bound]; rfl))
  · exact lookup_congr (Store.lookup?_addFrame_of_lt older hr hf _ name)

/-- The frame of a call binds each parameter to the argument at its last position. -/
theorem lookup_enter_of_mem (older : m.store.OuterOlder) (hr : r < m.store.frames.size)
    {params : List String} {args : List Value} (even : params.length = args.length)
    (hn : name ∈ params) : ∃ (k : Nat) (v : Value), params[k]? = some name ∧
      (∀ j, k < j → params[j]? ≠ some name) ∧ args[k]? = some v ∧
      (lookup m.store.frames.size name (enter params args (some r) m).2).1 = .ok v := by
  obtain ⟨-, inside, -⟩ := lookup_enter older hr even
  obtain ⟨k, v, param, last, arg, value⟩ := Bindings.get?_ofList_zip even hn
  exact ⟨k, v, param, last, arg, by rw [inside name, value]⟩

theorem lookup_enter_of_not_mem (older : m.store.OuterOlder) (hr : r < m.store.frames.size)
    {params : List String} {args : List Value} (even : params.length = args.length)
    (hn : name ∉ params) :
    (lookup m.store.frames.size name (enter params args (some r) m).2).1 = (lookup r name m).1 := by
  obtain ⟨-, inside, -⟩ := lookup_enter older hr even
  rw [inside name, Bindings.get?_ofList_zip_of_not_mem args hn]

end Action

/-- In a tree of frames, as seen from any frame. A definition gives its value to the look-ups of its name
whose search comes to the defining frame, and changes no other look-up. An assignment that succeeds
gives its value to the look-ups that find the name in the same frame, changes no other look-up and no
frame's names; it fails just if no frame of the chain binds the name, and then changes nothing. A new
frame for a call is made just if there are as many arguments as parameters; it gives a parameter the
argument at its last position, and any other name what the frame around it gives. -/
theorem scoped_lookup_laws {m : Machine} (older : m.store.OuterOlder) {r : FrameId}
    (hr : r < m.store.frames.size) :
    (∀ f, f < m.store.frames.size → m.store.Walk f (m.store.chain f)) ∧
    (∀ n v,
      let defined := Action.define r n v m
      defined.1 = .ok () ∧ ∀ f name,
        (name = n ∧ m.store.Exposes n f r → (Action.lookup f name defined.2).1 = .ok v) ∧
          (¬ (name = n ∧ m.store.Exposes n f r) →
            (Action.lookup f name defined.2).1 = (Action.lookup f name m).1)) ∧
    (∀ n v,
      let assigned := Action.assign r n v m
      (∀ owner, m.store.owner? r n = some owner →
        assigned.1 = .ok () ∧
        (∀ f, f < m.store.frames.size →
          (assigned.2.store.bindings f).names = (m.store.bindings f).names) ∧
        ∀ f name,
          (name = n ∧ m.store.owner? f n = some owner →
              (Action.lookup f name assigned.2).1 = .ok v) ∧
            (¬ (name = n ∧ m.store.owner? f n = some owner) →
              (Action.lookup f name assigned.2).1 = (Action.lookup f name m).1)) ∧
      ((∃ failure, assigned.1 = .error failure) ↔
        ∀ g ∈ m.store.chain r, m.store.binds n g = false) ∧
      ((∀ g ∈ m.store.chain r, m.store.binds n g = false) →
        assigned = (.error (.error (.unbound n)), m))) ∧
    ∀ params args,
      let entered := Action.enter params args (some r) m
      let inner := m.store.frames.size
      (params.length ≠ args.length → entered =
        (.error (.error (.arity "procedure" (.exactly params.length) args.length)), m)) ∧
      (params.length = args.length →
        entered.1 = .ok inner ∧
        (∀ name ∈ params, ∃ (k : Nat) (v : Value), params[k]? = some name ∧
          (∀ j, k < j → params[j]? ≠ some name) ∧ args[k]? = some v ∧
          (Action.lookup inner name entered.2).1 = .ok v) ∧
        (∀ name, name ∉ params →
          (Action.lookup inner name entered.2).1 = (Action.lookup r name m).1) ∧
        ∀ f name, f < inner →
          (Action.lookup f name entered.2).1 = (Action.lookup f name m).1) := by
  refine ⟨fun f hf => Store.walk_chain older hf,
    fun n v => ⟨rfl, Action.lookup_define hr n v⟩,
    fun n v => ⟨fun owner found => ?_, Action.assign_fails_iff,
      fun missing => Action.assign_eq_error missing v⟩,
    fun params args => ⟨Action.enter_of_length_ne, fun even => ?_⟩⟩
  · exact ⟨Action.assign_eq_ok found v, fun f hf => Action.names_assign found v hf,
      Action.lookup_assign found v⟩
  · obtain ⟨made, -, outside⟩ := Action.lookup_enter older hr even
    exact ⟨made, fun name hn => Action.lookup_enter_of_mem older hr even hn,
      fun name hn => Action.lookup_enter_of_not_mem older hr even hn, outside⟩

/-- A frame with an outer one that it shadows, and a third frame beside it. A definition in the outermost
frame is seen from the third one only; a call's frame binds a parameter that is named twice once. -/
theorem scoped_lookup_laws_siblings :
    let outermost : Store := (Store.empty.addFrame [("x", .bool true)] none).2
    let shadowing : Store := (outermost.addFrame [("x", .unit)] (some 0)).2
    let m : Machine := { Machine.start 30 with store := (shadowing.addFrame [] (some 0)).2 }
    let defined := (Action.define 0 "x" (.bool false) m).2
    let assigned := (Action.assign 2 "x" (.bool false) m).2
    let entered := (Action.enter ["x", "x"] [.unit, .bool false] (some 1) m).2
    m.store.OuterOlder ∧ 0 < m.store.frames.size ∧
      m.store.chain 1 = [1, 0] ∧ m.store.chain 2 = [2, 0] ∧
      (Action.lookup 2 "x" defined).1 = .ok (.bool false) ∧
      (Action.lookup 1 "x" defined).1 = (Action.lookup 1 "x" m).1 ∧
      (Action.lookup 0 "x" assigned).1 = .ok (.bool false) ∧
      (Action.lookup 1 "x" assigned).1 = (Action.lookup 1 "x" m).1 ∧
      (Action.lookup 3 "x" entered).1 = .ok (.bool false) := by
  intro outermost shadowing m defined assigned entered
  have empty : Store.empty.OuterOlder := by
    intro f g outer
    cases outer
  have first : outermost.OuterOlder := empty.addFrame (by rintro g ⟨⟩)
  have second : shadowing.OuterOlder := first.addFrame (by rintro g ⟨⟩; decide)
  have older : m.store.OuterOlder := second.addFrame (by rintro g ⟨⟩; decide)
  have inner : m.store.chain 1 = [1, 0] := by decide
  have beside : m.store.chain 2 = [2, 0] := by decide
  have shadowed : ¬ m.store.Exposes "x" 1 0 := by
    intro exposed
    have found : m.store.owner? 1 "x" = some 0 :=
      Store.owner?_eq_some_iff.mpr ⟨by decide, exposed⟩
    exact absurd found (by decide)
  obtain ⟨-, define, -, -⟩ := scoped_lookup_laws older (r := 0) (by decide)
  obtain ⟨-, seen⟩ := define "x" (.bool false)
  obtain ⟨-, -, assign, -⟩ := scoped_lookup_laws older (r := 2) (by decide)
  obtain ⟨-, -, changed⟩ := (assign "x" (.bool false)).1 0 (by decide)
  obtain ⟨-, -, -, enter⟩ := scoped_lookup_laws older (r := 1) (by decide)
  obtain ⟨-, inside, -⟩ := (enter ["x", "x"] [.unit, .bool false]).2 rfl
  refine ⟨older, by decide, inner, beside, (seen 2 "x").1 ⟨rfl, [2], [], beside, by decide⟩,
    (seen 1 "x").2 fun both => shadowed both.2, (changed 0 "x").1 ⟨rfl, by decide⟩,
    (changed 1 "x").2 (by decide), ?_⟩
  obtain ⟨k, v, -, last, arg, value⟩ := inside "x" (by decide)
  match k with
  | 0 => exact absurd rfl (last 1 (by decide))
  | 1 =>
    cases arg
    exact value
  | k + 2 => cases arg

end SmallScheme
