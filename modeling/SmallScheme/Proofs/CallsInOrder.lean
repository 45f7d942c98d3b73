import SmallScheme.Proofs.ObjectIdentity
import SmallScheme.Proofs.WrongType

/-!
Mapping and applying procedures. To map a procedure over rows of one length is to call it on one column
after the other, each call on the machine that the one before left, until all have given results or one
has failed. Nothing else is called, and where the arguments do not fit nothing is. It comes to the same as
the evaluation of an expression that applies the procedure to the columns and lists the results.
-/

set_option autoImplicit false
set_option relaxedAutoImplicit false

namespace SmallScheme

/-- A procedure is called on one list of arguments after the other, each time on the machine that the call
before left, and every call gives a result. The moments of the calls go by in that order. -/
inductive Successive (depth : Nat) (f : Value) :
    List (List Value) → Machine → List Value → List Moment → Machine → Prop
  | nil (m : Machine) : Successive depth f [] m [] [] m
  | cons {args vs : List Value} {rest : List (List Value)} {v : Value} {ms : List Moment}
      {m n o : Machine} : call depth f args m = (.ok v, n) → Successive depth f rest n vs ms o →
      Successive depth f (args :: rest) m (v :: vs) ((Activity.call f args).moments depth m ++ ms) o

/-- How calls one after the other end, and the moments that go by: all give results, and a new list of
them is made, or the first that fails ends them all, and those after it are not made. -/
inductive Mapped (depth : Nat) (f : Value) (columns : List (List Value)) (m : Machine) :
    Except Failure Value × Machine → List Moment → Prop
  | returns {vs : List Value} {ms : List Moment} {o : Machine} :
      Successive depth f columns m vs ms o → Mapped depth f columns m (Action.newList vs o) ms
  | fails {before after : List (List Value)} {args vs : List Value} {ms : List Moment}
      {n o : Machine} {failure : Failure} : columns = before ++ args :: after →
      Successive depth f before m vs ms n → call depth f args n = (.error failure, o) →
      Mapped depth f columns m (.error failure, o) (ms ++ (Activity.call f args).moments depth n)

namespace Successive

variable {depth : Nat} {f : Value} {columns after : List (List Value)} {args vs : List Value}
  {ms : List Moment} {m n o : Machine} {failure : Failure}

private theorem length_eq (h : Successive depth f columns m vs ms n) :
    vs.length = columns.length := by
  induction h with
  | nil => rfl
  | cons _ _ ih => exact congrArg Nat.succ ih

private theorem mapM_eq (h : Successive depth f columns m vs ms n) :
    columns.mapM (call depth f) m = (.ok vs, n) := by
  induction h with
  | nil => rfl
  | cons first _ ih =>
    rw [List.mapM_cons, Action.bind_apply, first]
    simp only [Action.bind_apply, ih]
    rfl

private theorem mapM_append_eq (h : Successive depth f columns m vs ms n)
    (failed : call depth f args n = (.error failure, o)) :
    (columns ++ args :: after).mapM (call depth f) m = (.error failure, o) := by
  induction h with
  | nil =>
    rw [List.nil_append, List.mapM_cons, Action.bind_apply, failed]
  | cons first _ ih =>
    rw [List.cons_append, List.mapM_cons, Action.bind_apply, first]
    simp only [Action.bind_apply, ih failed]

private theorem moments_each (h : Successive depth f columns m vs ms n) (next : List Value → Plan) :
    (Plan.each next (columns.map (.call f))).moments (Activity.perform depth)
        (Activity.moments depth) m =
      ms ++ (next vs).moments (Activity.perform depth) (Activity.moments depth) n := by
  induction h generalizing next with
  | nil => rfl
  | @cons args vs rest v ms m n o first _ ih =>
    have performed : (Activity.call f args).perform depth m = (.ok v, n) := first
    simp only [List.map_cons, Plan.each, Plan.moments, performed, ih, List.append_assoc]

private theorem moments_each_append (h : Successive depth f columns m vs ms n)
    (failed : call depth f args n = (.error failure, o)) (next : List Value → Plan) :
    (Plan.each next ((columns ++ args :: after).map (.call f))).moments (Activity.perform depth)
        (Activity.moments depth) m = ms ++ (Activity.call f args).moments depth n := by
  induction h generalizing next with
  | nil m =>
    have performed : (Activity.call f args).perform depth m = (.error failure, o) := failed
    simp only [List.nil_append, List.map_cons, Plan.each, Plan.moments, performed, List.append_nil]
  | @cons args vs rest v ms m n o first _ ih =>
    have performed : (Activity.call f args).perform depth m = (.ok v, n) := first
    simp only [List.cons_append, List.map_cons, Plan.each, Plan.moments, performed, ih failed,
      List.append_assoc]

private theorem all_or_fails (depth : Nat) (f : Value) (columns : List (List Value)) (m : Machine) :
    (∃ vs ms n, Successive depth f columns m vs ms n) ∨
      ∃ before args after vs ms n failure o, columns = before ++ args :: after ∧
        Successive depth f before m vs ms n ∧ call depth f args n = (.error failure, o) := by
  induction columns generalizing m with
  | nil => exact .inl ⟨[], [], m, .nil m⟩
  | cons args rest ih =>
    rcases first : call depth f args m with ⟨failure | v, n⟩
    · exact .inr ⟨[], args, rest, [], [], m, failure, n, rfl, .nil m, first⟩
    · rcases ih n with ⟨vs, ms, o, all⟩ | ⟨before, bad, after, vs, ms, o, failure, last, rfl, calls, fails⟩
      · exact .inl ⟨_, _, _, .cons first all⟩
      · exact .inr ⟨args :: before, bad, after, _, _, _, failure, last, rfl, .cons first calls, fails⟩

end Successive

private theorem Mapped.exists_mapped (depth : Nat) (f : Value) (columns : List (List Value))
    (m : Machine) :
    ∃ ended ms, Mapped depth f columns m ended ms := by
  rcases Successive.all_or_fails depth f columns m with
    ⟨vs, ms, n, all⟩ | ⟨before, args, after, vs, ms, n, failure, o, split, calls, failed⟩
  · exact ⟨_, _, .returns all⟩
  · exact ⟨_, _, .fails split calls failed⟩

private theorem Mapped.eq_newList {depth : Nat} {f : Value} {columns : List (List Value)}
    {m : Machine} {ended : Except Failure Value × Machine} {ms : List Moment}
    (h : Mapped depth f columns m ended ms) :
    (do Action.newList (← columns.mapM (call depth f))) m = ended := by
  cases h with
  | returns all =>
    rw [Action.bind_apply, all.mapM_eq]
  | fails split calls failed =>
    rw [split, Action.bind_apply, calls.mapM_append_eq failed]

private theorem Mapped.eq_moments {depth : Nat} {f : Value} {columns : List (List Value)}
    {m : Machine} {ended : Except Failure Value × Machine} {ms : List Moment}
    (h : Mapped depth f columns m ended ms) :
    (Plan.each (fun vs => .finish (Action.newList vs)) (columns.map (.call f))).moments
      (Activity.perform depth) (Activity.moments depth) m = ms := by
  cases h with
  | returns all =>
    rw [all.moments_each, Plan.moments, List.append_nil]
  | fails split calls failed =>
    rw [split, calls.moments_each_append failed]

/-- One or more lists of one length: which lists they are, and what stands at each place in each. -/
structure Table where
  /-- How many lists there are besides the first. -/
  others : Nat
  length : Nat
  identity : Fin (others + 1) → Identity
  entry : Fin (others + 1) → Fin length → Value

namespace Table

variable (t : Table)

def items (r : Fin (t.others + 1)) : List Value :=
  List.ofFn (t.entry r)

def rows : List Value :=
  List.ofFn fun r => .list (t.identity r) (t.items r)

def columns : List (List Value) :=
  List.ofFn fun c => List.ofFn fun r => t.entry r c

private theorem rows_items : BigStep.Rows t.rows (List.ofFn t.items) := by
  rw [rows, BigStep.Rows, List.ofFn_eq_map, List.ofFn_eq_map, List.forall₂_map_left_iff,
    List.forall₂_map_right_iff, List.forall₂_same]
  exact fun r _ => ⟨t.identity r, rfl⟩

private theorem length_items (r : Fin (t.others + 1)) : (t.items r).length = t.length :=
  List.length_ofFn

private theorem even_items :
    (List.ofFn fun r : Fin t.others => t.items r.succ).all (·.length = (t.items 0).length) = true := by
  simp [length_items]

private theorem columns_items :
    Primitive.columns (t.items 0) (List.ofFn fun r => t.items r.succ) = t.columns := by
  have place (c : Fin t.length) : (List.ofFn t.items).filterMap (·[c.val]?) =
      List.ofFn fun r => t.entry r c := by
    have found (r : Fin (t.others + 1)) : (t.items r)[c.val]? = some (t.entry r c) := by
      rw [items, List.getElem?_ofFn, dif_pos c.isLt]
    rw [List.ofFn_eq_map, List.ofFn_eq_map, List.filterMap_map]
    simp only [Function.comp_def, found, List.filterMap_eq_map']
  have spread : t.columns = (List.finRange t.length).map fun c => List.ofFn fun r => t.entry r c :=
    List.ofFn_eq_map
  rw [BigStep.columns_eq, ← List.ofFn_succ, length_items, BigStep.columns, spread,
    ← List.map_coe_finRange_eq_range, List.map_map]
  exact List.map_congr_left fun c _ => place c

theorem exists_of_rows {rows : List Value} {k : Nat} (some : rows ≠ [])
    (each : ∀ v ∈ rows, ∃ i xs, v = .list i xs ∧ xs.length = k) :
    ∃ t : Table, t.length = k ∧ t.rows = rows := by
  obtain ⟨others, count⟩ : ∃ others, rows.length = others + 1 :=
    Nat.exists_eq_succ_of_ne_zero (mt List.length_eq_zero_iff.mp some)
  choose identity items list length using fun r : Fin (others + 1) =>
    each (rows.get (r.cast count.symm)) (List.get_mem rows _)
  refine ⟨⟨others, k, identity, fun r c => (items r).get (c.cast (length r).symm)⟩, rfl, ?_⟩
  have whole (r : Fin (others + 1)) :
      (List.ofFn fun c : Fin k => (items r).get (c.cast (length r).symm)) = items r :=
    (List.ofFn_congr (length r) (items r).get).symm.trans (List.ofFn_get (items r))
  have same : (fun r => Value.list (identity r) (items r)) =
      fun r : Fin (others + 1) => rows.get (r.cast count.symm) :=
    funext fun r => (list r).symm
  simp only [Table.rows, Table.items, whole, same]
  exact (List.ofFn_congr count rows.get).symm.trans (List.ofFn_get rows)

end Table

namespace Primitive

def mapping : Primitive :=
  ⟨"map", .map, .atLeast 2⟩

def applying : Primitive :=
  ⟨"apply", .apply, .exactly 2⟩

def listing : Primitive :=
  ⟨"list", .list, .atLeast 0⟩

variable {depth : Nat} {i : Identity} {f : Value} {rows : List Value}

private theorem mapping_accepts (h : rows ≠ []) (f : Value) :
    mapping.arity.accepts (f :: rows).length = true := by
  rw [mapping, Arity.accepts_atLeast, List.length_cons]
  exact Nat.succ_le_succ (List.length_pos_iff.mpr h)

private theorem call_mapping (h : rows ≠ []) :
    call (depth + 1) (.primitive i mapping) (f :: rows) =
      mapped depth "map" (call depth) f rows := by
  simp only [call, Eval.application, mapping_accepts h f, if_true]
  exact BigStep.run_map rfl h

private theorem plan_mapping (h : rows ≠ []) :
    Plan.ofActivity depth (.call (.primitive i mapping) (f :: rows)) =
      Plan.ofPrimitive depth mapping (f :: rows) := by
  simp only [Plan.ofActivity, mapping_accepts h f, if_true]

private theorem rows_ne_nil (t : Table) : t.rows ≠ [] := by
  rw [Table.rows, List.ofFn_succ]
  exact List.cons_ne_nil _ _

private theorem call_mapping_table (hf : f.isProcedure = true) (t : Table) :
    call (depth + 1) (.primitive i mapping) (f :: t.rows) =
      (do Action.newList (← t.columns.mapM (call depth f))) := by
  rw [call_mapping (rows_ne_nil t), mapped, BigStep.procedure_eq_ok depth "map" hf,
    BigStep.mapM_items_of_rows depth "map" t.rows_items, List.ofFn_succ]
  simp only [Plan.lift_ok_bind, t.even_items, if_true, t.columns_items]

private theorem plan_mapping_table (depth : Nat) (i : Identity) (hf : f.isProcedure = true)
    (t : Table) :
    Plan.ofActivity depth (.call (.primitive i mapping) (f :: t.rows)) =
      Plan.each (fun vs => .finish (Action.newList vs)) (t.columns.map (.call f)) := by
  have listed := BigStep.mapM_items_of_rows depth mapping.name t.rows_items
  rw [plan_mapping (rows_ne_nil t)]
  obtain ⟨row, rest, split⟩ := List.exists_cons_of_ne_nil (rows_ne_nil t)
  rw [split] at listed ⊢
  simp only [Plan.ofPrimitive, mapping] at listed ⊢
  simp only [BigStep.procedure_eq_ok depth "map" hf, listed, List.ofFn_succ, t.even_items,
    if_true, t.columns_items]

end Primitive

section Refusal

/-- Two of the values are lists of different lengths. -/
def Uneven (rows : List Value) : Prop :=
  ∃ i xs j ys, .list i xs ∈ rows ∧ .list j ys ∈ rows ∧ xs.length ≠ ys.length

/-- Why a procedure cannot be mapped over values: it is none itself, or one of the values is no list, or
the lists are not of one length. The first value that does not fit is shown in the error. -/
inductive Misfit (depth : Nat) (f : Value) (rows : List Value) : Failure → Prop
  | callee {failure : Failure} : f.isProcedure = false →
      f.WrongType depth (.notProcedure "map") failure → Misfit depth f rows failure
  | row {before after : List Value} {v : Value} {failure : Failure} : f.isProcedure = true →
      rows = before ++ v :: after → (∀ u ∈ before, u.isList = true) → v.isList = false →
      v.WrongType depth (.notList "map") failure → Misfit depth f rows failure
  | lengths : f.isProcedure = true → (∀ v ∈ rows, v.isList = true) → Uneven rows →
      Misfit depth f rows (.error (.unevenLists "map"))

namespace BigStep.Rows

variable {rows : List Value} {tables : List (List Value)}

private theorem isList (h : Rows rows tables) : ∀ v ∈ rows, v.isList = true := by
  induction h with
  | nil => simp
  | cons first _ ih =>
    obtain ⟨i, rfl⟩ := first
    exact List.forall_mem_cons.mpr ⟨rfl, ih⟩

private theorem mem (h : Rows rows tables) {i : Identity} {xs : List Value}
    (hv : .list i xs ∈ rows) :
    xs ∈ tables := by
  induction h with
  | nil => simp at hv
  | cons first _ ih =>
    obtain ⟨j, rfl⟩ := first
    rcases List.mem_cons.mp hv with same | later
    · cases same
      exact List.mem_cons_self
    · exact List.mem_cons_of_mem _ (ih later)

end BigStep.Rows

namespace Primitive

variable {depth : Nat} {i : Identity} {f : Value} {rows : List Value}

/-- Where the values do not fit, the call fails on any machine, and it asks for nothing. -/
def Refuses (depth : Nat) (i : Identity) (f : Value) (rows : List Value) (failure : Failure) : Prop :=
  (∀ m, call (depth + 1) (.primitive i mapping) (f :: rows) m = (.error failure, m)) ∧
    ∃ x, Plan.ofActivity depth (.call (.primitive i mapping) (f :: rows)) = .finish x

private theorem refuses_of_procedure {failure : Failure} (some : rows ≠ [])
    (h : procedure depth "map" f = .error failure) : Refuses depth i f rows failure := by
  obtain ⟨row, rest, rfl⟩ := List.exists_cons_of_ne_nil some
  refine ⟨fun m => ?_, ?_⟩
  · rw [call_mapping some, mapped, h]
    rfl
  · rw [plan_mapping some]
    simp only [Plan.ofPrimitive, mapping, h]
    exact ⟨_, rfl⟩

private theorem refuses_of_items {failure : Failure} (some : rows ≠ []) (hf : f.isProcedure = true)
    (h : rows.mapM (items depth "map") = .error failure) : Refuses depth i f rows failure := by
  have callee := BigStep.procedure_eq_ok depth "map" hf
  obtain ⟨row, rest, rfl⟩ := List.exists_cons_of_ne_nil some
  refine ⟨fun m => ?_, ?_⟩
  · rw [call_mapping some, mapped, callee, Plan.lift_ok_bind, h]
    rfl
  · rw [plan_mapping some]
    simp only [Plan.ofPrimitive, mapping, callee, h]
    exact ⟨_, rfl⟩

private theorem refuses_of_uneven {first : List Value} {others : List (List Value)}
    (some : rows ≠ [])
    (hf : f.isProcedure = true) (h : rows.mapM (items depth "map") = .ok (first :: others))
    (uneven : others.all (·.length = first.length) = false) :
    Refuses depth i f rows (.error (.unevenLists "map")) := by
  have callee := BigStep.procedure_eq_ok depth "map" hf
  obtain ⟨row, rest, rfl⟩ := List.exists_cons_of_ne_nil some
  refine ⟨fun m => ?_, ?_⟩
  · rw [call_mapping some, mapped, callee, Plan.lift_ok_bind, h, Plan.lift_ok_bind]
    simp only [uneven]
    rfl
  · rw [plan_mapping some]
    simp only [Plan.ofPrimitive, mapping, callee, h, uneven]
    exact ⟨_, rfl⟩

private theorem uneven_lengths {first : List Value} {others : List (List Value)}
    (h : BigStep.Rows rows (first :: others)) (uneven : Uneven rows) :
    others.all (·.length = first.length) = false := by
  obtain ⟨i, xs, j, ys, hx, hy, different⟩ := uneven
  rw [← Bool.not_eq_true, List.all_eq_true]
  intro even
  have length {zs : List Value} (hz : zs ∈ first :: others) : zs.length = first.length := by
    rcases List.mem_cons.mp hz with rfl | later
    · rfl
    · exact of_decide_eq_true (even zs later)
  exact different ((length (h.mem hx)).trans (length (h.mem hy)).symm)

private theorem exists_misfit (depth : Nat) (i : Identity) (some : rows ≠ [])
    (h : f.isProcedure = false ∨ (∃ v ∈ rows, v.isList = false) ∨ Uneven rows) :
    ∃ failure, Misfit depth f rows failure ∧ Refuses depth i f rows failure := by
  cases callee : f.isProcedure with
  | false =>
    obtain ⟨failure, complained, wrong⟩ :=
      Value.exists_wrongType (α := Unit) depth (e := .notProcedure "map") (fun _ => rfl) f
    have refused := (BigStep.procedure_eq_complain depth "map" callee).trans complained
    exact ⟨failure, .callee callee wrong, refuses_of_procedure some refused⟩
  | true =>
    rcases BigStep.rows_or_unlisted rows with ⟨tables, lists⟩ | ⟨before, v, after, _, split, lists, other⟩
    · have uneven : Uneven rows := by
        rcases h with not | ⟨v, hv, other⟩ | uneven
        · cases callee.symm.trans not
        · cases (lists.isList v hv).symm.trans other
        · exact uneven
      have listed := BigStep.mapM_items_of_rows depth "map" lists
      cases tables with
      | nil =>
        cases lists
        exact absurd rfl some
      | cons first others =>
        exact ⟨_, .lengths callee lists.isList uneven,
          refuses_of_uneven some callee listed (uneven_lengths lists uneven)⟩
    · obtain ⟨failure, complained, wrong⟩ :=
        Value.exists_wrongType (α := List (List Value)) depth (e := .notList "map") (fun _ => rfl) v
      have refused : rows.mapM (items depth "map") = .error failure := by
        rw [split, BigStep.mapM_items_of_unlisted depth "map" lists other after, complained]
      exact ⟨failure, .row callee split lists.isList other wrong, refuses_of_items some callee refused⟩

end Primitive

end Refusal

section Direct

/-- The expression that applies a procedure to values. -/
def directly (i j : Identity) (f : Value) (args : List Value) : Value :=
  .list i (f :: args.map (quotation j))

variable {depth : Nat} {f : Value} {frame : FrameId}

private theorem ofList_procedure (hf : f.isProcedure = true) (rest : List Value) :
    Form.ofList f rest = .application f rest := by
  refine BigStep.ofList_application ?_ rest
  rintro form rfl
  cases hf

private theorem eval_procedure (hf : f.isProcedure = true) :
    eval (depth + 1) f frame = (return f : Action Value) := by
  cases f with
  | procedure i params body outer => rfl
  | primitive i p => rfl
  | _ => cases hf

private theorem mapM_quotation (depth : Nat) (j : Identity) (frame : FrameId) (args : List Value) :
    (args.map (quotation j)).mapM (eval (depth + 1) · frame) = (return args : Action (List Value)) := by
  induction args with
  | nil => rfl
  | cons v args ih =>
    have first : eval (depth + 1) (quotation j v) frame = (return v : Action Value) :=
      funext (eval_quotation depth j v frame)
    rw [List.map_cons, List.mapM_cons, first, pure_bind, ih, pure_bind]

/-- The direct application of a procedure is its call on the next level. -/
theorem eval_directly (hf : f.isProcedure = true) (i j : Identity) (args : List Value) :
    eval (depth + 1) (directly i j f args) frame = call depth f args := by
  have application : eval (depth + 1) (directly i j f args) frame = (do
      let g ← eval depth f frame
      let values ← (args.map (quotation j)).mapM (eval depth · frame)
      call depth g values) := by
    simp only [eval, directly, Eval.expression, ofList_procedure hf, Eval.form]
  rw [application]
  cases depth with
  | zero => rfl
  | succ depth => rw [eval_procedure hf, pure_bind, mapM_quotation, pure_bind]

/-- The evaluator's own way to call a procedure on one column after the other: an expression that lists
the direct applications. -/
theorem eval_listing (hf : f.isProcedure = true) (i j k l : Identity) (columns : List (List Value)) :
    eval (depth + 2) (.list i (.primitive j Primitive.listing :: columns.map (directly k l f))) frame =
      (do Action.newList (← columns.mapM (call depth f))) := by
  have listed (vs : List Value) :
      call (depth + 1) (.primitive j Primitive.listing) vs = Action.newList vs := by
    have accepted : Primitive.listing.arity.accepts vs.length = true :=
      Arity.accepts_atLeast.mpr (Nat.zero_le _)
    simp only [call, Eval.application, accepted, if_true]
    rfl
  have operator : eval (depth + 1) (.primitive j Primitive.listing) frame =
      (return .primitive j Primitive.listing : Action Value) := eval_procedure rfl
  have application : eval (depth + 2)
      (.list i (.primitive j Primitive.listing :: columns.map (directly k l f))) frame = (do
      let g ← eval (depth + 1) (.primitive j Primitive.listing) frame
      let values ← (columns.map (directly k l f)).mapM (eval (depth + 1) · frame)
      call (depth + 1) g values) := by
    rw [eval]
    simp only [Eval.expression, ofList_procedure (f := .primitive j Primitive.listing) rfl, Eval.form]
  rw [application, operator, pure_bind, List.mapM_map]
  simp only [Function.comp_def, eval_directly hf, listed]

end Direct

namespace Activity

/-- The moments of an activity, given those of what it asks for. -/
def enclosing (depth : Nat) (a : Activity) (m : Machine) (inner : List Moment) : List Moment :=
  .begins depth a m :: (inner ++ [.ends a (a.perform depth m).1 (a.perform depth m).2])

private theorem moments_eq_enclosing (depth : Nat) (a : Activity) (m : Machine) :
    a.moments (depth + 1) m = a.enclosing (depth + 1) m
      ((Plan.ofActivity depth a).moments (perform depth) (moments depth) m) :=
  rfl

private theorem enclosing_inj {depth : Nat} {a : Activity} {m : Machine}
    {inner inner' : List Moment}
    (h : a.enclosing depth m inner = a.enclosing depth m inner') : inner = inner' :=
  List.append_cancel_right (List.cons.inj h).2

end Activity

/-- To map a procedure over a table is to call it on one column after the other: this is how the call
ends, and these are all the moments in it. -/
theorem mapped_iff {depth : Nat} {i : Identity} {f : Value} (hf : f.isProcedure = true) (t : Table)
    {m : Machine} {ended : Except Failure Value × Machine} {ms : List Moment} :
    let mapping : Activity := .call (.primitive i Primitive.mapping) (f :: t.rows)
    Mapped depth f t.columns m ended ms ↔
      mapping.perform (depth + 1) m = ended ∧
        mapping.moments (depth + 1) m = mapping.enclosing (depth + 1) m ms := by
  intro mapping
  have performed : mapping.perform (depth + 1) =
      (do Action.newList (← t.columns.mapM (call depth f))) := Primitive.call_mapping_table hf t
  have plan := Primitive.plan_mapping_table depth i hf t
  have holds {ended : Except Failure Value × Machine} {ms : List Moment}
      (h : Mapped depth f t.columns m ended ms) : mapping.perform (depth + 1) m = ended ∧
        mapping.moments (depth + 1) m = mapping.enclosing (depth + 1) m ms := by
    rw [performed, h.eq_newList, Activity.moments_eq_enclosing, plan, h.eq_moments]
    exact ⟨rfl, rfl⟩
  refine ⟨holds, fun ⟨result, moments⟩ => ?_⟩
  obtain ⟨ended', ms', h⟩ := Mapped.exists_mapped depth f t.columns m
  obtain ⟨result', moments'⟩ := holds h
  rw [← result, result', Activity.enclosing_inj (moments.symm.trans moments')]
  exact h

private theorem Primitive.Refuses.moments_eq {depth : Nat} {i : Identity} {f : Value}
    {rows : List Value}
    {failure : Failure} (h : Primitive.Refuses depth i f rows failure) (m : Machine) :
    let mapping : Activity := .call (.primitive i Primitive.mapping) (f :: rows)
    mapping.moments (depth + 1) m = mapping.enclosing (depth + 1) m [] := by
  intro mapping
  obtain ⟨-, x, plan⟩ := h
  rw [Activity.moments_eq_enclosing, plan]
  rfl

theorem Primitive.call_applying {depth : Nat} {f : Value} (hf : f.isProcedure = true)
    (i j : Identity) (items : List Value) :
    call (depth + 1) (.primitive i applying) [f, .list j items] = call depth f items := by
  have accepted : applying.arity.accepts [f, .list j items].length = true := rfl
  simp only [call, Eval.application, accepted, if_true]
  rw [BigStep.run_apply rfl, BigStep.procedure_eq_ok depth applying.name hf]
  rfl

theorem Successive.length_eq_of_table {depth : Nat} {f : Value} {t : Table} {m n : Machine}
    {vs : List Value} {ms : List Moment} (h : Successive depth f t.columns m vs ms n) :
    vs.length = t.length := by
  rw [h.length_eq, Table.columns, List.length_ofFn]

/-- The primitive does what the evaluator does with the direct applications. -/
theorem eval_listing_table {depth : Nat} {f : Value} (hf : f.isProcedure = true) (t : Table)
    (i j k l o : Identity) (frame : FrameId) (m : Machine) :
    eval (depth + 2) (.list j (.primitive k Primitive.listing :: t.columns.map (directly l o f)))
      frame m = call (depth + 1) (.primitive i Primitive.mapping) (f :: t.rows) m := by
  rw [eval_listing hf, Primitive.call_mapping_table hf t]

/-- Where the arguments do not fit, nothing is called and nothing is changed. -/
theorem Primitive.mapping_refuses {depth : Nat} {i : Identity} {f : Value} {rows : List Value}
    (some : rows ≠ [])
    (misfit : f.isProcedure = false ∨ (∃ v ∈ rows, v.isList = false) ∨ Uneven rows) (m : Machine) :
    let mapping : Activity := .call (.primitive i Primitive.mapping) (f :: rows)
    ∃ failure, Misfit depth f rows failure ∧
      call (depth + 1) (.primitive i Primitive.mapping) (f :: rows) m = (.error failure, m) ∧
      mapping.moments (depth + 1) m = mapping.enclosing (depth + 1) m [] := by
  obtain ⟨failure, why, refuses⟩ := Primitive.exists_misfit depth i some misfit
  exact ⟨failure, why, refuses.1 m, refuses.moments_eq m⟩

theorem eval_directly_eq_applying {depth : Nat} {f : Value} (hf : f.isProcedure = true)
    (i j k l : Identity) (items : List Value) (frame : FrameId) (m : Machine) :
    eval (depth + 1) (directly k l f items) frame m =
      call (depth + 1) (.primitive i Primitive.applying) [f, .list j items] m := by
  rw [eval_directly hf, Primitive.call_applying hf]

/-- To map a procedure over one or more lists of one length is to call it on one column after the other,
each time on the machine that the call before left: it ends as these calls do, with a new list of as many
results or with the first failure, and they are all that is called. The evaluation of an expression that
lists the direct applications ends in the same way. If the procedure is none, or an argument is no list,
or the lists are not of one length, the call fails because of the type, leaves the machine as it was, and
nothing is called. To apply a procedure to a list is to call it on the items, as its direct application
does. -/
theorem map_calls_in_order (depth : Nat) (i : Identity) (f : Value) (m : Machine) :
    let map : Value := .primitive i Primitive.mapping
    let mapping (rows : List Value) : Activity := .call map (f :: rows)
    [Primitive.mapping, Primitive.applying, Primitive.listing] ⊆ Primitive.standard ∧
    (f.isProcedure = true → ∀ t : Table,
      (∀ ended ms, Mapped depth f t.columns m ended ms ↔
        call (depth + 1) map (f :: t.rows) m = ended ∧
          (mapping t.rows).moments (depth + 1) m = (mapping t.rows).enclosing (depth + 1) m ms) ∧
      (∀ vs ms n, Successive depth f t.columns m vs ms n → vs.length = t.length) ∧
      ∀ j k l o frame,
        eval (depth + 2) (.list j (.primitive k Primitive.listing :: t.columns.map (directly l o f)))
          frame m = call (depth + 1) map (f :: t.rows) m) ∧
    (∀ rows k, rows ≠ [] → (∀ v ∈ rows, ∃ j xs, v = .list j xs ∧ xs.length = k) →
      ∃ t : Table, t.length = k ∧ t.rows = rows) ∧
    (∀ rows, rows ≠ [] → f.isProcedure = false ∨ (∃ v ∈ rows, v.isList = false) ∨ Uneven rows →
      ∃ failure, Misfit depth f rows failure ∧
        call (depth + 1) map (f :: rows) m = (.error failure, m) ∧
        (mapping rows).moments (depth + 1) m = (mapping rows).enclosing (depth + 1) m []) ∧
    (f.isProcedure = true → ∀ j items,
      let applied := call (depth + 1) (.primitive i Primitive.applying) [f, .list j items] m
      applied = call depth f items m ∧
        ∀ k l frame, eval (depth + 1) (directly k l f items) frame m = applied) := by
  intro map mapping
  exact ⟨by decide,
    fun hf t => ⟨fun ended ms => mapped_iff hf t, fun vs ms n all => all.length_eq_of_table,
      fun j k l o frame => eval_listing_table hf t i j k l o frame m⟩,
    fun rows k some each => Table.exists_of_rows some each,
    fun rows some misfit => Primitive.mapping_refuses some misfit m,
    fun hf j items => ⟨congrFun (Primitive.call_applying hf i j items) m,
      fun k l frame => eval_directly_eq_applying hf i j k l items frame m⟩⟩

/-- A procedure that changes a binding and then divides, mapped over dividends and divisors of which the
second is zero: its error is the outcome, and the binding has the second dividend, not the third. Mapped
over a truth value it is not called. -/
theorem map_calls_in_order_zero_divisor :
    let m : Machine := (Action.newGlobals (Machine.start 30)).2
    let name (s : String) : Value := .symbol s
    let assign : Value := .list (.written 0) [name "set!", name "pi", name "x"]
    let divide : Value := .list (.written 1) [name "/", name "x", name "y"]
    let f : Value := .procedure (.made 40) ["x", "y"]
      (.list (.written 2) [name "begin", assign, divide]) 0
    let t : Table := ⟨1, 3, fun r => .made (50 + r),
      fun r c => .number (.int (if r = 0 then c + 1 else if c = 1 then 0 else 1))⟩
    let map : Value := .primitive (.made 29) Primitive.mapping
    let outcome := call 21 map (f :: t.rows) m
    let shows (n : Machine) : Option Number := (n.store.lookup? 0 "pi").bind Value.number?
    (∃ ms, Mapped 20 f t.columns m outcome ms) ∧
      outcome.1 = .error (.error (.numeric "/" .zeroDivisor)) ∧ shows outcome.2 = some (.int 2) ∧
      ∃ failure, Misfit 20 f [.bool true] failure ∧
        call 21 map [f, .bool true] m = (.error failure, m) := by
  intro m name assign divide f t map outcome shows
  obtain ⟨-, inOrder, -, refuses, -⟩ := map_calls_in_order 20 (.made 29) f m
  obtain ⟨mapped, -, -⟩ := inOrder rfl t
  have stopped : outcome.1.map (fun _ => ()) = .error (.error (.numeric "/" .zeroDivisor)) := by
    decide +kernel
  have bound : shows outcome.2 = some (.int 2) := by decide +kernel
  refine ⟨⟨_, (mapped outcome _).mpr ⟨rfl, rfl⟩⟩, ?_, bound, ?_⟩
  · cases result : outcome.1 with
    | ok v =>
      rw [result] at stopped
      cases stopped
    | error failure =>
      rw [result] at stopped
      exact congrArg Except.error (Except.error.inj stopped)
  · obtain ⟨failure, why, refused, -⟩ :=
      refuses [.bool true] (by simp) (.inr (.inl ⟨.bool true, by simp, rfl⟩))
    exact ⟨failure, why, refused⟩

end SmallScheme
