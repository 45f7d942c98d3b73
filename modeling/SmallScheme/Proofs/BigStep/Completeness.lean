import SmallScheme.Proofs.BigStep.Forms
import SmallScheme.Proofs.WellFormed

/-!
From the rules of evaluation to the evaluator: whatever the rules derive is what the evaluator gives from
some depth on. The induction is on derivations, with well-formed stores carried along by what the
evaluator leaves behind.
-/

set_option autoImplicit false
set_option relaxedAutoImplicit false

namespace SmallScheme

namespace BigStep

/-- What an action leaves behind: a well-formed store with the frames from before, and a result that
stays within it. -/
structure Kept {α : Type} (within : Nat → α → Prop) (m : Machine) (out : Except Failure α)
    (n : Machine) : Prop where
  wellFormed : n.store.WellFormed
  grows : m.store.Grows n.store
  result : ∀ a, out = .ok a → within n.store.frames.size a

def EachWithin (size : Nat) (vs : List Value) : Prop :=
  ∀ v ∈ vs, v.Within size

section Kept

variable {depth : Nat} {m n : Machine} {f : FrameId} {out : Except Failure Value}

theorem eval_kept {e : Value} (h : eval depth e f m = (out, n)) (hs : m.store.WellFormed)
    (he : e.Within m.store.frames.size) (hf : f < m.store.frames.size) :
    Kept Value.Within m out n := by
  have agrees := Correspondence.eval_agrees (C := .wellFormed) (.refl depth) ⟨rfl, rfl, hs⟩
    ⟨rfl, he⟩ ⟨rfl, hf⟩
  obtain ⟨wellFormed, grows, result⟩ := agrees.wellFormed
  rw [h] at wellFormed grows result
  exact ⟨wellFormed, grows, fun v hv => (result v v hv hv).2⟩

theorem call_kept {g : Value} {args : List Value} (h : call depth g args m = (out, n))
    (hs : m.store.WellFormed) (hg : g.Within m.store.frames.size)
    (hargs : EachWithin m.store.frames.size args) : Kept Value.Within m out n := by
  have agrees := Correspondence.call_agrees (C := .wellFormed) (.refl depth) ⟨rfl, rfl, hs⟩
    ⟨rfl, hg⟩ (List.forall₂_same.mpr fun v hv => ⟨rfl, hargs v hv⟩)
  obtain ⟨wellFormed, grows, result⟩ := agrees.wellFormed
  rw [h] at wellFormed grows result
  exact ⟨wellFormed, grows, fun v hv => (result v v hv hv).2⟩

theorem evalEach_kept {es : List Value} {outs : Except Failure (List Value)}
    (h : es.mapM (eval depth · f) m = (outs, n)) (hs : m.store.WellFormed)
    (hes : EachWithin m.store.frames.size es) (hf : f < m.store.frames.size) :
    Kept EachWithin m outs n := by
  have agrees := Correspondence.Agrees.mapM (C := .wellFormed) (m := m)
    (P := Correspondence.wellFormed.values) (R := Correspondence.wellFormed.values)
    Correspondence.wellFormed.values_later Correspondence.wellFormed.values_later
    ⟨rfl, rfl, hs⟩ (List.forall₂_same.mpr fun v hv => ⟨rfl, hes v hv⟩)
    fun u a b o o' hu ho hab => Correspondence.eval_agrees (.refl depth) ho hab
      (Correspondence.wellFormed.frames_later hu ⟨rfl, hf⟩)
  obtain ⟨wellFormed, grows, result⟩ := agrees.wellFormed
  rw [h] at wellFormed grows result
  exact ⟨wellFormed, grows, fun vs hvs v hv =>
    (List.forall₂_same.mp (result vs vs hvs hvs) v hv).2⟩

end Kept

end BigStep

namespace Concludes

open BigStep

variable {m n : Machine} {f : FrameId} {out : Except Failure Value}

private theorem eval_kept {e : Value} (h : Concludes (fun depth => eval depth e f) m out n)
    (hs : m.store.WellFormed) (he : e.Within m.store.frames.size) (hf : f < m.store.frames.size) :
    Kept Value.Within m out n := by
  obtain ⟨-, least, h⟩ := h
  exact BigStep.eval_kept (h least (Nat.le_refl _)) hs he hf

private theorem call_kept {g : Value} {args : List Value}
    (h : Concludes (fun depth => call depth g args) m out n) (hs : m.store.WellFormed)
    (hg : g.Within m.store.frames.size) (hargs : EachWithin m.store.frames.size args) :
    Kept Value.Within m out n := by
  obtain ⟨-, least, h⟩ := h
  exact BigStep.call_kept (h least (Nat.le_refl _)) hs hg hargs

private theorem evalEach_kept {es : List Value} {outs : Except Failure (List Value)}
    (h : Concludes (fun depth => es.mapM (eval depth · f)) m outs n) (hs : m.store.WellFormed)
    (hes : EachWithin m.store.frames.size es) (hf : f < m.store.frames.size) :
    Kept EachWithin m outs n := by
  obtain ⟨-, least, h⟩ := h
  exact BigStep.evalEach_kept (h least (Nat.le_refl _)) hs hes hf

end Concludes

namespace BigStep

section Derived

variable {m n m' : Machine} {f : FrameId} {out : Except Failure Value}

private theorem concludes_eval {e : Value}
    (h : Concludes (fun depth => Eval.expression depth (eval depth) (call depth) e f) m out m') :
    Concludes (fun depth => eval depth e f) m out m' :=
  h.succ

private theorem concludes_form {i : Identity} {head : Value} {rest : List Value} {form : Form}
    (hform : Form.ofList head rest = form)
    (h : Concludes (fun depth => Eval.form depth (eval depth) (call depth) f form) m out m') :
    Concludes (fun depth => eval depth (.list i (head :: rest)) f) m out m' := by
  subst hform
  exact concludes_eval h

private theorem concludes_primitive {i : Identity} {p : Primitive} {args : List Value}
    (accepts : p.arity.accepts args.length = true)
    (h : Concludes (fun depth => p.run depth (call depth) args) m out m') :
    Concludes (fun depth => call depth (.primitive i p) args) m out m' := by
  refine Concludes.succ ?_
  simpa only [call, Eval.application, accepts, if_true] using h

private theorem procedure_concludes {name : String} {g : Value} (h : g.isProcedure = true) :
    Concludes (fun depth => Action.lift (Primitive.procedure depth name g)) m (.ok ()) m :=
  ⟨by simp, 0, fun depth _ => by rw [procedure_eq_ok depth name h]; rfl⟩

private theorem procedure_concludes_complaint {name : String} {g : Value}
    (h : g.isProcedure = false) :
    Concludes (fun depth => Action.lift (Primitive.procedure depth name g)) m
      (.error (complaint (.notProcedure name) g)) m := by
  simp only [procedure_eq_complain _ name h]
  exact complain_concludes _ g m

private theorem Performs.concludes {p : Primitive} {args : List Value}
    (h : Performs p args m out m')
    (ha : p.operation ≠ .apply) (hm : p.operation ≠ .map) :
    Concludes (fun depth => p.run depth (call depth) args) m out m' := by
  obtain ⟨finished, room, h⟩ := h
  refine ⟨finished, room, fun depth hd => ?_⟩
  have enough := Primitive.run_eq_of_le hd (by rw [h]; exact finished)
  rw [run_of_native ha hm, ← enough, h]

/-- Frames are shown by the length of the way outwards. -/
theorem describe_eq_place {s : Store} (older : s.OuterOlder) {path : List FrameId}
    (walk : s.Walk f path) : s.describe f = place s f path := by
  have hf : f < s.frames.size := by
    cases walk with
    | last hframe _ => exact Store.lt_of_frames hframe
    | outward hframe _ _ => exact Store.lt_of_frames hframe
  rw [place, ← (Store.walk_chain older hf).unique walk]
  rfl

theorem enter_of_length_eq (m : Machine) {params : List String} {args : List Value}
    (frame : FrameId) (h : params.length = args.length) :
    Action.enter params args (some frame) m = (.ok m.store.frames.size,
      { m with store := (m.store.addFrame (.ofList (params.zip args)) (some frame)).2 }) := by
  simp only [Action.enter, h, if_true, Action.change, Store.addFrame]

theorem wellFormed_enter {i : Identity} {params : List String} {body : Value} {frame : FrameId}
    {args : List Value} (hs : m.store.WellFormed)
    (hg : (Value.procedure i params body frame).Within m.store.frames.size)
    (hargs : EachWithin m.store.frames.size args) :
    let s := (m.store.addFrame (.ofList (params.zip args)) (some frame)).2
    s.WellFormed ∧ body.Within s.frames.size ∧ m.store.frames.size < s.frames.size := by
  obtain ⟨hbody, hframe⟩ := Value.within_procedure.mp hg
  have grows := m.store.grows_addFrame (.ofList (params.zip args)) (some frame)
  refine ⟨hs.addFrame (fun g hg => ?_) (within_zip hargs), hbody.mono grows.size, ?_⟩
  · cases hg
    exact hframe
  · rw [Store.size_addFrame]
    exact Nat.lt_succ_self _

private theorem mapped_concludes {p : Primitive} {g : Value} {rows first : List Value}
    {others : List (List Value)} (hm : p.operation = .map) (hp : g.isProcedure = true)
    (hrows : Rows rows (first :: others))
    (h : Concludes (fun depth => do
      if others.all (·.length = first.length) then
        Action.newList (← (Primitive.columns first others).mapM (call depth g))
      else
        Action.raise (.unevenLists p.name)) m out m') :
    Concludes (fun depth => p.run depth (call depth) (g :: rows)) m out m' := by
  have hr : rows ≠ [] := by
    rintro rfl
    cases hrows
  simp only [run_map hm hr, Primitive.mapped, mapM_items_of_rows _ p.name hrows]
  exact (procedure_concludes hp).bind ((Concludes.of_eq (by simp) rfl).bind h)

theorem columns_within {size : Nat} {g : Value} {rows first : List Value}
    {others : List (List Value)} (hargs : EachWithin size (g :: rows))
    (hrows : Rows rows (first :: others)) :
    ∀ args ∈ columns first.length (first :: others), EachWithin size args := by
  have each : ∀ items ∈ first :: others, EachWithin size items := by
    intro items hi
    obtain ⟨row, hrow, i, rfl⟩ : ∃ row ∈ rows, ∃ i, row = .list i items := by
      have zipped := List.forall₂_iff_zip.mp hrows
      obtain ⟨row, hz⟩ : ∃ row, (row, items) ∈ rows.zip (first :: others) := by
        obtain ⟨n, hn, rfl⟩ := List.mem_iff_getElem.mp hi
        have hn' : n < rows.length := by rw [zipped.1]; exact hn
        have both : n < (rows.zip (first :: others)).length := by
          rw [List.length_zip]
          exact Nat.lt_min.mpr ⟨hn', hn⟩
        exact ⟨rows[n], List.mem_iff_getElem.mpr ⟨n, both, by simp⟩⟩
      exact ⟨row, (List.of_mem_zip hz).1, zipped.2 hz⟩
    exact Value.within_list.mp (hargs _ (List.mem_cons_of_mem _ hrow))
  intro args ha v hv
  rw [← columns_eq] at ha
  obtain ⟨items, hi, hv⟩ := mem_columns ha hv
  exact each items hi v hv

/-- Calling what is no procedure. The value is written twice, first as the message shows it. -/
theorem refusal_concludes {g : Value} (h : g.isProcedure = false) (args : List Value)
    (m : Machine) : Concludes (fun depth => call depth g args) m (.error (refusal g)) m := by
  have written := literal_concludes g m
  have twice (hsymbol : g.symbol? = none) (hshown : ∀ depth, g.shown depth = g.literal depth) :
      Concludes (fun depth => do
        let text ← Action.lift (g.shown depth)
        let literal ← Action.lift (g.literal depth)
        (Action.raise (.notApplicable text literal) : Action Value)) m (.error (refusal g)) m := by
    simp only [hshown, refusal, complaint, hsymbol, Option.getD_none]
    cases hs : g.spelling .literal with
    | error failure =>
      rw [hs] at written
      exact written.bind_error
    | ok text =>
      rw [hs] at written
      exact written.bind (written.bind (.of_eq (by simp) rfl))
  refine Concludes.succ ?_
  cases g with
  | symbol name => exact written.bind (.of_eq (by simp [refusal, complaint, Value.spelling]) rfl)
  | procedure => simp [Value.isProcedure] at h
  | primitive => simp [Value.isProcedure] at h
  | _ => exact twice rfl fun _ => rfl

end Derived

/-- The store is well-formed, and the frame and the values stand in it. -/
structure Stands (m : Machine) (f : FrameId) (vs : List Value) : Prop where
  wellFormed : m.store.WellFormed
  frame : f < m.store.frames.size
  values : EachWithin m.store.frames.size vs

section Judgements

variable (m : Machine) (f : FrameId)

/-- The evaluation of the expression concludes so if all that it refers to stands in the store. -/
def Evaluated (e : Value) (out : Except Failure Value) (m' : Machine) : Prop :=
  Stands m f [e] → Concludes (fun depth => eval depth e f) m out m'

def EvaluatedEach (es : List Value) (out : Except Failure (List Value)) (m' : Machine) : Prop :=
  Stands m f es → Concludes (fun depth => es.mapM (eval depth · f)) m out m'

def EvaluatedLast (last : Value) (es : List Value) (out : Except Failure Value) (m' : Machine) : Prop :=
  Stands m f es → Concludes (fun depth => es.foldlM (fun _ e => eval depth e f) last) m out m'

/-- The call concludes so if all that the procedure and the arguments refer to stands in the store. -/
def Called (g : Value) (args : List Value) (out : Except Failure Value) (m' : Machine) : Prop :=
  m.store.WellFormed → EachWithin m.store.frames.size (g :: args) →
    Concludes (fun depth => call depth g args) m out m'

def CalledEach (g : Value) (rows : List (List Value)) (out : Except Failure (List Value))
    (m' : Machine) : Prop :=
  m.store.WellFormed → g.Within m.store.frames.size →
    (∀ args ∈ rows, EachWithin m.store.frames.size args) →
    Concludes (fun depth => rows.mapM (call depth g)) m out m'

end Judgements

section Rules

variable {m n n' m' : Machine} {f : FrameId} {i : Identity} {e v : Value} {es us vs : List Value}
  {out : Except Failure Value} {failure : Failure}

namespace Stands

private theorem mono (h : Stands m f vs) (sub : us ⊆ vs) : Stands m f us :=
  ⟨h.wellFormed, h.frame, fun v hv => h.values v (sub hv)⟩

private theorem one (h : Stands m f vs) (he : e ∈ vs) : Stands m f [e] :=
  ⟨h.wellFormed, h.frame, List.forall_mem_singleton.mpr (h.values e he)⟩

private theorem items (h : Stands m f [.list i vs]) : Stands m f vs :=
  ⟨h.wellFormed, h.frame, Value.within_list.mp (h.values _ List.mem_cons_self)⟩

private theorem later {within : Nat → Value → Prop} (h : Stands m f vs) (kept : Kept within m out n) :
    Stands n f vs :=
  ⟨kept.wellFormed, Nat.lt_of_lt_of_le h.frame kept.grows.size,
    fun v hv => (h.values v hv).mono kept.grows.size⟩

end Stands

private theorem Evaluated.after (h : Evaluated m f e (.ok v) n) (stands : Stands m f vs) (he : e ∈ vs) :
    Concludes (fun depth => eval depth e f) m (.ok v) n ∧ Stands n f (v :: vs) := by
  have here := stands.one he
  have first := h here
  have kept := first.eval_kept here.wellFormed (here.values e List.mem_cons_self) here.frame
  have later := stands.later kept
  exact ⟨first, later.wellFormed, later.frame, List.forall_mem_cons.mpr ⟨kept.result v rfl, later.values⟩⟩

private theorem Evaluated.first {head : Value} {rest : List Value} {form : Form}
    {k : Nat → Value → Action Value} (h : Evaluated m f e (.ok v) n) (he : e ∈ head :: rest)
    (named : Form.ofList head rest = form)
    (split : ∀ depth, Eval.form depth (eval depth) (call depth) f form = eval depth e f >>= k depth)
    (next : Stands n f (v :: head :: rest) → Concludes (fun depth => k depth v) n out m') :
    Evaluated m f (.list i (head :: rest)) out m' := by
  intro stands
  obtain ⟨first, later⟩ := h.after stands.items he
  refine concludes_form named ?_
  simp only [split]
  exact first.bind (next later)

private theorem Evaluated.fails {head : Value} {rest : List Value} {form : Form}
    {k : Nat → Value → Action Value} (h : Evaluated m f e (.error failure) m') (he : e ∈ head :: rest)
    (named : Form.ofList head rest = form)
    (split : ∀ depth, Eval.form depth (eval depth) (call depth) f form = eval depth e f >>= k depth) :
    Evaluated m f (.list i (head :: rest)) (.error failure) m' := by
  intro stands
  refine concludes_form named ?_
  simp only [split]
  exact (h (stands.items.one he)).bind_error

private theorem Evaluated.leaf {form : Form} {head : Value} {rest : List Value}
    (finished : out ≠ .error .depthExhausted) (named : Form.ofList head rest = form)
    (ends : ∀ depth, Eval.form depth (eval depth) (call depth) f form m = (out, m')) :
    Evaluated m f (.list i (head :: rest)) out m' :=
  fun _ => concludes_form named ⟨finished, 0, fun depth _ => ends depth⟩

private theorem Evaluated.itself (notSymbol : e.isSymbol = false) (notList : e.isList = false) :
    Evaluated m f e (.ok e) m := by
  refine fun _ => concludes_eval ⟨by simp, 0, fun depth _ => ?_⟩
  cases e with
  | symbol name => cases notSymbol
  | list i items => cases notList
  | _ => rfl

private theorem Evaluated.conditional {t a b : Value} (test : Evaluated m f t (.ok v) n)
    (branch : Evaluated n f (if v.isTrue then a else b) out m') :
    Evaluated m f (.list i [keyword .conditional, t, a, b]) out m' := by
  refine test.first (by simp) (ofList_keyword .conditional _) (fun _ => rfl) fun later => ?_
  cases hv : v.isTrue with
  | true =>
    simp only [hv, if_true] at branch ⊢
    exact branch (later.one (by simp))
  | false =>
    simp only [hv, Bool.false_eq_true, if_false] at branch ⊢
    exact branch (later.one (by simp))

private theorem Evaluated.valueFails {form : SpecialForm} {name : String}
    (hform : form = .assignment ∨ form = .definition) (value : Evaluated m f e (.error failure) m') :
    Evaluated m f (.list i [keyword form, .symbol name, e]) (.error failure) m' := by
  rcases hform with rfl | rfl
  · exact value.fails (by simp) (ofList_keyword .assignment _) fun _ => rfl
  · exact value.fails (by simp) (ofList_keyword .definition _) fun _ => rfl

private theorem Evaluated.assignmentUnbound {name : String} (value : Evaluated m f e (.ok v) n)
    (missing : n.store.Unresolved name f) :
    Evaluated m f (.list i [keyword .assignment, .symbol name, e]) (.error (.error (.unbound name))) n := by
  refine value.first (by simp) (ofList_keyword .assignment _) (fun _ => rfl) fun later => ?_
  have assigned := assign_of_unresolved later.wellFormed.older missing v
  exact (Concludes.of_eq (by simp) assigned).bind_error

private theorem Evaluated.assignment {name : String} {owner : FrameId} {old : Value}
    (value : Evaluated m f e (.ok v) n) (found : n.store.Resolves name f owner old)
    (notes : Notes v (fun text => s!"set! {name} = {text}") .unit
      { n with store := n.store.define owner name v } out m') :
    Evaluated m f (.list i [keyword .assignment, .symbol name, e]) out m' := by
  refine value.first (by simp) (ofList_keyword .assignment _) (fun _ => rfl) fun later => ?_
  have assigned := assign_of_resolves later.wellFormed.older found v
  exact (Concludes.of_eq (by simp) assigned).bind (notes.concludes fun _ => rfl)

private theorem Evaluated.definition {name : String} {path : List FrameId}
    (value : Evaluated m f e (.ok v) n) (walk : (n.store.define f name v).Walk f path)
    (notes : Notes v
      (fun text => s!"define {name} = {text} in {place (n.store.define f name v) f path}") .unit
      { n with store := n.store.define f name v } out m') :
    Evaluated m f (.list i [keyword .definition, .symbol name, e]) out m' := by
  refine value.first (by simp) (ofList_keyword .definition _) (fun _ => rfl) fun later => ?_
  have within : v.Within n.store.frames.size := later.values v List.mem_cons_self
  have described := describe_eq_place (later.wellFormed.define within).older walk
  refine (Concludes.of_eq (y := Action.define f name v) (by simp) rfl).bind (notes.concludes ?_)
  intro text
  rw [← described]
  rfl

private theorem Evaluated.abstraction {j : Identity} {names : List String} {body : Value}
    {path : List FrameId} (walk : m.store.make.2.Walk f path)
    (notes : Notes (.procedure m.store.make.1 names body f)
      (fun text => s!"lambda {text} in {place m.store.make.2 f path}")
      (.procedure m.store.make.1 names body f) { m with store := m.store.make.2 } out m') :
    Evaluated m f (.list i [keyword .abstraction, .list j (names.map Value.symbol), body]) out m' := by
  intro stands
  have described := describe_eq_place (s := m.store.make.2) stands.wellFormed.older walk
  refine concludes_form ((ofList_keyword _ _).trans (special_abstraction _ _ _)) ?_
  refine (Concludes.of_eq (y := Action.change Store.make) (by simp) rfl).bind (notes.concludes ?_)
  intro text
  rw [← described]
  rfl

private theorem Evaluated.sequence (last : EvaluatedLast m f .unit es out m') :
    Evaluated m f (.list i (keyword .sequence :: es)) out m' := fun stands =>
  concludes_form (ofList_keyword .sequence _) (last (stands.items.mono (List.subset_cons_self _ _)))

private theorem Evaluated.operandFails {head : Value} (hhead : ∀ form, head ≠ keyword form)
    (operator : Evaluated m f head (.ok v) n) (operands : EvaluatedEach n f es (.error failure) m') :
    Evaluated m f (.list i (head :: es)) (.error failure) m' := by
  refine operator.first List.mem_cons_self (ofList_application hhead _) (fun _ => rfl) fun later => ?_
  exact (operands (later.mono (by simp))).bind_error

private theorem Evaluated.application {head : Value} (hhead : ∀ form, head ≠ keyword form)
    (operator : Evaluated m f head (.ok v) n) (operands : EvaluatedEach n f es (.ok vs) n')
    (called : Called n' v vs out m') : Evaluated m f (.list i (head :: es)) out m' := by
  refine operator.first List.mem_cons_self (ofList_application hhead _) (fun _ => rfl) fun later => ?_
  have rest : Stands n f es := later.mono (by simp)
  have second := operands rest
  have kept := second.evalEach_kept rest.wellFormed rest.values rest.frame
  refine second.bind (called kept.wellFormed (List.forall_mem_cons.mpr ⟨?_, kept.result vs rfl⟩))
  exact (later.values v List.mem_cons_self).mono kept.grows.size

private theorem EvaluatedEach.fails (head : Evaluated m f e (.error failure) m') :
    EvaluatedEach m f (e :: es) (.error failure) m' := by
  intro stands
  simp only [List.mapM_cons]
  exact (head (stands.one List.mem_cons_self)).bind_error

private theorem EvaluatedEach.failsLater (head : Evaluated m f e (.ok v) n)
    (tail : EvaluatedEach n f es (.error failure) m') :
    EvaluatedEach m f (e :: es) (.error failure) m' := by
  intro stands
  obtain ⟨first, later⟩ := head.after stands List.mem_cons_self
  simp only [List.mapM_cons]
  exact first.bind (tail (later.mono (by simp))).bind_error

private theorem EvaluatedEach.cons (head : Evaluated m f e (.ok v) n)
    (tail : EvaluatedEach n f es (.ok vs) m') : EvaluatedEach m f (e :: es) (.ok (v :: vs)) m' := by
  intro stands
  obtain ⟨first, later⟩ := head.after stands List.mem_cons_self
  simp only [List.mapM_cons]
  exact first.bind ((tail (later.mono (by simp))).bind (.of_eq (by simp) rfl))

private theorem EvaluatedLast.fails {last : Value} (head : Evaluated m f e (.error failure) m') :
    EvaluatedLast m f last (e :: es) (.error failure) m' := by
  intro stands
  simp only [List.foldlM_cons]
  exact (head (stands.one List.mem_cons_self)).bind_error

private theorem EvaluatedLast.cons {last : Value} (head : Evaluated m f e (.ok v) n)
    (tail : EvaluatedLast n f v es out m') : EvaluatedLast m f last (e :: es) out m' := by
  intro stands
  obtain ⟨first, later⟩ := head.after stands List.mem_cons_self
  simp only [List.foldlM_cons]
  exact first.bind (tail (later.mono (by simp)))

end Rules

section CallRules

variable {m n m' : Machine} {i : Identity} {p : Primitive} {g v : Value}
  {args rows first vs : List Value} {others columns : List (List Value)}
  {out : Except Failure Value} {failure : Failure}

private theorem Called.procedureArity {params : List String} {body : Value} {frame : FrameId}
    (different : params.length ≠ args.length) : Called m (.procedure i params body frame) args
      (.error (.error (.arity "procedure" (.exactly params.length) args.length))) m := by
  refine fun _ _ => Concludes.succ ⟨by simp, 0, fun depth _ => ?_⟩
  simp only [call, Eval.application, Action.enter, different, if_false, Action.bind_apply,
    Action.raise, Action.fail]

private theorem Called.procedure {params : List String} {body : Value} {frame : FrameId}
    (same : params.length = args.length)
    (inside : Evaluated
      { m with store := (m.store.addFrame (.ofList (params.zip args)) (some frame)).2 }
      m.store.frames.size body out m') :
    Called m (.procedure i params body frame) args out m' := by
  intro hs hargs
  obtain ⟨hg, hargs⟩ := List.forall_mem_cons.mp hargs
  obtain ⟨wellFormed, hbody, new⟩ := wellFormed_enter hs hg hargs
  have entered := enter_of_length_eq m frame same
  refine Concludes.succ ((Concludes.of_eq (by simp) entered).bind (inside ⟨wellFormed, new, ?_⟩))
  exact List.forall_mem_singleton.mpr hbody

private theorem Called.primitiveArity (refused : p.arity.accepts args.length = false) :
    Called m (.primitive i p) args (.error (.error (.arity p.name p.arity args.length))) m := by
  refine fun _ _ => Concludes.succ ⟨by simp, 0, fun depth _ => ?_⟩
  simp only [call, Eval.application, refused]
  rfl

private theorem Called.misapplied (accepts : p.arity.accepts args.length = true)
    (h : (p.operation = .apply ∧ args.length ≠ 2) ∨ (p.operation = .map ∧ args.length < 2)) :
    Called m (.primitive i p) args (.error (.error (.arity p.name p.arity args.length))) m := by
  refine fun _ _ => concludes_primitive accepts ?_
  simp only [run_misapplied h]
  exact .of_eq (by simp) rfl

private theorem Called.applyRefused {a : Value} (accepts : p.arity.accepts 2 = true)
    (apply : p.operation = .apply) (hg : g.isProcedure = false) :
    Called m (.primitive i p) [g, a] (.error (complaint (.notProcedure p.name) g)) m := by
  refine fun _ _ => concludes_primitive accepts ?_
  simp only [run_apply apply]
  exact (procedure_concludes_complaint hg).bind_error

private theorem Called.applyUnlisted {a : Value} (accepts : p.arity.accepts 2 = true)
    (apply : p.operation = .apply) (hg : g.isProcedure = true) (ha : a.isList = false) :
    Called m (.primitive i p) [g, a] (.error (complaint (.notList p.name) a)) m := by
  refine fun _ _ => concludes_primitive accepts ?_
  simp only [run_apply apply, items_eq_complain _ _ ha]
  exact (procedure_concludes hg).bind (complain_concludes _ _ _).bind_error

private theorem Called.apply {j : Identity} {items : List Value} (accepts : p.arity.accepts 2 = true)
    (apply : p.operation = .apply) (hg : g.isProcedure = true) (called : Called m g items out m') :
    Called m (.primitive i p) [g, .list j items] out m' := by
  intro hs hargs
  have within : EachWithin m.store.frames.size items :=
    Value.within_list.mp (hargs (.list j items) (by simp))
  refine concludes_primitive accepts ?_
  simp only [run_apply apply]
  refine (procedure_concludes hg).bind ((Concludes.of_eq (by simp) rfl).bind (called hs ?_))
  exact List.forall_mem_cons.mpr ⟨hargs g (by simp), within⟩

private theorem Called.mapRefused (accepts : p.arity.accepts (rows.length + 1) = true)
    (map : p.operation = .map) (hr : rows ≠ []) (hg : g.isProcedure = false) :
    Called m (.primitive i p) (g :: rows) (.error (complaint (.notProcedure p.name) g)) m := by
  refine fun _ _ => concludes_primitive accepts ?_
  simp only [run_map map hr]
  exact (procedure_concludes_complaint hg).bind_error

private theorem Called.mapUnlisted {row : Value} {before after : List Value}
    {tables : List (List Value)}
    (accepts : p.arity.accepts ((before ++ row :: after).length + 1) = true)
    (map : p.operation = .map) (hg : g.isProcedure = true) (hrows : Rows before tables)
    (hrow : row.isList = false) : Called m (.primitive i p) (g :: (before ++ row :: after))
      (.error (complaint (.notList p.name) row)) m := by
  have some := List.append_ne_nil_of_right_ne_nil before (List.cons_ne_nil row after)
  refine fun _ _ => concludes_primitive accepts ?_
  simp only [run_map map some, Primitive.mapped, mapM_items_of_unlisted _ p.name hrows hrow]
  exact (procedure_concludes hg).bind (complain_concludes _ row m).bind_error

private theorem Called.mapUneven (accepts : p.arity.accepts (rows.length + 1) = true)
    (map : p.operation = .map) (hg : g.isProcedure = true) (hrows : Rows rows (first :: others))
    (uneven : ∃ row ∈ others, row.length ≠ first.length) :
    Called m (.primitive i p) (g :: rows) (.error (.error (.unevenLists p.name))) m := by
  have found : others.all (fun row => decide (row.length = first.length)) = false := by
    simpa using uneven
  refine fun _ _ => concludes_primitive accepts (mapped_concludes map hg hrows ?_)
  simp only [found]
  exact .of_eq (by simp) rfl

private theorem Called.mapped {outs : Except Failure (List Value)}
    (accepts : p.arity.accepts (rows.length + 1) = true) (map : p.operation = .map)
    (hg : g.isProcedure = true) (hrows : Rows rows (first :: others))
    (even : ∀ row ∈ others, row.length = first.length)
    (calls : CalledEach m g (BigStep.columns first.length (first :: others)) outs n)
    (next : Concludes (fun depth =>
        (BigStep.columns first.length (first :: others)).mapM (call depth g)) m outs n →
      Concludes (fun depth => do
        Action.newList (← (BigStep.columns first.length (first :: others)).mapM (call depth g)))
        m out m') :
    Called m (.primitive i p) (g :: rows) out m' := by
  intro hs hargs
  have found : others.all (fun row => decide (row.length = first.length)) = true := by
    simpa using even
  obtain ⟨-, hargs⟩ := List.forall_mem_cons.mp hargs
  have called := calls hs (hargs g List.mem_cons_self) (columns_within hargs hrows)
  refine concludes_primitive accepts (mapped_concludes map hg hrows ?_)
  simp only [found, if_true, columns_eq]
  exact next called

private theorem CalledEach.fails {rest : List (List Value)} (head : Called m g args (.error failure) m') :
    CalledEach m g (args :: rest) (.error failure) m' := by
  intro hs hg hargs
  simp only [List.mapM_cons]
  exact (head hs (List.forall_mem_cons.mpr ⟨hg, hargs _ List.mem_cons_self⟩)).bind_error

private theorem Called.after {rest : List (List Value)} (head : Called m g args (.ok v) n)
    (hs : m.store.WellFormed) (hg : g.Within m.store.frames.size)
    (hargs : ∀ row ∈ args :: rest, EachWithin m.store.frames.size row) :
    Concludes (fun depth => call depth g args) m (.ok v) n ∧ n.store.WellFormed ∧
      g.Within n.store.frames.size ∧ ∀ row ∈ rest, EachWithin n.store.frames.size row := by
  obtain ⟨hfirst, hrest⟩ := List.forall_mem_cons.mp hargs
  have first := head hs (List.forall_mem_cons.mpr ⟨hg, hfirst⟩)
  have kept := first.call_kept hs hg hfirst
  exact ⟨first, kept.wellFormed, hg.mono kept.grows.size,
    fun row hrow v hv => (hrest row hrow v hv).mono kept.grows.size⟩

private theorem CalledEach.failsLater {rest : List (List Value)} (head : Called m g args (.ok v) n)
    (tail : CalledEach n g rest (.error failure) m') :
    CalledEach m g (args :: rest) (.error failure) m' := by
  intro hs hg hargs
  obtain ⟨first, wellFormed, within, others⟩ := head.after hs hg hargs
  simp only [List.mapM_cons]
  exact first.bind (tail wellFormed within others).bind_error

private theorem CalledEach.cons {rest : List (List Value)} (head : Called m g args (.ok v) n)
    (tail : CalledEach n g rest (.ok vs) m') : CalledEach m g (args :: rest) (.ok (v :: vs)) m' := by
  intro hs hg hargs
  obtain ⟨first, wellFormed, within, others⟩ := head.after hs hg hargs
  simp only [List.mapM_cons]
  exact first.bind ((tail wellFormed within others).bind (.of_eq (by simp) rfl))

end CallRules

-- One case for each rule, settled by the lemma about that rule.
mutual

private theorem Evaluates.evaluated {m m' : Machine} {f : FrameId} {e : Value}
    {out : Except Failure Value} (h : Evaluates m f e out m') : Evaluated m f e out m' := by
  match h with
  | .bound found =>
    exact fun stands =>
      concludes_eval (.of_eq (by simp) (lookup_of_resolves stands.wellFormed.older found))
  | .unbound missing =>
    exact fun stands =>
      concludes_eval (.of_eq (by simp) (lookup_of_unresolved stands.wellFormed.older missing))
  | .itself notSymbol notList => exact .itself notSymbol notList
  | .nothing => exact fun _ => concludes_eval (.of_eq (by simp) rfl)
  | .misshapen hparts different =>
    exact .leaf (by simp) ((ofList_keyword _ _).trans (special_misshapen hparts different)) fun _ => rfl
  | .quote => exact .leaf (by simp) (ofList_keyword .quote _) fun _ => rfl
  | .testFails test =>
    exact test.evaluated.fails (by simp) (ofList_keyword .conditional _) fun _ => rfl
  | .conditional test branch => exact test.evaluated.conditional branch.evaluated
  | .unnamed hform hgot =>
    exact fun _ => concludes_form ((ofList_keyword _ _).trans (special_unnamed hform hgot _))
      (complain_concludes _ _ _)
  | .valueFails hform value => exact .valueFails hform value.evaluated
  | .assignmentUnbound value missing => exact value.evaluated.assignmentUnbound missing
  | .assignment value found notes => exact value.evaluated.assignment found notes
  | .definition value walk notes => exact value.evaluated.definition walk notes
  | .unparametrised hparams =>
    exact .leaf (by simp) ((ofList_keyword _ _).trans (special_unparametrised hparams _)) fun _ => rfl
  | .abstraction walk notes => exact .abstraction walk notes
  | .sequence last => exact .sequence last.evaluated
  | .operatorFails hhead operator =>
    exact operator.evaluated.fails List.mem_cons_self (ofList_application hhead _) fun _ => rfl
  | .operandFails hhead operator operands =>
    exact operator.evaluated.operandFails hhead operands.evaluated
  | .application hhead operator operands call =>
    exact operator.evaluated.application hhead operands.evaluated call.called

private theorem EvaluatesEach.evaluated {m m' : Machine} {f : FrameId} {es : List Value}
    {out : Except Failure (List Value)} (h : EvaluatesEach m f es out m') :
    EvaluatedEach m f es out m' := by
  match h with
  | .nil => exact fun _ => .of_eq (by simp) rfl
  | .fails head => exact .fails head.evaluated
  | .failsLater head tail => exact .failsLater head.evaluated tail.evaluated
  | .cons head tail => exact .cons head.evaluated tail.evaluated

private theorem EvaluatesLast.evaluated {m m' : Machine} {f : FrameId} {last : Value}
    {es : List Value} {out : Except Failure Value} (h : EvaluatesLast m f last es out m') :
    EvaluatedLast m f last es out m' := by
  match h with
  | .nil => exact fun _ => .of_eq (by simp) rfl
  | .fails head => exact .fails head.evaluated
  | .cons head tail => exact .cons head.evaluated tail.evaluated

private theorem Calls.called {m m' : Machine} {g : Value} {args : List Value}
    {out : Except Failure Value} (h : Calls m g args out m') : Called m g args out m' := by
  match h with
  | .refused hg => exact fun _ _ => refusal_concludes hg _ _
  | .procedureArity different => exact .procedureArity different
  | .procedure same body => exact .procedure same body.evaluated
  | .primitiveArity refused => exact .primitiveArity refused
  | .primitive accepts ha hm performs =>
    exact fun _ _ => concludes_primitive accepts (performs.concludes ha hm)
  | .misapplied accepts h => exact .misapplied accepts h
  | .applyRefused accepts apply hg => exact .applyRefused accepts apply hg
  | .applyUnlisted accepts apply hg ha => exact .applyUnlisted accepts apply hg ha
  | .apply accepts apply hg call => exact .apply accepts apply hg call.called
  | .mapRefused accepts map hr hg => exact .mapRefused accepts map hr hg
  | .mapUnlisted accepts map hg hrows hrow => exact .mapUnlisted accepts map hg hrows hrow
  | .mapUneven accepts map hg hrows uneven => exact .mapUneven accepts map hg hrows uneven
  | .mapFails accepts map hg hrows even calls =>
    exact .mapped accepts map hg hrows even calls.called fun called => called.bind_error
  | .map accepts map hg hrows even calls =>
    exact .mapped accepts map hg hrows even calls.called fun called =>
      called.bind (.of_eq (by simp) rfl)

private theorem CallsEach.called {m m' : Machine} {g : Value} {rows : List (List Value)}
    {out : Except Failure (List Value)} (h : CallsEach m g rows out m') :
    CalledEach m g rows out m' := by
  match h with
  | .nil => exact fun _ _ _ => .of_eq (by simp) rfl
  | .fails head => exact .fails head.called
  | .failsLater head tail => exact .failsLater head.called tail.called
  | .cons head tail => exact .cons head.called tail.called

end

/-- The evaluator gives what the rules derive. -/
theorem Evaluates.concludes {m m' : Machine} {f : FrameId} {e : Value} {out : Except Failure Value}
    (h : Evaluates m f e out m') (hs : m.store.WellFormed) (he : e.Within m.store.frames.size)
    (hf : f < m.store.frames.size) : Concludes (fun depth => eval depth e f) m out m' :=
  h.evaluated ⟨hs, hf, List.forall_mem_singleton.mpr he⟩

end BigStep

end SmallScheme
