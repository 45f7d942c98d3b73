import Mathlib.Tactic.FinCases
import SmallScheme.Proofs.Numeral
import SmallScheme.Proofs.Sequencing

/-!
Integer arithmetic from text to result. An expression is a tree over integer literals whose nodes are
sums, products and differences of any number of operands. Its text spells its datum, and the datum
evaluates to the integer that the tree stands for, whatever its size. Evaluation needs one level more
than there are lists nested in the text.
-/

set_option autoImplicit false
set_option relaxedAutoImplicit false

namespace SmallScheme

/-- The text of an integer: an optional sign and digits of any script, not more than may be read. -/
structure Literal where
  text : String
  negative : Bool
  digits : List Nat
  form : Datum.integerForm? text.toList = some (negative, digits)
  short : digits.length ≤ Number.digitLimit

namespace Literal

variable (l : Literal)

def value : Int :=
  Datum.signed l.negative (Text.positional l.digits)

private theorem ofWord_text : Datum.ofWord l.text = .ok (.number (.int l.value)) := by
  simp only [Datum.ofWord, l.form, Nat.not_lt.mpr l.short, if_false, value]

private theorem isWord_text : Token.IsWord l.text :=
  (Datum.integerForm?_eq_some_iff.mp l.form).isWord

end Literal

/-- An arithmetic expression over integer literals. -/
inductive Arithmetic where
  | literal (l : Literal)
  | sum (terms : List Arithmetic)
  | product (factors : List Arithmetic)
  /-- The first operand less the others, or its negative if there are none. -/
  | difference (first : Arithmetic) (others : List Arithmetic)

namespace Arithmetic

mutual

/-- The integer that an expression stands for. -/
def value : Arithmetic → Int
  | .literal l => l.value
  | .sum terms => (values terms).sum
  | .product factors => (values factors).prod
  | .difference first others =>
      if others.isEmpty then -value first else value first - (values others).sum

def values : List Arithmetic → List Int
  | [] => []
  | t :: rest => value t :: values rest

end

def applied (operator : String) (operands : List String) : String :=
  "(" ++ " ".intercalate (operator :: operands) ++ ")"

mutual

/-- The text of an expression. -/
def render : Arithmetic → String
  | .literal l => l.text
  | .sum terms => applied "+" (renders terms)
  | .product factors => applied "*" (renders factors)
  | .difference first others => applied "-" (render first :: renders others)

def renders : List Arithmetic → List String
  | [] => []
  | t :: rest => render t :: renders rest

end

mutual

/-- The datum that the text of an expression is read as. -/
def datum : Arithmetic → Datum
  | .literal l => .number (.int l.value)
  | .sum terms => .list (.symbol "+" :: data terms)
  | .product factors => .list (.symbol "*" :: data factors)
  | .difference first others => .list (.symbol "-" :: datum first :: data others)

def data : List Arithmetic → List Datum
  | [] => []
  | t :: rest => datum t :: data rest

end

private theorem operator_word {operator : String} (h : operator ∈ ["+", "*", "-"]) :
    Token.IsWord operator ∧ ∀ c ∈ operator.toList, Text.isDigit c = false := by
  have plain : ∀ operator ∈ ["+", "*", "-"],
      operator.toList.all (fun c => !Token.isDelimiter c && !Text.isDigit c) = true := by decide
  have each := plain operator h
  simp only [List.all_eq_true, Bool.and_eq_true, Bool.not_eq_true'] at each
  refine ⟨⟨?_, fun c hc => (each c hc).1⟩, fun c hc => (each c hc).2⟩
  rintro rfl
  simp at h

private theorem spells_applied {operator : String} (h : operator ∈ ["+", "*", "-"])
    {operands : List String} {ds : List Datum}
    (each : Datum.SpellsEach (operands.flatMap Token.tokenize) ds) :
    Datum.Spells (Token.tokenize (applied operator operands)) (.list (.symbol operator :: ds)) := by
  obtain ⟨word, digitless⟩ := operator_word h
  rw [applied, Token.tokenize_parenthesised, Token.tokenize_intercalate rfl (by decide),
    List.flatMap_cons, Token.tokenize_word word]
  exact .list (.cons (.atom (Datum.ofWord_of_digitless digitless)) each)

mutual

/-- The text of an expression spells its datum. -/
theorem spells_render (t : Arithmetic) : Datum.Spells (Token.tokenize t.render) t.datum := by
  match t with
  | .literal l =>
    rw [render, Token.tokenize_word l.isWord_text]
    exact .atom l.ofWord_text
  | .sum terms => exact spells_applied (by simp) (spellsEach_renders terms)
  | .product factors => exact spells_applied (by simp) (spellsEach_renders factors)
  | .difference first others =>
    refine spells_applied (by simp) ?_
    rw [List.flatMap_cons]
    exact .cons (spells_render first) (spellsEach_renders others)

private theorem spellsEach_renders (ts : List Arithmetic) :
    Datum.SpellsEach ((renders ts).flatMap Token.tokenize) (data ts) := by
  match ts with
  | [] => exact .nil
  | t :: ts =>
    rw [renders, List.flatMap_cons]
    exact .cons (spells_render t) (spellsEach_renders ts)

end

end Arithmetic

theorem Datum.parseMany_of_spells {text : String} {d : Datum}
    (h : Datum.Spells (Token.tokenize text) d) {depth : Nat} (fits : d.height ≤ depth) :
    Datum.parseMany depth text = .ok [d] := by
  have nonempty : Token.tokenize text ≠ [] := by
    intro empty
    rw [empty] at h
    cases h
  have read := Datum.next_of_spells h fits []
  rw [List.append_nil] at read
  rw [Datum.parseMany, Datum.readings_of_ne_nil depth nonempty, read, Datum.readings_nil]
  rfl

/-- The names of the standard primitives mean these primitives in the frame. -/
def Store.Standard (s : Store) (frame : FrameId) : Prop :=
  ∀ p ∈ Primitive.standard, ∃ i, s.lookup? frame p.name = some (.primitive i p)

private theorem Primitive.globals_get? (next : Nat) :
    ∀ p ∈ standard, ∃ i, (globals next).get? p.name = some (.primitive i p) := by
  intro p hp
  fin_cases hp <;> exact ⟨_, rfl⟩

theorem Store.standard_of_frames {s : Store} {frame next : Nat} {outer : Option FrameId}
    (h : s.frames[frame]? = some ⟨Primitive.globals next, outer⟩) : s.Standard frame := by
  intro p hp
  obtain ⟨i, bound⟩ := Primitive.globals_get? next p hp
  exact ⟨i, by rw [lookup?, owner?_here h bound, Option.bind_some, bindings_of_frames h, bound]⟩

namespace Primitive

/-- An exact operation on integers one after the other. -/
theorem foldlM_mixed (onInts : Int → Int → Int) (onFloats : Binary64 → Binary64 → Binary64)
    (start : Int) (ns : List Int) :
    (ns.map Number.int).foldlM (Number.mixed onInts onFloats) (.int start) =
      .ok (.int (ns.foldl onInts start)) := by
  induction ns generalizing start with
  | nil => rfl
  | cons n ns ih => exact ih (onInts start n)

private theorem sum_ints (ns : List Int) : sum (ns.map Number.int) = .ok (.int ns.sum) := by
  have folded := foldlM_mixed (· + ·) Binary64.add 0 ns
  rw [← List.sum_eq_foldl] at folded
  simp only [sum, Number.add, folded]
  rfl

private theorem product_ints (ns : List Int) :
    product (ns.map Number.int) = .ok (.int ns.prod) := by
  have folded := foldlM_mixed (· * ·) Binary64.mul 1 ns
  rw [← List.prod_eq_foldl] at folded
  simp only [product, Number.mul, folded]
  rfl

private theorem difference_ints (n : Int) (ns : List Int) :
    difference (.int n) (ns.map Number.int) =
      .ok (.int (if ns.isEmpty then -n else n - ns.sum)) := by
  have folded := foldlM_mixed (· - ·) Binary64.sub n ns
  have total : ns.foldl (· - ·) n = n - ns.sum := by
    clear folded
    induction ns generalizing n with
    | nil => simp
    | cons k ns ih => rw [List.foldl_cons, ih, List.sum_cons, Int.sub_sub]
  simp only [difference, Number.sub, folded, total, List.isEmpty_map]
  split <;> rfl

private theorem numbers_ints (room : Nat) (callee : String) (ns : List Int) :
    numbers room callee (ns.map fun n => .number (.int n)) = .ok (ns.map Number.int) := by
  induction ns with
  | nil => rfl
  | cons n ns ih =>
    rw [numbers] at ih
    rw [numbers, List.map_cons, List.mapM_cons, ih]
    rfl

section Run

variable (room : Nat) (call : Value → List Value → Action Value) {p : Primitive}

private theorem run_add_ints (h : p.operation = .add) (ns : List Int) :
    p.run room call (ns.map fun n => .number (.int n)) =
      Action.lift (.ok (.number (.int ns.sum))) := by
  simp only [run, h, numbers_ints, bind, Except.bind, sum_ints, numeric]

private theorem run_multiply_ints (h : p.operation = .multiply) (ns : List Int) :
    p.run room call (ns.map fun n => .number (.int n)) =
      Action.lift (.ok (.number (.int ns.prod))) := by
  simp only [run, h, numbers_ints, bind, Except.bind, product_ints, numeric]

private theorem run_subtract_ints (h : p.operation = .subtract) (n : Int) (ns : List Int) :
    p.run room call ((n :: ns).map fun n => .number (.int n)) =
      Action.lift (.ok (.number (.int (if ns.isEmpty then -n else n - ns.sum)))) := by
  simp only [run, h, List.map_cons, number, numbers_ints, bind, Except.bind, difference_ints, numeric]

end Run

end Primitive

namespace Arithmetic

variable {depth : Nat} {frame : FrameId} {m : Machine}

private theorem eval_applied {p : Primitive} (standard : p ∈ Primitive.standard)
    (plain : SpecialForm.ofKeyword? p.name = none) (env : m.store.Standard frame) (i : Identity)
    {es vs : List Value} (operands : es.mapM (eval (depth + 1) · frame) m = (.ok vs, m))
    (accepted : p.arity.accepts vs.length = true) :
    eval (depth + 2) (.list i (.symbol p.name :: es)) frame m = p.run depth (call depth) vs m := by
  obtain ⟨j, bound⟩ := env p standard
  have form : Form.ofList (.symbol p.name) es = .application (.symbol p.name) es := by
    simp only [Form.ofList, Value.symbol?, Option.bind_some, plain]
  have operator : eval (depth + 1) (.symbol p.name) frame m = (.ok (.primitive j p), m) := by
    simp only [eval, Eval.expression, Action.lookup, Action.view, Action.bind_apply, bound]
    rfl
  have called : call (depth + 1) (.primitive j p) vs = p.run depth (call depth) vs := by
    simp only [call, Eval.application, accepted, if_true]
  rw [eval, Eval.expression, form]
  simp only [Eval.form, Action.bind_apply, operator, operands, called]

/-- The data evaluate to the integers one after the other, on every level above their nesting. -/
def Evaluates (frame : FrameId) (m : Machine) (ds : List Datum) (ns : List Int) : Prop :=
  ∀ depth next, Datum.heights ds < depth →
    (Value.ofData next ds).1.mapM (eval depth · frame) m =
      (.ok (ns.map fun n => .number (.int n)), m)

private theorem Evaluates.nil : Evaluates frame m [] [] :=
  fun _ _ _ => rfl

private theorem Evaluates.cons {d : Datum} {ds : List Datum} {n : Int} {ns : List Int}
    (first : ∀ depth next, d.height < depth →
      eval depth (Value.ofDatum next d).1 frame m = (.ok (.number (.int n)), m))
    (others : Evaluates frame m ds ns) : Evaluates frame m (d :: ds) (n :: ns) := by
  intro depth next deep
  have both : d.height < depth ∧ Datum.heights ds < depth := by
    simpa only [Datum.heights, Nat.max_lt] using deep
  simp only [Value.ofData, List.mapM_cons, Action.bind_apply, first depth next both.1,
    others depth _ both.2]
  rfl

private theorem eval_operation {p : Primitive} (standard : p ∈ Primitive.standard)
    (plain : SpecialForm.ofKeyword? p.name = none) (env : m.store.Standard frame)
    {ds : List Datum} {ns : List Int} {n : Int} (operands : Evaluates frame m ds ns)
    (accepted : p.arity.accepts ns.length = true)
    (result : ∀ room call, p.run room call (ns.map fun n => .number (.int n)) =
      Action.lift (.ok (.number (.int n))))
    (deep : (Datum.list (.symbol p.name :: ds)).height < depth) (next : Nat) :
    eval depth (Value.ofDatum next (.list (.symbol p.name :: ds))).1 frame m =
      (.ok (.number (.int n)), m) := by
  obtain ⟨depth, rfl⟩ : ∃ inner, depth = inner + 2 :=
    Nat.exists_eq_add_of_le' (by simp only [Datum.height] at deep; omega)
  have inner : Datum.heights ds < depth + 1 := by
    simp only [Datum.height, Datum.heights, Nat.zero_max] at deep
    omega
  have evaluated := eval_applied standard plain env (.written next)
    (operands (depth + 1) (next + 1) inner) (by rwa [List.length_map])
  rw [result] at evaluated
  exact evaluated

mutual

/-- The datum of an expression evaluates to the integer that the expression stands for. -/
theorem eval_datum (t : Arithmetic) (env : m.store.Standard frame) (depth next : Nat)
    (deep : t.datum.height < depth) :
    eval depth (Value.ofDatum next t.datum).1 frame m = (.ok (.number (.int t.value)), m) := by
  match t with
  | .literal l =>
    obtain ⟨depth, rfl⟩ := Nat.exists_eq_add_of_lt deep
    rfl
  | .sum terms =>
    exact eval_operation (p := ⟨"+", .add, .atLeast 0⟩) (by simp [Primitive.standard]) rfl env
      (evaluates_data terms env) (by simp [Arity.accepts, Arity.atLeast])
      (fun room call => Primitive.run_add_ints room call rfl _) deep next
  | .product factors =>
    exact eval_operation (p := ⟨"*", .multiply, .atLeast 0⟩) (by simp [Primitive.standard]) rfl env
      (evaluates_data factors env) (by simp [Arity.accepts, Arity.atLeast])
      (fun room call => Primitive.run_multiply_ints room call rfl _) deep next
  | .difference first others =>
    have result (room : Nat) (call : Value → List Value → Action Value) :=
      Primitive.run_subtract_ints room call (p := ⟨"-", .subtract, .atLeast 1⟩) rfl first.value
        (values others)
    have empty : (values others).isEmpty = others.isEmpty := by cases others <;> rfl
    rw [empty] at result
    exact eval_operation (p := ⟨"-", .subtract, .atLeast 1⟩) (by simp [Primitive.standard]) rfl env
      (.cons (eval_datum first env) (evaluates_data others env))
      (by simp [Arity.accepts, Arity.atLeast]) result deep next

private theorem evaluates_data (ts : List Arithmetic) (env : m.store.Standard frame) :
    Evaluates frame m (data ts) (values ts) := by
  match ts with
  | [] => exact .nil
  | t :: ts => exact .cons (eval_datum t env) (evaluates_data ts env)

end

/-- Running the text of an expression in a new global frame gives the integer that the expression
stands for, with a level more than there are lists nested in the text. -/
theorem run_render (t : Arithmetic) (depth : Nat) (deep : t.datum.height < depth) (m : Machine) :
    ((do
      let frame ← Action.newGlobals
      Program.run depth frame t.render) m).1 = .ok (.number (.int t.value)) := by
  have parsed := Datum.parseMany_of_spells t.spells_render (Nat.le_of_lt deep)
  let frame := m.store.frames.size
  let made : Machine := { m with store :=
    ({ m.store with made := m.store.made + Primitive.standard.length }.addFrame
      (Primitive.globals m.store.made) none).2 }
  let read : Machine := made.counting (Value.ofDatum made.store.written t.datum).2
  have env : read.store.Standard frame :=
    Store.standard_of_frames (Store.frames_addFrame_new m.store (Primitive.globals m.store.made) none)
  have evaluated : Program.evalDatum depth frame t.datum made = (.ok (.number (.int t.value)), read) :=
    eval_datum t env depth made.store.written deep
  have ran : Program.run depth frame t.render made = Program.evalDatum depth frame t.datum made := by
    simp only [Program.run_of_parseMany parsed, List.foldlM_cons, List.foldlM_nil, bind_pure]
  calc ((do
      let frame ← Action.newGlobals
      Program.run depth frame t.render) m).1
      = (Program.run depth frame t.render made).1 := rfl
    _ = .ok (.number (.int t.value)) := by rw [ran, evaluated]

/-- Twenty digits, both signs, a digit of another script, and operations with none, one and more
operands. -/
theorem run_render_nested :
    let t : Arithmetic := .difference
      (.product [.literal ⟨"-99999999999999999999", true, List.replicate 20 9, by decide, by decide⟩,
        .literal ⟨"+12", false, [1, 2], by decide, by decide⟩, .product []])
      [.sum [], .difference (.literal ⟨"٧", false, [7], by decide, by decide⟩) []]
    t.render = "(- (* -99999999999999999999 +12 (*)) (+) (- ٧))" ∧ t.datum.height < 4 ∧
      ((do
        let frame ← Action.newGlobals
        Program.run 4 frame t.render) (Machine.start 30)).1 =
          .ok (.number (.int (-1199999999999999999981))) := by
  intro t
  have deep : t.datum.height < 4 := by decide
  exact ⟨by decide +kernel, deep, run_render t 4 deep (Machine.start 30)⟩

end Arithmetic

end SmallScheme
