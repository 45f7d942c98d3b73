import SmallScheme.Proofs.Scope
import SmallScheme.Proofs.Spelling

/-!
The rules of evaluation. A judgement says with which outcome, and with which machine, an expression is
evaluated in a frame or a value is called with arguments. There is no bound on nesting: what has a
derivation ends. A part that fails ends the whole with that failure and the machine reached so
far. The text of a value in a message is a step that can fail, if an integer in it has too many
digits.
-/

set_option autoImplicit false
set_option relaxedAutoImplicit false

namespace SmallScheme.BigStep

def keyword (form : SpecialForm) : Value :=
  .symbol form.keyword

def parts : SpecialForm → Option Nat
  | .quote => some 1
  | .conditional => some 3
  | .assignment => some 2
  | .definition => some 2
  | .abstraction => some 2
  | .sequence => none

/-- The failure with an error about a value: that error, or the failure of writing the value. -/
def complaint (e : String → Error) (v : Value) : Failure :=
  match v.spelling .literal with
  | .ok text => .error (e text)
  | .error failure => failure

/-- The failure of calling what is no procedure. The message names a symbol by its bare name. -/
def refusal (f : Value) : Failure :=
  complaint (fun text => .notApplicable (f.symbol?.getD text) text) f

/-- A debug report about a value, which then gives the result; the value may fail to be written. -/
inductive Notes (v : Value) (message : String → String) (result : Value) (m : Machine) :
    Except Failure Value → Machine → Prop
  | written {text : String} : v.spelling .literal = .ok text →
      Notes v message result m (.ok result)
        { m with journal := m.journal.add ⟨.debug, message text⟩ }
  | unwritten {failure : Failure} : v.spelling .literal = .error failure →
      Notes v message result m (.error failure) m

/-- What a primitive that calls nothing does, with room for the values that it compares or shows. -/
def Performs (p : Primitive) (args : List Value) (m : Machine) (out : Except Failure Value)
    (m' : Machine) : Prop :=
  out ≠ .error .depthExhausted ∧
    ∃ room, p.run room (fun _ _ => Action.fail .depthExhausted) args m = (out, m')

/-- The values are lists with the given items. -/
def Rows (rows : List Value) (tables : List (List Value)) : Prop :=
  List.Forall₂ (fun row items => ∃ i, row = .list i items) rows tables

def columns (length : Nat) (tables : List (List Value)) : List (List Value) :=
  (List.range length).map fun n => tables.filterMap (·[n]?)

/-- A text that shows a frame: how many frames are around it on the way outwards, and how many names
it binds. -/
def place (s : Store) (f : FrameId) (path : List FrameId) : String :=
  s!"<Env depth={path.length - 1} names={(s.bindings f).length}>"

mutual

/-- `Evaluates m f e out m'`: on the machine `m`, the expression `e` in the frame `f` has the outcome
`out` and leaves the machine `m'`. -/
inductive Evaluates : Machine → FrameId → Value → Except Failure Value → Machine → Prop
  | bound {m : Machine} {f owner : FrameId} {name : String} {v : Value} :
      m.store.Resolves name f owner v → Evaluates m f (.symbol name) (.ok v) m
  | unbound {m : Machine} {f : FrameId} {name : String} : m.store.Unresolved name f →
      Evaluates m f (.symbol name) (.error (.error (.unbound name))) m
  | itself {m : Machine} {f : FrameId} {e : Value} : e.isSymbol = false → e.isList = false →
      Evaluates m f e (.ok e) m
  | nothing {m : Machine} {f : FrameId} {i : Identity} :
      Evaluates m f (.list i []) (.error (.error (.notApplicable "()" "'()'"))) m
  /-- The number of parts is checked before any is evaluated. -/
  | misshapen {m : Machine} {f : FrameId} {i : Identity} {form : SpecialForm} {rest : List Value}
      {n : Nat} : parts form = some n → rest.length ≠ n →
      Evaluates m f (.list i (keyword form :: rest)) (.error (.error (.formShape form))) m
  | quote {m : Machine} {f : FrameId} {i : Identity} {d : Value} :
      Evaluates m f (.list i [keyword .quote, d]) (.ok d) m
  | testFails {m m' : Machine} {f : FrameId} {i : Identity} {test a b : Value} {failure : Failure} :
      Evaluates m f test (.error failure) m' →
      Evaluates m f (.list i [keyword .conditional, test, a, b]) (.error failure) m'
  | conditional {m n m' : Machine} {f : FrameId} {i : Identity} {test a b v : Value}
      {out : Except Failure Value} : Evaluates m f test (.ok v) n →
      Evaluates n f (if v.isTrue then a else b) out m' →
      Evaluates m f (.list i [keyword .conditional, test, a, b]) out m'
  | unnamed {m : Machine} {f : FrameId} {i : Identity} {form : SpecialForm} {got e : Value} :
      form = .assignment ∨ form = .definition → got.isSymbol = false →
      Evaluates m f (.list i [keyword form, got, e]) (.error (complaint (.formSymbol form) got)) m
  | valueFails {m m' : Machine} {f : FrameId} {i : Identity} {form : SpecialForm} {name : String}
      {e : Value} {failure : Failure} : form = .assignment ∨ form = .definition →
      Evaluates m f e (.error failure) m' →
      Evaluates m f (.list i [keyword form, .symbol name, e]) (.error failure) m'
  | assignmentUnbound {m n : Machine} {f : FrameId} {i : Identity} {name : String} {e v : Value} :
      Evaluates m f e (.ok v) n → n.store.Unresolved name f →
      Evaluates m f (.list i [keyword .assignment, .symbol name, e])
        (.error (.error (.unbound name))) n
  /-- The binding is changed first; that the value cannot be written comes too late for it. -/
  | assignment {m n m' : Machine} {f owner : FrameId} {i : Identity} {name : String}
      {e v old : Value} {out : Except Failure Value} : Evaluates m f e (.ok v) n →
      n.store.Resolves name f owner old →
      Notes v (fun text => s!"set! {name} = {text}") .unit
        { n with store := n.store.define owner name v } out m' →
      Evaluates m f (.list i [keyword .assignment, .symbol name, e]) out m'
  | definition {m n m' : Machine} {f : FrameId} {i : Identity} {name : String} {e v : Value}
      {path : List FrameId} {out : Except Failure Value} : Evaluates m f e (.ok v) n →
      (n.store.define f name v).Walk f path →
      Notes v (fun text => s!"define {name} = {text} in {place (n.store.define f name v) f path}")
        .unit { n with store := n.store.define f name v } out m' →
      Evaluates m f (.list i [keyword .definition, .symbol name, e]) out m'
  | unparametrised {m : Machine} {f : FrameId} {i : Identity} {params body : Value} :
      (∀ j names, params ≠ .list j (List.map Value.symbol names)) →
      Evaluates m f (.list i [keyword .abstraction, params, body]) (.error (.error .parameters)) m
  | abstraction {m m' : Machine} {f : FrameId} {i j : Identity} {names : List String} {body : Value}
      {path : List FrameId} {out : Except Failure Value} : m.store.make.2.Walk f path →
      Notes (.procedure m.store.make.1 names body f)
        (fun text => s!"lambda {text} in {place m.store.make.2 f path}")
        (.procedure m.store.make.1 names body f) { m with store := m.store.make.2 } out m' →
      Evaluates m f (.list i [keyword .abstraction, .list j (names.map Value.symbol), body]) out m'
  | sequence {m m' : Machine} {f : FrameId} {i : Identity} {es : List Value}
      {out : Except Failure Value} : EvaluatesLast m f .unit es out m' →
      Evaluates m f (.list i (keyword .sequence :: es)) out m'
  | operatorFails {m m' : Machine} {f : FrameId} {i : Identity} {head : Value} {rest : List Value}
      {failure : Failure} : (∀ form, head ≠ keyword form) → Evaluates m f head (.error failure) m' →
      Evaluates m f (.list i (head :: rest)) (.error failure) m'
  | operandFails {m n m' : Machine} {f : FrameId} {i : Identity} {head v : Value}
      {rest : List Value} {failure : Failure} : (∀ form, head ≠ keyword form) →
      Evaluates m f head (.ok v) n → EvaluatesEach n f rest (.error failure) m' →
      Evaluates m f (.list i (head :: rest)) (.error failure) m'
  | application {m n n' m' : Machine} {f : FrameId} {i : Identity} {head v : Value}
      {rest args : List Value} {out : Except Failure Value} : (∀ form, head ≠ keyword form) →
      Evaluates m f head (.ok v) n → EvaluatesEach n f rest (.ok args) n' →
      Calls n' v args out m' → Evaluates m f (.list i (head :: rest)) out m'

/-- The expressions are evaluated from left to right, and the results are kept. -/
inductive EvaluatesEach :
    Machine → FrameId → List Value → Except Failure (List Value) → Machine → Prop
  | nil {m : Machine} {f : FrameId} : EvaluatesEach m f [] (.ok []) m
  | fails {m m' : Machine} {f : FrameId} {e : Value} {es : List Value} {failure : Failure} :
      Evaluates m f e (.error failure) m' → EvaluatesEach m f (e :: es) (.error failure) m'
  | failsLater {m n m' : Machine} {f : FrameId} {e v : Value} {es : List Value} {failure : Failure} :
      Evaluates m f e (.ok v) n → EvaluatesEach n f es (.error failure) m' →
      EvaluatesEach m f (e :: es) (.error failure) m'
  | cons {m n m' : Machine} {f : FrameId} {e v : Value} {es vs : List Value} :
      Evaluates m f e (.ok v) n → EvaluatesEach n f es (.ok vs) m' →
      EvaluatesEach m f (e :: es) (.ok (v :: vs)) m'

/-- The expressions are evaluated from left to right, and the last result is kept; without any, the
given value. -/
inductive EvaluatesLast :
    Machine → FrameId → Value → List Value → Except Failure Value → Machine → Prop
  | nil {m : Machine} {f : FrameId} {last : Value} : EvaluatesLast m f last [] (.ok last) m
  | fails {m m' : Machine} {f : FrameId} {last e : Value} {es : List Value} {failure : Failure} :
      Evaluates m f e (.error failure) m' → EvaluatesLast m f last (e :: es) (.error failure) m'
  | cons {m n m' : Machine} {f : FrameId} {last e v : Value} {es : List Value}
      {out : Except Failure Value} : Evaluates m f e (.ok v) n → EvaluatesLast n f v es out m' →
      EvaluatesLast m f last (e :: es) out m'

/-- `Calls m f args out m'`: on the machine `m`, the call of `f` with the arguments has the outcome
`out` and leaves the machine `m'`. -/
inductive Calls : Machine → Value → List Value → Except Failure Value → Machine → Prop
  | refused {m : Machine} {f : Value} {args : List Value} : f.isProcedure = false →
      Calls m f args (.error (refusal f)) m
  | procedureArity {m : Machine} {i : Identity} {params : List String} {body : Value}
      {frame : FrameId} {args : List Value} : params.length ≠ args.length →
      Calls m (.procedure i params body frame) args
        (.error (.error (.arity "procedure" (.exactly params.length) args.length))) m
  /-- The body is evaluated in a new frame inside the one that the procedure captured. -/
  | procedure {m m' : Machine} {i : Identity} {params : List String} {body : Value}
      {frame : FrameId} {args : List Value} {out : Except Failure Value} :
      params.length = args.length →
      Evaluates
        { m with store := (m.store.addFrame (.ofList (params.zip args)) (some frame)).2 }
        m.store.frames.size body out m' →
      Calls m (.procedure i params body frame) args out m'
  | primitiveArity {m : Machine} {i : Identity} {p : Primitive} {args : List Value} :
      p.arity.accepts args.length = false →
      Calls m (.primitive i p) args (.error (.error (.arity p.name p.arity args.length))) m
  | primitive {m m' : Machine} {i : Identity} {p : Primitive} {args : List Value}
      {out : Except Failure Value} : p.arity.accepts args.length = true → p.operation ≠ .apply →
      p.operation ≠ .map → Performs p args m out m' → Calls m (.primitive i p) args out m'
  /-- A primitive that calls needs arguments of its own, whatever number it says it accepts. -/
  | misapplied {m : Machine} {i : Identity} {p : Primitive} {args : List Value} :
      p.arity.accepts args.length = true →
      (p.operation = .apply ∧ args.length ≠ 2) ∨ (p.operation = .map ∧ args.length < 2) →
      Calls m (.primitive i p) args (.error (.error (.arity p.name p.arity args.length))) m
  | applyRefused {m : Machine} {i : Identity} {p : Primitive} {g a : Value} :
      p.arity.accepts 2 = true → p.operation = .apply → g.isProcedure = false →
      Calls m (.primitive i p) [g, a] (.error (complaint (.notProcedure p.name) g)) m
  | applyUnlisted {m : Machine} {i : Identity} {p : Primitive} {g a : Value} :
      p.arity.accepts 2 = true → p.operation = .apply → g.isProcedure = true → a.isList = false →
      Calls m (.primitive i p) [g, a] (.error (complaint (.notList p.name) a)) m
  | apply {m m' : Machine} {i j : Identity} {p : Primitive} {g : Value} {items : List Value}
      {out : Except Failure Value} : p.arity.accepts 2 = true → p.operation = .apply →
      g.isProcedure = true → Calls m g items out m' →
      Calls m (.primitive i p) [g, .list j items] out m'
  | mapRefused {m : Machine} {i : Identity} {p : Primitive} {g : Value} {rows : List Value} :
      p.arity.accepts (rows.length + 1) = true → p.operation = .map → rows ≠ [] →
      g.isProcedure = false →
      Calls m (.primitive i p) (g :: rows) (.error (complaint (.notProcedure p.name) g)) m
  | mapUnlisted {m : Machine} {i : Identity} {p : Primitive} {g row : Value}
      {before after : List Value} {tables : List (List Value)} :
      p.arity.accepts ((before ++ row :: after).length + 1) = true → p.operation = .map →
      g.isProcedure = true → Rows before tables → row.isList = false →
      Calls m (.primitive i p) (g :: (before ++ row :: after))
        (.error (complaint (.notList p.name) row)) m
  | mapUneven {m : Machine} {i : Identity} {p : Primitive} {g : Value} {rows first : List Value}
      {others : List (List Value)} : p.arity.accepts (rows.length + 1) = true → p.operation = .map →
      g.isProcedure = true → Rows rows (first :: others) →
      (∃ row ∈ others, row.length ≠ first.length) →
      Calls m (.primitive i p) (g :: rows) (.error (.error (.unevenLists p.name))) m
  | mapFails {m m' : Machine} {i : Identity} {p : Primitive} {g : Value} {rows first : List Value}
      {others : List (List Value)} {failure : Failure} :
      p.arity.accepts (rows.length + 1) = true → p.operation = .map → g.isProcedure = true →
      Rows rows (first :: others) → (∀ row ∈ others, row.length = first.length) →
      CallsEach m g (columns first.length (first :: others)) (.error failure) m' →
      Calls m (.primitive i p) (g :: rows) (.error failure) m'
  | map {m n : Machine} {i : Identity} {p : Primitive} {g : Value} {rows first vs : List Value}
      {others : List (List Value)} : p.arity.accepts (rows.length + 1) = true →
      p.operation = .map → g.isProcedure = true → Rows rows (first :: others) →
      (∀ row ∈ others, row.length = first.length) →
      CallsEach m g (columns first.length (first :: others)) (.ok vs) n →
      Calls m (.primitive i p) (g :: rows) (.ok (.list n.store.make.1 vs))
        { n with store := n.store.make.2 }

/-- The value is called with one list of arguments after the other, and the results are kept. -/
inductive CallsEach :
    Machine → Value → List (List Value) → Except Failure (List Value) → Machine → Prop
  | nil {m : Machine} {f : Value} : CallsEach m f [] (.ok []) m
  | fails {m m' : Machine} {f : Value} {args : List Value} {rest : List (List Value)}
      {failure : Failure} : Calls m f args (.error failure) m' →
      CallsEach m f (args :: rest) (.error failure) m'
  | failsLater {m n m' : Machine} {f v : Value} {args : List Value} {rest : List (List Value)}
      {failure : Failure} : Calls m f args (.ok v) n → CallsEach n f rest (.error failure) m' →
      CallsEach m f (args :: rest) (.error failure) m'
  | cons {m n m' : Machine} {f v : Value} {args vs : List Value} {rest : List (List Value)} :
      Calls m f args (.ok v) n → CallsEach n f rest (.ok vs) m' →
      CallsEach m f (args :: rest) (.ok (v :: vs)) m'

end

end SmallScheme.BigStep
