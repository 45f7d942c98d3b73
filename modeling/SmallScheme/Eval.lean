import SmallScheme.Primitive.Run
import SmallScheme.SpecialForm

/-!
The evaluator. An expression is evaluated in a frame, a procedure is called with arguments, and each of
the two uses the other. Both take the number of levels that they may still nest, and fail when
it is used up; one level of each is a definition of its own, over the evaluator of the next level.
-/

set_option autoImplicit false
set_option relaxedAutoImplicit false

namespace SmallScheme

/-- What a list expression asks for. -/
inductive Form where
  | quote (datum : Value)
  | conditional (test consequent alternative : Value)
  | assignment (name : String) (expression : Value)
  | definition (name : String) (expression : Value)
  | abstraction (params : List String) (body : Value)
  | sequence (expressions : List Value)
  | application (operator : Value) (operands : List Value)
  /-- A special form with the wrong number of parts. -/
  | misshapen (form : SpecialForm)
  /-- A special form with another value in place of a name. -/
  | unnamed (form : SpecialForm) (got : Value)
  /-- An abstraction whose parameters are not a list of symbols. -/
  | unparametrised

namespace Form

def params? : Value → Option (List String)
  | .list _ items => items.mapM Value.symbol?
  | _ => none

def special : SpecialForm → List Value → Form
  | .quote, [datum] => .quote datum
  | .conditional, [test, consequent, alternative] => .conditional test consequent alternative
  | .assignment, [.symbol name, expression] => .assignment name expression
  | .assignment, [got, _] => .unnamed .assignment got
  | .definition, [.symbol name, expression] => .definition name expression
  | .definition, [got, _] => .unnamed .definition got
  | .abstraction, [params, body] =>
      match params? params with
      | some params => .abstraction params body
      | none => .unparametrised
  | .sequence, expressions => .sequence expressions
  | form, _ => .misshapen form

def ofList (head : Value) (rest : List Value) : Form :=
  match head.symbol?.bind SpecialForm.ofKeyword? with
  | some form => special form rest
  | none => .application head rest

end Form

namespace Eval

/-- Evaluate one expression after the other; the last result counts, and no expression gives unit. -/
def inOrder (eval : Value → FrameId → Action Value) (expressions : List Value)
    (frame : FrameId) : Action Value :=
  expressions.foldlM (fun _ e => eval e frame) .unit

/-- Evaluate a form, given the evaluator and the caller of the next level. -/
def form (room : Nat) (eval : Value → FrameId → Action Value)
    (call : Value → List Value → Action Value) (frame : FrameId) : Form → Action Value
  | .quote datum => return datum
  | .conditional test consequent alternative => do
      if (← eval test frame).isTrue then eval consequent frame else eval alternative frame
  | .assignment name expression => do
      let value ← eval expression frame
      Action.assign frame name value
      let text ← Action.lift (value.literal room)
      Action.report .debug s!"set! {name} = {text}"
      return .unit
  | .definition name expression => do
      let value ← eval expression frame
      Action.define frame name value
      let text ← Action.lift (value.literal room)
      let place ← Action.view (·.describe frame)
      Action.report .debug s!"define {name} = {text} in {place}"
      return .unit
  | .abstraction params body => do
      let identity ← Action.change Store.make
      let value := Value.procedure identity params body frame
      let text ← Action.lift (value.literal room)
      let place ← Action.view (·.describe frame)
      Action.report .debug s!"lambda {text} in {place}"
      return value
  | .sequence expressions => inOrder eval expressions frame
  | .application operator operands => do
      let f ← eval operator frame
      let args ← operands.mapM (eval · frame)
      call f args
  | .misshapen form => Action.raise (.formShape form)
  | .unnamed form got => Action.lift (Primitive.complain room (.formSymbol form) got)
  | .unparametrised => Action.raise .parameters

/-- One level of evaluation. Symbols are looked up, lists are forms, and every other value stands for
itself. -/
def expression (room : Nat) (eval : Value → FrameId → Action Value)
    (call : Value → List Value → Action Value) (e : Value) (frame : FrameId) : Action Value :=
  match e with
  | .symbol name => Action.lookup frame name
  | .list _ [] => Action.raise (.notApplicable "()" (Text.Quoted.quote "()"))
  | .list _ (head :: rest) => form room eval call frame (Form.ofList head rest)
  | value => return value

def application (room : Nat) (eval : Value → FrameId → Action Value)
    (call : Value → List Value → Action Value) (f : Value) (args : List Value) : Action Value :=
  match f with
  | .procedure _ params body frame => do
      let inner ← Action.enter params args (some frame)
      eval body inner
  | .primitive _ p =>
      if p.arity.accepts args.length then p.run room call args
      else Action.raise (.arity p.name p.arity args.length)
  | value => do
      let text ← Action.lift (value.shown room)
      let literal ← Action.lift (value.literal room)
      Action.raise (.notApplicable text literal)

end Eval

mutual

/-- Evaluate an expression in a frame, nesting at most so many levels. -/
def eval : Nat → Value → FrameId → Action Value
  | 0, _, _ => Action.fail .depthExhausted
  | depth + 1, e, frame => Eval.expression depth (eval depth) (call depth) e frame

/-- Call a value with arguments, nesting at most so many levels. -/
def call : Nat → Value → List Value → Action Value
  | 0, _, _ => Action.fail .depthExhausted
  | depth + 1, f, args => Eval.application depth (eval depth) (call depth) f args

end

end SmallScheme
