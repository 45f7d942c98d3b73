import SmallScheme.Arity
import SmallScheme.Number
import SmallScheme.SpecialForm

/-!
Failures. An error is a fault of a program: it ends the form it occurs in, and the forms after it can
still run. Every other failure ends the whole run.
-/

set_option autoImplicit false
set_option relaxedAutoImplicit false

namespace SmallScheme

/-- A fault of a program. Offending values are given by their literal text. -/
inductive Error where
  | endOfInput (insideList : Bool)
  | unmatchedClose
  | trailingToken (token : String)
  | unbound (name : String)
  | arity (callee : String) (expected : Arity) (received : Nat)
  /-- A value in operator position, shown and in literal form. -/
  | notApplicable (shown literal : String)
  | formShape (form : SpecialForm)
  | formSymbol (form : SpecialForm) (got : String)
  | parameters
  | emptyList (callee : String)
  | notNumber (callee got : String)
  | notList (callee got : String)
  | notProcedure (callee got : String)
  | unevenLists (callee : String)
  | numeric (callee : String) (fault : NumericFault)
  deriving DecidableEq

namespace Error

inductive Kind where
  | unexpectedEndOfInput
  | unmatchedCloseParen
  | trailingTokens
  | unboundVariable
  | arityMismatch
  | notApplicable
  | specialFormError
  | divisionByZero
  | emptyListAccess
  | wrongType
  | numericOverflow
  deriving DecidableEq, Repr

def Kind.name : Kind → String
  | .unexpectedEndOfInput => "UnexpectedEndOfInput"
  | .unmatchedCloseParen => "UnmatchedCloseParen"
  | .trailingTokens => "TrailingTokens"
  | .unboundVariable => "UnboundVariable"
  | .arityMismatch => "ArityMismatch"
  | .notApplicable => "NotApplicable"
  | .specialFormError => "SpecialFormError"
  | .divisionByZero => "DivisionByZero"
  | .emptyListAccess => "EmptyListAccess"
  | .wrongType => "WrongType"
  | .numericOverflow => "NumericOverflow"

/-- Where a kind of error arises: while reading, while evaluating, or inside a built-in
procedure, which is evaluating too. -/
inductive Family where
  | reading
  | evaluating
  | builtin
  deriving DecidableEq, Repr

def Kind.family : Kind → Family
  | .unexpectedEndOfInput => .reading
  | .unmatchedCloseParen => .reading
  | .trailingTokens => .reading
  | .unboundVariable => .evaluating
  | .arityMismatch => .evaluating
  | .notApplicable => .evaluating
  | .specialFormError => .evaluating
  | .divisionByZero => .builtin
  | .emptyListAccess => .builtin
  | .wrongType => .builtin
  | .numericOverflow => .builtin

def kind : Error → Kind
  | .endOfInput _ => .unexpectedEndOfInput
  | .unmatchedClose => .unmatchedCloseParen
  | .trailingToken _ => .trailingTokens
  | .unbound _ => .unboundVariable
  | .arity _ _ _ => .arityMismatch
  | .notApplicable _ _ => .notApplicable
  | .formShape _ => .specialFormError
  | .formSymbol _ _ => .specialFormError
  | .parameters => .specialFormError
  | .emptyList _ => .emptyListAccess
  | .notNumber _ _ => .wrongType
  | .notList _ _ => .wrongType
  | .notProcedure _ _ => .wrongType
  | .unevenLists _ => .wrongType
  | .numeric _ .zeroDivisor => .divisionByZero
  | .numeric _ .zeroToNegativePower => .divisionByZero
  | .numeric _ (.notReal _ _) => .wrongType
  | .numeric _ _ => .numericOverflow

/-- The wording of an arithmetic fault. The numbers of a power that is not real lie within the binary64
range, so they always have a text. -/
def numericMessage (callee : String) : NumericFault → String
  | .integerOperand => s!"{callee}: int too large to convert to float"
  | .integerQuotient => s!"{callee}: integer division result too large for a float"
  | .powerRange => s!"{callee}: (34, 'Numerical result out of range')"
  | .complexRange => s!"{callee}: complex exponentiation"
  | .notFinite result => s!"{callee} produced {result.text}"
  | .zeroDivisor => "division by zero"
  | .zeroToNegativePower => "zero raised to a negative power"
  | .notReal base power =>
      s!"{callee} of {base.text?.getD default} to {power.text?.getD default} is not a real number"

def message : Error → String
  | .endOfInput false => "unexpected EOF while reading"
  | .endOfInput true => "unexpected EOF while reading list"
  | .unmatchedClose => "unexpected )"
  | .trailingToken token => s!"unexpected token after expression: {token}"
  | .unbound name => s!"unbound symbol: {name}"
  | .arity callee expected received =>
      s!"{callee} expects {expected.text} argument(s), received {received}"
  | .notApplicable shown _ => s!"not a procedure: {shown}"
  | .formShape form => s!"{form.keyword} expects {form.shape}"
  | .formSymbol form got => s!"{form.keyword} expects a symbol, got {got}"
  | .parameters => "lambda parameters must be a list of symbols"
  | .emptyList callee => s!"{callee} of empty list"
  | .notNumber callee got => s!"{callee} expects numbers, got {got}"
  | .notList callee got => s!"{callee} expects a list, got {got}"
  | .notProcedure callee got => s!"{callee} expects a procedure, got {got}"
  | .unevenLists callee => s!"{callee} expects lists of the same length"
  | .numeric callee fault => numericMessage callee fault

def report (e : Error) : String :=
  s!"{e.kind.name}: {e.message}"

end Error

/-- Why a computation ended without a value. -/
inductive Failure where
  | error (e : Error)
  /-- An integer with more digits than may be read or written; when read, with their number. -/
  | digitLimit (digits : Option Nat)
  /-- The nesting of a text, a value or an evaluation is deeper than allowed. -/
  | depthExhausted
  | interrupted
  /-- The path of a file holds the character that ends names. -/
  | nulInPath
  deriving DecidableEq

def Failure.digitLimitMessage (digits : Option Nat) : String :=
  let subject :=
    match digits with
    | none => ""
    | some n => s!": value has {n} digits"
  s!"Exceeds the limit ({Number.digitLimit} digits) for integer string conversion{subject}; " ++
    "use sys.set_int_max_str_digits() to increase the limit"

end SmallScheme
