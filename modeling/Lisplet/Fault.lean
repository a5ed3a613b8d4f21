import Lisplet.Location
import Lisplet.Value.Printer

/-! What can go wrong, and the wording of it. -/

namespace Lisplet

inductive Malformed where
  | operandCount (form : CoreForm) (expected got : Nat)
  | targetNotSymbol (form : CoreForm)
  | paramsMissing
  | paramsNotList
  | paramNotSymbol (param : Value)
  | duplicateParam (name : String)
  | other (message : String)

def Malformed.text : Malformed → String
  | .operandCount form expected got =>
    form.name ++ " expects " ++ Decimal.countText expected ++
      (if expected = 1 then " operand" else " operands") ++ ", got " ++ Decimal.countText got
  | .targetNotSymbol form => "first operand of " ++ form.name ++ " form must be symbol"
  | .paramsMissing => "lambda requires a parameter list"
  | .paramsNotList => "lambda parameters must be a list"
  | .paramNotSymbol param => "lambda parameters must be symbols, got " ++ param.text
  | .duplicateParam name => "duplicate lambda parameter: " ++ name
  | .other message => message

inductive Calculation where
  | addition | subtraction | multiplication | negation | division | remainder
deriving DecidableEq

def Calculation.name : Calculation → String
  | .addition => "addition"
  | .subtraction => "subtraction"
  | .multiplication => "multiplication"
  | .negation => "negation"
  | .division => "division"
  | .remainder => "remainder"

inductive Failure where
  | integerOverflow (calculation : Calculation)
  | realOverflow (calculation : Calculation)
  | divisionByZero
  | emptyList (function : LibraryFunction)
  | raised (message : String)

def Failure.text : Failure → String
  | .integerOverflow calculation => "Integer overflow in " ++ calculation.name
  | .realOverflow calculation => "Real overflow in " ++ calculation.name
  | .divisionByZero => "Division by zero"
  | .emptyList function => function.name ++ " of empty list"
  | .raised message => message

inductive Mismatch where
  | expected (wanted got : Kind)
  | notApplicable (operator : Value)
  | tailNotList
  | noLength (got : Kind)
  | other (message : String)

def Mismatch.text : Mismatch → String
  | .expected wanted got => "expected " ++ wanted.name ++ ", got " ++ got.name
  | .notApplicable operator => "Cannot apply non-function: " ++ operator.text
  | .tailNotList => "cons requires a list as second argument"
  | .noLength got => "length requires a list or string, got " ++ got.name
  | .other message => message

inductive Refusal where
  | assignItem (index : Nat)
  | removeItem (index : Nat)
  | replaceForm (index : Nat)
  | removeForm (index : Nat)
  | other (message : String)

def Refusal.text : Refusal → String
  | .assignItem index => "cannot assign to index " ++ Decimal.countText index ++
      " of an immutable list"
  | .removeItem index => "cannot remove index " ++ Decimal.countText index ++
      " of an immutable list"
  | .replaceForm index => "cannot replace form " ++ Decimal.countText index ++ " of a program"
  | .removeForm index => "cannot remove form " ++ Decimal.countText index ++ " of a program"
  | .other message => message

inductive FileFault where
  | missing
  | isFolder
  | notFolder
  | notText
  | other (message : String)

def FileFault.text : FileFault → String
  | .missing => "No such file or directory (os error 2)"
  | .isFolder => "Is a directory (os error 21)"
  | .notFolder => "Not a directory (os error 20)"
  | .notText => "stream did not contain valid UTF-8"
  | .other message => message

inductive Fault where
  | unbound (name : String)
  | malformed (cause : Malformed)
  | failure (cause : Failure) (context : Option Value)
  | mismatch (cause : Mismatch) (context : Option Value)
  | refused (cause : Refusal)
  | arity (expected got : Nat) (expression : Option String)
  | file (path : String) (cause : FileFault)
  | parse (fault : SyntaxFault)

namespace Fault

def contextMark : String := "\n  Context: "

def contextText : Option Value → String
  | some form => contextMark ++ "while evaluating: " ++ form.text
  | none => ""

def arityText (expected got : Nat) : Option String → String
  | some expression => "ArityError: expression " ++ expression ++ ": expected " ++
      Decimal.countText expected ++ " arguments, got " ++ Decimal.countText got
  | none => "ArityError: function expected " ++ Decimal.countText expected ++
      " arguments but got " ++ Decimal.countText got

def message : Fault → String
  | unbound name => "Unbound symbol: " ++ name
  | malformed cause => "Malformed special form: " ++ cause.text
  | failure cause context => "EvaluationError: " ++ cause.text ++ contextText context
  | mismatch cause context => "Type error: " ++ cause.text ++ contextText context
  | refused cause => "Unsupported operation: " ++ cause.text
  | arity expected got expression => arityText expected got expression
  | file path cause => "Cannot read " ++ path ++ ": " ++ cause.text
  | parse fault => fault.message

def isMarked (text : String) : Bool :=
  Text.occursIn contextMark.toList text.toList

def within (form : Value) : Fault → Fault
  | failure cause none => failure cause (if isMarked cause.text then none else some form)
  | mismatch cause none => mismatch cause (if isMarked cause.text then none else some form)
  | fault => fault

end Fault

end Lisplet
