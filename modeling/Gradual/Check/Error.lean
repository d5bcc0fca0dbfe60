import Gradual.Diagnostic
import Gradual.Expr.Basic
import Gradual.Ty.Call

/-!
# What a check can find

Checking a statement stops at the first thing that is wrong with it, or at the first thing that is
outside what is checked. The latter is no finding.

* `CheckError`: why the check of a statement stopped;
* `CheckError.diagnostic?`: what is reported about it;
* `Complaint`, `Complaint.message`: the violations;
* `Escape`, `Escape.describe`: what is outside the check.
-/

namespace Gradual

open Source

/-- Why the check of a statement stopped. -/
inductive CheckError where
  | heresy (message : String) (span : Span)
  | suspicion (message : String) (span : Span)
  | unsupported (construct : String) (span : Span)
  deriving DecidableEq, Repr

namespace CheckError

/-- The wording of an error. -/
def text : CheckError → String
  | heresy message _ => message
  | suspicion message _ => "suspicious: " ++ message
  | unsupported construct _ => "unsupported " ++ construct

/-- Whether something outside the check was met. -/
def isUnsupported : CheckError → Bool
  | unsupported _ _ => true
  | _ => false

/-- What is reported about an error. -/
def diagnostic? : CheckError → Option Diagnostic
  | heresy message span => some ⟨span, .heresy, message⟩
  | suspicion message span => some ⟨span, .suspicion, message⟩
  | unsupported _ _ => none

end CheckError

/-- The violations. -/
inductive Complaint where
  | undefinedName (name : String)
  | reservedConstant (name : String)
  | returnOutside
  | returnMismatch (function : String) (actual expected : Ty)
  | apparentReturn (function : String) (declared apparent : Ty)
  | defaultMismatch (parameter function : String) (actual expected : Ty)
  | declaredMismatch (name : String) (declared assigned : Ty)
  | reboundFunction (name : String) (bound : Ty)
  | emptyListType
  | severalListTypes
  | emptyDictType
  | severalDictTypes
  | typeFault (fault : TypeFault)
  | operands (symbol : String) (left right : Ty)
  | operandsExpected (symbol : String) (left right expected : Ty)
  | noOverload (name : String) (arguments : List Ty)
  | argumentCount (name : String) (signature : Signature) (provided : Nat)
  | unexpectedKeyword (name keyword : String)
  | repeatedArgument (name keyword : String)
  | argumentMismatch (label name : String) (expected actual : Ty)

namespace Complaint

/-- How many arguments a signature takes. -/
def arity (f : Signature) : String :=
  if f.kwargs.isEmpty then toString f.params.length
  else s!"{f.params.length} to {f.maxPositional}"

/-- The wording of a violation. -/
def message : Complaint → String
  | undefinedName name => s!"name '{name}' is used but not defined"
  | reservedConstant name => s!"cannot redefine built-in constant '{name}'"
  | returnOutside => "'return' outside of function"
  | returnMismatch function actual expected =>
    s!"function '{function}' returns '{actual.text}' but should return '{expected.text}'"
  | apparentReturn function declared apparent =>
    s!"return type of '{function}' declared as '{declared.text}' but appears to be " ++
      s!"'{apparent.text}'"
  | defaultMismatch parameter function actual expected =>
    s!"default value of parameter '{parameter}' of '{function}' is '{actual.text}' but should " ++
      s!"be '{expected.text}'"
  | declaredMismatch name declared assigned =>
    s!"'{name}' declared as '{declared.text}' but assigned '{assigned.text}'"
  | reboundFunction name bound =>
    s!"'{name}' was bound to a function and is rebound to '{bound.text}'"
  | emptyListType => "cannot type an empty list; try [Any] instead"
  | severalListTypes => "cannot have multiple types in a list annotation"
  | emptyDictType => "cannot type an empty dict; try \x7bAny: Any\x7d instead"
  | severalDictTypes => "cannot have multiple key/value types in a dict annotation"
  | typeFault fault => fault.message
  | operands symbol left right =>
    s!"unsupported operand types for {symbol}: '{left.text}' and '{right.text}'"
  | operandsExpected symbol left right expected =>
    s!"unsupported operand types for {symbol}: '{left.text}' and '{right.text}' " ++
      s!"(expected {expected.text})"
  | noOverload name arguments => s!"no overload of '{name}' matches ({Ty.listText arguments})"
  | argumentCount name signature provided =>
    s!"function '{name}' expects {arity signature} arguments, {provided} provided"
  | unexpectedKeyword name keyword => s!"'{name}' got an unexpected keyword argument '{keyword}'"
  | repeatedArgument name keyword => s!"'{name}' got multiple values for argument '{keyword}'"
  | argumentMismatch label name expected actual =>
    s!"argument {label} of call to '{name}' should be '{expected.text}', not '{actual.text}'"

/-- The error that a violation is. -/
def heresy (c : Complaint) (span : Span) : CheckError := .heresy c.message span

end Complaint

/-- What is outside the check. -/
inductive Escape where
  | construct (c : Construct)
  | form (e : Expr)
  | variadicParameters
  | multipleTargets
  | target (e : Expr)
  | elifChain
  | genericType
  | typeForm (e : Expr)
  | unaryOn (operand : Ty)
  | operator (op : BinaryOp)
  | methodCall
  | overloadKeywords

namespace Escape

/-- How it is named. -/
def describe : Escape → String
  | construct c => c.describe
  | form e => e.describe
  | variadicParameters => "variadic parameters"
  | multipleTargets => "multiple assignment targets"
  | target e => "assignment to " ++ e.describe
  | elifChain => "elif chain"
  | genericType => "generic annotation"
  | typeForm e => "annotation " ++ e.describe
  | unaryOn operand => s!"unary operator on '{operand.text}'"
  | operator op => s!"'{op.symbol}' operator"
  | methodCall => "method call"
  | overloadKeywords => "keyword arguments to an overloaded function"

/-- The error that stands for it. -/
def error (e : Escape) (span : Span) : CheckError := .unsupported e.describe span

end Escape

end Gradual
