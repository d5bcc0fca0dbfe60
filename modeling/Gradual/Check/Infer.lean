import Gradual.Builtins
import Gradual.Check.Call
import Gradual.Check.Event

/-!
# Types of expressions

The type of an expression follows from the types of the names in it and from the built-in operators.
Nothing else is read, and only the log is written.

* `Inference`: a type or an error, with the events on the way;
* `unaryType`, `binaryType`, `callType`: the type of an operation from those of its operands;
* `infer`: the type of an expression.
-/

namespace Gradual

open Source

/-- A result or an error, with the events on the way. -/
abbrev Inference := ExceptT CheckError (StateM Log)

/-- Adds an event to the log. -/
def Inference.record (event : Event) : Inference Unit := modify (·.record event)

/-- The type of a constant that may not be rebound. -/
def constantType? (name : String) : Option Ty :=
  if name == "None" then some .none
  else if name == "True" || name == "False" then some .bool
  else none

/-- The type of a literal. -/
def Literal.type : Literal → Ty
  | integer _ => .int
  | float _ => .float
  | imaginary _ => .complex
  | string _ => .str
  | bytes _ => .bytes

/-- The method that an operator calls on its left operand, for the operators that are checked. -/
def BinaryOp.method? : BinaryOp → Option String
  | add => some "__add__"
  | multiply => some "__mul__"
  | _ => none

/-- Whether a type is that of numbers. -/
def Ty.isNumeric (ty : Ty) : Bool := ty = .int || ty = .float || ty = .complex

/-- The type of an operation on one operand. -/
def unaryType (span : Span) (op : UnaryOp) (operand : Ty) : Except CheckError Ty :=
  match op with
  | .not => .ok .bool
  | .positive | .negative =>
    if operand.isNumeric then .ok operand else .error ((Escape.unaryOn operand).error span)
  | .invert => if operand = .int then .ok operand else .error ((Escape.unaryOn operand).error span)

/-- The type of an operation on two operands. Nothing is known about operators of a type without
built-in methods, which is noted in the log. -/
def binaryType (builtins : Builtins) (span : Span) (op : BinaryOp) (left right : Ty) :
    Inference Ty :=
  match op.method? with
  | none => throw ((Escape.operator op).error span)
  | some method =>
    match left.primitiveName?.filter builtins.knowsType with
    | none => do
      Inference.record (.unrecognized left op.symbol span.line)
      return .unknown
    | some type =>
      match builtins.operator? type method with
      | none => throw ((Complaint.operands op.symbol left right).heresy span)
      | some signature =>
        match signature.callResult [left, right] with
        | .ok ty => return ty
        | .error _ =>
          throw ((Complaint.operandsExpected op.symbol left right signature).heresy span)

/-- The types of the arguments given by position. -/
def positionalTypes (arguments : List (Argument Ty)) : List Ty :=
  (arguments.filter (·.keyword.isNone)).map (·.value)

/-- The types of the arguments given by name. -/
def keywordTypes (arguments : List (Argument Ty)) : List (String × Ty) :=
  arguments.filterMap fun a => a.keyword.map fun id => (id.name, a.value)

/-- The type of a call of something of the type `callee`, which messages call `name`. -/
def callType (span : Span) (name : String) (callee : Ty) (arguments : List (Argument Ty)) :
    Except CheckError Ty :=
  let positional := positionalTypes arguments
  let keywords := keywordTypes arguments
  match callee with
  | .func f => checkArguments name f positional keywords span
  | .overload fs =>
    if keywords.isEmpty then
      match resolve fs positional with
      | .ok ty => .ok ty
      | .error _ => .error ((Complaint.noOverload name positional).heresy span)
    else .error (Escape.overloadKeywords.error span)
  | callee => .error ((Complaint.typeFault (.notCallable callee)).heresy span)

/-- How messages call what is called: by its name, or by its type. -/
def calleeName (callee : Expr) (ty : Ty) : String :=
  match callee with
  | .name _ id => id.name
  | _ => ty.text

/-- Notes the type of an expression once it is found. -/
def traced (e : Expr) (form : Inference Ty) : Inference Ty := do
  let ty ← form
  Inference.record (.inferred e.describe ty e.span.line)
  return ty

mutual

/-- The type of an expression, from the types of names. A list is taken to be like its first
element, and a dictionary like its first entry. -/
def infer (builtins : Builtins) (names : String → Option Ty) (e : Expr) : Inference Ty :=
  traced e <| match e with
  | .literal _ v => return v.type
  | .name _ id =>
    match constantType? id.name <|> names id.name with
    | some ty => return ty
    | none => throw ((Complaint.undefinedName id.name).heresy id.span)
  | .list _ [] => return .emptyList
  | .list _ (first :: _) => return .list (← infer builtins names first)
  | .dict _ [] => return .emptyDict
  | .dict _ ((key, value) :: _) => do
    let k ← infer builtins names key
    let v ← infer builtins names value
    return .dict k v
  | .unary s op operand => do
    liftExcept (unaryType s op (← infer builtins names operand))
  | .binary s op left right => do
    let l ← infer builtins names left
    let r ← infer builtins names right
    binaryType builtins s op l r
  | .call s (.member ..) _ => throw (Escape.methodCall.error s)
  | .call s callee arguments => do
    let f ← infer builtins names callee
    let as ← inferArguments builtins names arguments
    liftExcept (callType s (calleeName callee f) f as)
  | e => throw ((Escape.form e).error e.span)
termination_by structural e

/-- The types of the arguments of a call, from the left. -/
def inferArguments (builtins : Builtins) (names : String → Option Ty) :
    List (Argument Expr) → Inference (List (Argument Ty))
  | [] => return []
  | ⟨keyword, value⟩ :: rest => do
    let ty ← infer builtins names value
    let tys ← inferArguments builtins names rest
    return ⟨keyword, ty⟩ :: tys
termination_by structural as => as

end

end Gradual
