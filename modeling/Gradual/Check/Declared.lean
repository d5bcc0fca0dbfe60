import Gradual.Check.Error
import Gradual.Statement.Basic

/-!
# Declared types

The type that an expression states where a type is expected, and the signature that the header of a
function states.

* `declaredType`: a name, `[t]`, `{k: v}`, `Maybe[t]` or `Optional[t]`;
* `declaredSignature`: what is not stated is unknown.
-/

namespace Gradual

/-- Whether a name before a subscript says that the value may be absent. -/
def isOptionalName (name : String) : Bool := name == "Maybe" || name == "Optional"

/-- The type that a name states. -/
def namedType (name : String) : Ty := if name == "Any" then .unknown else .primitive name

/-- The type that an expression states. -/
def declaredType : Expr → Except CheckError Ty
  | .name _ id => .ok (namedType id.name)
  | .list s [] => .error (Complaint.emptyListType.heresy s)
  | .list _ [e] => do return .list (← declaredType e)
  | .list s (_ :: _ :: _) => .error (Complaint.severalListTypes.heresy s)
  | .dict s [] => .error (Complaint.emptyDictType.heresy s)
  | .dict _ [(k, v)] => do return .dict (← declaredType k) (← declaredType v)
  | .dict s (_ :: _ :: _) => .error (Complaint.severalDictTypes.heresy s)
  | .index s (.name _ id) i =>
    if isOptionalName id.name then do
      match (← declaredType i).optional with
      | .ok ty => return ty
      | .error fault => .error ((Complaint.typeFault fault).heresy s)
    else .error (Escape.genericType.error s)
  | .index s _ _ => .error (Escape.genericType.error s)
  | e => .error ((Escape.typeForm e).error e.span)
termination_by structural e => e

/-- The type that an expression states, if there is one. -/
def declaredOrUnknown : Option Expr → Except CheckError Ty
  | some e => declaredType e
  | none => .ok .unknown

/-- The declared types of parameters in order. -/
def declaredParameters : List Parameter → Except CheckError (List (Parameter × Ty))
  | [] => .ok []
  | p :: ps => do
    if p.kind = .positional then
      let ty ← declaredOrUnknown p.declared
      let rest ← declaredParameters ps
      return (p, ty) :: rest
    else .error (Escape.variadicParameters.error p.span)

/-- The signature that the header of a function states. -/
def declaredSignature (head : FunctionHead) : Except CheckError Signature := do
  let typed ← declaredParameters head.parameters
  let ret ← declaredOrUnknown head.returns
  let required := typed.filter (·.1.initial.isNone)
  let defaulted := typed.filter (·.1.initial.isSome)
  return ⟨required.map (·.2), required.map (·.1.name), ret, defaulted.map fun p => (p.1.name, p.2)⟩

end Gradual
