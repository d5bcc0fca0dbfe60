import Gradual.Sorted
import Gradual.Ty.Basic

/-!
# Types made of others

* `Ty.setOf`, `Signature.setOf`: the members of a union or an overload, from any list;
* `Ty.join`, `Ty.merge`: the union of several types, which is one of them if there is only one;
* `Ty.optional`: a type with the absent value added;
* `TypeFault`: what can be wrong with the use of a type.
-/

namespace Gradual

/-- What can be wrong with the use of a type. -/
inductive TypeFault where
  | maybeOfNone
  | noMatchingOverload (arguments : List Ty)
  | notCallable (callee : Ty)
  deriving DecidableEq

/-- The set of some signatures. -/
def Signature.setOf (fs : List Signature) : List Signature := Sorted.ofList Signature.cmp fs

namespace Ty

/-- The set of some types. -/
def setOf (as : List Ty) : List Ty := Sorted.ofList cmp as

/-- The types that a type stands for as a member of a union: the members of a union, or itself. -/
def members : Ty → List Ty
  | union ms => ms
  | a => [a]

/-- The union of some types. The members of a union among them are taken one by one; a single type
stands for itself, and no type at all for the unknown type. -/
def join (as : List Ty) : Ty :=
  match setOf (as.flatMap members) with
  | [] => unknown
  | [a] => a
  | ms => union ms

/-- The union of two types. -/
def merge (a b : Ty) : Ty := join [a, b]

/-- The type of what is absent or of type `a`. -/
def optional (a : Ty) : Except TypeFault Ty :=
  if a.isNone then .error .maybeOfNone
  else
    match a with
    | maybe b => .ok (maybe b)
    | a => .ok (maybe a)

end Ty

end Gradual
