import Gradual.Ty.Fits
import Gradual.Ty.Join
import Gradual.Ty.Text

/-!
# Calling what has a type

The parameters of a signature are its slots: first those that have to be given, then those with a
default value.

* `Signature.slots`, `Signature.keywordSlot?`: the slots, and the slot that a name refers to;
* `Signature.accepts`: whether the arguments, given by position, fit;
* `resolve`, `Ty.callResult`: the type of a call;
* `TypeFault.message`.
-/

namespace Gradual

namespace Signature

/-- A signature without names of parameters and without defaults. -/
def plain (params : List Ty) (ret : Ty) : Signature := ⟨params, [], ret, []⟩

/-- The types of all slots. -/
def slots (f : Signature) : List Ty := f.params ++ f.kwargs.map (·.2)

/-- The largest number of arguments. -/
def maxPositional (f : Signature) : Nat := f.params.length + f.kwargs.length

/-- The type of a slot. -/
def positional? (f : Signature) (i : Nat) : Option Ty := f.slots[i]?

/-- The slot that a name refers to; a parameter that has to be given comes before one with a default
value. -/
def keywordSlot? (f : Signature) (name : String) : Option Nat :=
  match f.names.findIdx? (· == name) with
  | some i => some i
  | none => (f.kwargs.findIdx? (·.1 == name)).map (· + f.params.length)

/-- Whether arguments given by position are neither too few nor too many, and fit. -/
def accepts (f : Signature) (arguments : List Ty) : Bool :=
  f.params.length ≤ arguments.length && arguments.length ≤ f.maxPositional &&
    (arguments.zip f.slots).all fun p => p.1.fits p.2

/-- The same signature with the result `ret`. -/
def withReturn (f : Signature) (ret : Ty) : Signature := { f with ret }

end Signature

/-- The wording of a fault. -/
def TypeFault.message : TypeFault → String
  | .maybeOfNone => "'Maybe' cannot wrap the None type"
  | .noMatchingOverload arguments => "no overload matches (" ++ Ty.listText arguments ++ ")"
  | .notCallable callee => "'" ++ callee.text ++ "' is not callable"

/-- The type of a call of a function with several signatures: the union of the results of all that
accept the arguments. -/
def resolve (signatures : List Signature) (arguments : List Ty) : Except TypeFault Ty :=
  match (signatures.filter (·.accepts arguments)).map (·.ret) with
  | [] => .error (.noMatchingOverload arguments)
  | rets => .ok (Ty.join rets)

/-- The type of a call with arguments given by position. -/
def Ty.callResult (callee : Ty) (arguments : List Ty) : Except TypeFault Ty :=
  match callee with
  | func f => resolve [f] arguments
  | overload fs => resolve fs arguments
  | callee => .error (.notCallable callee)

end Gradual
