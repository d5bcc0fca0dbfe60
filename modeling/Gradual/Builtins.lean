import Std.Data.ExtTreeMap
import Gradual.Ty.Call

/-!
# Built-in names and operators

* `Builtins`: the methods of primitive types that operators call, and the names that are bound
  everywhere;
* `Builtins.registerOperator`, `Builtins.registerGlobal`;
* `Builtins.standard`: arithmetic on numbers and texts, and a few functions.
-/

namespace Gradual

/-- The methods of primitive types by type and name, and the types of names bound everywhere. -/
structure Builtins where
  operators : Std.ExtTreeMap String (Std.ExtTreeMap String Ty)
  globals : Std.ExtTreeMap String Ty

namespace Builtins

/-- Nothing is built in. -/
def empty : Builtins := ⟨∅, ∅⟩

/-- Adds a method of a primitive type, or replaces it. -/
def registerOperator (b : Builtins) (type method : String) (signature : Ty) : Builtins :=
  let methods := (b.operators.getD type ∅).insert method signature
  { b with operators := b.operators.insert type methods }

/-- Adds a name bound everywhere, or replaces it. -/
def registerGlobal (b : Builtins) (name : String) (ty : Ty) : Builtins :=
  { b with globals := b.globals.insert name ty }

/-- Whether any method of a primitive type is built in. -/
def knowsType (b : Builtins) (type : String) : Bool := b.operators.contains type

/-- The signature of a method of a primitive type. -/
def operator? (b : Builtins) (type method : String) : Option Ty :=
  b.operators[type]?.bind (·[method]?)

/-! ## The standard table -/

/-- A function that takes any value or none and makes a value of type `result`. -/
def constructor (result : Ty) : Ty :=
  .overload (Signature.setOf [.plain [] result, .plain [.unknown] result])

/-- Arithmetic of whole numbers with any numbers. -/
def intArithmetic : Ty :=
  .overload (Signature.setOf [.plain [.int, .int] .int, .plain [.int, .float] .float,
    .plain [.int, .complex] .complex])

/-- Arithmetic of floating point numbers. -/
def floatArithmetic : Ty :=
  .overload (Signature.setOf [.plain [.float, .float] .float, .plain [.float, .int] .float])

/-- Arithmetic of complex numbers. -/
def complexArithmetic : Ty := .func (.plain [.complex, .complex] .complex)

/-- The methods that addition and multiplication call. -/
def standardOperators : List (String × String × Ty) :=
  [("int", "__add__", intArithmetic), ("int", "__mul__", intArithmetic),
   ("float", "__add__", floatArithmetic), ("float", "__mul__", floatArithmetic),
   ("complex", "__add__", complexArithmetic), ("complex", "__mul__", complexArithmetic),
   ("str", "__add__", .func (.plain [.str, .str] .str)),
   ("str", "__mul__", .func (.plain [.str, .int] .str))]

/-- The names that are bound everywhere. -/
def standardGlobals : List (String × Ty) :=
  [("int", constructor .int), ("float", constructor .float), ("str", constructor .str),
   ("bool", constructor .bool), ("print", .func (.plain [.unknown] .none)),
   ("len", .overload (Signature.setOf
     [.plain [.emptyList] .int, .plain [.emptyDict] .int, .plain [.str] .int]))]

/-- The table that is used when no other one is given. -/
def standard : Builtins :=
  let b := standardOperators.foldl (fun b o => b.registerOperator o.1 o.2.1 o.2.2) empty
  standardGlobals.foldl (fun b g => b.registerGlobal g.1 g.2) b

end Builtins

end Gradual
