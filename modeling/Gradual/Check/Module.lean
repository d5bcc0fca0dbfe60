import Gradual.Check.Walk
import Gradual.Diagnostic

/-!
# Checking modules

The statements of a module are checked like those of a block, but a violation is reported and the
check goes on with the next statement.

* `Checker`: bindings, log and diagnostics so far;
* `Checker.checkModule`: the checker after one more module;
* `Checker.bindings`, `Checker.lookup`: what is bound at the level of modules.
-/

namespace Gradual

/-- A checker: the built-in operators and the types in comments, the scopes and the log, and the
diagnostics so far. -/
structure Checker where
  env : Env
  state : WalkState
  diagnostics : Diagnostics

namespace Checker

/-- The scope of the names that modules bind, just inside that of the built-in ones. -/
def moduleScope : ScopeId := ⟨1⟩

/-- A checker that has checked nothing. Its log is limited to a verbosity, if one is given. -/
def new (builtins : Builtins) (verbosity : Option Nat := some 0) : Checker :=
  let globals := builtins.globals.toList.foldl (fun s g => s.add Scopes.root g.1 g.2) Scopes.empty
  ⟨⟨builtins, ∅⟩, ⟨(globals.extend Scopes.root).1, .start verbosity⟩, .empty⟩

/-- The same checker with other types in comments. -/
def withHints (c : Checker) (hints : Hints) : Checker := { c with env := { c.env with hints } }

/-- The same checker with an event added to its log. -/
def record (c : Checker) (event : Event) : Checker :=
  { c with state := { c.state with log := c.state.log.record event } }

/-- The same checker with what is reported about an error. -/
def report (c : Checker) (e : CheckError) : Checker :=
  match e.diagnostic? with
  | some d => { c with diagnostics := c.diagnostics.push d }
  | none => c

/-- The checker after a walk; an error in it is reported. -/
def settle {α : Type} (c : Checker) (walk : Walk α) : Checker :=
  match walk.run c.state with
  | (.ok _, state) => { c with state }
  | (.error e, state) => { c with state }.report e

/-- The checker after the functions of a module are bound to their declared signatures. -/
def declareModule (c : Checker) (module : List Statement) : Checker :=
  module.foldl (fun c s => c.settle (Walk.tolerate () (declare moduleScope s))) c

/-- The checker after the statement `s`, which stands after the definitions of the functions
`defined`. -/
def checkStatement (c : Checker) (defined : List String) (s : Statement) : Checker :=
  c.settle (Walk.tolerate .passedOver (walkStatement c.env moduleScope none defined s))

/-- The checker after some statements of a module. -/
def checkStatements (c : Checker) (defined : List String) : List Statement → Checker
  | [] => c
  | s :: rest => (c.checkStatement defined s).checkStatements (definedAfter defined s) rest

/-- What modules have bound, by name. -/
def bindings (c : Checker) : List (String × Ty) := c.state.scopes.bindings moduleScope

/-- The checker after one more module. -/
def checkModule (c : Checker) (module : List Statement) : Checker :=
  let c := (c.declareModule module).checkStatements [] module
  c.bindings.foldl (fun c b => c.record (.binding b.1 b.2)) c

/-- The type bound to a name by a module, or built in. -/
def lookup (c : Checker) (name : String) : Option Ty := c.state.scopes.lookup moduleScope name

end Checker

end Gradual
