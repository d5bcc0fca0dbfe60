import Std.Data.ExtTreeMap
import Gradual.Ty.Basic

/-!
# Scopes

Names are bound in scopes that lie inside each other. The scopes are kept in an arena, which grows
when a scope is opened and shrinks when one is closed: closing a scope also closes all that were
opened after it. A handle of a closed scope stays a number and may come to mean a later scope.

* `ScopeId`, `Frame`, `Scopes`: handles, the scopes themselves, and the arena;
* `Scopes.extend`, `Scopes.discard`, `Scopes.add`: opening, closing and binding;
* `Scopes.lookup`, `Scopes.lookupLocal`, `Scopes.contains`, `Scopes.bindings`: reading.
-/

namespace Gradual

/-- A handle of a scope: its place in the arena. -/
structure ScopeId where
  index : Nat
  deriving DecidableEq, Repr

/-- A scope: the names bound in it, and the scope around it. -/
structure Frame where
  bound : Std.ExtTreeMap String Ty
  parent : Option ScopeId

/-- All open scopes. The outermost one is never closed. -/
@[ext]
structure Scopes where
  frames : Array Frame
  nonempty : 0 < frames.size

namespace Scopes

/-- The outermost scope. -/
def root : ScopeId := ⟨0⟩

/-- One scope, in which nothing is bound. -/
def empty : Scopes := ⟨#[⟨∅, none⟩], by simp⟩

/-- Opens a scope inside `parent`. -/
def extend (s : Scopes) (parent : ScopeId) : Scopes × ScopeId :=
  (⟨s.frames.push ⟨∅, some parent⟩, by simp⟩, ⟨s.frames.size⟩)

/-- Closes a scope and all that were opened after it; the outermost scope stays open. -/
def discard (s : Scopes) (scope : ScopeId) : Scopes :=
  if h : 0 < scope.index then ⟨s.frames.take scope.index,
    by simpa [Nat.lt_min] using ⟨h, s.nonempty⟩⟩ else s

/-- Binds a name in a scope; a closed scope takes no bindings. -/
def add (s : Scopes) (scope : ScopeId) (name : String) (ty : Ty) : Scopes :=
  ⟨s.frames.modify scope.index fun f => { f with bound := f.bound.insert name ty },
    by simpa using s.nonempty⟩

/-- The type bound to a name in the scope itself. -/
def lookupLocal (s : Scopes) (scope : ScopeId) (name : String) : Option Ty :=
  s.frames[scope.index]?.bind (·.bound[name]?)

/-- Looks for a name in a scope and then in those around it, through at most `steps` scopes. -/
def lookupWithin (s : Scopes) (name : String) : (steps : Nat) → ScopeId → Option Ty
  | 0, _ => none
  | steps + 1, scope =>
    match s.frames[scope.index]? with
    | none => none
    | some f =>
      match f.bound[name]? with
      | some ty => some ty
      | none => f.parent.bind (lookupWithin s name steps)

/-- The type bound to a name in the innermost scope that binds it. A chain of scopes that does not
return to itself has no more scopes than there are. -/
def lookup (s : Scopes) (scope : ScopeId) (name : String) : Option Ty :=
  s.lookupWithin name s.frames.size scope

/-- Whether a name is bound in a scope or around it. -/
def contains (s : Scopes) (scope : ScopeId) (name : String) : Bool :=
  (s.lookup scope name).isSome

/-- The names bound in the scope itself, in order. -/
def bindings (s : Scopes) (scope : ScopeId) : List (String × Ty) :=
  match s.frames[scope.index]? with
  | some f => f.bound.toList
  | none => []

end Scopes

end Gradual
