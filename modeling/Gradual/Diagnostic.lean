import Gradual.Sorted
import Gradual.Source.Span

/-!
# Diagnostics

* `Level`, `Diagnostic`: a violation or a suspicion, where it was found and what it is;
* `Diagnostic.cmp`: diagnostics in the order of their places, then their levels and messages;
* `Diagnostics`: a set of them.
-/

namespace Gradual

open Source

/-- How grave a finding is. -/
inductive Level where
  | heresy
  | suspicion
  deriving DecidableEq, Repr

/-- The graver level comes first. -/
def Level.rank : Level → Nat
  | heresy => 0
  | suspicion => 1

/-- The name of a level. -/
def Level.name : Level → String
  | heresy => "heresy"
  | suspicion => "suspicion"

/-- A finding, its place and its level. -/
structure Diagnostic where
  span : Span
  level : Level
  message : String
  deriving DecidableEq, Repr

namespace Diagnostic

/-- Diagnostics are ordered by place, level and message. -/
def cmp (a b : Diagnostic) : Ordering :=
  (a.span.cmp b.span).then <|
    (compare a.level.rank b.level.rank).then <| compare a.message b.message

/-- The message, which says so if it is only a suspicion. -/
def finding (d : Diagnostic) : String :=
  match d.level with
  | .heresy => d.message
  | .suspicion => "suspicious: " ++ d.message

/-- The line of a report about a diagnostic. -/
def text (d : Diagnostic) : String := s!"{d.span.line}: {d.finding}"

end Diagnostic

/-- A set of diagnostics, in order. -/
structure Diagnostics where
  entries : List Diagnostic
  deriving DecidableEq, Repr

namespace Diagnostics

/-- No diagnostics. -/
def empty : Diagnostics := ⟨[]⟩

/-- The set with one more diagnostic. -/
def push (ds : Diagnostics) (d : Diagnostic) : Diagnostics :=
  ⟨Sorted.insert Diagnostic.cmp d ds.entries⟩

/-- The number of diagnostics. -/
def size (ds : Diagnostics) : Nat := ds.entries.length

/-- Whether there is none. -/
def isEmpty (ds : Diagnostics) : Bool := ds.entries.isEmpty

/-- Whether one of them is more than a suspicion. -/
def hasHeresies (ds : Diagnostics) : Bool := ds.entries.any (·.level == .heresy)

end Diagnostics

end Gradual
