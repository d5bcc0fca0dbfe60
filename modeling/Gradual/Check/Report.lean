import Gradual.Check.Module

/-!
# Checking a source text

* `Report`: the statements of a text, what is wrong with them, and what they bind;
* `check`: the report about a text, or why it could not be read.
-/

namespace Gradual

/-- What a check says about a source text. The bindings are those of the module, by name. -/
structure Report where
  statements : List Statement
  diagnostics : Diagnostics
  bindings : List (String × Ty)
  log : Log

/-- Whether nothing is wrong. -/
def Report.isClean (r : Report) : Bool := r.diagnostics.isEmpty

/-- The report about some statements with types in comments. -/
def reportOn (builtins : Builtins) (hints : Hints × List IgnoredHint)
    (statements : List Statement) (verbosity : Option Nat := some 0) : Report :=
  let start := hints.2.foldl (fun c h => c.record (.ignoredHint h))
    (Checker.new builtins verbosity)
  let start := start.record (.parsedModule statements.length hints.1.size)
  let checker := (start.withHints hints.1).checkModule statements
  let finish := checker.record (.finished checker.diagnostics.size)
  ⟨statements, finish.diagnostics, finish.bindings, finish.state.log⟩

/-- The report about a source text, whose types in comments count if `useHints`. The log is limited
to a verbosity if one is given. -/
def check (builtins : Builtins) (useHints : Bool) (source : String)
    (verbosity : Option Nat := some 0) : Except ReadError Report := do
  let statements ← readModule source
  let hints := if useHints then Hints.ofSource source else (∅, [])
  return reportOn builtins hints statements verbosity

end Gradual
