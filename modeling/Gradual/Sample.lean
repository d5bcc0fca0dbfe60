import Gradual.Diagnostic
import Gradual.Hint

/-!
# Samples with expected errors

A sample is a source text in which the lines with errors carry the marker `##ERROR` and a text.

* `expectedErrors`: the texts after the marker, by line;
* `Comparison`, `compareErrors`: the expected errors against those that a check reports;
* `Comparison.lines`: how a comparison is reported.
-/

namespace Gradual

open Text

/-- What stands after the marker and white space, at the head of a text. -/
def errorText (text : List Char) : Option (List Char) :=
  match afterMark ['#', '#', 'E', 'R', 'R', 'O', 'R'] text with
  | some (c :: cs) => if isBlank c then some (trim cs) else none
  | _ => none

/-- The texts after the marker, by line. -/
def expectedErrors (source : String) : Std.ExtTreeMap Nat String :=
  .ofList (scanLines (fun line => (firstMatch errorText line).map String.ofList) source)

/-- An error on a line. -/
structure LineError where
  line : Nat
  message : String
  deriving DecidableEq, Repr

/-- The expected errors against the reported ones: those reported where one was expected, those
reported elsewhere, and those expected on lines without a report. -/
structure Comparison where
  caught : List LineError
  falseAlarms : List LineError
  missed : List LineError
  deriving DecidableEq, Repr

/-- The error that a diagnostic reports. -/
def Diagnostic.lineError (d : Diagnostic) : LineError := ⟨d.span.line, d.finding⟩

/-- Compares the expected errors with the reported ones. -/
def compareErrors (expected : Std.ExtTreeMap Nat String) (diagnostics : Diagnostics) : Comparison :=
  let reported := diagnostics.entries.map (·.lineError)
  let (caught, falseAlarms) := reported.partition fun e => expected.contains e.line
  let unreported := expected.toList.filter fun e => !reported.any (·.line == e.1)
  ⟨caught, falseAlarms, unreported.map fun e => ⟨e.1, e.2⟩⟩

namespace Comparison

/-- Whether the check reports errors exactly where they are expected. -/
def passed (c : Comparison) : Bool := c.falseAlarms.isEmpty && c.missed.isEmpty

/-- The report about a comparison, which lists the errors that were caught only if it is verbose. -/
def lines (c : Comparison) (verbose : Bool) : List String :=
  c.falseAlarms.map (fun e => s!"False alarm on line {e.line}: {e.message}") ++
  (if verbose then c.caught.map fun e => s!"Caught error on line {e.line}: {e.message}" else []) ++
  c.missed.map fun e => s!"Didn't catch line {e.line}: {e.message}"

end Comparison

end Gradual
