import Gradual.Hint
import Gradual.Ty.Text

/-!
# The log of a check

A check records what it does as events. Each event has the least verbosity at which it is shown, and
a log may be limited to a verbosity: it then keeps only what is shown there.

* `Event`, `Event.threshold`, `Event.isTrace`;
* `Event.text`: the message and then the fields of an event;
* `Log`, `Log.limit?`, `Log.record`: the events so far, of which a limited log keeps some.
-/

namespace Gradual

/-- Something that a check does. -/
inductive Event where
  | ignoredHint (hint : IgnoredHint)
  | parsedModule (statements hints : Nat)
  | unsupported (construct : String) (line : Nat)
  | unsupportedHint (construct : String) (line : Nat)
  | unrecognized (ty : Ty) (symbol : String) (line : Nat)
  | entering (function : String) (line : Nat)
  | leaving (function : String) (apparent : Ty) (line : Nat)
  | returning (actual expected : Ty) (line : Nat)
  | exploring (expected : Option Ty) (line : Nat)
  | inferred (form : String) (ty : Ty) (line : Nat)
  | binding (name : String) (ty : Ty)
  | finished (violations : Nat)

namespace Event

/-- The least verbosity at which an event is shown. -/
def threshold : Event → Nat
  | ignoredHint _ | parsedModule _ _ | unsupportedHint _ _ | finished _ => 0
  | unsupported _ _ | unrecognized _ _ _ | binding _ _ => 1
  | entering _ _ | leaving _ _ _ => 2
  | returning _ _ _ | exploring _ _ | inferred _ _ _ => 3

/-- Whether an event is a detail that only traces show. -/
def isTrace : Event → Bool
  | returning _ _ _ | exploring _ _ | inferred _ _ _ => true
  | _ => false

/-- The name of the level of an event. -/
def level (e : Event) : String := if e.isTrace then "TRACE" else "DEBUG"

/-- The message and then the fields of an event. -/
def text : Event → String
  | ignoredHint h =>
    s!"ignoring comment annotation line={h.line} annotation={h.text} error={h.error.headline}"
  | parsedModule statements hints =>
    s!"parsed module statements={statements} annotations={hints}"
  | unsupported construct line => s!"unsupported {construct} line={line}"
  | unsupportedHint construct line =>
    s!"ignoring comment annotation: unsupported {construct} line={line}"
  | unrecognized ty symbol line =>
    s!"type '{ty.text}' is not recognized; cannot check this '{symbol}' line={line}"
  | entering function line => s!"entering function '{function}' line={line}"
  | leaving function apparent line =>
    s!"leaving function '{function}' with apparent return '{apparent.text}' line={line}"
  | returning actual expected line =>
    s!"checking if '{actual.text}' fits expected return '{expected.text}' line={line}"
  | exploring expected line =>
    let goal := match expected with
      | some ty => ty.text
      | none => "nothing"
    s!"exploring conditional expecting to return '{goal}' line={line}"
  | inferred form ty line => s!"type of {form} is '{ty.text}' line={line}"
  | binding name ty => s!"{name} :: {ty.text}"
  | finished violations => s!"check finished violations={violations}"

end Event

/-- An entry of a log: the verbosity that the log is limited to, or an event. -/
inductive Entry where
  | limit (verbosity : Nat)
  | event (event : Event)

/-- The event of an entry. -/
def Entry.event? : Entry → Option Event
  | limit _ => none
  | event e => some e

/-- The events in the order in which they happened. A limited log starts with its limit. -/
abbrev Log := Array Entry

namespace Log

/-- A log without events, limited to a verbosity if one is given. -/
def start : Option Nat → Log
  | none => #[]
  | some verbosity => #[.limit verbosity]

/-- The verbosity that a log is limited to. -/
def limit? (log : Log) : Option Nat :=
  match log.toList with
  | .limit verbosity :: _ => some verbosity
  | _ => none

/-- Adds an event, unless it is not shown at the verbosity that the log is limited to. -/
def record (log : Log) (event : Event) : Log :=
  if log.limit?.all (event.threshold ≤ ·) then log.push (.event event) else log

/-- The events of a log. -/
def events (log : Log) : List Event := log.toList.filterMap Entry.event?

/-- The events of a log that are shown at a verbosity. -/
def shown (log : Log) (verbosity : Nat) : List Event :=
  log.events.filter (·.threshold ≤ verbosity)

end Log

end Gradual
