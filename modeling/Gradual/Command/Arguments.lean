/-!
# Arguments of the command line

The first argument may name a command, `check` or `test`; without one, it is `check`. Options may
stand anywhere up to an argument `--`. The arguments are read from the left, and the first one that
asks for a text or is wrong decides.

* `Opt`, `Item`, `items`: options and operands;
* `Request`: what is asked for;
* `Request.ofArguments?`: nothing is asked for if the arguments are wrong.
-/

namespace Gradual

/-- The options. -/
inductive Opt where
  | verbose
  | format
  | dumpTokens
  | noHints
  | help
  | version
  deriving DecidableEq, Repr

namespace Opt

/-- The long name of an option. -/
def long : Opt → String
  | verbose => "verbose"
  | format => "format"
  | dumpTokens => "dump-tokens"
  | noHints => "no-comment-annotations"
  | help => "help"
  | version => "version"

/-- The one-letter name of an option. -/
def short? : Opt → Option Char
  | verbose => some 'v'
  | help => some 'h'
  | version => some 'V'
  | _ => none

/-- Whether a value belongs to an option. -/
def takesValue (o : Opt) : Bool := o = format

end Opt

/-- A part of the command line. -/
inductive Item where
  | flag (o : Opt)
  | valued (o : Opt) (value : String)
  | operand (text : String)
  | wrong
  deriving DecidableEq, Repr

/-- Whether an argument is written like an option. -/
def isOption (argument : String) : Bool :=
  match argument.toList with
  | '-' :: _ :: _ => true
  | _ => false

/-- The options that an argument of one-letter names gives. -/
def shortItems (known : List Opt) (letters : List Char) : List Item :=
  letters.map fun c =>
    match known.find? (·.short? == some c) with
    | some o => .flag o
    | none => .wrong

/-- The name and the value of a long option. -/
def splitValue (text : List Char) : String × Option String :=
  let name := String.ofList (text.takeWhile (· != '='))
  match text.dropWhile (· != '=') with
  | [] => (name, none)
  | _ :: value => (name, some (String.ofList value))

/-- The parts of a command line with the options `known`, after an option that waits for its value.
The value of an option follows an equals sign, or is the next argument if that is not written like
an option. -/
def items (known : List Opt) (waiting : Option Opt) : List String → List Item
  | [] => if waiting.isSome then [.wrong] else []
  | argument :: rest =>
    match waiting with
    | some o => if isOption argument then [.wrong] else .valued o argument :: items known none rest
    | none =>
      match argument.toList with
      | ['-', '-'] => rest.map .operand
      | '-' :: '-' :: text =>
        let (name, value) := splitValue text
        match known.find? (·.long == name), value with
        | none, _ => [.wrong]
        | some o, some value =>
          if o.takesValue then .valued o value :: items known none rest else [.wrong]
        | some o, none =>
          if o.takesValue then items known (some o) rest else .flag o :: items known none rest
      | '-' :: c :: letters => shortItems known (c :: letters) ++ items known none rest
      | _ => .operand argument :: items known none rest

/-- How violations are written. -/
inductive Format where
  | text
  | json
  deriving DecidableEq, Repr

/-- The format with a name. -/
def Format.ofName? : String → Option Format
  | "text" => some text
  | "json" => some json
  | _ => none

/-- The check of a file. -/
structure CheckRequest where
  path : String
  verbose : Nat
  format : Format
  dumpTokens : Bool
  noHints : Bool
  deriving DecidableEq, Repr

/-- The comparison of sample files with their expected errors. -/
structure SampleRequest where
  paths : List String
  verbose : Nat
  deriving DecidableEq, Repr

/-- The commands. -/
inductive Command where
  | check
  | test
  deriving DecidableEq, Repr

/-- What is asked for. -/
inductive Request where
  | check (r : CheckRequest)
  | test (r : SampleRequest)
  | help (c : Command)
  | version (c : Command)
  deriving DecidableEq, Repr

/-- Why the reading of a command line ends early. -/
inductive Stop where
  | wrong
  | help
  | version
  deriving DecidableEq, Repr

/-! ## The command `check` -/

/-- What a command line has said so far. -/
structure CheckDraft where
  path : Option String
  verbose : Nat
  format : Option Format
  dumpTokens : Bool
  noHints : Bool

/-- One more part of a command line. Only the verbosity may be given more than once. -/
def CheckDraft.add (d : CheckDraft) : Item → Except Stop CheckDraft
  | .flag .verbose => .ok { d with verbose := d.verbose + 1 }
  | .flag .dumpTokens => if d.dumpTokens then .error .wrong else .ok { d with dumpTokens := true }
  | .flag .noHints => if d.noHints then .error .wrong else .ok { d with noHints := true }
  | .flag .help => .error .help
  | .flag .version => .error .version
  | .valued .format name =>
    match Format.ofName? name, d.format with
    | some f, none => .ok { d with format := some f }
    | _, _ => .error .wrong
  | .operand path =>
    if path.isEmpty || d.path.isSome then .error .wrong else .ok { d with path := some path }
  | _ => .error .wrong

/-- The check that a command line asks for. -/
def readCheck (arguments : List String) : Except Stop CheckRequest := do
  let known := [.verbose, .format, .dumpTokens, .noHints, .help, .version]
  let d ← (items known none arguments).foldlM CheckDraft.add ⟨none, 0, none, false, false⟩
  match d.path with
  | some path => return ⟨path, d.verbose, d.format.getD .text, d.dumpTokens, d.noHints⟩
  | none => .error .wrong

/-! ## The command `test` -/

/-- One more part of a command line. -/
def SampleRequest.add (r : SampleRequest) : Item → Except Stop SampleRequest
  | .flag .verbose => .ok { r with verbose := r.verbose + 1 }
  | .flag .help => .error .help
  | .flag .version => .error .version
  | .operand path =>
    if path.isEmpty then .error .wrong else .ok { r with paths := r.paths ++ [path] }
  | _ => .error .wrong

/-- The comparison that a command line asks for. -/
def readTest (arguments : List String) : Except Stop SampleRequest :=
  (items [.verbose, .help, .version] none arguments).foldlM SampleRequest.add ⟨[], 0⟩

/-! ## All commands -/

/-- What a command line asks for, from what reading it gave. -/
def Request.ofResult? {α : Type} (c : Command) (make : α → Request) : Except Stop α → Option Request
  | .ok r => some (make r)
  | .error .help => some (.help c)
  | .error .version => some (.version c)
  | .error .wrong => none

/-- What a command line asks for. -/
def Request.ofArguments? : List String → Option Request
  | "test" :: arguments => Request.ofResult? .test .test (readTest arguments)
  | "check" :: arguments => Request.ofResult? .check .check (readCheck arguments)
  | arguments => Request.ofResult? .check .check (readCheck arguments)

end Gradual
