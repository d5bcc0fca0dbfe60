import Gradual.Check.Report
import Gradual.Command.Arguments
import Gradual.Command.Document
import Gradual.Command.Files
import Gradual.Sample
import Gradual.Token.Listing

/-!
# The command line

* `Run`: what a run writes, and the failure that it ends with;
* `debugLevel`: the verbosity that the environment asks for;
* `Request.run`: what is done about a request;
* `Request.paths`: the paths that it looks at.
-/

namespace Gradual

open Text

/-- What a run writes to the output and to the log, line by line, and the failure that it ends with:
a message and its causes. -/
structure Run where
  output : List String
  log : List String
  failure : Option (List String)
  deriving DecidableEq, Repr

namespace Run

/-- A run that fails before it writes anything. -/
def failed (chain : List String) : Run := ⟨[], [], some chain⟩

/-- A run that first writes some lines. -/
def preceded (output log : List String) (r : Run) : Run :=
  ⟨output ++ r.output, log ++ r.log, r.failure⟩

/-- The causes of a failure; they are numbered if there are several. -/
def causeLines : List String → List String
  | [] => []
  | [cause] => ["", "Caused by:", "    " ++ cause]
  | causes => "" :: "Caused by:" :: causes.mapIdx fun i cause => s!"    {i}: {cause}"

/-- What is said about the failure of a run. -/
def errorLines (r : Run) : List String :=
  match r.failure with
  | none => []
  | some chain => ("Error: " ++ chain.headD "") :: causeLines chain.tail

/-- The exit status of a run. -/
def status (r : Run) : Nat := if r.failure.isSome then 1 else 0

end Run

/-! ## Verbosity -/

/-- A number below 256 in decimal digits, after an optional plus sign. -/
def smallNumber? (text : List Char) : Option Nat :=
  let digits := match text with
    | '+' :: digits => digits
    | digits => digits
  if digits.isEmpty || digits.any (!·.isDigit) then none
  else
    let n := digits.foldl (fun n c => 10 * n + (c.toNat - '0'.toNat)) 0
    if n < 256 then some n else none

/-- The verbosity that the environment asks for. -/
def debugLevel (setting : Option String) : Nat :=
  (setting.bind fun text => smallNumber? (trim text.toList)).getD 0

/-- The lines of the log about the file `path`; a run that is not verbose has no log. -/
def logLines (verbosity : Nat) (path : String) (log : Log) : List String :=
  if verbosity = 0 then []
  else log.events.map fun e => s!"{e.level} check\x7bfile={path}\x7d: {e.text}"

/-! ## Checking a file -/

/-- The text of the file at a path. -/
def readFile (files : Files) (path : String) : Except (List String) String :=
  match files path with
  | .ok node => (node.text).mapError fun fault => ["failed to read " ++ path, fault.message]
  | .error fault => .error ["failed to read " ++ path, fault.message]

/-- The document about a diagnostic. -/
def Diagnostic.document (d : Diagnostic) : Document :=
  .object [("level", .text d.level.name), ("message", .text d.message),
    ("span", .object [("column", .number d.span.column), ("end_column", .number d.span.endColumn),
      ("end_line", .number d.span.endLine), ("line", .number d.span.line)])]

/-- The document about a report. -/
def Report.document (path : String) (r : Report) : Document :=
  let binding (b : String × Ty) : Document :=
    .object [("name", .text b.1), ("type", .text b.2.text)]
  .object [("bindings", .array (r.bindings.map binding)),
    ("diagnostics", .array (r.diagnostics.entries.map Diagnostic.document)), ("file", .text path)]

/-- A report in a format. -/
def Report.lines (path : String) (format : Format) (r : Report) : List String :=
  match format with
  | .text => r.diagnostics.entries.map Diagnostic.text
  | .json => [(r.document path).render]

/-- The listing of the tokens of a text, if it has any. -/
def tokenLines (source : String) : List String :=
  match tokenize source with
  | .ok tokens => tokens.map Token.listing
  | .error _ => []

/-- The failure of a check that found something. -/
def Report.failure (path : String) (r : Report) : Option (List String) :=
  if r.isClean then none else some [s!"{r.diagnostics.size} violation(s) found in {path}"]

/-- Checks a file. -/
def CheckRequest.run (files : Files) (level : Nat) (q : CheckRequest) : Run :=
  match readFile files q.path with
  | .error chain => .failed chain
  | .ok source =>
    let tokens := if q.dumpTokens then tokenLines source else []
    let verbosity := max level q.verbose
    Run.preceded tokens [] <|
      match check .standard (!q.noHints) source (some verbosity) with
      | .error e => .failed (e.chainIn q.path)
      | .ok r => ⟨r.lines q.path q.format, logLines verbosity q.path r.log, r.failure q.path⟩

/-! ## Testing samples -/

/-- The comparison of a sample with its expected errors, and the log of its check. -/
def checkSample (level : Nat) (path : String) (contents : ByteArray) :
    Except (List String) (Comparison × Log) :=
  match (Node.file contents).text with
  | .error fault => .error ["failed to read " ++ path, fault.message]
  | .ok source =>
    match check .standard true source (some level) with
    | .error e => .error (e.chainIn path)
    | .ok r => .ok (compareErrors (expectedErrors source) r.diagnostics, r.log)

/-- The line of the log about a comparison. -/
def Comparison.logLine (c : Comparison) : String :=
  s!"DEBUG sample finished caught={c.caught.length} false_alarms={c.falseAlarms.length} " ++
    s!"missed={c.missed.length}"

/-- How a run over `count` samples ends, of which `failed` were not as expected. -/
def concludeSamples (count failed : Nat) : Run :=
  if 0 < failed then .failed [s!"{failed} of {count} sample file(s) failed"]
  else ⟨["", s!"All {count} sample file(s) passed"], [], none⟩

/-- Tests samples, the last of `count`, after others of which `failed` were not as expected. -/
def runSamples (verbose : Bool) (level count failed : Nat) : List (String × ByteArray) → Run
  | [] => concludeSamples count failed
  | (path, contents) :: rest =>
    let title := "---> " ++ path
    match checkSample level path contents with
    | .error chain => ⟨[title], [], some chain⟩
    | .ok (comparison, log) =>
      let finished := if level = 0 then [] else [comparison.logLine]
      Run.preceded (title :: comparison.lines verbose) (logLines level path log ++ finished) <|
        runSamples verbose level count (if comparison.passed then failed else failed + 1) rest

/-- The directory of the samples, if no path is given. -/
def samplePath : String := "samples"

/-- Whether there is a directory at a path. -/
def Files.hasDirectory (files : Files) (path : String) : Bool :=
  match files path with
  | .ok node => node.isDirectory
  | .error _ => false

/-- The paths at which samples are looked for. Without a path these are the samples here, and else
those of the workspace of the program. -/
def SampleRequest.targets (files : Files) (workspace : Option String) (q : SampleRequest) :
    Except String (List String) :=
  if !q.paths.isEmpty then .ok q.paths
  else if files.hasDirectory samplePath then .ok [samplePath]
  else
    match workspace with
    | none => .error "failed to locate workspace root from manifest dir"
    | some root =>
      let path := Path.child root samplePath
      if files.hasDirectory path then .ok [path]
      else .error "samples/ directory not found; pass explicit paths to `inquisitor test`"

/-- Tests samples. -/
def SampleRequest.run (files : Files) (level : Nat) (q : SampleRequest)
    (workspace : Option String := some ".") : Run :=
  match q.targets files workspace with
  | .error message => .failed [message]
  | .ok paths =>
    match sourceFiles files paths with
    | .error (path, fault) => .failed ["failed to access " ++ path, fault.message]
    | .ok [] => ⟨["no sample files found"], [], none⟩
    | .ok samples => runSamples (0 < q.verbose) level samples.length 0 samples

/-! ## All requests -/

/-- How a command is called. -/
def Command.name : Command → String
  | check => "inquisitor"
  | test => "inquisitor test"

/-- The help about a command. -/
def Command.help : Command → List String
  | check =>
    ["Statically type-check a Python source file.", "", "Usage: inquisitor [OPTIONS] <INPUT>", "",
     "Arguments:", "  <INPUT>  Path to the Python file to check", "",
     "Options:",
     "  -v, --verbose...              Increase log verbosity (repeatable)",
     "      --format <FORMAT>         Output format for reported violations [default: text] " ++
       "[possible values: text, json]",
     "      --dump-tokens             Dump the token stream produced by the lexer",
     "      --no-comment-annotations  Ignore `#::` type comments",
     "  -h, --help                    Print help",
     "  -V, --version                 Print version", "",
     "Subcommands:",
     "  inquisitor test [PATH]...   Check sample files against their ##ERROR markers.", "",
     "Set INQUISITOR_DEBUG=<level> to raise log verbosity without passing -v."]
  | test =>
    ["Run the checker over sample files and compare against their ##ERROR markers.", "",
     "Usage: inquisitor test [OPTIONS] [PATH]...", "",
     "Arguments:",
     "  [PATH]...  Files or directories containing samples (defaults to `samples/`)", "",
     "Options:",
     "  -v, --verbose...  Also list errors that were caught as expected",
     "  -h, --help        Print help",
     "  -V, --version     Print version"]

namespace Request

/-- What is done about a request, with the verbosity that the environment asks for. -/
def run (files : Files) (level : Nat) (r : Request) (workspace : Option String := some ".") : Run :=
  match r with
  | check q => q.run files level
  | test q => q.run files level workspace
  | help c => ⟨c.help, [], none⟩
  | version c => ⟨[c.name ++ " 0.1.0"], [], none⟩

/-- The paths that a request looks at. -/
def paths (workspace : Option String) : Request → List String
  | check q => [q.path]
  | test q =>
    if q.paths.isEmpty then samplePath :: workspace.toList.map (Path.child · samplePath)
    else q.paths
  | help _ | version _ => []

end Request

end Gradual
