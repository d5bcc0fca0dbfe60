import Gradual.Command.Path
import Gradual.Sorted

/-!
# Files

* `FileFault`: why a file could not be read;
* `Node`: a file, or a directory with its entries;
* `Node.find`: what is found at a path;
* `Node.sources`, `sourceFiles`: the source files at a path and below.
-/

namespace Gradual

/-- Why a file could not be read. -/
inductive FileFault where
  | missing
  | notDirectory
  | isDirectory
  | notText
  | other (reason : String) (code : Nat)
  deriving DecidableEq, Repr

/-- The wording of a fault. -/
def FileFault.message : FileFault → String
  | missing => "No such file or directory (os error 2)"
  | notDirectory => "Not a directory (os error 20)"
  | isDirectory => "Is a directory (os error 21)"
  | notText => "stream did not contain valid UTF-8"
  | other reason code => s!"{reason} (os error {code})"

/-- A file with its contents, or a directory with its entries by name. -/
inductive Node where
  | file (contents : ByteArray)
  | directory (entries : List (String × Node))

instance : Inhabited Node := ⟨.directory []⟩

namespace Node

/-- The text of a file. -/
def text : Node → Except FileFault String
  | directory _ => .error .isDirectory
  | file contents =>
    match String.fromUTF8? contents with
    | some text => .ok text
    | none => .error .notText

/-- Whether it is a directory. -/
def isDirectory : Node → Bool
  | directory _ => true
  | file _ => false

/-- What is found along some segments of a path from `here`, which lies inside the directories
`around`, the innermost first. -/
def walk (around : List Node) (here : Node) : List (List Char) → Except FileFault Node
  | [] => .ok here
  | segment :: rest =>
    match here with
    | file _ => .error .notDirectory
    | directory entries =>
      match segment, around with
      | [], _ | ['.'], _ => walk around here rest
      | ['.', '.'], [] => .error .missing
      | ['.', '.'], outer :: around => walk around outer rest
      | name, _ =>
        match entries.lookup (String.ofList name) with
        | none => .error .missing
        | some next => walk (here :: around) next rest

/-- What is found at a path from the directory `root`. Nothing is known of what lies outside it. -/
def find (root : Node) (path : String) : Except FileFault Node :=
  match Path.segments path.toList with
  | [] :: _ => .error .missing
  | segments => walk [] root segments

mutual

/-- The source files at a path and below, with their contents. -/
def sources (path : String) : Node → List (String × ByteArray)
  | file contents => if Path.isSource path then [(path, contents)] else []
  | directory entries => entrySources path entries
termination_by structural n => n

/-- The source files below some entries of the directory at a path. -/
def entrySources (path : String) : List (String × Node) → List (String × ByteArray)
  | [] => []
  | (name, node) :: entries => node.sources (Path.child path name) ++ entrySources path entries
termination_by structural entries => entries

end

end Node

/-- What is found at a path. -/
abbrev Files := String → Except FileFault Node

/-- The source files at some paths and below, in the order of paths and each only once, or the first
path at which nothing is found. -/
def sourceFiles (files : Files) (paths : List String) :
    Except (String × FileFault) (List (String × ByteArray)) := do
  let found ← paths.mapM fun path =>
    match files path with
    | .ok node => .ok (node.sources path)
    | .error fault => .error (path, fault)
  return Sorted.ofList (fun a b => Path.cmp a.1 b.1) found.flatten

end Gradual
