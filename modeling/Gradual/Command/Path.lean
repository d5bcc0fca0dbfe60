/-!
# Paths

A path is a text whose segments are separated by slashes. Two paths that differ only in repeated or
trailing slashes and in segments `.` after the first one have the same parts, and are the same path.

* `Path.segments`: what stands between the slashes;
* `Path.parts`, `Path.cmp`: paths are ordered by their parts;
* `Path.child`: the path of an entry of a directory;
* `Path.isSource`: whether a path names a source file.
-/

namespace Gradual.Path

/-- What stands between the slashes of a path. -/
def segments : List Char → List (List Char)
  | [] => [[]]
  | c :: cs =>
    if c = '/' then [] :: segments cs
    else
      match segments cs with
      | [] => [[c]]
      | s :: ss => (c :: s) :: ss

/-- A part of a path: the root of all files, the current directory, the directory above, or an
entry. -/
inductive Part where
  | root
  | here
  | above
  | entry (name : String)
  deriving DecidableEq, Repr

/-- The order of the kinds of parts. -/
def Part.rank : Part → Nat
  | root => 0
  | here => 1
  | above => 2
  | entry _ => 3

/-- Parts are ordered by kind, and entries by name. -/
def Part.cmp : Part → Part → Ordering
  | entry m, entry n => compare m n
  | a, b => compare a.rank b.rank

/-- The part that a segment after the first one stands for, if any. -/
def Part.ofSegment? : List Char → Option Part
  | [] | ['.'] => none
  | ['.', '.'] => some above
  | name => some (entry (String.ofList name))

/-- The parts of a path. -/
def parts (path : String) : List Part :=
  match segments path.toList with
  | [] :: next :: rest => .root :: (next :: rest).filterMap Part.ofSegment?
  | ['.'] :: rest => .here :: rest.filterMap Part.ofSegment?
  | all => all.filterMap Part.ofSegment?

/-- The order of lists of parts: the first difference counts. -/
def cmpParts : List Part → List Part → Ordering
  | [], [] => .eq
  | [], _ :: _ => .lt
  | _ :: _, [] => .gt
  | a :: as, b :: bs => (a.cmp b).then (cmpParts as bs)

/-- Paths are ordered by their parts. -/
def cmp (a b : String) : Ordering := cmpParts (parts a) (parts b)

/-- The path of an entry of a directory. -/
def child (directory name : String) : String :=
  if directory.toList.getLast? = some '/' then directory ++ name else directory ++ "/" ++ name

/-- The extension of source files. -/
def extension : List Char := ['.', 'p', 'y']

/-- Whether a path names a source file: an entry with the extension of source files, which is not
its whole name. -/
def isSource (path : String) : Bool :=
  match (parts path).getLast? with
  | some (.entry name) => extension.isSuffixOf name.toList && name.toList != extension
  | _ => false

end Gradual.Path
