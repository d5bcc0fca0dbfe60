import Std.Data.ExtTreeMap
import Gradual.Reading
import Gradual.Text.Blank
import Gradual.Text.Lines

/-!
# Types in comments

The type of an assignment may be stated in a comment on its line, after the marker `#::`. A comment
whose text is no type is ignored.

* `scanHints`: the texts after the marker, by line;
* `Hints`, `Hints.ofTexts`, `Hints.ofSource`: the types that they state, and the comments that are
  ignored.
-/

namespace Gradual

open Text

/-- The first result of `f` on an end of the text, from the longest to the shortest. -/
def firstMatch {α : Type} (f : List Char → Option α) : List Char → Option α
  | [] => f []
  | c :: cs =>
    match f (c :: cs) with
    | some a => some a
    | none => firstMatch f cs

/-- What stands after `mark` at the head of a text. -/
def afterMark (mark text : List Char) : Option (List Char) :=
  if mark.isPrefixOf text then some (text.drop mark.length) else none

/-- The results of `f` on the lines of a text, by line number. -/
def scanLines (f : List Char → Option String) (source : String) : List (Nat × String) :=
  (splitLines source.toList).zipIdx 1 |>.filterMap fun (line, n) => (f line).map (n, ·)

/-- What stands before a type in a comment. -/
def hintMarker : List Char := ['#', ':', ':']

/-- What a line states after the marker, if that is more than white space. -/
def hintText (line : List Char) : Option String :=
  match (firstMatch (afterMark hintMarker) line).map trim with
  | none | some [] => none
  | some text => some (String.ofList text)

/-- The texts after the marker, by line. -/
def scanHints (source : String) : Std.ExtTreeMap Nat String :=
  .ofList (scanLines hintText source)

/-- The types stated in comments, by line. -/
abbrev Hints := Std.ExtTreeMap Nat Expr

/-- A comment that is ignored, and why. -/
structure IgnoredHint where
  line : Nat
  text : String
  error : ReadError

/-- The types that some texts state, and the texts that state none, in the order of lines. -/
def Hints.ofTexts (texts : Std.ExtTreeMap Nat String) : Hints × List IgnoredHint :=
  let step (r : Hints × List IgnoredHint) (entry : Nat × String) : Hints × List IgnoredHint :=
    match readHint entry.1 entry.2 with
    | .ok e => (r.1.insert entry.1 e, r.2)
    | .error e => (r.1, r.2 ++ [⟨entry.1, entry.2, e⟩])
  texts.toList.foldl step (∅, [])

/-- The types stated in the comments of a text, and the comments that are ignored. -/
def Hints.ofSource (source : String) : Hints × List IgnoredHint := Hints.ofTexts (scanHints source)

end Gradual
