/-!
# Documents for other programs

A report can be written as a JSON document, with the members of an object and the elements of an
array each on a line of their own and indented by two spaces.

* `Document`: texts, numbers, arrays and objects;
* `Document.render`.
-/

namespace Gradual

/-- The value of a JSON document. -/
inductive Document where
  | text (value : String)
  | number (value : Nat)
  | array (elements : List Document)
  | object (members : List (String × Document))

namespace Document

/-- A control character as four hexadecimal digits. -/
def controlEscape (c : Char) : List Char :=
  ['\\', 'u', '0', '0', Nat.digitChar (c.toNat / 16), Nat.digitChar (c.toNat % 16)]

/-- A character inside quotes. -/
def escape (c : Char) : List Char :=
  match c with
  | '\x22' => ['\\', '\x22']
  | '\\' => ['\\', '\\']
  | '\x08' => ['\\', 'b']
  | '\x0c' => ['\\', 'f']
  | '\n' => ['\\', 'n']
  | '\r' => ['\\', 'r']
  | '\t' => ['\\', 't']
  | c => if c.toNat < 0x20 then controlEscape c else [c]

/-- A text in quotes. -/
def quote (s : String) : String := "\"" ++ String.ofList (s.toList.flatMap escape) ++ "\""

/-- Some lines between brackets, indented by `depth` levels more than the closing one. -/
def bracket (opening closing : String) (depth : Nat) (lines : List String) : String :=
  let indent (n : Nat) := String.ofList (List.replicate (2 * n) ' ')
  if lines.isEmpty then opening ++ closing
  else
    opening ++ "\n" ++ ",\n".intercalate (lines.map (indent (depth + 1) ++ ·)) ++ "\n" ++
      indent depth ++ closing

mutual

/-- The text of a value inside `depth` arrays and objects. -/
def renderAt (depth : Nat) : Document → String
  | text value => quote value
  | number value => toString value
  | array elements => bracket "[" "]" depth (renderElements (depth + 1) elements)
  | object members => bracket "\x7b" "\x7d" depth (renderMembers (depth + 1) members)
termination_by structural d => d

/-- The texts of the elements of an array. -/
def renderElements (depth : Nat) : List Document → List String
  | [] => []
  | d :: ds => d.renderAt depth :: renderElements depth ds
termination_by structural ds => ds

/-- The texts of the members of an object. -/
def renderMembers (depth : Nat) : List (String × Document) → List String
  | [] => []
  | (name, d) :: ms => (quote name ++ ": " ++ d.renderAt depth) :: renderMembers depth ms
termination_by structural ms => ms

end

/-- The text of a document. -/
def render (d : Document) : String := d.renderAt 0

end Document

end Gradual
