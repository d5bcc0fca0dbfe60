import Gradual.Text.Printable

/-!
# Quoted text

Text between double quotation marks, with an escape for each character that would not be seen, that
would join the character before it, or that would end the quotation.

* `escape`: how one character is written;
* `quoted`: how a text is written.
-/

namespace Gradual.Text

/-- The escape of a character by its code point in hexadecimal. -/
def escapeCodePoint (c : Char) : List Char :=
  ['\\', 'u', '\x7b'] ++ Nat.toDigits 16 c.toNat ++ ['\x7d']

/-- How a character is written between quotation marks. -/
def escape (c : Char) : List Char :=
  match c with
  | '\x00' => ['\\', '0']
  | '\t' => ['\\', 't']
  | '\r' => ['\\', 'r']
  | '\n' => ['\\', 'n']
  | '\\' => ['\\', '\\']
  | '\x22' => ['\\', '\x22']
  | c => if isExtendingMark c || !isPrintable c then escapeCodePoint c else [c]

/-- A text between quotation marks. -/
def quoted (s : String) : String :=
  String.ofList ('\x22' :: s.toList.flatMap escape ++ ['\x22'])

end Gradual.Text
