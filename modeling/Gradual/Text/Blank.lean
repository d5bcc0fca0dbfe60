import Gradual.Text.Ranges

/-!
# White space

White space between a comment's marker and its text, and at the end of that text, is every
character with the Unicode property *White_Space*.

* `blankRanges`, `isBlank`: the property;
* `trimStart`, `trimEnd`, `trim`: text without white space at its ends.
-/

namespace Gradual.Text

/-- The code points with the property *White_Space*. -/
def blankRanges : Ranges :=
  ⟨[(0x9, 0xd), (0x20, 0x20), (0x85, 0x85), (0xa0, 0xa0), (0x1680, 0x1680), (0x2000, 0x200a),
    (0x2028, 0x2029), (0x202f, 0x202f), (0x205f, 0x205f), (0x3000, 0x3000)], by decide +kernel⟩

/-- Whether `c` is white space. -/
def isBlank (c : Char) : Bool := blankRanges.contains c.toNat

/-- The text from its first character that is not white space. -/
def trimStart (cs : List Char) : List Char := cs.dropWhile isBlank

/-- The text up to its last character that is not white space. -/
def trimEnd (cs : List Char) : List Char := (cs.reverse.dropWhile isBlank).reverse

/-- The text without white space at its ends. -/
def trim (cs : List Char) : List Char := trimEnd (trimStart cs)

end Gradual.Text
