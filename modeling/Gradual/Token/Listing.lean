import Gradual.Number.Shortest
import Gradual.Text.Quoted
import Gradual.Token.Basic

/-!
# Listing of tokens

Each token is listed on a line of its own with its kind, its text and its place.

* `Mark.name`, `Keyword.name`, `TokenKind.name`: the names of the kinds;
* `TokenKind.payload`: the value of a literal;
* `Token.listing`: the line of a token.
-/

namespace Gradual

/-- The name of a mark. -/
def Mark.name : Mark → String
  | .lparen => "LParen"
  | .rparen => "RParen"
  | .lbrace => "LBrace"
  | .rbrace => "RBrace"
  | .lbracket => "LBracket"
  | .rbracket => "RBracket"
  | .comma => "Comma"
  | .dot => "Dot"
  | .ellipsis => "Ellipsis"
  | .colon => "Colon"
  | .colonEqual => "ColonEqual"
  | .semicolon => "Semicolon"
  | .equal => "Equal"
  | .augmented => "AugmentedAssign"
  | .doubleEqual => "DoubleEqual"
  | .bangEqual => "BangEqual"
  | .greater => "Greater"
  | .greaterEqual => "GreaterEqual"
  | .greaterGreater => "GreaterGreater"
  | .less => "Less"
  | .lessEqual => "LessEqual"
  | .lessLess => "LessLess"
  | .plus => "Plus"
  | .minus => "Minus"
  | .star => "Star"
  | .doubleStar => "DoubleStar"
  | .slash => "Slash"
  | .doubleSlash => "DoubleSlash"
  | .percent => "Percent"
  | .atSign => "At"
  | .pipe => "Pipe"
  | .ampersand => "Ampersand"
  | .caret => "Caret"
  | .tilde => "Tilde"
  | .arrow => "Arrow"

/-- The name of a reserved word: its spelling with a capital letter. -/
def Keyword.name (k : Keyword) : String := k.spelling.capitalize

/-- The name of a kind, without the value of a literal or the word that a keyword is. -/
def TokenKind.name : TokenKind → String
  | .identifier => "Identifier"
  | .integer _ => "IntegerLiteral"
  | .float _ => "FloatLiteral"
  | .imaginary _ => "ImaginaryLiteral"
  | .string _ => "StringLiteral"
  | .bytes _ => "BytesLiteral"
  | .keyword _ => "Keyword"
  | .newline => "Newline"
  | .indent => "Indent"
  | .dedent => "Dedent"
  | .mark m => m.name
  | .eof => "Eof"

/-- The value of a literal or the word that a keyword is, in parentheses; nothing for other kinds.
-/
def TokenKind.payload : TokenKind → String
  | .integer n => s!"({n})"
  | .float x => s!"({x.render})"
  | .imaginary x => s!"({x.render})"
  | .string s => "(" ++ Text.quoted s ++ ")"
  | .bytes s => "(" ++ Text.quoted s ++ ")"
  | .keyword k => s!"({k.name})"
  | _ => ""

/-- The line of a token. -/
def Token.listing (t : Token) : String :=
  "Token \x7b kind: " ++ t.kind.name ++ t.kind.payload ++ ", lexeme: " ++ Text.quoted t.lexeme ++
    ", line: " ++ toString t.start.line ++ ", column: " ++ toString t.start.column ++ " \x7d"

end Gradual
