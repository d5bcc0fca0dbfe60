import Gradual.Number.Binary64
import Gradual.Source.Span

/-!
# Tokens

A source text is a sequence of tokens. Indentation is part of it: a line that is indented deeper
than the one before opens a block with an `indent` token, and a `dedent` token closes each block
that ends.

* `Keyword`, `Keyword.spelling`, `Keyword.ofSpelling?`;
* `Keyword.opensUnsupported`: the keywords of statements that are read over and not checked;
* `Mark`, `Mark.table`: punctuation and operators, with their spellings;
* `TokenKind`, `Token`, `Token.span`.
-/

namespace Gradual

open Number Source

/-! ## Keywords -/

/-- The reserved words. -/
inductive Keyword where
  | defKw | returnKw | ifKw | elifKw | elseKw | passKw | andKw | orKw | notKw | inKw | isKw
  | lambdaKw | forKw | whileKw | classKw | tryKw | exceptKw | finallyKw | withKw | importKw
  | fromKw | globalKw | nonlocalKw | delKw | assertKw | raiseKw | breakKw | continueKw
  | yieldKw | asyncKw | awaitKw
  deriving DecidableEq, Repr

namespace Keyword

/-- All reserved words. -/
def all : List Keyword :=
  [defKw, returnKw, ifKw, elifKw, elseKw, passKw, andKw, orKw, notKw, inKw, isKw, lambdaKw, forKw,
   whileKw, classKw, tryKw, exceptKw, finallyKw, withKw, importKw, fromKw, globalKw, nonlocalKw,
   delKw, assertKw, raiseKw, breakKw, continueKw, yieldKw, asyncKw, awaitKw]

/-- How a reserved word is written. -/
def spelling : Keyword → String
  | defKw => "def"
  | returnKw => "return"
  | ifKw => "if"
  | elifKw => "elif"
  | elseKw => "else"
  | passKw => "pass"
  | andKw => "and"
  | orKw => "or"
  | notKw => "not"
  | inKw => "in"
  | isKw => "is"
  | lambdaKw => "lambda"
  | forKw => "for"
  | whileKw => "while"
  | classKw => "class"
  | tryKw => "try"
  | exceptKw => "except"
  | finallyKw => "finally"
  | withKw => "with"
  | importKw => "import"
  | fromKw => "from"
  | globalKw => "global"
  | nonlocalKw => "nonlocal"
  | delKw => "del"
  | assertKw => "assert"
  | raiseKw => "raise"
  | breakKw => "break"
  | continueKw => "continue"
  | yieldKw => "yield"
  | asyncKw => "async"
  | awaitKw => "await"

/-- The reserved word written as `text`. -/
def ofSpelling? (text : String) : Option Keyword := all.find? (·.spelling == text)

/-- Whether the word opens a statement that is read over and not checked. -/
def opensUnsupported : Keyword → Bool
  | forKw | whileKw | classKw | tryKw | exceptKw | finallyKw | withKw | importKw | fromKw | globalKw
  | nonlocalKw | delKw | assertKw | raiseKw | breakKw | continueKw | asyncKw | elseKw => true
  | _ => false

end Keyword

/-! ## Punctuation and operators -/

/-- Punctuation and operators. All operators that assign in place are one mark. -/
inductive Mark where
  | lparen | rparen | lbrace | rbrace | lbracket | rbracket | comma | dot | ellipsis | colon
  | colonEqual | semicolon | equal | augmented | doubleEqual | bangEqual | greater | greaterEqual
  | greaterGreater | less | lessEqual | lessLess | plus | minus | star | doubleStar | slash
  | doubleSlash | percent | atSign | pipe | ampersand | caret | tilde | arrow
  deriving DecidableEq, Repr

namespace Mark

/-- The spellings in the order in which they are tried, so that a longer one comes before its
beginnings. -/
def table : List (String × Mark) :=
  [("**=", augmented), ("//=", augmented), (">>=", augmented), ("<<=", augmented),
   ("...", ellipsis), ("->", arrow), (":=", colonEqual), ("==", doubleEqual), ("!=", bangEqual),
   (">=", greaterEqual), ("<=", lessEqual), (">>", greaterGreater), ("<<", lessLess),
   ("**", doubleStar), ("//", doubleSlash), ("+=", augmented), ("-=", augmented),
   ("*=", augmented), ("/=", augmented), ("%=", augmented), ("@=", augmented), ("&=", augmented),
   ("|=", augmented), ("^=", augmented), ("(", lparen), (")", rparen), ("[", lbracket),
   ("]", rbracket), ("\x7b", lbrace), ("\x7d", rbrace), (",", comma), (".", dot), (":", colon),
   (";", semicolon), ("=", equal), (">", greater), ("<", less), ("+", plus), ("-", minus),
   ("*", star), ("/", slash), ("%", percent), ("@", atSign), ("|", pipe), ("&", ampersand),
   ("^", caret), ("~", tilde)]

/-- The first entry of the table whose spelling starts the text. -/
def find? (text : List Char) : Option (String × Mark) :=
  table.find? fun entry => entry.1.toList.isPrefixOf text

/-- Whether the mark opens a bracket. -/
def opens : Mark → Bool
  | lparen | lbracket | lbrace => true
  | _ => false

/-- Whether the mark closes a bracket. -/
def closes : Mark → Bool
  | rparen | rbracket | rbrace => true
  | _ => false

end Mark

/-! ## Tokens -/

/-- What a token is, with the value that a literal denotes. -/
inductive TokenKind where
  | identifier
  | integer (value : Nat)
  | float (value : Binary64)
  | imaginary (value : Binary64)
  | string (value : String)
  | bytes (value : String)
  | keyword (word : Keyword)
  | newline
  | indent
  | dedent
  | mark (m : Mark)
  | eof
  deriving DecidableEq, Repr

/-- A token with the text it was read from and the place of its first character. -/
structure Token where
  kind : TokenKind
  lexeme : String
  start : Position
  deriving DecidableEq, Repr

/-- The characters of a token; one without text takes the place where it stands. -/
def Token.span (t : Token) : Span :=
  ⟨t.start.line, t.start.column, t.start.line, t.start.column + (max t.lexeme.length 1 - 1)⟩

end Gradual
