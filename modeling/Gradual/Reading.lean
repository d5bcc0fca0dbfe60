import Gradual.Statement.Parser
import Gradual.Token.Lexer

/-!
# Reading a source text

* `ReadError`, `ReadError.chain`, `ReadError.chainIn`: what can be wrong with a source text, with
  its causes;
* `readModule`: the statements of a text;
* `readHint`: a type written in a comment, as if it stood on the comment's line.
-/

namespace Gradual

open Source

/-- What can be wrong with a source text. -/
inductive ReadError where
  | lex (e : LexError)
  | parse (e : ParseError)
  deriving DecidableEq, Repr

/-- The message and then the messages of its causes. -/
def ReadError.chain : ReadError → List String
  | .lex e => e.chain
  | .parse e => [e.message]

/-- The message without its causes. -/
def ReadError.headline (e : ReadError) : String := e.chain.headD ""

/-- The same, for the text of the file `path`. -/
def ReadError.chainIn (path : String) (e : ReadError) : List String :=
  let stage := match e with
    | .lex _ => "lex"
    | .parse _ => "parse"
  s!"failed to {stage} {path}" :: e.chain

/-- The statements of a text. -/
def readModule (source : String) : Except ReadError (List Statement) :=
  match tokenize source with
  | .error e => .error (.lex e)
  | .ok tokens =>
    match parseModule tokens with
    | .error e => .error (.parse e)
    | .ok statements => .ok statements

/-- The same token on another line. -/
def Token.onLine (line : Nat) (t : Token) : Token := { t with start := ⟨line, t.start.column⟩ }

/-- The type that a comment on the line `line` states. -/
def readHint (line : Nat) (text : String) : Except ReadError Expr :=
  match tokenize text with
  | .error e => .error (.lex e)
  | .ok tokens =>
    match parseHint (tokens.map (·.onLine line)) with
    | .error e => .error (.parse e)
    | .ok expression => .ok expression

end Gradual
