import Gradual.Text.Quoted
import Gradual.Token.Basic

/-!
# Streams of tokens

The tokens that a parser has not taken yet. The end of the input is a token of its own, which is
seen and never taken. A result of parsing carries the bound on what is left, so that a parser that
takes something can go on without any other argument for its end.

* `ParseFault`, `ParseError`: what can be wrong, and where;
* `Stream`, `Stream.ofTokens`, `Stream.peek`, `Stream.drop`;
* `Parsed n α`: a value and a rest of fewer than `n` tokens;
* `Stream.next?`, `Stream.take?`, `Stream.expect`: taking one token;
* `Stream.skipWhile`, `Stream.skipToCloser`, `Stream.skipBlock`: taking many.
-/

namespace Gradual

open Source

/-! ## Errors -/

/-- What can be wrong with a sequence of tokens. -/
inductive ParseFault where
  | unexpectedIndent
  | trailingTokens
  | unexpectedToken (lexeme : String)
  | endOfStatement
  | indentedBlock
  | functionName
  | openingParenthesis
  | parameterName
  | parametersEnd
  | signatureColon
  | conditionColon
  | elseColon
  | conditionalElse
  | lambdaColon
  | generatorEnd
  | parenthesisEnd
  | tupleEnd
  | listComprehensionEnd
  | listEnd
  | setEnd
  | dictComprehensionEnd
  | dictEnd
  | dictColon
  | argumentsEnd
  | indexEnd
  | attributeName
  | unclosedBracket
  deriving DecidableEq, Repr

/-- The wording of a fault. -/
def ParseFault.message : ParseFault → String
  | unexpectedIndent => "unexpected indent"
  | trailingTokens => "unexpected trailing tokens in annotation"
  | unexpectedToken lexeme =>
    "unexpected '" ++ String.ofList (lexeme.toList.flatMap Text.escape) ++ "' in expression"
  | endOfStatement => "expected end of statement"
  | indentedBlock => "expected an indented block"
  | functionName => "expected function name after 'def'"
  | openingParenthesis => "expected '(' after function name"
  | parameterName => "expected parameter name"
  | parametersEnd => "expected ')' after parameters"
  | signatureColon => "expected ':' after function signature"
  | conditionColon => "expected ':' after condition"
  | elseColon => "expected ':' after 'else'"
  | conditionalElse => "expected 'else' in conditional expression"
  | lambdaColon => "expected ':' in lambda"
  | generatorEnd => "expected ')' after generator"
  | parenthesisEnd => "expected ')' after expression"
  | tupleEnd => "expected ')' after tuple"
  | listComprehensionEnd => "expected ']' after comprehension"
  | listEnd => "expected ']' after list elements"
  | setEnd => "expected '\x7d' after set elements"
  | dictComprehensionEnd => "expected '\x7d' after comprehension"
  | dictEnd => "expected '\x7d' after dict entries"
  | dictColon => "expected ':' after dict key"
  | argumentsEnd => "expected ')' after arguments"
  | indexEnd => "expected ']' after index"
  | attributeName => "expected attribute name after '.'"
  | unclosedBracket => "unclosed bracket"

/-- A fault and the place of the token where it was met. -/
structure ParseError where
  fault : ParseFault
  place : Position
  deriving DecidableEq, Repr

/-- The wording of an error. -/
def ParseError.message (e : ParseError) : String :=
  s!"{e.fault.message} at line {e.place.line}, column {e.place.column}"

/-! ## Streams -/

/-- The tokens up to the end of the input, the token at that end, and whether the token taken last
ended a line. -/
structure Stream where
  ahead : List Token
  stop : Token
  afterNewline : Bool
  deriving DecidableEq, Repr

/-- The number of tokens not taken yet. -/
def Stream.size (c : Stream) : Nat := c.ahead.length

/-- A value and a rest of fewer than `n` tokens. -/
structure Parsed (n : Nat) (α : Type) where
  value : α
  rest : Stream
  lt : rest.size < n

namespace Stream

/-- The end of a sequence of tokens that does not hold one: right after the start of its last token.
-/
def impliedStop (tokens : List Token) : Token :=
  match tokens.getLast? with
  | some t => ⟨.eof, "", ⟨t.start.line, t.start.column + 1⟩⟩
  | none => ⟨.eof, "", .start⟩

/-- The stream of a sequence of tokens, which ends at the first end of input in it. -/
def ofTokens (tokens : List Token) : Stream :=
  ⟨tokens.takeWhile (·.kind != .eof),
    (tokens.find? (·.kind == .eof)).getD (impliedStop tokens), false⟩

/-- The next token. -/
def peek (c : Stream) : Token := c.ahead.headD c.stop

/-- The kind of the next token. -/
def kind (c : Stream) : TokenKind := c.peek.kind

/-- Whether the next token is of the kind `k`. -/
def sees (c : Stream) (k : TokenKind) : Bool := c.kind == k

/-- Whether no token is left. -/
def isAtEnd (c : Stream) : Bool := c.ahead.isEmpty

/-- An error at the next token. -/
def fail {α : Type} (c : Stream) (fault : ParseFault) : Except ParseError α :=
  .error ⟨fault, c.peek.start⟩

/-- Takes the next `n` tokens. -/
def drop (c : Stream) (n : Nat) : Stream :=
  { c with
    ahead := c.ahead.drop n
    afterNewline :=
      match (c.ahead.take n).getLast? with
      | some t => t.kind == .newline
      | none => c.afterNewline }

@[simp] theorem size_drop (c : Stream) (n : Nat) : (c.drop n).size = c.size - n := by
  simp [size, drop]

theorem size_drop_lt (c : Stream) (n : Nat) : (c.drop n).size < c.size + 1 := by
  rw [size_drop]
  omega

/-- Nothing is taken. -/
def keep {α : Type} (c : Stream) (a : α) : Parsed (c.size + 1) α := ⟨a, c, Nat.lt_succ_self _⟩

/-- Takes the next token. -/
def next? (c : Stream) : Option (Parsed c.size Token) :=
  match h : c.ahead with
  | [] => none
  | t :: ts => some ⟨t, ⟨ts, c.stop, t.kind == .newline⟩, by simp [size, h]⟩

/-- Takes the next token if it is of the kind `k`. -/
def take? (c : Stream) (k : TokenKind) : Option (Parsed c.size Token) :=
  match c.next? with
  | some r => if r.value.kind = k then some r else none
  | none => none

/-- Takes the next token, which has to be of the kind `k`. -/
def expect (c : Stream) (k : TokenKind) (fault : ParseFault) :
    Except ParseError (Parsed c.size Token) :=
  match c.take? k with
  | some r => .ok r
  | none => c.fail fault

/-! ## Taking many tokens -/

/-- Takes the next tokens as long as their kinds satisfy `p`. -/
def skipWhile (c : Stream) (p : TokenKind → Bool) : Parsed (c.size + 1) Unit :=
  match c.next? with
  | none => c.keep ()
  | some r =>
    if p r.value.kind then
      let s := r.rest.skipWhile p
      ⟨(), s.rest, Nat.lt_trans s.lt (Nat.succ_lt_succ r.lt)⟩
    else c.keep ()
termination_by c.size
decreasing_by exact r.lt

/-- Takes line ends and semicolons. -/
def skipNewlines (c : Stream) : Parsed (c.size + 1) Unit :=
  c.skipWhile fun k => k == .newline || k == .mark .semicolon

/-- Takes one line end, if the next token is one. -/
def skipNewline (c : Stream) : Parsed (c.size + 1) Unit :=
  match c.take? .newline with
  | some r => ⟨(), r.rest, Nat.lt_succ_of_lt r.lt⟩
  | none => c.keep ()

/-- The number of tokens before the bracket that closes `depth` open brackets and one more. -/
def closerIndex : (depth : Nat) → List Token → Option Nat
  | _, [] => none
  | depth, t :: ts =>
    match t.kind with
    | .mark m =>
      if m.opens then (closerIndex (depth + 1) ts).map (· + 1)
      else if m.closes then
        if depth = 0 then some 0 else (closerIndex (depth - 1) ts).map (· + 1)
      else (closerIndex depth ts).map (· + 1)
    | _ => (closerIndex depth ts).map (· + 1)

/-- An error at the end of the input. -/
def failAtEnd {α : Type} (c : Stream) (fault : ParseFault) : Except ParseError α :=
  .error ⟨fault, c.stop.start⟩

/-- Takes the tokens before the bracket that closes the one around them. -/
def skipToCloser (c : Stream) : Except ParseError (Parsed (c.size + 1) Unit) :=
  match closerIndex 0 c.ahead with
  | some n => .ok ⟨(), c.drop n, c.size_drop_lt n⟩
  | none => c.failAtEnd .unclosedBracket

/-- The number of open blocks after a token, when `depth` are open before it. -/
def depthAfter (depth : Nat) : TokenKind → Nat
  | .indent => depth + 1
  | .dedent => depth - 1
  | _ => depth

/-- Takes tokens up to the `dedent` that closes the last of `depth` open blocks, or up to the end of
the input. -/
def skipLevels (c : Stream) (depth : Nat) : Parsed (c.size + 1) Unit :=
  match c.next? with
  | none => c.keep ()
  | some r =>
    let after := depthAfter depth r.value.kind
    if r.value.kind = .dedent ∧ after = 0 then ⟨(), r.rest, Nat.lt_succ_of_lt r.lt⟩
    else
      let s := r.rest.skipLevels after
      ⟨(), s.rest, Nat.lt_trans s.lt (Nat.succ_lt_succ r.lt)⟩
termination_by c.size
decreasing_by exact r.lt

/-- Takes an indented block whole. -/
def skipBlock (c : Stream) : Parsed (c.size + 1) Unit := c.skipLevels 0

end Stream

end Gradual
