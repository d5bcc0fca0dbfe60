import Gradual.Expr.Precedence
import Gradual.Token.Stream

/-!
# Parsing expressions

Expressions are parsed by recursive descent, operators by their precedence. Every function takes the
stream it starts at and returns a rest that is shorter, or not longer where it may take nothing; the
recursion ends because the streams get shorter.

* `Parser.expression`, `Parser.expressionList`: an expression, and several of them as a tuple;
* `Parser.precedence`, `Parser.operators`: operands and the operators between them;
* `Parser.primary`, `Parser.trailers`: names, literals, brackets, and what follows them;
* `Parser.arguments`, `Parser.subscript`: what stands in the brackets of a call or an index.
-/

namespace Gradual.Parser

open Source

/-! ## Single tokens -/

/-- Whether a token of this kind can stand at the start of an expression after a comma. -/
def startsExpression : TokenKind → Bool
  | .newline | .indent | .dedent | .eof => false
  | .mark m =>
    match m with
    | .semicolon | .equal | .augmented | .colon | .rparen | .rbracket | .rbrace => false
    | _ => true
  | _ => true

/-- The operator at the head of a stream; `not` is one only before `in`. -/
def operator? (c : Stream) : Option (Parsed c.size BinaryOp) :=
  match c.next? with
  | none => none
  | some ⟨t, c₁, h₁⟩ =>
    match t.kind with
    | .keyword .notKw =>
      match c₁.take? (.keyword .inKw) with
      | some ⟨_, c₂, h₂⟩ => some ⟨.notContained, c₂, by omega⟩
      | none => none
    | .keyword .isKw =>
      match c₁.take? (.keyword .notKw) with
      | some ⟨_, c₂, h₂⟩ => some ⟨.notIdentical, c₂, by omega⟩
      | none => some ⟨.identical, c₁, h₁⟩
    | k => (BinaryOp.ofKind? k).map fun op => ⟨op, c₁, h₁⟩

/-- The name of an argument and the sign after it. -/
def argumentName? (c : Stream) : Option (Parsed c.size Identifier) :=
  match c.take? .identifier with
  | none => none
  | some ⟨t, c₁, h₁⟩ =>
    match c₁.take? (.mark .equal) with
    | some ⟨_, c₂, h₂⟩ => some ⟨⟨t.lexeme, t.span⟩, c₂, by omega⟩
    | none => none

/-- The text of a string literal. -/
def literalText? : TokenKind → Option String
  | .string s | .bytes s => some s
  | _ => none

/-- The string literals after `t`, which join it to one literal. -/
def strings (t : Token) (asLiteral : String → Literal) (first : String) (c : Stream) :
    Parsed (c.size + 1) Expr :=
  let more := c.ahead.takeWhile fun u => (literalText? u.kind).isSome
  let text := more.foldl (fun s u => s ++ (literalText? u.kind).getD "") first
  let span := more.foldl (fun s u => s.union u.span) t.span
  ⟨.literal span (asLiteral text), c.drop more.length, by
    rw [Stream.size_drop]
    omega⟩

/-- The smallest span that holds all of some expressions. -/
def spanOf (es : List Expr) : Span := es.foldl (fun s e => s.union e.span) Span.none

/-- Goes on to the colon that ends the parameters of a `lambda`. -/
def lambdaBody (c : Stream) : Except ParseError (Parsed (c.size + 1) Unit) :=
  let ⟨_, c₁, h₁⟩ := c.skipWhile (· != .mark .colon)
  match c₁.take? (.mark .colon) with
  | some ⟨_, c₂, h₂⟩ => .ok ⟨(), c₂, by omega⟩
  | none => c₁.fail .lambdaColon

/-! ## Expressions -/

mutual

/-- An expression, or several with commas between them, which are a tuple. -/
def expressionList (c : Stream) : Except ParseError (Parsed c.size Expr) := do
  let ⟨first, c₁, h₁⟩ ← expression c
  if c₁.sees (.mark .comma) then
    let ⟨more, c₂, h₂⟩ ← elements (!startsExpression ·) c₁
    return ⟨.tuple (spanOf (first :: more)) (first :: more), c₂, by omega⟩
  else
    return ⟨first, c₁, h₁⟩
termination_by 8 * c.size + 6

/-- Further expressions, each after a comma. A comma may stand at the end, where the next token is
of a kind that satisfies `ends`. -/
def elements (ends : TokenKind → Bool) (c : Stream) :
    Except ParseError (Parsed (c.size + 1) (List Expr)) := do
  match c.take? (.mark .comma) with
  | none => return c.keep []
  | some ⟨_, c₁, h₁⟩ =>
    if ends c₁.kind then return ⟨[], c₁, by omega⟩
    else
      let ⟨e, c₂, h₂⟩ ← expression c₁
      let ⟨es, c₃, h₃⟩ ← elements ends c₂
      return ⟨e :: es, c₃, by omega⟩
termination_by 8 * c.size

/-- An expression. Conditional expressions, assignments inside expressions and `lambda` are read
over. -/
def expression (c : Stream) : Except ParseError (Parsed c.size Expr) := do
  match c.take? (.keyword .lambdaKw) with
  | some ⟨t, c₁, h₁⟩ =>
    let ⟨_, c₂, h₂⟩ ← lambdaBody c₁
    let ⟨body, c₃, h₃⟩ ← expression c₂
    return ⟨.unsupported (t.span.union body.span) .lambda, c₃, by omega⟩
  | none =>
    let ⟨e, c₁, h₁⟩ ← precedence .lowest c
    match c₁.take? (.keyword .ifKw) with
    | some ⟨_, c₂, h₂⟩ =>
      let ⟨_, c₃, h₃⟩ ← precedence .lowest c₂
      let ⟨_, c₄, h₄⟩ ← c₃.expect (.keyword .elseKw) .conditionalElse
      let ⟨otherwise, c₅, h₅⟩ ← expression c₄
      return ⟨.unsupported (e.span.union otherwise.span) .conditionalExpression, c₅, by omega⟩
    | none =>
      match c₁.take? (.mark .colonEqual) with
      | some ⟨_, c₂, h₂⟩ =>
        let ⟨value, c₃, h₃⟩ ← expression c₂
        return ⟨.unsupported (e.span.union value.span) .assignmentExpression, c₃, by omega⟩
      | none => return ⟨e, c₁, h₁⟩
termination_by 8 * c.size + 5

/-- An expression whose operators outside brackets bind more tightly than `p`. -/
def precedence (p : Precedence) (c : Stream) : Except ParseError (Parsed c.size Expr) := do
  let ⟨left, c₁, h₁⟩ ← operand c
  let ⟨e, c₂, h₂⟩ ← operators p left c₁
  return ⟨e, c₂, by omega⟩
termination_by 8 * c.size + 4

/-- Goes on an expression by operators that bind more tightly than `p`, and their right operands. -/
def operators (p : Precedence) (left : Expr) (c : Stream) :
    Except ParseError (Parsed (c.size + 1) Expr) := do
  match operator? c with
  | none => return c.keep left
  | some ⟨op, c₁, h₁⟩ =>
    if op.precedence.rank ≤ p.rank then return c.keep left
    else
      let ⟨right, c₂, h₂⟩ ← precedence op.rightBound c₁
      let ⟨e, c₃, h₃⟩ ← operators p (.binary (left.span.union right.span) op left right) c₂
      return ⟨e, c₃, by omega⟩
termination_by 8 * c.size

/-- An operand with its calls, subscripts and attributes. -/
def operand (c : Stream) : Except ParseError (Parsed c.size Expr) := do
  let ⟨e, c₁, h₁⟩ ← primary c
  let ⟨e', c₂, h₂⟩ ← trailers e c₁
  return ⟨e', c₂, by omega⟩
termination_by 8 * c.size + 3

/-- A name, a literal, a bracket, or an operator before its operand. -/
def primary (c : Stream) : Except ParseError (Parsed c.size Expr) := do
  match c.next? with
  | none => c.fail (.unexpectedToken c.stop.lexeme)
  | some ⟨t, c₁, h₁⟩ =>
    match t.kind with
    | .identifier => return ⟨.name t.span ⟨t.lexeme, t.span⟩, c₁, h₁⟩
    | .integer n => return ⟨.literal t.span (.integer n), c₁, h₁⟩
    | .float x => return ⟨.literal t.span (.float x), c₁, h₁⟩
    | .imaginary x => return ⟨.literal t.span (.imaginary x), c₁, h₁⟩
    | .string s =>
      let ⟨e, c₂, h₂⟩ := strings t .string s c₁
      return ⟨e, c₂, by omega⟩
    | .bytes s =>
      let ⟨e, c₂, h₂⟩ := strings t .bytes s c₁
      return ⟨e, c₂, by omega⟩
    | .mark .minus =>
      let ⟨e, c₂, h₂⟩ ← precedence .unary c₁
      return ⟨.unary (t.span.union e.span) .negative e, c₂, by omega⟩
    | .mark .plus =>
      let ⟨e, c₂, h₂⟩ ← precedence .unary c₁
      return ⟨.unary (t.span.union e.span) .positive e, c₂, by omega⟩
    | .mark .tilde =>
      let ⟨e, c₂, h₂⟩ ← precedence .unary c₁
      return ⟨.unary (t.span.union e.span) .invert e, c₂, by omega⟩
    | .keyword .notKw =>
      let ⟨e, c₂, h₂⟩ ← precedence .not c₁
      return ⟨.unary (t.span.union e.span) .not e, c₂, by omega⟩
    | .keyword .awaitKw =>
      let ⟨e, c₂, h₂⟩ ← precedence .unary c₁
      return ⟨.unsupported (t.span.union e.span) .await, c₂, by omega⟩
    | .keyword .yieldKw =>
      let ⟨_, c₂, h₂⟩ := match c₁.take? (.keyword .fromKw) with
        | some ⟨u, c₂, h₂⟩ => (⟨some u, c₂, by omega⟩ : Parsed (c₁.size + 1) (Option Token))
        | none => c₁.keep none
      if startsExpression c₂.kind then
        let ⟨e, c₃, h₃⟩ ← expressionList c₂
        return ⟨.unsupported (t.span.union e.span) .yield, c₃, by omega⟩
      else
        return ⟨.unsupported t.span .yield, c₂, by omega⟩
    | .mark .star | .mark .doubleStar =>
      let ⟨e, c₂, h₂⟩ ← precedence .bitOr c₁
      return ⟨.unsupported (t.span.union e.span) .starred, c₂, by omega⟩
    | .mark .ellipsis => return ⟨.unsupported t.span .ellipsis, c₁, h₁⟩
    | .mark .lparen =>
      let ⟨e, c₂, h₂⟩ ← parenthesized t c₁
      return ⟨e, c₂, by omega⟩
    | .mark .lbracket =>
      let ⟨e, c₂, h₂⟩ ← listLiteral t c₁
      return ⟨e, c₂, by omega⟩
    | .mark .lbrace =>
      let ⟨e, c₂, h₂⟩ ← braceLiteral t c₁
      return ⟨e, c₂, by omega⟩
    | _ => c.fail (.unexpectedToken t.lexeme)
termination_by 8 * c.size + 2

/-- What stands after the opening parenthesis `t`: nothing, an expression, a generator, or a tuple.
-/
def parenthesized (t : Token) (c : Stream) : Except ParseError (Parsed c.size Expr) := do
  match c.take? (.mark .rparen) with
  | some ⟨close, c₁, h₁⟩ => return ⟨.tuple (t.span.union close.span) [], c₁, h₁⟩
  | none =>
    let ⟨first, c₁, h₁⟩ ← expression c
    if c₁.sees (.keyword .forKw) then
      let ⟨_, c₂, h₂⟩ ← c₁.skipToCloser
      let ⟨close, c₃, h₃⟩ ← c₂.expect (.mark .rparen) .generatorEnd
      return ⟨.unsupported (t.span.union close.span) .generator, c₃, by omega⟩
    else if c₁.sees (.mark .comma) then
      let ⟨more, c₂, h₂⟩ ← elements (· == .mark .rparen) c₁
      let ⟨close, c₃, h₃⟩ ← c₂.expect (.mark .rparen) .tupleEnd
      return ⟨.tuple (t.span.union close.span) (first :: more), c₃, by omega⟩
    else
      let ⟨close, c₂, h₂⟩ ← c₁.expect (.mark .rparen) .parenthesisEnd
      return ⟨first.withSpan (t.span.union close.span), c₂, by omega⟩
termination_by 8 * c.size + 6

/-- What stands after the opening bracket `t`: the elements of a list, or a comprehension. -/
def listLiteral (t : Token) (c : Stream) : Except ParseError (Parsed c.size Expr) := do
  match c.take? (.mark .rbracket) with
  | some ⟨close, c₁, h₁⟩ => return ⟨.list (t.span.union close.span) [], c₁, h₁⟩
  | none =>
    let ⟨first, c₁, h₁⟩ ← expression c
    if c₁.sees (.keyword .forKw) then
      let ⟨_, c₂, h₂⟩ ← c₁.skipToCloser
      let ⟨close, c₃, h₃⟩ ← c₂.expect (.mark .rbracket) .listComprehensionEnd
      return ⟨.unsupported (t.span.union close.span) .listComprehension, c₃, by omega⟩
    else
      let ⟨more, c₂, h₂⟩ ← elements (· == .mark .rbracket) c₁
      let ⟨close, c₃, h₃⟩ ← c₂.expect (.mark .rbracket) .listEnd
      return ⟨.list (t.span.union close.span) (first :: more), c₃, by omega⟩
termination_by 8 * c.size + 6

/-- What stands after the opening brace `t`: the entries of a dictionary, a set, or a comprehension.
-/
def braceLiteral (t : Token) (c : Stream) : Except ParseError (Parsed c.size Expr) := do
  match c.take? (.mark .rbrace) with
  | some ⟨close, c₁, h₁⟩ => return ⟨.dict (t.span.union close.span) [], c₁, h₁⟩
  | none =>
    let ⟨key, c₁, h₁⟩ ← expression c
    match c₁.take? (.mark .colon) with
    | none =>
      let ⟨_, c₂, h₂⟩ ← c₁.skipToCloser
      let ⟨close, c₃, h₃⟩ ← c₂.expect (.mark .rbrace) .setEnd
      return ⟨.unsupported (t.span.union close.span) .setLiteral, c₃, by omega⟩
    | some ⟨_, c₂, h₂⟩ =>
      let ⟨value, c₃, h₃⟩ ← expression c₂
      if c₃.sees (.keyword .forKw) then
        let ⟨_, c₄, h₄⟩ ← c₃.skipToCloser
        let ⟨close, c₅, h₅⟩ ← c₄.expect (.mark .rbrace) .dictComprehensionEnd
        return ⟨.unsupported (t.span.union close.span) .dictComprehension, c₅, by omega⟩
      else
        let ⟨more, c₄, h₄⟩ ← entries c₃
        let ⟨close, c₅, h₅⟩ ← c₄.expect (.mark .rbrace) .dictEnd
        let span := t.span.union close.span
        match more with
        | none => return ⟨.unsupported span .dictUnpacking, c₅, by omega⟩
        | some es => return ⟨.dict span ((key, value) :: es), c₅, by omega⟩
termination_by 8 * c.size + 6

/-- Further entries of a dictionary, each after a comma. Nothing stands for entries that unpack
another dictionary; the tokens up to the closing brace are then taken. -/
def entries (c : Stream) :
    Except ParseError (Parsed (c.size + 1) (Option (List (Expr × Expr)))) := do
  match c.take? (.mark .comma) with
  | none => return c.keep (some [])
  | some ⟨_, c₁, h₁⟩ =>
    if c₁.sees (.mark .rbrace) then return ⟨some [], c₁, by omega⟩
    else if c₁.sees (.mark .doubleStar) then
      let ⟨_, c₂, h₂⟩ ← c₁.skipToCloser
      return ⟨none, c₂, by omega⟩
    else
      let ⟨key, c₂, h₂⟩ ← expression c₁
      let ⟨_, c₃, h₃⟩ ← c₂.expect (.mark .colon) .dictColon
      let ⟨value, c₄, h₄⟩ ← expression c₃
      let ⟨more, c₅, h₅⟩ ← entries c₄
      return ⟨more.map ((key, value) :: ·), c₅, by omega⟩
termination_by 8 * c.size

/-- Goes on an operand by calls, subscripts and attributes. -/
def trailers (e : Expr) (c : Stream) : Except ParseError (Parsed (c.size + 1) Expr) := do
  match c.next? with
  | none => return c.keep e
  | some ⟨t, c₁, h₁⟩ =>
    match t.kind with
    | .mark .lparen =>
      let ⟨args, c₂, h₂⟩ ← arguments c₁
      let ⟨close, c₃, h₃⟩ ← c₂.expect (.mark .rparen) .argumentsEnd
      let ⟨e', c₄, h₄⟩ ← trailers (.call (e.span.union close.span) e args) c₃
      return ⟨e', c₄, by omega⟩
    | .mark .lbracket =>
      let ⟨i, c₂, h₂⟩ ← subscript c₁
      let ⟨close, c₃, h₃⟩ ← c₂.expect (.mark .rbracket) .indexEnd
      let ⟨e', c₄, h₄⟩ ← trailers (.index (e.span.union close.span) e i) c₃
      return ⟨e', c₄, by omega⟩
    | .mark .dot =>
      let ⟨p, c₂, h₂⟩ ← c₁.expect .identifier .attributeName
      let ⟨e', c₃, h₃⟩ ← trailers (.member (e.span.union p.span) e ⟨p.lexeme, p.span⟩) c₂
      return ⟨e', c₃, by omega⟩
    | _ => return c.keep e
termination_by 8 * c.size

/-- What stands in the brackets of a subscript; slices are read over. -/
def subscript (c : Stream) : Except ParseError (Parsed (c.size + 1) Expr) := do
  if c.sees (.mark .colon) then
    let ⟨_, c₁, h₁⟩ ← c.skipToCloser
    return ⟨.unsupported c.peek.span .slice, c₁, h₁⟩
  else
    let ⟨i, c₁, h₁⟩ ← expressionList c
    if c₁.sees (.mark .colon) then
      let ⟨_, c₂, h₂⟩ ← c₁.skipToCloser
      return ⟨.unsupported i.span .slice, c₂, by omega⟩
    else
      return ⟨i, c₁, by omega⟩
termination_by 8 * c.size + 7

/-- The arguments of a call, up to its closing parenthesis. -/
def arguments (c : Stream) : Except ParseError (Parsed (c.size + 1) (List (Argument Expr))) := do
  if c.sees (.mark .rparen) then return c.keep []
  else
    match argumentName? c with
    | some ⟨id, c₁, h₁⟩ =>
      let ⟨e, c₂, h₂⟩ ← expression c₁
      match c₂.take? (.mark .comma) with
      | none => return ⟨[⟨some id, e⟩], c₂, by omega⟩
      | some ⟨_, c₃, h₃⟩ =>
        let ⟨more, c₄, h₄⟩ ← arguments c₃
        return ⟨⟨some id, e⟩ :: more, c₄, by omega⟩
    | none =>
      let ⟨e, c₁, h₁⟩ ← expression c
      if c₁.sees (.keyword .forKw) then
        let ⟨_, c₂, h₂⟩ ← c₁.skipToCloser
        return ⟨[⟨none, .unsupported e.span .generator⟩], c₂, by omega⟩
      else
        match c₁.take? (.mark .comma) with
        | none => return ⟨[⟨none, e⟩], c₁, by omega⟩
        | some ⟨_, c₂, h₂⟩ =>
          let ⟨more, c₃, h₃⟩ ← arguments c₂
          return ⟨⟨none, e⟩ :: more, c₃, by omega⟩
termination_by 8 * c.size + 7

end

end Gradual.Parser
