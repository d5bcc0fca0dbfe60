import Gradual.Expr.Parser
import Gradual.Statement.Basic

/-!
# Parsing statements

A module is parsed statement by statement. Statements that are not checked are read over whole, with
the indented block that may follow them.

* `Parser.parameters`: the parameters of a function definition;
* `Parser.finishSimple`: the end of a statement that holds no others;
* `Parser.statement`, `Parser.suite`: a statement, and the statements that belong to a header;
* `parseModule`, `parseHint`: all statements of a module, and a type written on its own.
-/

namespace Gradual.Parser

open Source

/-! ## Parameters -/

/-- An expression after a mark, if the mark is there. -/
def expressionAfter (m : Mark) (c : Stream) :
    Except ParseError (Parsed (c.size + 1) (Option Expr)) := do
  match c.take? (.mark m) with
  | none => return c.keep none
  | some ⟨_, c₁, h₁⟩ =>
    let ⟨e, c₂, h₂⟩ ← expression c₁
    return ⟨some e, c₂, Nat.lt_succ_of_lt (Nat.lt_trans h₂ h₁)⟩

/-- A parameter with a name, its declared type and its default value. -/
def namedParameter (kind : ParameterKind) (c : Stream) :
    Except ParseError (Parsed c.size Parameter) := do
  let ⟨t, c₁, h₁⟩ ← c.expect .identifier .parameterName
  let ⟨declared, c₂, h₂⟩ ← expressionAfter .colon c₁
  let ⟨initial, c₃, h₃⟩ ← expressionAfter .equal c₂
  return ⟨⟨t.lexeme, t.span, kind, declared, initial⟩, c₃, by omega⟩

/-- A parameter; the slash that ends the purely positional ones is none. -/
def parameter (c : Stream) : Except ParseError (Parsed c.size (Option Parameter)) := do
  match c.take? (.mark .slash) with
  | some ⟨_, c₁, h₁⟩ => return ⟨none, c₁, h₁⟩
  | none =>
    match c.take? (.mark .doubleStar) with
    | some ⟨_, c₁, h₁⟩ =>
      let r ← namedParameter .varKeyword c₁
      return ⟨some r.value, r.rest, Nat.lt_trans r.lt h₁⟩
    | none =>
      match c.take? (.mark .star) with
      | some ⟨t, c₁, h₁⟩ =>
        if c₁.sees (.mark .comma) || c₁.sees (.mark .rparen) then
          return ⟨some ⟨"*", t.span, .varPositional, none, none⟩, c₁, h₁⟩
        else
          let r ← namedParameter .varPositional c₁
          return ⟨some r.value, r.rest, Nat.lt_trans r.lt h₁⟩
      | none =>
        let ⟨p, c₁, h₁⟩ ← namedParameter .positional c
        return ⟨some p, c₁, h₁⟩

/-- The parameters up to the closing parenthesis. -/
def parameters (c : Stream) : Except ParseError (Parsed (c.size + 1) (List Parameter)) := do
  if c.sees (.mark .rparen) then return c.keep []
  else
    let ⟨p, c₁, h₁⟩ ← parameter c
    match c₁.take? (.mark .comma) with
    | none => return ⟨p.toList, c₁, Nat.lt_succ_of_lt h₁⟩
    | some ⟨_, c₂, h₂⟩ =>
      let ⟨ps, c₃, h₃⟩ ← parameters c₂
      return ⟨p.toList ++ ps, c₃, Nat.lt_trans h₃ (Nat.succ_lt_succ (Nat.lt_trans h₂ h₁))⟩
termination_by c.size

/-! ## Statements that hold no others -/

/-- Whether a token of this kind ends a statement. -/
def endsStatement : TokenKind → Bool
  | .newline | .mark .semicolon | .eof => true
  | _ => false

/-- The end of a statement: a semicolon, a line end, both, or the end of the input. -/
def finishSimple (c : Stream) : Except ParseError (Parsed (c.size + 1) Unit) :=
  match c.take? (.mark .semicolon) with
  | some ⟨_, c₁, h₁⟩ =>
    let r := c₁.skipNewline
    .ok ⟨(), r.rest, Nat.lt_trans r.lt (Nat.succ_lt_succ h₁)⟩
  | none =>
    match c.take? .newline with
    | some ⟨_, c₁, h₁⟩ => .ok ⟨(), c₁, Nat.lt_succ_of_lt h₁⟩
    | none => if c.isAtEnd then .ok (c.keep ()) else c.fail .endOfStatement

/-- What stands after the keyword `t` of a return statement. -/
def returnStatement (t : Token) (c : Stream) :
    Except ParseError (Parsed (c.size + 1) Statement) := do
  if endsStatement c.kind then
    let ⟨_, c₁, h₁⟩ ← finishSimple c
    return ⟨.returns t.span none, c₁, h₁⟩
  else
    let ⟨e, c₁, h₁⟩ ← expressionList c
    let r ← finishSimple c₁
    return ⟨.returns (t.span.union e.span) (some e), r.rest,
      Nat.lt_trans r.lt (Nat.succ_lt_succ h₁)⟩

/-- Further targets of an assignment and its value, each after an equality sign. -/
def assigned (c : Stream) : Except ParseError (Parsed (c.size + 1) (List Expr)) := do
  match c.take? (.mark .equal) with
  | none => return c.keep []
  | some ⟨_, c₁, h₁⟩ =>
    let ⟨e, c₂, h₂⟩ ← expressionList c₁
    let ⟨es, c₃, h₃⟩ ← assigned c₂
    return ⟨e :: es, c₃, Nat.lt_trans h₃ (Nat.succ_lt_succ (Nat.lt_trans h₂ h₁))⟩
termination_by c.size

/-- What an equality sign after `first` makes of it: an assignment of the last expression to all
others, or the expression itself if there is no such sign. -/
def assignmentOf (first : Expr) (more : List Expr) : Statement :=
  match more.getLast? with
  | none => .expression first
  | some value =>
    .assignment ⟨first.span.union value.span, first :: more.dropLast, none, some value⟩

/-- A statement that starts with an expression. -/
def expressionStatement (c : Stream) : Except ParseError (Parsed c.size Statement) := do
  let ⟨first, c₁, h₁⟩ ← expressionList c
  match c₁.take? (.mark .colon) with
  | some ⟨_, c₂, h₂⟩ =>
    let ⟨declared, c₃, h₃⟩ ← expression c₂
    match c₃.take? (.mark .equal) with
    | some ⟨_, c₄, h₄⟩ =>
      let ⟨value, c₅, h₅⟩ ← expressionList c₄
      let ⟨_, c₆, h₆⟩ ← finishSimple c₅
      let span := first.span.union value.span
      return ⟨.assignment ⟨span, [first], some declared, some value⟩, c₆, by omega⟩
    | none =>
      let ⟨_, c₄, h₄⟩ ← finishSimple c₃
      let span := first.span.union declared.span
      return ⟨.assignment ⟨span, [first], some declared, none⟩, c₄, by omega⟩
  | none =>
    match c₁.take? (.mark .augmented) with
    | some ⟨_, c₂, h₂⟩ =>
      let ⟨value, c₃, h₃⟩ ← expressionList c₂
      let ⟨_, c₄, h₄⟩ ← finishSimple c₃
      return ⟨.unsupported (first.span.union value.span) .augmentedAssignment, c₄, by omega⟩
    | none =>
      let ⟨more, c₂, h₂⟩ ← assigned c₁
      let ⟨_, c₃, h₃⟩ ← finishSimple c₂
      return ⟨assignmentOf first more, c₃, by omega⟩

/-! ## Statements that are read over -/

/-- Whether the keyword of a statement that is read over may be followed by an indented block. -/
def opensBlock : Keyword → Bool
  | .forKw | .whileKw | .classKw | .tryKw | .exceptKw | .finallyKw | .withKw | .asyncKw | .elseKw
  | .elifKw => true
  | _ => false

/-- Goes over the rest of a line. -/
def skipLine (c : Stream) : Parsed (c.size + 1) Unit :=
  let ⟨_, c₁, h₁⟩ := c.skipWhile (· != .newline)
  let ⟨_, c₂, h₂⟩ := c₁.skipNewline
  ⟨(), c₂, by omega⟩

/-- Goes over the rest of a statement whose keyword is `k`. -/
def skipStatement (k : Keyword) (c : Stream) : Except ParseError (Parsed (c.size + 1) Unit) :=
  if opensBlock k then
    let ⟨_, c₁, h₁⟩ := skipLine c
    if c₁.sees .indent then
      let ⟨_, c₂, h₂⟩ := c₁.skipBlock
      .ok ⟨(), c₂, by omega⟩
    else .ok ⟨(), c₁, h₁⟩
  else
    let ⟨_, c₁, h₁⟩ := c.skipWhile (!endsStatement ·)
    match finishSimple c₁ with
    | .ok ⟨_, c₂, h₂⟩ => .ok ⟨(), c₂, by omega⟩
    | .error e => .error e

/-! ## Statements -/

section Conditional

variable {c c₁ c₂ c₃ c₄ c₅ c₆ : Stream} (h₁ : c₁.size < c.size) (h₂ : c₂.size < c₁.size)
  (h₃ : c₃.size < c₂.size) (h₄ : c₄.size < c₃.size) (h₅ : c₅.size < c₄.size)
  (h₆ : c₆.size < c₅.size)

include h₁ h₂ h₃

theorem consequent_lt : c₃.size < c.size := by omega

include h₄ h₅

theorem elif_lt : c₅.size < c.size := by omega

include h₆

theorem alternative_lt : c₆.size < c.size := by omega

end Conditional

mutual

/-- A statement. -/
def statement (c : Stream) : Except ParseError (Parsed c.size Statement) := do
  match c.next? with
  | none => expressionStatement c
  | some ⟨t, c₁, h₁⟩ =>
    match t.kind with
    | .keyword .defKw =>
      let ⟨s, c₂, h₂⟩ ← functionDefinition t c₁
      return ⟨s, c₂, by omega⟩
    | .keyword .ifKw =>
      let ⟨s, c₂, h₂⟩ ← conditional .opening t c₁
      return ⟨s, c₂, by omega⟩
    | .keyword .returnKw =>
      let ⟨s, c₂, h₂⟩ ← returnStatement t c₁
      return ⟨s, c₂, by omega⟩
    | .keyword .passKw =>
      let ⟨_, c₂, h₂⟩ ← finishSimple c₁
      return ⟨.pass t.span, c₂, by omega⟩
    | .keyword k =>
      if k.opensUnsupported || k == .elifKw then
        let ⟨_, c₂, h₂⟩ ← skipStatement k c₁
        return ⟨.unsupported t.span (.statement t.lexeme), c₂, by omega⟩
      else expressionStatement c
    | .mark .atSign =>
      let ⟨_, c₂, h₂⟩ := skipLine c₁
      return ⟨.unsupported t.span .decorator, c₂, by omega⟩
    | _ => expressionStatement c
termination_by 4 * c.size + 1

/-- What stands after the keyword `t` of a function definition. -/
def functionDefinition (t : Token) (c : Stream) : Except ParseError (Parsed c.size Statement) := do
  let ⟨name, c₁, h₁⟩ ← c.expect .identifier .functionName
  let ⟨_, c₂, h₂⟩ ← c₁.expect (.mark .lparen) .openingParenthesis
  let ⟨ps, c₃, h₃⟩ ← parameters c₂
  let ⟨_, c₄, h₄⟩ ← c₃.expect (.mark .rparen) .parametersEnd
  let ⟨returns, c₅, h₅⟩ ← expressionAfter .arrow c₄
  let ⟨colon, c₆, h₆⟩ ← c₅.expect (.mark .colon) .signatureColon
  let ⟨body, c₇, h₇⟩ ← suite c₆
  let head : FunctionHead := ⟨⟨name.lexeme, name.span⟩, t.span.union colon.span, ps, returns⟩
  return ⟨.function head body, c₇, by omega⟩
termination_by 4 * c.size

/-- What stands after the keyword `t` of a conditional. -/
def conditional (kind : ConditionKind) (t : Token) (c : Stream) :
    Except ParseError (Parsed c.size Statement) := do
  let ⟨test, c₁, h₁⟩ ← expression c
  let ⟨colon, c₂, h₂⟩ ← c₁.expect (.mark .colon) .conditionColon
  let ⟨body, c₃, h₃⟩ ← suite c₂
  let head : Condition := ⟨t.span.union colon.span, kind, test⟩
  match c₃.take? (.keyword .elifKw) with
  | some ⟨u, c₄, h₄⟩ =>
    let ⟨s, c₅, h₅⟩ ← conditional .elif u c₄
    return ⟨.conditional head body (some [s]), c₅, elif_lt h₁ h₂ h₃ h₄ h₅⟩
  | none =>
    match c₃.take? (.keyword .elseKw) with
    | some ⟨_, c₄, h₄⟩ =>
      let ⟨_, c₅, h₅⟩ ← c₄.expect (.mark .colon) .elseColon
      let ⟨otherwise, c₆, h₆⟩ ← suite c₅
      return ⟨.conditional head body (some otherwise), c₆, alternative_lt h₁ h₂ h₃ h₄ h₅ h₆⟩
    | none => return ⟨.conditional head body none, c₃, consequent_lt h₁ h₂ h₃⟩
termination_by 4 * c.size

/-- The statements that belong to a header: those on its line, or the indented block below. -/
def suite (c : Stream) : Except ParseError (Parsed c.size (List Statement)) := do
  match c.take? .newline with
  | none => headerStatements c
  | some ⟨_, c₁, h₁⟩ =>
    let ⟨_, c₂, h₂⟩ := c₁.skipNewlines
    let ⟨_, c₃, h₃⟩ ← c₂.expect .indent .indentedBlock
    let ⟨ss, c₄, h₄⟩ ← blockStatements c₃
    match c₄.take? .dedent with
    | some ⟨_, c₅, h₅⟩ => return ⟨ss, c₅, by omega⟩
    | none => return ⟨ss, c₄, by omega⟩
termination_by 4 * c.size + 3

/-- Statements up to the first one that ends a line. -/
def headerStatements (c : Stream) : Except ParseError (Parsed c.size (List Statement)) := do
  let ⟨s, c₁, h₁⟩ ← statement c
  if c₁.afterNewline || c₁.isAtEnd then return ⟨[s], c₁, h₁⟩
  else
    let ⟨ss, c₂, h₂⟩ ← headerStatements c₁
    return ⟨s :: ss, c₂, by omega⟩
termination_by 4 * c.size + 2

/-- The statements of an indented block, up to its `dedent`. -/
def blockStatements (c : Stream) :
    Except ParseError (Parsed (c.size + 1) (List Statement)) := do
  let ⟨_, c₁, h₁⟩ := c.skipNewlines
  if c₁.sees .dedent || c₁.isAtEnd then return ⟨[], c₁, h₁⟩
  else
    let ⟨s, c₂, h₂⟩ ← statement c₁
    let ⟨ss, c₃, h₃⟩ ← blockStatements c₂
    return ⟨s :: ss, c₃, by omega⟩
termination_by 4 * c.size + 2

end

/-- The statements up to the end of the input. -/
def statements (c : Stream) : Except ParseError (List Statement) := do
  let ⟨_, c₁, _h₁⟩ := c.skipNewlines
  if c₁.isAtEnd then return []
  else if c₁.sees .indent || c₁.sees .dedent then c₁.fail .unexpectedIndent
  else
    let ⟨s, c₂, _h₂⟩ ← statement c₁
    let ss ← statements c₂
    return s :: ss
termination_by c.size

end Gradual.Parser

namespace Gradual

/-- The statements of a module. -/
def parseModule (tokens : List Token) : Except ParseError (List Statement) :=
  Parser.statements (.ofTokens tokens)

/-- A type written on its own, as in a comment. -/
def parseHint (tokens : List Token) : Except ParseError Expr := do
  let ⟨e, c₁, _⟩ ← Parser.expression (.ofTokens tokens)
  let ⟨_, c₂, _⟩ := c₁.skipNewlines
  if c₂.isAtEnd then return e
  else c₂.fail .trailingTokens

end Gradual
