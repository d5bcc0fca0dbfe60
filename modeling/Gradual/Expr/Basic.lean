import Gradual.Number.Binary64
import Gradual.Source.Span

/-!
# Expressions

The expressions of a source text, each with the span of the text that it was read from. Forms that
are read and not checked keep only their span and their name.

* `Identifier`, `Literal`, `UnaryOp`, `BinaryOp`, `Argument`;
* `Construct`, `Construct.describe`: forms that are read over;
* `Expr`, `Expr.span`, `Expr.withSpan`, `Expr.describe`.
-/

namespace Gradual

open Number Source

/-- A name and its place. -/
structure Identifier where
  name : String
  span : Span
  deriving DecidableEq, Repr

/-- The value that a literal denotes. -/
inductive Literal where
  | integer (value : Nat)
  | float (value : Binary64)
  | imaginary (value : Binary64)
  | string (value : String)
  | bytes (value : String)
  deriving DecidableEq, Repr

/-- Operators with one operand. -/
inductive UnaryOp where
  | positive
  | negative
  | not
  | invert
  deriving DecidableEq, Repr

/-- Operators with two operands. -/
inductive BinaryOp where
  | add | subtract | multiply | matrixMultiply | divide | floorDivide | modulo | power
  | bitOr | bitAnd | bitXor | shiftLeft | shiftRight
  | equal | notEqual | greater | greaterEqual | less | lessEqual
  | contained | notContained | identical | notIdentical
  | and | or
  deriving DecidableEq, Repr

/-- How an operator is written. -/
def BinaryOp.symbol : BinaryOp → String
  | .add => "+"
  | .subtract => "-"
  | .multiply => "*"
  | .matrixMultiply => "@"
  | .divide => "/"
  | .floorDivide => "//"
  | .modulo => "%"
  | .power => "**"
  | .bitOr => "|"
  | .bitAnd => "&"
  | .bitXor => "^"
  | .shiftLeft => "<<"
  | .shiftRight => ">>"
  | .equal => "=="
  | .notEqual => "!="
  | .greater => ">"
  | .greaterEqual => ">="
  | .less => "<"
  | .lessEqual => "<="
  | .contained => "in"
  | .notContained => "not in"
  | .identical => "is"
  | .notIdentical => "is not"
  | .and => "and"
  | .or => "or"

/-- Forms of expressions and statements that are read over and not checked. -/
inductive Construct where
  | conditionalExpression
  | assignmentExpression
  | lambda
  | await
  | yield
  | starred
  | ellipsis
  | generator
  | listComprehension
  | setLiteral
  | dictComprehension
  | dictUnpacking
  | slice
  | decorator
  | augmentedAssignment
  | statement (keyword : String)
  deriving DecidableEq, Repr

/-- The name of a form. -/
def Construct.describe : Construct → String
  | .conditionalExpression => "conditional expression"
  | .assignmentExpression => "assignment expression"
  | .lambda => "lambda"
  | .await => "await expression"
  | .yield => "yield expression"
  | .starred => "starred expression"
  | .ellipsis => "ellipsis"
  | .generator => "generator expression"
  | .listComprehension => "list comprehension"
  | .setLiteral => "set literal"
  | .dictComprehension => "dict comprehension"
  | .dictUnpacking => "dict unpacking"
  | .slice => "slice"
  | .decorator => "decorator"
  | .augmentedAssignment => "augmented assignment"
  | .statement keyword => s!"'{keyword}' statement"

/-- An argument of a call, with the name of the parameter that it is meant for. -/
structure Argument (α : Type) where
  keyword : Option Identifier
  value : α

/-- An expression. The span of an expression in parentheses includes them. -/
inductive Expr where
  | name (span : Span) (id : Identifier)
  | literal (span : Span) (value : Literal)
  | list (span : Span) (elements : List Expr)
  | tuple (span : Span) (elements : List Expr)
  | dict (span : Span) (entries : List (Expr × Expr))
  | unary (span : Span) (op : UnaryOp) (operand : Expr)
  | binary (span : Span) (op : BinaryOp) (left right : Expr)
  | call (span : Span) (callee : Expr) (arguments : List (Argument Expr))
  | member (span : Span) (object : Expr) (property : Identifier)
  | index (span : Span) (object index : Expr)
  | unsupported (span : Span) (construct : Construct)

namespace Expr

/-- The text that an expression was read from. -/
def span : Expr → Span
  | name s .. | literal s .. | list s .. | tuple s .. | dict s .. | unary s .. | binary s ..
  | call s .. | member s .. | index s .. | unsupported s .. => s

/-- The same expression read from the text `s`. -/
def withSpan (s : Span) : Expr → Expr
  | name _ id => name s id
  | literal _ v => literal s v
  | list _ es => list s es
  | tuple _ es => tuple s es
  | dict _ es => dict s es
  | unary _ op e => unary s op e
  | binary _ op l r => binary s op l r
  | call _ f as => call s f as
  | member _ o p => member s o p
  | index _ o i => index s o i
  | unsupported _ c => unsupported s c

@[simp] theorem span_withSpan (s : Span) (e : Expr) : (e.withSpan s).span = s := by
  cases e <;> rfl

/-- The name of an expression's form. -/
def describe : Expr → String
  | name .. => "name"
  | literal .. => "literal"
  | list .. => "list literal"
  | tuple .. => "tuple"
  | dict .. => "dict literal"
  | unary .. => "unary operation"
  | binary .. => "binary operation"
  | call .. => "call"
  | member .. => "attribute access"
  | index .. => "subscript"
  | unsupported _ c => c.describe

end Expr

end Gradual
