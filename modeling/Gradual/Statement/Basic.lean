import Gradual.Expr.Basic

/-!
# Statements

A module is a list of statements. The span of a function definition or of a conditional is that of
its header.

* `Parameter`, `FunctionHead`, `Assignment`, `Condition`: the parts of statements that hold no
  further statements;
* `Statement`, `Statement.span`;
* `Statement.isElif`, `hasElif`: a conditional continued by `elif` has that conditional as the first
  statement of its alternative.
-/

namespace Gradual

open Source

/-- Which arguments a parameter takes: one, all further positional ones, or all further named ones.
-/
inductive ParameterKind where
  | positional
  | varPositional
  | varKeyword
  deriving DecidableEq, Repr

/-- A parameter with its declared type and its default value. -/
structure Parameter where
  name : String
  span : Span
  kind : ParameterKind
  declared : Option Expr
  initial : Option Expr

/-- The header of a function definition. -/
structure FunctionHead where
  name : Identifier
  span : Span
  parameters : List Parameter
  returns : Option Expr

/-- An assignment; one without a value only declares a type. -/
structure Assignment where
  span : Span
  targets : List Expr
  declared : Option Expr
  value : Option Expr

/-- Whether a conditional stands for itself or goes on another one. -/
inductive ConditionKind where
  | opening
  | elif
  deriving DecidableEq, Repr

/-- The header of a conditional. -/
structure Condition where
  span : Span
  kind : ConditionKind
  test : Expr

/-- A statement. -/
inductive Statement where
  | function (head : FunctionHead) (body : List Statement)
  | assignment (a : Assignment)
  | returns (span : Span) (value : Option Expr)
  | conditional (head : Condition) (body : List Statement) (otherwise : Option (List Statement))
  | expression (value : Expr)
  | pass (span : Span)
  | unsupported (span : Span) (construct : Construct)

namespace Statement

/-- The text that a statement, or its header, was read from. -/
def span : Statement → Span
  | function head _ => head.span
  | assignment a => a.span
  | returns s _ => s
  | conditional head _ _ => head.span
  | expression e => e.span
  | pass s => s
  | unsupported s _ => s

/-- Whether a statement is a conditional that goes on another one. -/
def isElif : Statement → Bool
  | conditional head _ _ => head.kind == .elif
  | _ => false

end Statement

/-- Whether the alternative of a conditional is an `elif`. -/
def hasElif : Option (List Statement) → Bool
  | some (s :: _) => s.isElif
  | _ => false

end Gradual
