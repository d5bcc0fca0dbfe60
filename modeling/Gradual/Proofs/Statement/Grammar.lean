import Gradual.Proofs.Expr.Soundness
import Gradual.Statement.Parser

/-!
# The grammar of statements

The tokens that statements are read from. Statements without others inside are read from their own
tokens alone; where a suite ends depends on the tokens that follow, so clauses stand between two
streams.

* `ReadsParameters`, `ReadsSimple`: parameters, and statements that hold no others;
* `Clause`, **`ReadsClause`**: statements, and the statements that belong to a header;
* `ReadsModule`: the statements of a module.
-/

namespace Gradual

open Source

/-! ## Parameters -/

/-- A mark and an expression after it, or nothing. -/
inductive ReadsAfter (m : Mark) : List Token → Option Expr → Prop
  | absent : ReadsAfter m [] none
  | present {t : Token} {ts : List Token} {e : Expr} (sign : t.kind = .mark m)
      (reads : Reads ts (.expr e)) : ReadsAfter m (t :: ts) (some e)

/-- The tokens before the name of a parameter. -/
def ParameterKind.kinds : ParameterKind → List TokenKind
  | .positional => []
  | .varPositional => [.mark .star]
  | .varKeyword => [.mark .doubleStar]

/-- A parameter; a slash is none, and a star alone is one without a name. -/
inductive ReadsParameter : List Token → Option Parameter → Prop
  | slash {t : Token} (sign : t.kind = .mark .slash) : ReadsParameter [t] none
  | star {t : Token} (sign : t.kind = .mark .star) :
      ReadsParameter [t] (some ⟨"*", t.span, .varPositional, none, none⟩)
  | named {t : Token} {stars ts us : List Token} {kind : ParameterKind}
      {declared initial : Option Expr} (kinds : stars.map (·.kind) = kind.kinds)
      (name : t.kind = .identifier) (type : ReadsAfter .colon ts declared)
      (value : ReadsAfter .equal us initial) :
      ReadsParameter (stars ++ t :: (ts ++ us)) (some ⟨t.lexeme, t.span, kind, declared, initial⟩)

/-- Parameters with commas between them. -/
inductive ReadsParameters : List Token → List Parameter → Prop
  | none : ReadsParameters [] []
  | last {ts : List Token} {p : Option Parameter} (head : ReadsParameter ts p) :
      ReadsParameters ts p.toList
  | more {comma : Token} {ts us : List Token} {p : Option Parameter} {ps : List Parameter}
      (head : ReadsParameter ts p) (sign : comma.kind = .mark .comma)
      (tail : ReadsParameters us ps) : ReadsParameters (ts ++ comma :: us) (p.toList ++ ps)

/-! ## Statements that hold no others -/

/-- The tokens that end a statement. -/
def EndsSimple (ts : List Token) : Prop :=
  ts.map (·.kind) ∈ [[], [.newline], [.mark .semicolon], [.mark .semicolon, .newline]]

/-- The tokens that end a line, or none where the input ends. -/
def EndsLine (ts : List Token) : Prop := ts.map (·.kind) ∈ [[], [.newline]]

/-- Expressions, each after an equality sign. -/
inductive ReadsAssigned : List Token → List Expr → Prop
  | none : ReadsAssigned [] []
  | more {sign : Token} {ts us : List Token} {e : Expr} {es : List Expr}
      (equal : sign.kind = .mark .equal) (head : Reads ts (.expr e)) (tail : ReadsAssigned us es) :
      ReadsAssigned (sign :: (ts ++ us)) (e :: es)

/-- Statements that hold no others, with the tokens that end them. -/
inductive ReadsSimple : List Token → Statement → Prop
  | pass {t : Token} {es : List Token} (word : t.kind = .keyword .passKw) (ends : EndsSimple es) :
      ReadsSimple (t :: es) (.pass t.span)
  | returns {t : Token} {es : List Token} (word : t.kind = .keyword .returnKw)
      (ends : EndsSimple es) : ReadsSimple (t :: es) (.returns t.span none)
  | returnsValue {t : Token} {ts es : List Token} {e : Expr} (word : t.kind = .keyword .returnKw)
      (value : Reads ts (.expr e)) (ends : EndsSimple es) :
      ReadsSimple (t :: (ts ++ es)) (.returns (t.span.union e.span) (some e))
  | declared {colon : Token} {ts us es : List Token} {target type : Expr}
      (head : Reads ts (.expr target)) (sign : colon.kind = .mark .colon)
      (typed : Reads us (.expr type)) (ends : EndsSimple es) :
      ReadsSimple (ts ++ colon :: (us ++ es))
        (.assignment ⟨target.span.union type.span, [target], some type, none⟩)
  | declaredValue {colon equal : Token} {ts us vs es : List Token} {target type value : Expr}
      (head : Reads ts (.expr target)) (sign : colon.kind = .mark .colon)
      (typed : Reads us (.expr type)) (sign' : equal.kind = .mark .equal)
      (tail : Reads vs (.expr value)) (ends : EndsSimple es) :
      ReadsSimple (ts ++ colon :: (us ++ equal :: (vs ++ es)))
        (.assignment ⟨target.span.union value.span, [target], some type, some value⟩)
  | augmented {sign : Token} {ts us es : List Token} {target value : Expr}
      (head : Reads ts (.expr target)) (kind : sign.kind = .mark .augmented)
      (tail : Reads us (.expr value)) (ends : EndsSimple es) :
      ReadsSimple (ts ++ sign :: (us ++ es))
        (.unsupported (target.span.union value.span) .augmentedAssignment)
  | assigned {ts us es : List Token} {first : Expr} {more : List Expr}
      (head : Reads ts (.expr first)) (tail : ReadsAssigned us more) (ends : EndsSimple es) :
      ReadsSimple (ts ++ (us ++ es)) (Parser.assignmentOf first more)
  | skipped {t : Token} {k : Keyword} {ts es : List Token} (word : t.kind = .keyword k)
      (skips : ∀ u ∈ ts, Parser.endsStatement u.kind = false) (ends : EndsSimple es) :
      ReadsSimple (t :: (ts ++ es)) (.unsupported t.span (.statement t.lexeme))
  | decorator {t : Token} {ts es : List Token} (sign : t.kind = .mark .atSign)
      (skips : ∀ u ∈ ts, u.kind ≠ .newline) (ends : EndsLine es) :
      ReadsSimple (t :: (ts ++ es)) (.unsupported t.span .decorator)

/-! ## Statements -/

/-- The clauses that a module is made of: a statement, a conditional with its keyword, the
statements that belong to a header, those on its line, and those of an indented block. -/
inductive Clause where
  | statement (s : Statement)
  | branch (kind : ConditionKind) (s : Statement)
  | suite (ss : List Statement)
  | line (ss : List Statement)
  | block (ss : List Statement)

/-- The keyword of a conditional. -/
def ConditionKind.keyword : ConditionKind → Keyword
  | .opening => .ifKw
  | .elif => .elifKw

/-- Line ends and semicolons, which stand between the statements of a block. -/
def Separates (ts : List Token) : Prop := ∀ u ∈ ts, u.kind = .newline ∨ u.kind = .mark .semicolon

/-- The grammar: the stream before a clause, and the one after it. -/
inductive ReadsClause : Stream → Clause → Stream → Prop
  | simple {c c' : Stream} {ts : List Token} {s : Statement} (h : c.Takes ts c')
      (reads : ReadsSimple ts s) : ReadsClause c (.statement s) c'
  | skippedLine {c c' : Stream} {t : Token} {ts es : List Token} {k : Keyword}
      (h : c.Takes (t :: (ts ++ es)) c') (word : t.kind = .keyword k)
      (skips : ∀ u ∈ ts, u.kind ≠ .newline) (ends : EndsLine es) (closed : c'.kind ≠ .indent) :
      ReadsClause c (.statement (.unsupported t.span (.statement t.lexeme))) c'
  | skippedBlock {c c₁ c' : Stream} {t : Token} {ts es : List Token} {k : Keyword}
      (h : c.Takes (t :: (ts ++ es)) c₁) (word : t.kind = .keyword k)
      (skips : ∀ u ∈ ts, u.kind ≠ .newline) (ends : EndsLine es) (opened : c₁.kind = .indent)
      (h' : c₁.Takes (c₁.ahead.take (Stream.blockLength 0 c₁.ahead)) c') :
      ReadsClause c (.statement (.unsupported t.span (.statement t.lexeme))) c'
  | function {c c₁ c' : Stream} {t name lparen rparen colon : Token} {ts us : List Token}
      {ps : List Parameter} {returns : Option Expr} {body : List Statement}
      (h : c.Takes (t :: name :: lparen :: (ts ++ rparen :: (us ++ [colon]))) c₁)
      (word : t.kind = .keyword .defKw) (named : name.kind = .identifier)
      (opens : lparen.kind = .mark .lparen) (parameters : ReadsParameters ts ps)
      (closes : rparen.kind = .mark .rparen) (result : ReadsAfter .arrow us returns)
      (sign : colon.kind = .mark .colon) (suite : ReadsClause c₁ (.suite body) c') :
      ReadsClause c (.statement (.function
        ⟨⟨name.lexeme, name.span⟩, t.span.union colon.span, ps, returns⟩ body)) c'
  | conditional {c c' : Stream} {s : Statement} (h : ReadsClause c (.branch .opening s) c') :
      ReadsClause c (.statement s) c'
  | branch {c c₁ c' : Stream} {kind : ConditionKind} {t colon : Token} {ts : List Token}
      {test : Expr} {body : List Statement} (h : c.Takes (t :: (ts ++ [colon])) c₁)
      (word : t.kind = .keyword kind.keyword) (condition : Reads ts (.expr test))
      (sign : colon.kind = .mark .colon) (suite : ReadsClause c₁ (.suite body) c') :
      ReadsClause c (.branch kind
        (.conditional ⟨t.span.union colon.span, kind, test⟩ body none)) c'
  | branchElif {c c₁ c₂ c' : Stream} {kind : ConditionKind} {t colon : Token} {ts : List Token}
      {test : Expr} {body : List Statement} {s : Statement} (h : c.Takes (t :: (ts ++ [colon])) c₁)
      (word : t.kind = .keyword kind.keyword) (condition : Reads ts (.expr test))
      (sign : colon.kind = .mark .colon) (suite : ReadsClause c₁ (.suite body) c₂)
      (further : ReadsClause c₂ (.branch .elif s) c') :
      ReadsClause c (.branch kind
        (.conditional ⟨t.span.union colon.span, kind, test⟩ body (some [s]))) c'
  | branchElse {c c₁ c₂ c₃ c' : Stream} {kind : ConditionKind} {t colon u colon' : Token}
      {ts : List Token} {test : Expr} {body otherwise : List Statement}
      (h : c.Takes (t :: (ts ++ [colon])) c₁) (word : t.kind = .keyword kind.keyword)
      (condition : Reads ts (.expr test)) (sign : colon.kind = .mark .colon)
      (suite : ReadsClause c₁ (.suite body) c₂) (h' : c₂.Takes [u, colon'] c₃)
      (word' : u.kind = .keyword .elseKw) (sign' : colon'.kind = .mark .colon)
      (alternative : ReadsClause c₃ (.suite otherwise) c') :
      ReadsClause c (.branch kind
        (.conditional ⟨t.span.union colon.span, kind, test⟩ body (some otherwise))) c'
  | lineSuite {c c' : Stream} {ss : List Statement} (here : c.ahead = [] ∨ c.kind ≠ .newline)
      (statements : ReadsClause c (.line ss) c') : ReadsClause c (.suite ss) c'
  | blockSuite {c c₁ c₂ c' : Stream} {newline indent : Token} {gap : List Token}
      {ss : List Statement} (h : c.Takes (newline :: (gap ++ [indent])) c₁)
      (below : newline.kind = .newline) (blank : Separates gap) (opens : indent.kind = .indent)
      (statements : ReadsClause c₁ (.block ss) c₂)
      (close : (c₂.ahead = [] ∧ c' = c₂) ∨ ∃ t, c₂.Takes [t] c' ∧ t.kind = .dedent) :
      ReadsClause c (.suite ss) c'
  | lastOfLine {c c' : Stream} {s : Statement} (h : ReadsClause c (.statement s) c') :
      ReadsClause c (.line [s]) c'
  | onLine {c c₁ c' : Stream} {s : Statement} {ss : List Statement}
      (h : ReadsClause c (.statement s) c₁) (more : c₁.afterNewline = false)
      (h' : ReadsClause c₁ (.line ss) c') : ReadsClause c (.line (s :: ss)) c'
  | endOfBlock {c c' : Stream} {gap : List Token} (h : c.Takes gap c') (blank : Separates gap) :
      ReadsClause c (.block []) c'
  | inBlock {c c₁ c₂ c' : Stream} {gap : List Token} {s : Statement} {ss : List Statement}
      (h : c.Takes gap c₁) (blank : Separates gap) (head : ReadsClause c₁ (.statement s) c₂)
      (tail : ReadsClause c₂ (.block ss) c') : ReadsClause c (.block (s :: ss)) c'

/-- The statements up to the end of the input. -/
inductive ReadsModule : Stream → List Statement → Prop
  | done {c c' : Stream} {gap : List Token} (h : c.Takes gap c') (blank : Separates gap)
      (last : c'.ahead = []) : ReadsModule c []
  | next {c c₁ c₂ : Stream} {gap : List Token} {s : Statement} {ss : List Statement}
      (h : c.Takes gap c₁) (blank : Separates gap) (level : c₁.kind ≠ .indent ∧ c₁.kind ≠ .dedent)
      (head : ReadsClause c₁ (.statement s) c₂) (tail : ReadsModule c₂ ss) : ReadsModule c (s :: ss)

end Gradual
