import Gradual.Expr.Parser
import Gradual.Proofs.Token.Stream

/-!
# The grammar of expressions

The tokens that expressions are read from. The grammar leaves open how operators group; the parser
gives one of its readings.

* `BinaryOp.kinds`, `UnaryOp.kind`, `Construct.openings`, `Construct.brackets`: the tokens of
  operators, and of forms that are read over;
* `Phrase`, **`Reads`**: the grammar;
* `Extends`, `Extends.reads`: what may follow an operand.
-/

namespace Gradual

open Source

/-! ## Tokens of operators -/

/-- The tokens of an operator between two operands. -/
def BinaryOp.kinds : BinaryOp → List TokenKind
  | .or => [.keyword .orKw]
  | .and => [.keyword .andKw]
  | .contained => [.keyword .inKw]
  | .notContained => [.keyword .notKw, .keyword .inKw]
  | .identical => [.keyword .isKw]
  | .notIdentical => [.keyword .isKw, .keyword .notKw]
  | .equal => [.mark .doubleEqual]
  | .notEqual => [.mark .bangEqual]
  | .greater => [.mark .greater]
  | .greaterEqual => [.mark .greaterEqual]
  | .less => [.mark .less]
  | .lessEqual => [.mark .lessEqual]
  | .bitOr => [.mark .pipe]
  | .bitXor => [.mark .caret]
  | .bitAnd => [.mark .ampersand]
  | .shiftLeft => [.mark .lessLess]
  | .shiftRight => [.mark .greaterGreater]
  | .add => [.mark .plus]
  | .subtract => [.mark .minus]
  | .multiply => [.mark .star]
  | .divide => [.mark .slash]
  | .floorDivide => [.mark .doubleSlash]
  | .modulo => [.mark .percent]
  | .matrixMultiply => [.mark .atSign]
  | .power => [.mark .doubleStar]

/-- The token of an operator before its operand. -/
def UnaryOp.kind : UnaryOp → TokenKind
  | .positive => .mark .plus
  | .negative => .mark .minus
  | .invert => .mark .tilde
  | .not => .keyword .notKw

/-- The number that a token stands for. -/
def Literal.ofNumber? : TokenKind → Option Literal
  | .integer n => some (.integer n)
  | .float x => some (.float x)
  | .imaginary x => some (.imaginary x)
  | _ => none

/-- The literal that a token and the texts of further ones stand for. -/
def Literal.ofTexts? (more : String) : TokenKind → Option Literal
  | .string s => some (.string (s ++ more))
  | .bytes s => some (.bytes (s ++ more))
  | _ => none

/-- The tokens before the operand of a form that is read over. -/
def Construct.openings : Construct → List (List TokenKind)
  | .await => [[.keyword .awaitKw]]
  | .yield => [[.keyword .yieldKw], [.keyword .yieldKw, .keyword .fromKw]]
  | .starred => [[.mark .star], [.mark .doubleStar]]
  | .ellipsis => [[.mark .ellipsis]]
  | _ => []

/-- The brackets of a form that is read over after its first expression. -/
def Construct.brackets : Construct → Option (Mark × Mark)
  | .generator => some (.lparen, .rparen)
  | .listComprehension => some (.lbracket, .rbracket)
  | .setLiteral => some (.lbrace, .rbrace)
  | _ => none

/-- The tokens before the value of an argument: its name and an equality sign, or none. -/
inductive ArgumentLabel : List Token → Option Identifier → Prop
  | positional : ArgumentLabel [] none
  | named {t sign : Token} (name : t.kind = .identifier) (equal : sign.kind = .mark .equal) :
      ArgumentLabel [t, sign] (some ⟨t.lexeme, t.span⟩)

/-! ## Phrases -/

/-- The phrases that expressions are made of. Elements and entries are those after the first one,
each after a comma. -/
inductive Phrase where
  | expr (e : Expr)
  | elements (es : List Expr)
  | entries (es : Option (List (Expr × Expr)))
  | subscript (e : Expr)
  | arguments (as : List (Argument Expr))

/-- The grammar: the tokens that a phrase is read from. -/
inductive Reads : List Token → Phrase → Prop
  | name {t : Token} (kind : t.kind = .identifier) :
      Reads [t] (.expr (.name t.span ⟨t.lexeme, t.span⟩))
  | number {t : Token} {v : Literal} (kind : Literal.ofNumber? t.kind = some v) :
      Reads [t] (.expr (.literal t.span v))
  | strings {t : Token} {more : List Token} {v : Literal}
      (kind : Literal.ofTexts? (String.join (more.filterMap (Parser.literalText? ·.kind))) t.kind =
        some v)
      (texts : ∀ u ∈ more, (Parser.literalText? u.kind).isSome = true) :
      Reads (t :: more) (.expr (.literal (more.foldl (fun s u => s.union u.span) t.span) v))
  | unary {t : Token} {ts : List Token} {op : UnaryOp} {e : Expr} (kind : t.kind = op.kind)
      (operand : Reads ts (.expr e)) :
      Reads (t :: ts) (.expr (.unary (t.span.union e.span) op e))
  | binary {ts us vs : List Token} {op : BinaryOp} {left right : Expr}
      (first : Reads ts (.expr left)) (kinds : us.map (·.kind) = op.kinds)
      (second : Reads vs (.expr right)) :
      Reads (ts ++ (us ++ vs)) (.expr (.binary (left.span.union right.span) op left right))
  | opened {t : Token} {ts us : List Token} {k : Construct} {e : Expr} (head : ts.head? = some t)
      (kinds : ts.map (·.kind) ∈ k.openings) (operand : Reads us (.expr e)) :
      Reads (ts ++ us) (.expr (.unsupported (t.span.union e.span) k))
  | alone {t : Token} {ts : List Token} {k : Construct} (head : ts.head? = some t)
      (kinds : ts.map (·.kind) ∈ k.openings) : Reads ts (.expr (.unsupported t.span k))
  | lambda {t colon : Token} {header ts : List Token} {body : Expr}
      (kind : t.kind = .keyword .lambdaKw) (inside : ∀ u ∈ header, u.kind ≠ .mark .colon)
      (last : colon.kind = .mark .colon) (operand : Reads ts (.expr body)) :
      Reads (t :: (header ++ colon :: ts)) (.expr (.unsupported (t.span.union body.span) .lambda))
  | conditional {t u : Token} {ts us vs : List Token} {e test otherwise : Expr}
      (first : Reads ts (.expr e)) (if' : t.kind = .keyword .ifKw) (second : Reads us (.expr test))
      (else' : u.kind = .keyword .elseKw) (third : Reads vs (.expr otherwise)) :
      Reads (ts ++ t :: (us ++ u :: vs))
        (.expr (.unsupported (e.span.union otherwise.span) .conditionalExpression))
  | assignment {t : Token} {ts us : List Token} {e value : Expr} (first : Reads ts (.expr e))
      (sign : t.kind = .mark .colonEqual) (second : Reads us (.expr value)) :
      Reads (ts ++ t :: us) (.expr (.unsupported (e.span.union value.span) .assignmentExpression))
  | listed {ts us : List Token} {first : Expr} {more : List Expr} (head : Reads ts (.expr first))
      (tail : Reads us (.elements more)) (comma : us ≠ []) :
      Reads (ts ++ us) (.expr (.tuple (Parser.spanOf (first :: more)) (first :: more)))
  | emptyTuple {open' close : Token} (opens : open'.kind = .mark .lparen)
      (closes : close.kind = .mark .rparen) :
      Reads [open', close] (.expr (.tuple (open'.span.union close.span) []))
  | emptyList {open' close : Token} (opens : open'.kind = .mark .lbracket)
      (closes : close.kind = .mark .rbracket) :
      Reads [open', close] (.expr (.list (open'.span.union close.span) []))
  | emptyDict {open' close : Token} (opens : open'.kind = .mark .lbrace)
      (closes : close.kind = .mark .rbrace) :
      Reads [open', close] (.expr (.dict (open'.span.union close.span) []))
  | parenthesized {open' close : Token} {ts : List Token} {e : Expr}
      (opens : open'.kind = .mark .lparen) (inside : Reads ts (.expr e))
      (closes : close.kind = .mark .rparen) :
      Reads (open' :: (ts ++ [close])) (.expr (e.withSpan (open'.span.union close.span)))
  | tuple {open' close : Token} {ts us : List Token} {first : Expr} {more : List Expr}
      (opens : open'.kind = .mark .lparen) (head : Reads ts (.expr first))
      (tail : Reads us (.elements more)) (closes : close.kind = .mark .rparen) :
      Reads (open' :: (ts ++ (us ++ [close])))
        (.expr (.tuple (open'.span.union close.span) (first :: more)))
  | list {open' close : Token} {ts us : List Token} {first : Expr} {more : List Expr}
      (opens : open'.kind = .mark .lbracket) (head : Reads ts (.expr first))
      (tail : Reads us (.elements more)) (closes : close.kind = .mark .rbracket) :
      Reads (open' :: (ts ++ (us ++ [close])))
        (.expr (.list (open'.span.union close.span) (first :: more)))
  | readOver {open' close : Token} {ts us : List Token} {k : Construct} {m m' : Mark} {e : Expr}
      (brackets : k.brackets = some (m, m')) (opens : open'.kind = .mark m)
      (head : Reads ts (.expr e)) (skip : Stream.Balanced us) (closes : close.kind = .mark m') :
      Reads (open' :: (ts ++ (us ++ [close])))
        (.expr (.unsupported (open'.span.union close.span) k))
  | dictComprehension {open' colon close : Token} {ts us vs : List Token} {key value : Expr}
      (opens : open'.kind = .mark .lbrace) (first : Reads ts (.expr key))
      (sign : colon.kind = .mark .colon) (second : Reads us (.expr value))
      (skip : Stream.Balanced vs) (closes : close.kind = .mark .rbrace) :
      Reads (open' :: (ts ++ colon :: (us ++ (vs ++ [close]))))
        (.expr (.unsupported (open'.span.union close.span) .dictComprehension))
  | dict {open' colon close : Token} {ts us vs : List Token} {key value : Expr}
      {more : List (Expr × Expr)} (opens : open'.kind = .mark .lbrace)
      (first : Reads ts (.expr key)) (sign : colon.kind = .mark .colon)
      (second : Reads us (.expr value)) (tail : Reads vs (.entries (some more)))
      (closes : close.kind = .mark .rbrace) :
      Reads (open' :: (ts ++ colon :: (us ++ (vs ++ [close]))))
        (.expr (.dict (open'.span.union close.span) ((key, value) :: more)))
  | dictUnpacking {open' colon close : Token} {ts us vs : List Token} {key value : Expr}
      (opens : open'.kind = .mark .lbrace) (first : Reads ts (.expr key))
      (sign : colon.kind = .mark .colon) (second : Reads us (.expr value))
      (tail : Reads vs (.entries none)) (closes : close.kind = .mark .rbrace) :
      Reads (open' :: (ts ++ colon :: (us ++ (vs ++ [close]))))
        (.expr (.unsupported (open'.span.union close.span) .dictUnpacking))
  | call {open' close : Token} {ts us : List Token} {callee : Expr} {as : List (Argument Expr)}
      (head : Reads ts (.expr callee)) (opens : open'.kind = .mark .lparen)
      (inside : Reads us (.arguments as)) (closes : close.kind = .mark .rparen) :
      Reads (ts ++ open' :: (us ++ [close]))
        (.expr (.call (callee.span.union close.span) callee as))
  | index {open' close : Token} {ts us : List Token} {object i : Expr}
      (head : Reads ts (.expr object)) (opens : open'.kind = .mark .lbracket)
      (inside : Reads us (.subscript i)) (closes : close.kind = .mark .rbracket) :
      Reads (ts ++ open' :: (us ++ [close]))
        (.expr (.index (object.span.union close.span) object i))
  | member {dot p : Token} {ts : List Token} {object : Expr} (head : Reads ts (.expr object))
      (sign : dot.kind = .mark .dot) (name : p.kind = .identifier) :
      Reads (ts ++ [dot, p]) (.expr (.member (object.span.union p.span) object ⟨p.lexeme, p.span⟩))
  | noElements : Reads [] (.elements [])
  | lastComma {comma : Token} (sign : comma.kind = .mark .comma) : Reads [comma] (.elements [])
  | element {comma : Token} {ts us : List Token} {e : Expr} {es : List Expr}
      (sign : comma.kind = .mark .comma) (head : Reads ts (.expr e))
      (tail : Reads us (.elements es)) : Reads (comma :: (ts ++ us)) (.elements (e :: es))
  | noEntries : Reads [] (.entries (some []))
  | lastEntry {comma : Token} (sign : comma.kind = .mark .comma) :
      Reads [comma] (.entries (some []))
  | unpacking {comma : Token} {ts : List Token} (sign : comma.kind = .mark .comma)
      (skip : Stream.Balanced ts) : Reads (comma :: ts) (.entries none)
  | entry {comma colon : Token} {ts us vs : List Token} {key value : Expr}
      {more : Option (List (Expr × Expr))} (sign : comma.kind = .mark .comma)
      (first : Reads ts (.expr key)) (between : colon.kind = .mark .colon)
      (second : Reads us (.expr value)) (tail : Reads vs (.entries more)) :
      Reads (comma :: (ts ++ colon :: (us ++ vs))) (.entries (more.map ((key, value) :: ·)))
  | slice {colon : Token} {ts : List Token} (sign : colon.kind = .mark .colon)
      (skip : Stream.Balanced (colon :: ts)) :
      Reads (colon :: ts) (.subscript (.unsupported colon.span .slice))
  | sliceFrom {ts us : List Token} {i : Expr} (head : Reads ts (.expr i))
      (skip : Stream.Balanced us) : Reads (ts ++ us) (.subscript (.unsupported i.span .slice))
  | subscript {ts : List Token} {i : Expr} (head : Reads ts (.expr i)) : Reads ts (.subscript i)
  | noArguments : Reads [] (.arguments [])
  | generator {ts us : List Token} {e : Expr} (head : Reads ts (.expr e))
      (skip : Stream.Balanced us) :
      Reads (ts ++ us) (.arguments [⟨none, .unsupported e.span .generator⟩])
  | lastArgument {ts us : List Token} {id : Option Identifier} {e : Expr}
      (label : ArgumentLabel ts id) (head : Reads us (.expr e)) :
      Reads (ts ++ us) (.arguments [⟨id, e⟩])
  | argument {comma : Token} {ts us vs : List Token} {id : Option Identifier} {e : Expr}
      {as : List (Argument Expr)} (label : ArgumentLabel ts id) (head : Reads us (.expr e))
      (sign : comma.kind = .mark .comma) (tail : Reads vs (.arguments as)) :
      Reads (ts ++ (us ++ comma :: vs)) (.arguments (⟨id, e⟩ :: as))

/-- Operators, calls, subscripts and attributes after an expression, up to the whole that they make
of it. -/
inductive Extends : Expr → List Token → Expr → Prop
  | nothing {e : Expr} : Extends e [] e
  | binary {us vs ws : List Token} {op : BinaryOp} {left right e : Expr}
      (kinds : us.map (·.kind) = op.kinds) (operand : Reads vs (.expr right))
      (more : Extends (.binary (left.span.union right.span) op left right) ws e) :
      Extends left (us ++ (vs ++ ws)) e
  | call {open' close : Token} {us vs : List Token} {callee e : Expr} {as : List (Argument Expr)}
      (opens : open'.kind = .mark .lparen) (inside : Reads us (.arguments as))
      (closes : close.kind = .mark .rparen)
      (more : Extends (.call (callee.span.union close.span) callee as) vs e) :
      Extends callee (open' :: (us ++ close :: vs)) e
  | index {open' close : Token} {us vs : List Token} {object i e : Expr}
      (opens : open'.kind = .mark .lbracket) (inside : Reads us (.subscript i))
      (closes : close.kind = .mark .rbracket)
      (more : Extends (.index (object.span.union close.span) object i) vs e) :
      Extends object (open' :: (us ++ close :: vs)) e
  | member {dot p : Token} {ts : List Token} {object e : Expr} (sign : dot.kind = .mark .dot)
      (name : p.kind = .identifier)
      (more : Extends (.member (object.span.union p.span) object ⟨p.lexeme, p.span⟩) ts e) :
      Extends object (dot :: p :: ts) e

theorem Extends.reads {left e : Expr} {ts us : List Token} (h : Extends left us e)
    (hleft : Reads ts (.expr left)) : Reads (ts ++ us) (.expr e) := by
  induction h generalizing ts with
  | nothing => simpa using hleft
  | binary kinds operand _ ih => simpa using ih (.binary hleft kinds operand)
  | call opens inside closes _ ih => simpa using ih (.call hleft opens inside closes)
  | index opens inside closes _ ih => simpa using ih (.index hleft opens inside closes)
  | member sign name _ ih => simpa using ih (.member hleft sign name)

end Gradual
