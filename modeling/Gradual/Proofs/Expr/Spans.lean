import Gradual.Proofs.Expr.Places
import Gradual.Proofs.Token.Extent

/-!
# The spans of nested expressions

The span of an expression is a union of spans that stand one after the other: those of its operands
and elements, and of the tokens around them. So it encloses them, and they do not overlap.

* `Expr.children`, `Expr.Within`: the direct parts of an expression, and the parts at any depth;
* `Expr.HoldsChildren`, `Expr.Nested`: the span of an expression encloses those of its parts, which
  stand one after the other;
* **`Reads.nested`**: expressions that are read from tokens in turn are nested.
-/

namespace Gradual

open Source

/-! ## Parts of expressions -/

namespace Expr

/-- The direct parts of an expression, in the order in which they are written. -/
def children : Expr → List Expr
  | name .. | literal .. | unsupported .. => []
  | list _ es | tuple _ es => es
  | dict _ es => es.flatMap fun e => [e.1, e.2]
  | unary _ _ e | member _ e _ => [e]
  | binary _ _ l r | index _ l r => [l, r]
  | call _ f as => f :: as.map (·.value)

@[simp] theorem children_withSpan (s : Span) (e : Expr) : (e.withSpan s).children = e.children := by
  cases e <;> rfl

/-- `x` is the expression, or stands in it at some depth. -/
inductive Within (x : Expr) : Expr → Prop
  | self : Within x x
  | child {e c : Expr} (hc : c ∈ e.children) (h : Within x c) : Within x e

/-- The span is a place of the text that starts no later than it ends. It encloses those of the
direct parts, each of which ends before the next one starts. -/
structure HoldsChildren (e : Expr) : Prop where
  proper : e.span.Proper
  encloses : ∀ c ∈ e.children, e.span.Encloses c.span
  apart : (e.children.map span).Pairwise Span.Precedes

/-- The spans of an expression and of its parts at any depth hold those of their direct parts. -/
inductive Nested : Expr → Prop
  | intro {e : Expr} (here : e.HoldsChildren) (inside : ∀ c ∈ e.children, c.Nested) : e.Nested

theorem Nested.holdsChildren {e x : Expr} (h : e.Nested) (hx : x.Within e) : x.HoldsChildren := by
  induction hx with
  | self =>
    cases h with
    | intro here _ => exact here
  | child hc _ ih =>
    cases h with
    | intro _ inside => exact ih (inside _ hc)

/-- Parentheses enclose what stands in them. -/
theorem Nested.withSpan {e : Expr} {s : Span} (h : e.Nested) (hs : s.Proper)
    (hencloses : s.Encloses e.span) : (e.withSpan s).Nested := by
  cases h with
  | intro here inside =>
    refine .intro ⟨?_, fun c hc => ?_, ?_⟩ ?_
    · rwa [span_withSpan]
    · rw [children_withSpan] at hc
      rw [span_withSpan]
      exact hencloses.trans (here.encloses c hc)
    · rw [children_withSpan]
      exact here.apart
    · rwa [children_withSpan]

end Expr

/-! ## Phrases -/

/-- The expressions that a phrase is made of, in the order in which they are written. -/
def Phrase.parts : Phrase → List Expr
  | .expr e | .subscript e => [e]
  | .elements es => es
  | .entries es => (es.getD []).flatMap fun e => [e.1, e.2]
  | .arguments as => as.map (·.value)

/-- The parts of a phrase are nested, and their spans stand one after the other in the tokens. -/
structure Phrase.Spaced (p : Phrase) (ts : List Token) : Prop where
  successive : Successive (p.parts.map Expr.span) ts
  nested : ∀ e ∈ p.parts, e.Nested

namespace Phrase.Spaced

variable {p q r : Phrase} {ts us vs : List Token}

theorem of_parts (h : p.Spaced ts) (hq : q.parts = p.parts) : q.Spaced ts :=
  ⟨hq ▸ h.successive, hq ▸ h.nested⟩

theorem of_parts_eq_nil (h : p.parts = []) : p.Spaced ts := by
  refine ⟨?_, ?_⟩
  · rw [h]
    exact successive_nil
  · simp [h]

theorem mono (h : p.Spaced ts) (hsub : ts ⊆ us) : p.Spaced us :=
  ⟨h.successive.mono hsub, h.nested⟩

/-- A phrase, and another one among the tokens after it. -/
theorem append (hp : p.Spaced ts) (hq : q.Spaced vs) (hsub : vs ⊆ us) (hts : InTurn (ts ++ us))
    (hr : r.parts = p.parts ++ q.parts) : r.Spaced (ts ++ us) where
  successive := by
    rw [hr, List.map_append]
    exact hp.successive.append (hq.successive.mono hsub) hts
  nested := by
    rw [hr]
    exact List.forall_mem_append.2 ⟨hp.nested, hq.nested⟩

/-- A key and its value, with further entries after them. -/
theorem entry {key value : Expr} {colon : Token} (hkey : (Phrase.expr key).Spaced ts)
    (hvalue : (Phrase.expr value).Spaced us) (hp : p.Spaced vs)
    (hts : InTurn (ts ++ colon :: (us ++ vs))) :
    (Phrase.elements (key :: value :: p.parts)).Spaced (ts ++ colon :: (us ++ vs)) := by
  have hrest : (Phrase.elements (value :: p.parts)).Spaced (us ++ vs) :=
    hvalue.append hp (List.Subset.refl _) hts.right.tail rfl
  exact hkey.append hrest (List.subset_cons_self ..) hts rfl

theorem madeOf {e : Expr} (h : (Phrase.expr e).Spaced ts) : e.span.MadeOf ts :=
  h.successive.madeOf e.span (by simp [parts])

end Phrase.Spaced

section Forms

variable {e x : Expr} {a c : Span} {ss : List Span} {ts us : List Token} {open' close : Token}
  {m m' : Mark} {p : Phrase}

theorem spaced_expr (hmade : e.span.MadeOf ts)
    (hencloses : ∀ x ∈ e.children, e.span.Encloses x.span)
    (hapart : (e.children.map Expr.span).Pairwise Span.Precedes)
    (inside : ∀ x ∈ e.children, x.Nested) : (Phrase.expr e).Spaced ts where
  successive := hmade.successive
  nested x hx := by
    obtain rfl := List.mem_singleton.1 hx
    exact .intro ⟨hmade.proper, hencloses, hapart⟩ inside

/-- An expression without parts. -/
theorem spaced_leaf (hleaf : e.children = []) (hmade : e.span.MadeOf ts) :
    (Phrase.expr e).Spaced ts :=
  spaced_expr hmade (by simp [hleaf]) (by simp [hleaf]) (by simp [hleaf])

theorem spaced_unsupported {k : Construct} (hmade : a.MadeOf ts) :
    (Phrase.expr (.unsupported a k)).Spaced ts := spaced_leaf rfl hmade

/-- An expression whose span reaches from a first span to a last one, with its parts among these and
those between them. -/
theorem spaced_union (hspan : e.span = a.union c) (h : Successive (a :: (ss ++ [c])) ts)
    (hchildren : (e.children.map Expr.span).Sublist (a :: (ss ++ [c])))
    (inside : ∀ x ∈ e.children, x.Nested) : (Phrase.expr e).Spaced ts := by
  obtain ⟨hmade, hencloses⟩ := h.union_madeOf
  rw [← hspan] at hmade hencloses
  exact spaced_expr hmade (fun x hx => hencloses _ (hchildren.subset (List.mem_map_of_mem hx)))
    (h.apart.sublist hchildren) inside

/-- A form that is read over, from one span up to another one, has no parts. -/
theorem spaced_readOver {k : Construct} (h : Successive ([a] ++ [c]) ts) :
    (Phrase.expr (.unsupported (a.union c) k)).Spaced ts := by
  have hends : Successive (a :: ([] ++ [c])) ts := h
  exact spaced_union rfl hends (List.nil_sublist _) fun _ hx => absurd hx List.not_mem_nil

/-- The spans of two brackets, and those between them. -/
theorem successive_bracketed (hts : InTurn (open' :: (ts ++ [close])))
    (opens : open'.kind = .mark m) (closes : close.kind = .mark m') (h : Successive ss ts) :
    Successive (open'.span :: (ss ++ [close.span])) (open' :: (ts ++ [close])) := by
  have hopen : Successive [open'.span] [open'] := hts.head (by rw [opens]; rfl)
  have hclose : Successive [close.span] [close] := hts.tail.right.head (by rw [closes]; rfl)
  exact hopen.append (h.append hclose hts.tail) hts

/-- An expression in brackets, with its parts between them. -/
theorem spaced_bracketed (hspan : e.span = open'.span.union close.span)
    (hts : InTurn (open' :: (ts ++ [close]))) (opens : open'.kind = .mark m)
    (closes : close.kind = .mark m') (hp : p.Spaced ts) (hchildren : e.children = p.parts) :
    (Phrase.expr e).Spaced (open' :: (ts ++ [close])) := by
  have hall := successive_bracketed hts opens closes hp.successive
  refine spaced_union hspan hall ?_ (hchildren ▸ hp.nested)
  rw [hchildren]
  exact (List.sublist_append_left ..).trans (List.sublist_cons_self ..)

/-- A form in brackets that is read over. -/
theorem spaced_brackets {k : Construct} (hts : InTurn (open' :: (ts ++ [close])))
    (opens : open'.kind = .mark m) (closes : close.kind = .mark m') :
    (Phrase.expr (.unsupported (open'.span.union close.span) k)).Spaced
      (open' :: (ts ++ [close])) :=
  spaced_bracketed (p := .elements []) rfl hts opens closes (.of_parts_eq_nil rfl) rfl

/-- An expression that starts with a part and goes on with others in brackets. -/
theorem spaced_applied (hspan : x.span = e.span.union close.span)
    (hts : InTurn (ts ++ open' :: (us ++ [close]))) (he : (Phrase.expr e).Spaced ts)
    (opens : open'.kind = .mark m) (hp : p.Spaced us) (closes : close.kind = .mark m')
    (hchildren : x.children = e :: p.parts) :
    (Phrase.expr x).Spaced (ts ++ open' :: (us ++ [close])) := by
  have hrest := (successive_bracketed hts.right opens closes hp.successive).sublist
    (List.sublist_cons_self ..)
  have hall : Successive (e.span :: (p.parts.map Expr.span ++ [close.span]))
      (ts ++ open' :: (us ++ [close])) := he.successive.append hrest hts
  refine spaced_union hspan hall ?_ ?_
  · rw [hchildren, List.map_cons]
    exact (List.sublist_append_left ..).cons_cons _
  · rw [hchildren]
    exact List.forall_mem_cons.2 ⟨he.nested e (by simp [Phrase.parts]), hp.nested⟩

end Forms

theorem TokenKind.hasText_of_literalText {k : TokenKind}
    (h : (Parser.literalText? k).isSome = true) : k.hasText = true := by
  cases k <;> simp [Parser.literalText?] at h <;> rfl

theorem Reads.spaced {ts : List Token} {p : Phrase} (h : Reads ts p) (hts : InTurn ts) :
    p.Spaced ts := by
  have hsplit (ts us vs : List Token) (colon close : Token) :
      ts ++ colon :: (us ++ (vs ++ [close])) = (ts ++ colon :: (us ++ vs)) ++ [close] := by simp
  -- each form puts the spans of its parts and of the tokens around them one after the other; its
  -- own span is the union of the outermost two
  induction h with
  | @name t kind => exact spaced_leaf rfl (hts.token (by simp) (by rw [kind]; rfl))
  | @number t v kind =>
    refine spaced_leaf rfl (hts.token (by simp) ?_)
    cases hk : t.kind <;> simp [hk, Literal.ofNumber?] at kind <;> rfl
  | @strings t more v kind texts =>
    have htext : t.kind.hasText = true := by
      cases hk : t.kind <;> simp [hk, Literal.ofTexts?] at kind <;> rfl
    have hall : ∀ u ∈ t :: more, u.kind.hasText = true :=
      List.forall_mem_cons.2 ⟨htext, fun u hu => TokenKind.hasText_of_literalText (texts u hu)⟩
    refine spaced_leaf rfl ?_
    change (more.foldl (fun s u => s.union u.span) t.span).MadeOf (t :: more)
    rw [← List.foldl_map (f := Token.span) (g := Span.union)]
    exact (hts.successive hall).foldl_madeOf.1
  | @unary t ts op e kind _ ih =>
    have hop : Successive [t.span] [t] := hts.head (by rw [kind]; cases op <;> rfl)
    have hall : Successive (t.span :: ([] ++ [e.span])) (t :: ts) :=
      hop.append (ih hts.tail).successive hts
    exact spaced_union rfl hall (List.sublist_cons_self ..) (ih hts.tail).nested
  | @binary ts us vs op left right _ _ _ ihl ihr =>
    have hpair : (Phrase.elements [left, right]).Spaced (ts ++ (us ++ vs)) :=
      (ihl hts.left).append (ihr hts.right.right) (List.subset_append_right ..) hts rfl
    have hall : Successive (left.span :: ([] ++ [right.span])) (ts ++ (us ++ vs)) :=
      hpair.successive
    exact spaced_union rfl hall (List.Sublist.refl _) hpair.nested
  | @opened t ts us k e head kinds _ ih =>
    obtain ⟨ts, rfl⟩ := List.head?_eq_some_iff.1 head
    have htext := TokenKind.hasText_of_isFlat (Construct.isFlat_openings kinds _ List.mem_cons_self)
    have hfirst := hts.left.token List.mem_cons_self htext
    exact spaced_readOver (hfirst.successive.append (ih hts.right).successive hts)
  | @alone t ts k head kinds =>
    obtain ⟨us, rfl⟩ := List.head?_eq_some_iff.1 head
    have htext := TokenKind.hasText_of_isFlat (Construct.isFlat_openings kinds _ List.mem_cons_self)
    exact spaced_leaf rfl (hts.token List.mem_cons_self htext)
  | lambda word _ _ _ ih =>
    have hbody := (ih hts.tail.right.tail).successive
    exact spaced_readOver ((hts.head (by rw [word]; rfl)).append
      (hbody.mono fun u hu => by simp [hu]) hts)
  | conditional _ _ _ _ _ ihe _ iho =>
    have hlast := (iho hts.right.tail.right.tail).successive
    exact spaced_readOver ((ihe hts.left).successive.append
      (hlast.mono fun u hu => by simp [hu]) hts)
  | assignment _ _ _ ihe ihv =>
    have hlast := (ihv hts.right.tail).successive
    exact spaced_readOver ((ihe hts.left).successive.append
      (hlast.mono (List.subset_cons_self ..)) hts)
  | @listed ts us first more _ _ _ ihe ihm =>
    have hparts : (Phrase.elements (first :: more)).Spaced (ts ++ us) :=
      (ihe hts.left).append (ihm hts.right) (List.Subset.refl _) hts rfl
    obtain ⟨hmade, hencloses⟩ := Successive.foldl_madeOf hparts.successive
    rw [List.foldl_map] at hmade hencloses
    exact spaced_expr hmade (fun x hx => hencloses _ (List.mem_map_of_mem hx))
      hparts.successive.apart hparts.nested
  | @emptyTuple open' close opens closes | @emptyList open' close opens closes
  | @emptyDict open' close opens closes =>
    have hin : InTurn (open' :: ([] ++ [close])) := hts
    exact spaced_bracketed (p := .elements []) rfl hin opens closes (.of_parts_eq_nil rfl) rfl
  | @parenthesized open' close ts e opens _ closes ih =>
    -- the parts keep the spans that they have inside, so they are enclosed through the old span
    have he := ih hts.tail.left
    obtain ⟨hmade, hencloses⟩ :=
      (successive_bracketed hts opens closes he.successive).union_madeOf
    refine ⟨?_, fun x hx => ?_⟩
    · simpa [Phrase.parts] using hmade.successive
    · obtain rfl := List.mem_singleton.1 hx
      exact (he.nested e (by simp [Phrase.parts])).withSpan hmade.proper
        (hencloses e.span (by simp [Phrase.parts]))
  | @tuple open' close ts us first more opens _ _ closes ihe ihm
  | @list open' close ts us first more opens _ _ closes ihe ihm =>
    rw [← List.append_assoc] at hts ⊢
    have hparts : (Phrase.elements (first :: more)).Spaced (ts ++ us) :=
      (ihe hts.tail.left.left).append (ihm hts.tail.left.right) (List.Subset.refl _)
        hts.tail.left rfl
    exact spaced_bracketed rfl hts opens closes hparts rfl
  | readOver _ opens _ _ closes =>
    rw [← List.append_assoc] at hts ⊢
    exact spaced_brackets hts opens closes
  | dictComprehension opens _ _ _ _ closes | dictUnpacking opens _ _ _ _ closes =>
    rw [hsplit] at hts ⊢
    exact spaced_brackets hts opens closes
  | dict opens _ _ _ _ closes ihk ihv ihm =>
    rw [hsplit] at hts ⊢
    have hin := hts.tail.left
    exact spaced_bracketed rfl hts opens closes
      ((ihk hin.left).entry (ihv hin.right.tail.left) (ihm hin.right.tail.right) hin) rfl
  | call _ opens _ closes ihe iha =>
    exact spaced_applied rfl hts (ihe hts.left) opens (iha hts.right.tail.left) closes rfl
  | index _ opens _ closes ihe ihi =>
    exact spaced_applied rfl hts (ihe hts.left) opens (ihi hts.right.tail.left) closes rfl
  | @member dot p ts object _ sign name ih =>
    have hname := hts.right.token (t := p) (by simp) (by rw [name]; rfl)
    have hall : Successive (object.span :: ([] ++ [p.span])) (ts ++ [dot, p]) :=
      (ih hts.left).successive.append hname.successive hts
    exact spaced_union rfl hall (by simp [Expr.children]) (ih hts.left).nested
  | noElements | lastComma | noEntries | lastEntry | unpacking | noArguments =>
    exact .of_parts_eq_nil rfl
  | element _ _ _ ihe ihm =>
    exact ((ihe hts.tail.left).append (ihm hts.tail.right) (List.Subset.refl _) hts.tail rfl).mono
      (List.subset_cons_self ..)
  | @entry comma colon ts us vs key value more _ _ _ _ _ ihk ihv ihm =>
    cases more with
    | none => exact .of_parts_eq_nil rfl
    | some more =>
      have hin := hts.tail
      have hentry :=
        (ihk hin.left).entry (ihv hin.right.tail.left) (ihm hin.right.tail.right) hin
      exact (hentry.mono (List.subset_cons_self ..)).of_parts rfl
  | slice sign =>
    have hmade := hts.token List.mem_cons_self (by rw [sign]; rfl)
    exact (spaced_unsupported hmade).of_parts rfl
  | @sliceFrom ts us _ _ _ ih | @generator ts us _ _ _ ih =>
    have hmade := (ih hts.left).madeOf.mono (List.subset_append_left ts us)
    exact (spaced_unsupported hmade).of_parts rfl
  | subscript _ ih => exact (ih hts).of_parts rfl
  | lastArgument _ _ ih =>
    exact ((ih hts.right).mono (List.subset_append_right ..)).of_parts rfl
  | argument _ _ _ _ ihe iha =>
    exact ((ihe hts.right.left).append (iha hts.right.right.tail) (List.subset_cons_self ..)
      hts.right rfl).mono (List.subset_append_right ..)

/-- **Expressions are nested.** The span of an expression encloses those of its parts, which stand
one after the other, and so on inside them. -/
theorem Reads.nested {ts : List Token} {e : Expr} (h : Reads ts (.expr e)) (hts : InTurn ts) :
    e.Nested := (h.spaced hts).nested e (by simp [Phrase.parts])

end Gradual
