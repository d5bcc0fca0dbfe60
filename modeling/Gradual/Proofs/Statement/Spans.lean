import Gradual.Proofs.Expr.Spans
import Gradual.Proofs.Statement.Suites

/-!
# The spans of a module

Every expression of a module encloses its parts, and every statement starts at its first token.

* `Statement.exprs`, `StatementIn`: the expressions of a statement, and the statements at any depth;
* `ReadFrom`: the tokens that a statement is read from;
* **`parseModule_spans_nested`**: the spans of a module are nested and in order.
-/

namespace Gradual

open Source

/-! ## The expressions of a statement -/

/-- The type and the default value of a parameter. -/
def Parameter.exprs (p : Parameter) : List Expr := p.declared.toList ++ p.initial.toList

/-- The expressions of a statement outside its suites. -/
def Statement.exprs : Statement → List Expr
  | .function head _ => head.parameters.flatMap Parameter.exprs ++ head.returns.toList
  | .assignment a => a.targets ++ (a.declared.toList ++ a.value.toList)
  | .returns _ value => value.toList
  | .conditional head _ _ => [head.test]
  | .expression e => [e]
  | .pass _ | .unsupported .. => []

section Nested

variable {ts : List Token}

theorem ReadsAfter.nested {m : Mark} {e : Option Expr} (h : ReadsAfter m ts e) (hts : InTurn ts) :
    ∀ x ∈ e.toList, x.Nested := by
  cases h with
  | absent => simp
  | present _ reads => simpa using reads.nested hts.tail

theorem ReadsParameter.nested {p : Option Parameter} (h : ReadsParameter ts p) (hts : InTurn ts) :
    ∀ q ∈ p.toList, ∀ e ∈ q.exprs, e.Nested := by
  cases h with
  | slash | star => simp [Parameter.exprs]
  | named _ _ type value =>
    have htype := type.nested hts.right.tail.left
    have hvalue := value.nested hts.right.tail.right
    rw [Option.toList_some, List.forall_mem_singleton]
    exact List.forall_mem_append.2 ⟨htype, hvalue⟩

theorem ReadsParameters.nested {ps : List Parameter} (h : ReadsParameters ts ps)
    (hts : InTurn ts) : ∀ p ∈ ps, ∀ e ∈ p.exprs, e.Nested := by
  induction h with
  | none => simp
  | last head => exact head.nested hts
  | more head _ _ ih =>
    exact List.forall_mem_append.2 ⟨head.nested hts.left, ih hts.right.tail⟩

theorem ReadsAssigned.nested {es : List Expr} (h : ReadsAssigned ts es) (hts : InTurn ts) :
    ∀ e ∈ es, e.Nested := by
  induction h with
  | none => simp
  | more _ head _ ih =>
    exact List.forall_mem_cons.2 ⟨head.nested hts.tail.left, ih hts.tail.right⟩

theorem ReadsSimple.nested {s : Statement} (h : ReadsSimple ts s) (hts : InTurn ts) :
    ∀ e ∈ s.exprs, e.Nested := by
  cases h with
  | pass | returns | augmented | skipped | decorator => simp [Statement.exprs]
  | returnsValue _ value => simpa [Statement.exprs] using value.nested hts.tail.left
  | declared head _ typed =>
    have htype := typed.nested hts.right.tail.left
    simpa [Statement.exprs] using And.intro (head.nested hts.left) htype
  | declaredValue head _ typed _ value =>
    have htype := typed.nested hts.right.tail.left
    have hvalue := value.nested hts.right.tail.right.tail.left
    simpa [Statement.exprs] using And.intro (head.nested hts.left) (And.intro htype hvalue)
  | assigned head tail =>
    have hfirst := head.nested hts.left
    have hmore := tail.nested hts.right.left
    unfold Parser.assignmentOf
    split
    · simpa [Statement.exprs] using hfirst
    · next value hvalue =>
      refine List.forall_mem_append.2 ⟨List.forall_mem_cons.2 ⟨hfirst, fun e he => ?_⟩, ?_⟩
      · exact hmore e (List.dropLast_subset _ he)
      · simpa using hmore value (List.mem_of_getLast? hvalue)

end Nested

/-! ## Statements at any depth -/

/-- The statement belongs to the module, or to a suite of one of its statements, at any depth. -/
inductive StatementIn (s : Statement) : List Statement → Prop
  | here {m : List Statement} (hs : s ∈ m) : StatementIn s m
  | inside {x : Statement} {block m : List Statement} (hx : x ∈ m) (hb : block ∈ x.suites)
      (more : StatementIn s block) : StatementIn s m

/-- The statement, or the conditional that goes on another one, is read between the two streams. -/
def ReadsStatement (c : Stream) (s : Statement) (c' : Stream) : Prop :=
  ReadsClause c (.statement s) c' ∨ ReadsClause c (.branch .elif s) c'

theorem readsStatement_of_branch {c c' : Stream} {kind : ConditionKind} {s : Statement}
    (h : ReadsClause c (.branch kind s) c') : ReadsStatement c s c' := by
  cases kind with
  | opening => exact .inl (.conditional h)
  | elif => exact .inr h

/-- The statement is read from the tokens of `us`, which follow those of `pre`. -/
def ReadFrom (ts : List Token) (s : Statement) (pre us : List Token) : Prop :=
  ∃ c c' post, ts = pre ++ (c.ahead ++ post) ∧ c.Takes us c' ∧ ReadsStatement c s c'

/-- The statement starts at its first token, and its expressions are nested. -/
structure Statement.Placed (ts : List Token) (s : Statement) : Prop where
  starts : ∃ pre t us, ReadFrom ts s pre (t :: us) ∧ s.span.StartsAt t.start
  nested : ∀ e ∈ s.exprs, e.Nested

theorem Statement.Placed.append {ts us : List Token} {s : Statement} (h : s.Placed ts) :
    s.Placed (ts ++ us) := by
  obtain ⟨⟨pre, t, vs, ⟨c, c', post, rfl, htakes, hreads⟩, hstart⟩, hnested⟩ := h
  exact ⟨⟨pre, t, vs, ⟨c, c', post ++ us, by simp, htakes, hreads⟩, hstart⟩, hnested⟩

/-- All statements of a module are placed. -/
def AllPlaced (ts : List Token) (m : List Statement) : Prop := ∀ s, StatementIn s m → s.Placed ts

section AllPlaced

variable {ts : List Token} {s : Statement} {ss : List Statement}

theorem allPlaced_nil : AllPlaced ts [] := by
  intro x hx
  cases hx with
  | here h | inside h => cases h

theorem allPlaced_cons (hs : AllPlaced ts [s]) (hss : AllPlaced ts ss) :
    AllPlaced ts (s :: ss) := by
  intro x hx
  cases hx with
  | here h =>
    rcases List.mem_cons.1 h with rfl | h
    · exact hs x (.here List.mem_cons_self)
    · exact hss x (.here h)
  | inside h hb more =>
    rcases List.mem_cons.1 h with rfl | h
    · exact hs x (.inside List.mem_cons_self hb more)
    · exact hss x (.inside h hb more)

theorem allPlaced_singleton (hs : s.Placed ts) (h : ∀ b ∈ s.suites, AllPlaced ts b) :
    AllPlaced ts [s] := by
  intro x hx
  cases hx with
  | here hx =>
    obtain rfl := List.mem_singleton.1 hx
    exact hs
  | inside hx hb more =>
    obtain rfl := List.mem_singleton.1 hx
    exact h _ hb x more

end AllPlaced

/-! ## Clauses -/

section Clauses

variable {ts us ws pre : List Token} {c c₁ c' : Stream}

theorem Reached.inTurn (h : Reached ts c pre) (hts : InTurn ts) (hus : c.Takes us c') :
    InTurn us := by
  rw [h.split, hus.1] at hts
  exact hts.right.left

theorem Reached.placed {s : Statement} {t : Token} (h : Reached ts c pre)
    (hus : c.Takes (t :: us) c') (hreads : ReadsStatement c s c') (hs : s.span.StartsAt t.start)
    (hnested : ∀ e ∈ s.exprs, e.Nested) : s.Placed ts :=
  ⟨⟨pre, t, us, ⟨c, c', [], by rw [h.split, List.append_nil], hus, hreads⟩, hs⟩, hnested⟩

/-- A statement with a header starts at the header's first token. -/
theorem Reached.placed_header {s : Statement} {t colon : Token} (h : Reached ts c pre)
    (hord : Ordered ts) (hus : c.Takes (t :: (us ++ [colon])) c₁) (hws : c₁.Takes ws c')
    (hreads : ReadsStatement c s c') (hspan : s.span = t.span.union colon.span)
    (hnested : ∀ e ∈ s.exprs, e.Nested) : s.Placed ts := by
  have hstart := (h.ordered hord hus).union_startsAt (u := colon) (by simp) t.span_startsAt
    colon.span_startsAt
  exact h.placed (hus.append hws) hreads (hspan ▸ hstart) hnested

theorem Reached.placed_condition {kind : ConditionKind} {t colon : Token} {test : Expr}
    {body : List Statement} {otherwise : Option (List Statement)} (h : Reached ts c pre)
    (hts : InTurn ts) (hord : Ordered ts) (hus : c.Takes (t :: (us ++ [colon])) c₁)
    (hws : c₁.Takes ws c') (htest : Reads us (.expr test))
    (hreads : ReadsClause c (.branch kind
      (.conditional ⟨t.span.union colon.span, kind, test⟩ body otherwise)) c') :
    (Statement.conditional ⟨t.span.union colon.span, kind, test⟩ body otherwise).Placed ts := by
  have hnested := htest.nested (h.inTurn hts hus).tail.left
  exact h.placed_header hord hus hws (readsStatement_of_branch hreads) rfl
    (List.forall_mem_singleton.2 hnested)

/-- The statements of a clause. -/
def Clause.statements : Clause → List Statement
  | .statement s | .branch _ s => [s]
  | .suite ss | .line ss | .block ss => ss

theorem ReadsClause.allPlaced {l : Clause} (hts : InTurn ts) (hord : Ordered ts)
    (h : ReadsClause c l c') (hpre : Reached ts c pre) :
    ∃ us, c.Takes us c' ∧ AllPlaced ts l.statements := by
  induction h generalizing pre with
  | simple h reads =>
    have hin := hpre.inTurn hts h
    obtain ⟨t, us, rfl, -, hstart⟩ := reads.startsAt (hpre.ordered hord h)
    have hplaced := hpre.placed h (.inl (.simple h reads)) hstart (reads.nested hin)
    exact ⟨_, h, allPlaced_singleton hplaced (by simp [reads.suites_eq_nil.1])⟩
  | @skippedLine c c' t us es k h word skips ends closed =>
    have hplaced := hpre.placed h (.inl (.skippedLine h word skips ends closed)) t.span_startsAt
      (by simp [Statement.exprs])
    exact ⟨_, h, allPlaced_singleton hplaced (by simp [Statement.suites])⟩
  | @skippedBlock c c₁ c' t us es k h word skips ends opened h' =>
    have hplaced := hpre.placed (h.append h') (.inl (.skippedBlock h word skips ends opened h'))
      t.span_startsAt (by simp [Statement.exprs])
    exact ⟨_, h.append h', allPlaced_singleton hplaced (by simp [Statement.suites])⟩
  | @function c c₁ c' t name lparen rparen colon us vs ps returns body h word named opens parameters
      closes result sign suite ih =>
    have hheader : c.Takes (t :: ((name :: lparen :: (us ++ rparen :: vs)) ++ [colon])) c₁ := by
      simpa using h
    obtain ⟨ws, hws, hbody⟩ := ih (hpre.takes h)
    have hin := (hpre.inTurn hts h).tail.tail.tail
    have hparameters := parameters.nested hin.left
    have hresult := result.nested hin.right.tail.left
    have hplaced := hpre.placed_header (s := .function
      ⟨⟨name.lexeme, name.span⟩, t.span.union colon.span, ps, returns⟩ body) hord hheader hws
      (.inl (.function h word named opens parameters closes result sign suite)) rfl
      (List.forall_mem_append.2 ⟨List.forall_mem_flatMap.2 hparameters, hresult⟩)
    exact ⟨_, h.append hws, allPlaced_singleton hplaced (List.forall_mem_singleton.2 hbody)⟩
  | conditional _ ih => exact ih hpre
  | branch h word condition sign suite ih =>
    obtain ⟨ws, hws, hbody⟩ := ih (hpre.takes h)
    have hplaced := hpre.placed_condition hts hord h hws condition
      (.branch h word condition sign suite)
    exact ⟨_, h.append hws, allPlaced_singleton hplaced (List.forall_mem_singleton.2 hbody)⟩
  | branchElif h word condition sign suite further ih ih' =>
    obtain ⟨ws, hws, hbody⟩ := ih (hpre.takes h)
    obtain ⟨xs, hxs, hfurther⟩ := ih' ((hpre.takes h).takes hws)
    have hrest := hws.append hxs
    have hplaced := hpre.placed_condition hts hord h hrest condition
      (.branchElif h word condition sign suite further)
    refine ⟨_, h.append hrest, allPlaced_singleton hplaced ?_⟩
    exact List.forall_mem_cons.2 ⟨hbody, List.forall_mem_singleton.2 hfurther⟩
  | branchElse h word condition sign suite h' word' sign' alternative ih ih' =>
    obtain ⟨ws, hws, hbody⟩ := ih (hpre.takes h)
    obtain ⟨xs, hxs, hother⟩ := ih' (((hpre.takes h).takes hws).takes h')
    have hrest := (hws.append h').append hxs
    have hplaced := hpre.placed_condition hts hord h hrest condition
      (.branchElse h word condition sign suite h' word' sign' alternative)
    refine ⟨_, h.append hrest, allPlaced_singleton hplaced ?_⟩
    exact List.forall_mem_cons.2 ⟨hbody, List.forall_mem_singleton.2 hother⟩
  | lineSuite _ _ ih => exact ih hpre
  | blockSuite h below blank opens statements close ih =>
    obtain ⟨us, hus, hall⟩ := ih (hpre.takes h)
    rcases close with ⟨-, rfl⟩ | ⟨t, ht, -⟩
    · exact ⟨_, h.append hus, hall⟩
    · exact ⟨_, (h.append hus).append ht, hall⟩
  | lastOfLine _ ih => exact ih hpre
  | onLine _ _ _ ih ih' =>
    obtain ⟨us, hus, hhead⟩ := ih hpre
    obtain ⟨vs, hvs, htail⟩ := ih' (hpre.takes hus)
    exact ⟨_, hus.append hvs, allPlaced_cons hhead htail⟩
  | endOfBlock h _ => exact ⟨_, h, allPlaced_nil⟩
  | inBlock h _ _ _ ih ih' =>
    obtain ⟨us, hus, hhead⟩ := ih (hpre.takes h)
    obtain ⟨vs, hvs, htail⟩ := ih' ((hpre.takes h).takes hus)
    exact ⟨_, (h.append hus).append hvs, allPlaced_cons hhead htail⟩

end Clauses

theorem ReadsModule.allPlaced {ts pre : List Token} {c : Stream} {m : List Statement}
    (hts : InTurn ts) (hord : Ordered ts) (h : ReadsModule c m) (hpre : Reached ts c pre) :
    AllPlaced ts m := by
  induction h generalizing pre with
  | done => exact allPlaced_nil
  | next h _ _ head _ ih =>
    obtain ⟨us, hus, hhead⟩ := head.allPlaced hts hord (hpre.takes h)
    exact allPlaced_cons hhead (ih ((hpre.takes h).takes hus))

/-! ## Modules -/

/-- **The spans of a module are nested and in order**, at any depth, and each statement starts at
the first of its tokens. -/
theorem parseModule_spans_nested {text : String} {ts : List Token} {m : List Statement}
    (hlex : tokenize text = .ok ts) (hparse : parseModule ts = .ok m) :
    ∀ s, StatementIn s m →
      (∃ pre t us, ReadFrom ts s pre (t :: us) ∧ s.span.StartsAt t.start) ∧
      ∀ e ∈ s.exprs, ∀ x : Expr, x.Within e → x.HoldsChildren := by
  intro s hs
  -- the stream ends before the last token, which stands for the end of the input
  obtain ⟨us, e, rfl, he, hus, -⟩ := tokenize_laidOut hlex
  have hreads := parseModule_settles (us ++ [e])
  rw [hparse] at hreads
  have hreached : Reached us (.ofTokens (us ++ [e])) [] :=
    ⟨(Stream.ahead_ofTokens hus (by simp [he])).symm, by simp⟩
  have hall := hreads.allPlaced (tokenize_inTurn hlex).left (Ordered.left (tokenize_ordered hlex))
    hreached
  have hplaced : s.Placed (us ++ [e]) := (hall s hs).append
  exact ⟨hplaced.starts, fun x hx y hy => (hplaced.nested x hx).holdsChildren hy⟩

/-- A function whose body has a dictionary over three lines, with a string over two lines among its
keys and an expression in parentheses among its values. -/
def nestedText : String :=
  "def f(a):\n    x = \x7b\"\"\"p\nq\"\"\": [a, 2],\n  3: (4 + a)\x7d\n"

theorem parseModule_spans_nested_dict :
    (tokenize nestedText = .ok (tokensOf nestedText) ∧
      parseModule (tokensOf nestedText) = .ok (statementsOf nestedText)) ∧
    ∃ s e, StatementIn s (statementsOf nestedText) ∧ e ∈ s.exprs ∧
      e.span = ⟨2, 9, 4, 13⟩ ∧ e.children.length = 4 ∧ e.HoldsChildren ∧
      ∃ pre t us, ReadFrom (tokensOf nestedText) s pre (t :: us) ∧ s.span.StartsAt t.start := by
  obtain ⟨hlex, hparse, f, hf, b, hb, s, hs, e, he, hspan, hlength⟩ :
      (tokenize nestedText).toOption.isSome = true ∧
        (parseModule (tokensOf nestedText)).toOption.isSome = true ∧
        ∃ f ∈ statementsOf nestedText, ∃ b ∈ f.suites, ∃ s ∈ b, ∃ e ∈ s.exprs,
          e.span = ⟨2, 9, 4, 13⟩ ∧ e.children.length = 4 := by decide +kernel
  have htokens := Except.eq_ok_of_isSome [] hlex
  have hmodule := Except.eq_ok_of_isSome [] hparse
  have hin : StatementIn s (statementsOf nestedText) := .inside hf hb (.here hs)
  obtain ⟨hstarts, hholds⟩ := parseModule_spans_nested htokens hmodule s hin
  exact ⟨⟨htokens, hmodule⟩, s, e, hin, he, hspan, hlength, hholds e he e .self, hstarts⟩

end Gradual
