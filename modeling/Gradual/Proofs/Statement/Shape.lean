import Gradual.Proofs.Effect
import Gradual.Proofs.Statement.RoundTrip
import Gradual.Proofs.Statement.Spans

/-!
# The shape of a module

The statements of a module are read one by one, and each conditional is read as its header and what
follows its suite. So the statements of a module have the shape that the check assumes of them.

* `Parses.of_bind`, `RestOf`: what a parser that ended well has done, at a place of the tokens;
* `StatementAt`, `ConditionalAt`, `conditional_read`: where statements and conditionals are read;
* **`StatementIn.readAt`**: every statement of a module is read somewhere;
* `BlockIn`, `WithElif`, `Assignment.Shaped`: the blocks of a module, conditionals written with an
  `elif`, and the shape of assignments;
* **`parseModule_shaped`**: the shape of a module.
-/

namespace Gradual

open Source Gradual.Parser

/-! ## Parsers that ended well -/

section Parses

variable {α β : Type} {m n : Nat} {d d' : Stream} {a a' : α} {b : β}
  {x : Except ParseError (Parsed n α)} {f : Parsed n α → Except ParseError (Parsed m β)}

theorem Parses.unique (h : Parses x a d) (h' : Parses x a' d') : a = a' ∧ d = d' := by
  obtain ⟨_, rfl⟩ := h
  obtain ⟨_, h'⟩ := h'
  cases h'
  exact ⟨rfl, rfl⟩

theorem Parses.of_bind (h : Parses (x >>= f) b d) :
    ∃ a c hlt, Parses x a c ∧ Parses (f ⟨a, c, hlt⟩) b d := by
  obtain ⟨hlt, h⟩ := h
  cases x with
  | error e => cases h
  | ok r => exact ⟨r.value, r.rest, r.lt, parses_ok, hlt, h⟩

theorem Parses.of_ok {r : Parsed n α} (h : Parses (.ok r) a d) : a = r.value ∧ d = r.rest := by
  obtain ⟨_, h⟩ := h
  cases h
  exact ⟨rfl, rfl⟩

end Parses

/-- The stream is what is left of some tokens. -/
def RestOf (ts : List Token) (c : Stream) : Prop := ∃ us, (Stream.ofTokens ts).Takes us c

section RestOf

variable {α : Type} {n : Nat} {ts us : List Token} {c d : Stream} {a : α}
  {x : Except ParseError (Parsed n α)} {P : α → Stream → Prop}

theorem restOf_ofTokens (ts : List Token) : RestOf ts (.ofTokens ts) := ⟨[], Stream.takes_nil _⟩

theorem RestOf.stop_kind (h : RestOf ts c) : c.stop.kind = .eof := by
  obtain ⟨us, hus⟩ := h
  rw [hus.stop_eq]
  exact Stream.stop_ofTokens ts

theorem RestOf.takes (h : RestOf ts c) (hus : c.Takes us d) : RestOf ts d := by
  obtain ⟨vs, hvs⟩ := h
  exact ⟨vs ++ us, hvs.append hus⟩

/-- A parser that ends well leaves a rest. -/
theorem RestOf.parses (h : RestOf ts c) (hx : Yields c x P) (hd : Parses x a d) :
    RestOf ts d ∧ P a d := by
  obtain ⟨hlt, rfl⟩ := hd
  obtain ⟨⟨us, hus⟩, ha⟩ := hx h.stop_kind
  exact ⟨h.takes hus, ha⟩

end RestOf

/-! ## Statements that were read -/

/-- The statement is read at some place of the tokens. -/
def StatementAt (ts : List Token) (s : Statement) : Prop :=
  ∃ c d, RestOf ts c ∧ Parses (statement c) s d

/-- The header of a conditional stands at `c`, after its keyword, with the suite `body` up to
`c'`. -/
def HeaderAt (c : Stream) (body : List Statement) (c' : Stream) : Prop :=
  ∃ test colon c₁ c₂, Parses (expression c) test c₁ ∧ c₁.Takes [colon] c₂ ∧
    colon.kind = .mark .colon ∧ Parses (suite c₂) body c'

section Runs

variable {ts : List Token} {c d : Stream} {s : Statement} {ss : List Statement}

theorem headerStatements_read (hc : RestOf ts c) (h : Parses (headerStatements c) ss d) :
    ∀ s ∈ ss, StatementAt ts s := by
  induction ss generalizing c d with
  | nil => simp
  | cons s ss ih =>
    rw [headerStatements] at h
    obtain ⟨s₁, c₁, _, hs₁, h⟩ := h.of_bind
    have hc₁ := (hc.parses (yields_statement c) hs₁).1
    dsimp only at h
    split at h
    · obtain ⟨hss, -⟩ := h.of_ok
      cases hss
      simpa using ⟨c, c₁, hc, hs₁⟩
    · obtain ⟨ss₂, c₂, _, hss₂, h⟩ := h.of_bind
      obtain ⟨hss, -⟩ := h.of_ok
      cases hss
      exact List.forall_mem_cons.2 ⟨⟨c, c₁, hc, hs₁⟩, ih hc₁ hss₂⟩

theorem blockStatements_read (hc : RestOf ts c) (h : Parses (blockStatements c) ss d) :
    ∀ s ∈ ss, StatementAt ts s := by
  induction ss generalizing c d with
  | nil => simp
  | cons s ss ih =>
    obtain ⟨gap, hgap, -⟩ := takes_skipNewlines c
    rw [blockStatements] at h
    dsimp only at h
    split at h
    · obtain ⟨hss, -⟩ := h.of_ok
      cases hss
    · obtain ⟨s₁, c₁, _, hs₁, h⟩ := h.of_bind
      have hc₁ := (hc.takes hgap).parses (yields_statement _) hs₁
      obtain ⟨ss₂, c₂, _, hss₂, h⟩ := h.of_bind
      obtain ⟨hss, -⟩ := h.of_ok
      cases hss
      exact List.forall_mem_cons.2 ⟨⟨_, c₁, hc.takes hgap, hs₁⟩, ih hc₁.1 hss₂⟩

theorem suite_read (hc : RestOf ts c) (h : Parses (suite c) ss d) : ∀ s ∈ ss, StatementAt ts s := by
  rw [suite] at h
  split at h
  · exact headerStatements_read hc h
  · next newline c₁ h₁ htake =>
    have hc₁ := hc.takes (Stream.takes_of_take? htake).1
    obtain ⟨gap, hgap, -⟩ := takes_skipNewlines c₁
    dsimp only at h
    obtain ⟨indent, c₂, _, hindent, h⟩ := h.of_bind
    have hc₂ := (hc₁.takes hgap).parses (Stream.yields_expect _ _ _) hindent
    obtain ⟨ss', c₃, _, hss', h⟩ := h.of_bind
    have hss : ss = ss' := by
      dsimp only at h
      split at h
      · exact h.of_ok.1
      · exact h.of_ok.1
    rw [hss]
    exact blockStatements_read hc₂.1 hss'

theorem functionDefinition_read {t : Token} (hc : RestOf ts c)
    (h : Parses (functionDefinition t c) s d) :
    ∃ head body, s = .function head body ∧ ∀ x ∈ body, StatementAt ts x := by
  rw [functionDefinition] at h
  obtain ⟨name, c₁, _, hname, h⟩ := h.of_bind
  have hc₁ := hc.parses (Stream.yields_expect _ _ _) hname
  obtain ⟨lparen, c₂, _, hlparen, h⟩ := h.of_bind
  have hc₂ := hc₁.1.parses (Stream.yields_expect _ _ _) hlparen
  obtain ⟨ps, c₃, _, hps, h⟩ := h.of_bind
  have hc₃ := hc₂.1.parses (yields_parameters _) hps
  obtain ⟨rparen, c₄, _, hrparen, h⟩ := h.of_bind
  have hc₄ := hc₃.1.parses (Stream.yields_expect _ _ _) hrparen
  obtain ⟨returns, c₅, _, hreturns, h⟩ := h.of_bind
  have hc₅ := hc₄.1.parses (yields_expressionAfter _ _) hreturns
  obtain ⟨colon, c₆, _, hcolon, h⟩ := h.of_bind
  have hc₆ := hc₅.1.parses (Stream.yields_expect _ _ _) hcolon
  obtain ⟨body, c₇, _, hbody, h⟩ := h.of_bind
  exact ⟨_, body, h.of_ok.1, suite_read hc₆.1 hbody⟩

theorem apart_of_take? (hc : RestOf ts c) (helif : c.take? (.keyword .elifKw) = none)
    (helse : c.take? (.keyword .elseKw) = none) : Apart c := by
  have hne : ∀ k, c.take? (.keyword k) = none → c.kind ≠ .keyword k := by
    intro k hk hkind
    rcases Stream.take?_eq_none hk with hend | hne
    · have hstop := hc.stop_kind
      rw [Stream.kind, Stream.peek, hend, List.headD_nil, hstop] at hkind
      cases hkind
    · exact hne hkind
  exact ⟨hne _ helif, hne _ helse⟩

/-- A conditional is read as its header with a suite, and then what follows this suite. -/
theorem conditional_read {kind : ConditionKind} {t : Token} (hc : RestOf ts c)
    (h : Parses (conditional kind t c) s d) :
    ∃ head body otherwise c₁, s = .conditional head body otherwise ∧ head.kind = kind ∧
      HeaderAt c body c₁ ∧ RestOf ts c₁ ∧ (∀ x ∈ body, StatementAt ts x) ∧
      AlternativeAt c₁ otherwise d := by
  rw [conditional] at h
  obtain ⟨test, c₁, _, htest, h⟩ := h.of_bind
  have hc₁ := hc.parses (yields_expression _) htest
  obtain ⟨colon, c₂, _, hcolon, h⟩ := h.of_bind
  obtain ⟨hc₂, htakes, hsign⟩ := hc₁.1.parses (Stream.yields_expect _ _ _) hcolon
  obtain ⟨body, c₃, _, hbody, h⟩ := h.of_bind
  have hc₃ := (hc₂.parses (yields_suite _) hbody).1
  have halternative : ∃ otherwise,
      s = .conditional ⟨t.span.union colon.span, kind, test⟩ body otherwise ∧
        AlternativeAt c₃ otherwise d := by
    dsimp only at h
    split at h
    · next u c₄ h₄ htake =>
      obtain ⟨hu, hword⟩ := Stream.takes_of_take? htake
      obtain ⟨_, hnext⟩ := Stream.next?_of_takes hu
      obtain ⟨x, c₅, _, hx, h⟩ := h.of_bind
      obtain ⟨rfl, rfl⟩ := h.of_ok
      exact ⟨_, rfl, .further hnext hword hx⟩
    · next helif =>
      split at h
      · next u c₄ h₄ htake =>
        obtain ⟨hu, hword⟩ := Stream.takes_of_take? htake
        obtain ⟨_, hnext⟩ := Stream.next?_of_takes hu
        obtain ⟨colon', c₅, _, hcolon', h⟩ := h.of_bind
        obtain ⟨-, htakes', hsign'⟩ :=
          (hc₃.takes hu).parses (Stream.yields_expect _ _ _) hcolon'
        obtain ⟨_, hnext'⟩ := Stream.next?_of_takes htakes'
        obtain ⟨otherwise, c₆, _, hotherwise, h⟩ := h.of_bind
        obtain ⟨rfl, rfl⟩ := h.of_ok
        exact ⟨_, rfl, .otherwise hnext hword hnext' hsign' hotherwise⟩
      · next helse =>
        obtain ⟨rfl, rfl⟩ := h.of_ok
        exact ⟨_, rfl, .none (apart_of_take? hc₃ helif helse)⟩
  obtain ⟨otherwise, hs, halternative⟩ := halternative
  exact ⟨_, body, otherwise, c₃, hs, rfl, ⟨test, colon, c₁, c₂, htest, htakes, hsign, hbody⟩, hc₃,
    suite_read hc₂ hbody, halternative⟩

theorem statements_read {m : List Statement} (hc : RestOf ts c) (h : statements c = .ok m) :
    ∀ s ∈ m, StatementAt ts s := by
  induction m generalizing c with
  | nil => simp
  | cons s m ih =>
    obtain ⟨gap, hgap, -⟩ := takes_skipNewlines c
    rw [statements] at h
    dsimp only at h
    split at h
    · cases h
    · split at h
      · cases h
      · obtain ⟨⟨s₁, c₁, h₁⟩, hs₁, h⟩ := Effect.except_bind_eq_ok.1 h
        obtain ⟨m₁, hm₁, h⟩ := Effect.except_bind_eq_ok.1 h
        cases h
        have hread : Parses (statement _) s₁ c₁ := ⟨h₁, hs₁⟩
        have hc₁ := (hc.takes hgap).parses (yields_statement _) hread
        exact List.forall_mem_cons.2 ⟨⟨_, c₁, hc.takes hgap, hread⟩, ih hc₁.1 hm₁⟩

end Runs

/-! ## Where statements are read -/

/-- The conditional is read at `c`, a place of the tokens that comes right after its keyword. -/
def ConditionalAt (ts : List Token) (kind : ConditionKind) (s : Statement) (c : Stream) : Prop :=
  ∃ c₀ t d, RestOf ts c₀ ∧ c₀.Takes [t] c ∧ t.kind = .keyword kind.keyword ∧
    Parses (conditional kind t c) s d

/-- The statement, or the conditional that goes on another one, is read at some place. -/
def ReadAt (ts : List Token) (s : Statement) : Prop :=
  StatementAt ts s ∨ ∃ c, ConditionalAt ts .elif s c

section ReadAt

variable {ts : List Token} {c d : Stream} {s x : Statement} {b m : List Statement}
  {otherwise : Option (List Statement)} {kind : ConditionKind}

theorem ReadsClause.branch_word (h : ReadsClause c (.branch kind s) d) :
    ∃ t us c₁, c.Takes (t :: us) c₁ ∧ t.kind = .keyword kind.keyword := by
  cases h with
  | branch h word => exact ⟨_, _, _, h, word⟩
  | branchElif h word => exact ⟨_, _, _, h, word⟩
  | branchElse h word => exact ⟨_, _, _, h, word⟩

/-- A statement is one without suites, a function, or a conditional of its own. -/
theorem StatementAt.cases (h : StatementAt ts s) :
    s.suites = [] ∧ s.isElif = false ∨
    (∃ head body, s = .function head body ∧ ∀ x ∈ body, StatementAt ts x) ∨
    ∃ c, ConditionalAt ts .opening s c := by
  obtain ⟨c, d, hc, hs⟩ := h
  cases (hc.parses (yields_statement c) hs).2 with
  | simple _ reads => exact .inl reads.suites_eq_nil
  | skippedLine => exact .inl ⟨rfl, rfl⟩
  | skippedBlock => exact .inl ⟨rfl, rfl⟩
  | function htakes word =>
    obtain ⟨c₁, ht, -⟩ := Stream.Takes.split [_] htakes
    obtain ⟨_, hnext⟩ := Stream.next?_of_takes ht
    rw [statement, hnext] at hs
    simp only [word] at hs
    obtain ⟨s', c₂, _, hs', h⟩ := hs.of_bind
    obtain ⟨rfl, rfl⟩ := h.of_ok
    exact .inr (.inl (functionDefinition_read (hc.takes ht) hs'))
  | conditional h =>
    obtain ⟨t, us, c₁, htakes, word⟩ := h.branch_word
    obtain ⟨c₂, ht, -⟩ := Stream.Takes.split [_] htakes
    obtain ⟨_, hnext⟩ := Stream.next?_of_takes ht
    rw [statement, hnext] at hs
    simp only [word, ConditionKind.keyword] at hs
    obtain ⟨s', c₃, _, hs', h⟩ := hs.of_bind
    obtain ⟨rfl, rfl⟩ := h.of_ok
    exact .inr (.inr ⟨c₂, c, t, _, hc, ht, word, hs'⟩)

theorem ConditionalAt.read (h : ConditionalAt ts kind s c) :
    ∃ head body otherwise c₁ d, s = .conditional head body otherwise ∧ head.kind = kind ∧
      HeaderAt c body c₁ ∧ RestOf ts c₁ ∧ (∀ x ∈ body, StatementAt ts x) ∧
      AlternativeAt c₁ otherwise d := by
  obtain ⟨c₀, t, d, hc₀, ht, -, hs⟩ := h
  obtain ⟨head, body, otherwise, c₁, hread⟩ := conditional_read (hc₀.takes ht) hs
  exact ⟨head, body, otherwise, c₁, d, hread⟩

theorem ConditionalAt.isElif (h : ConditionalAt ts kind s c) : s.isElif = (kind == .elif) := by
  obtain ⟨head, body, otherwise, c₁, d, rfl, rfl, -⟩ := h.read
  rfl

theorem StatementAt.isElif (h : StatementAt ts s) : s.isElif = false := by
  obtain ⟨-, helif⟩ | ⟨head, body, rfl, -⟩ | ⟨c, hc⟩ := h.cases
  · exact helif
  · rfl
  · exact hc.isElif

/-- What follows the suite of a conditional: nothing, a conditional that goes on it, or statements
of their own. Only in the second case the word `elif` comes next. -/
theorem AlternativeAt.read (hc : RestOf ts c) (h : AlternativeAt c otherwise d) :
    otherwise = .none ∧ c.kind ≠ .keyword .elifKw ∨
    (∃ x c₁, otherwise = some [x] ∧ ConditionalAt ts .elif x c₁ ∧ c.kind = .keyword .elifKw) ∨
    ∃ b, otherwise = some b ∧ (∀ x ∈ b, StatementAt ts x) ∧ c.kind ≠ .keyword .elifKw := by
  cases h with
  | none h => exact .inl ⟨rfl, h.1⟩
  | further next kind h =>
    have hx : ConditionalAt ts .elif _ _ := ⟨c, _, d, hc, Stream.takes_of_next? next, kind, h⟩
    exact .inr (.inl ⟨_, _, rfl, hx, by rw [Stream.kind_of_next? next, kind]⟩)
  | otherwise next kind next' _ h =>
    have hrest := (hc.takes (Stream.takes_of_next? next)).takes (Stream.takes_of_next? next')
    exact .inr (.inr ⟨_, rfl, suite_read hrest h, by simp [Stream.kind_of_next? next, kind]⟩)

theorem hasElif_eq_false (h : ∀ x ∈ b, StatementAt ts x) : hasElif (some b) = false := by
  cases b with
  | nil => rfl
  | cons x b => exact (h x List.mem_cons_self).isElif

/-- A conditional is seen to be continued by `elif` if and only if this word follows its suite. -/
theorem AlternativeAt.hasElif_iff (hc : RestOf ts c) (h : AlternativeAt c otherwise d) :
    hasElif otherwise = true ↔ c.kind = .keyword .elifKw := by
  obtain ⟨rfl, hkind⟩ | ⟨x, c₁, rfl, hx, hkind⟩ | ⟨b, rfl, hb, hkind⟩ := h.read hc
  · exact iff_of_false Bool.false_ne_true hkind
  · exact iff_of_true hx.isElif hkind
  · exact iff_of_false (by simp [hasElif_eq_false hb]) hkind

/-- What is read is without suites, a function, or a conditional. -/
theorem ReadAt.cases (h : ReadAt ts s) : s.suites = [] ∨
    (∃ head body, s = .function head body ∧ ∀ x ∈ body, StatementAt ts x) ∨
    ∃ kind c, ConditionalAt ts kind s c := by
  obtain h | ⟨c, hc⟩ := h
  · obtain ⟨hnil, -⟩ | hfunction | ⟨c, hc⟩ := h.cases
    · exact .inl hnil
    · exact .inr (.inl hfunction)
    · exact .inr (.inr ⟨.opening, c, hc⟩)
  · exact .inr (.inr ⟨.elif, c, hc⟩)

theorem ReadAt.of_suite (h : ReadAt ts s) (hb : b ∈ s.suites) (hx : x ∈ b) : ReadAt ts x := by
  obtain hnil | ⟨head, body, rfl, hbody⟩ | ⟨kind, c, hc⟩ := h.cases
  · rw [hnil] at hb
    cases hb
  · obtain rfl := List.mem_singleton.1 hb
    exact .inl (hbody x hx)
  · obtain ⟨head, body, otherwise, c₁, d, rfl, -, -, hc₁, hbody, halternative⟩ := hc.read
    rcases List.mem_cons.1 hb with rfl | hb
    · exact .inl (hbody x hx)
    · obtain rfl := Option.mem_toList.1 hb
      obtain ⟨hnone, -⟩ | ⟨y, c₂, hy, hread, -⟩ | ⟨b', hb', hread, -⟩ := halternative.read hc₁
      · cases hnone
      · cases hy
        obtain rfl := List.mem_singleton.1 hx
        exact .inr ⟨c₂, hread⟩
      · cases hb'
        exact .inl (hread x hx)

/-- Every statement of a module, at any depth, is read at some place. -/
theorem StatementIn.readAt (h : StatementIn s m) (hm : ∀ x ∈ m, ReadAt ts x) : ReadAt ts s := by
  induction h with
  | here hs => exact hm _ hs
  | inside hx hb _ ih => exact ih fun y hy => (hm _ hx).of_suite hb hy

theorem ReadAt.function {head : FunctionHead} (h : ReadAt ts (.function head b)) :
    ∀ x ∈ b, StatementAt ts x := by
  obtain hnil | ⟨head', body, hs, hbody⟩ | ⟨kind, c, hc⟩ := h.cases
  · cases hnil
  · cases hs
    exact hbody
  · obtain ⟨head', body, otherwise, c₁, d, hs, -⟩ := hc.read
    cases hs

theorem ReadAt.conditional {head : Condition} (h : ReadAt ts (.conditional head b otherwise)) :
    ∃ c, ConditionalAt ts head.kind (.conditional head b otherwise) c := by
  obtain hnil | ⟨head', body, hs, -⟩ | ⟨kind, c, hc⟩ := h.cases
  · cases hnil
  · cases hs
  · obtain ⟨head', body, otherwise', c₁, d, hs, rfl, -⟩ := hc.read
    cases hs
    exact ⟨c, hc⟩

end ReadAt

/-! ## Modules -/

/-- What a block of a module is: the module itself, the suite of a header, or the alternative of a
conditional. -/
inductive BlockRole where
  | module
  | suite
  | alternative

/-- The blocks of a module, at any depth. -/
inductive BlockIn (m : List Statement) : BlockRole → List Statement → Prop
  | module : BlockIn m .module m
  | function {head : FunctionHead} {body : List Statement}
      (h : StatementIn (.function head body) m) : BlockIn m .suite body
  | consequent {head : Condition} {body : List Statement} {otherwise : Option (List Statement)}
      (h : StatementIn (.conditional head body otherwise) m) : BlockIn m .suite body
  | alternative {head : Condition} {body block : List Statement}
      (h : StatementIn (.conditional head body (some block)) m) : BlockIn m .alternative block

/-- The conditional after whose keyword `c` comes is written with an `elif`: this word follows the
suite of its header. -/
def WithElif (c : Stream) : Prop := ∃ body c₁, HeaderAt c body c₁ ∧ c₁.kind = .keyword .elifKw

/-- An assignment has a target. One without a value declares a type, and one that declares a type
has a single target. -/
structure Assignment.Shaped (a : Assignment) : Prop where
  target : a.targets ≠ []
  declared_of_valueless : a.value = none → a.declared ≠ none
  single_of_declared : a.declared ≠ none → a.targets.length = 1

section Module

variable {ts : List Token} {c d : Stream} {s : Statement} {block m : List Statement}
  {role : BlockRole}

theorem HeaderAt.unique {body body' : List Statement} {c₁ c₁' : Stream} (h : HeaderAt c body c₁)
    (h' : HeaderAt c body' c₁') : body = body' ∧ c₁ = c₁' := by
  obtain ⟨test, colon, c₂, c₃, htest, hcolon, -, hbody⟩ := h
  obtain ⟨test', colon', c₂', c₃', htest', hcolon', -, hbody'⟩ := h'
  obtain ⟨rfl, rfl⟩ := htest.unique htest'
  obtain rfl : c₃ = c₃' := hcolon.2.trans hcolon'.2.symm
  exact hbody.unique hbody'

/-- A conditional is seen to be continued by `elif` if and only if it is written with one. -/
theorem ConditionalAt.hasElif_iff {head : Condition} {otherwise : Option (List Statement)}
    (h : ConditionalAt ts head.kind (.conditional head block otherwise) c) :
    hasElif otherwise = true ↔ WithElif c := by
  obtain ⟨head', body, otherwise', c₁, d, hs, -, hheader, hc₁, -, halternative⟩ := h.read
  cases hs
  rw [halternative.hasElif_iff hc₁]
  constructor
  · exact fun hword => ⟨block, c₁, hheader, hword⟩
  · rintro ⟨body', c₂, hheader', hword⟩
    obtain ⟨-, rfl⟩ := hheader.unique hheader'
    exact hword

/-- A conditional that goes on another one is all of the alternative that it stands in. -/
theorem BlockIn.elif (hm : ∀ x ∈ m, StatementAt ts x) (h : BlockIn m role block) (hs : s ∈ block)
    (helif : s.isElif = true) : role = .alternative ∧ block = [s] := by
  have hnone : ¬ ∀ x ∈ block, StatementAt ts x := by
    intro hblock
    rw [(hblock s hs).isElif] at helif
    cases helif
  have hin : ∀ {x}, StatementIn x m → ReadAt ts x := fun hx => hx.readAt fun y hy => .inl (hm y hy)
  cases h with
  | module => exact absurd hm hnone
  | function h => exact absurd (hin h).function hnone
  | consequent h =>
    obtain ⟨c, hc⟩ := (hin h).conditional
    obtain ⟨_, _, _, c₁, d, hread, -, -, -, hbody, -⟩ := hc.read
    cases hread
    exact absurd hbody hnone
  | alternative h =>
    obtain ⟨c, hc⟩ := (hin h).conditional
    obtain ⟨_, _, _, c₁, d, hread, -, -, hc₁, -, halternative⟩ := hc.read
    cases hread
    obtain ⟨hnil, -⟩ | ⟨x, c₂, hx, -⟩ | ⟨b, hb, hstatements, -⟩ := halternative.read hc₁
    · cases hnil
    · cases hx
      rw [List.mem_singleton.1 hs]
      exact ⟨rfl, rfl⟩
    · cases hb
      exact absurd hstatements hnone

theorem ReadsSimple.assignment_shaped {us : List Token} {a : Assignment}
    (h : ReadsSimple us (.assignment a)) : a.Shaped := by
  generalize hs : Statement.assignment a = s at h
  cases h with
  | declared =>
    cases hs
    exact ⟨by simp, by simp, by simp⟩
  | declaredValue =>
    cases hs
    exact ⟨by simp, by simp, by simp⟩
  | assigned =>
    unfold assignmentOf at hs
    split at hs
    · cases hs
    · cases hs
      exact ⟨by simp, by simp, by simp⟩
  | _ => cases hs

theorem StatementAt.assignment_shaped {a : Assignment} (h : StatementAt ts (.assignment a)) :
    a.Shaped := by
  obtain ⟨c, d, hc, hs⟩ := h
  cases (hc.parses (yields_statement c) hs).2 with
  | simple _ reads => exact reads.assignment_shaped
  | conditional h => cases h

/-- **Parsed modules have the shape that the check assumes**: where `elif` stands, and what targets
and types assignments have. -/
theorem parseModule_shaped {ts : List Token} {m : List Statement} (h : parseModule ts = .ok m) :
    (∀ role block s, BlockIn m role block → s ∈ block → s.isElif = true →
      role = .alternative ∧ block = [s]) ∧
    (∀ head body otherwise, StatementIn (.conditional head body otherwise) m →
      (∃ c, ConditionalAt ts head.kind (.conditional head body otherwise) c) ∧
      ∀ c, ConditionalAt ts head.kind (.conditional head body otherwise) c →
        (hasElif otherwise = true ↔ WithElif c)) ∧
    ∀ a, StatementIn (.assignment a) m → a.Shaped := by
  have hm : ∀ s ∈ m, StatementAt ts s := statements_read (restOf_ofTokens ts) h
  have hin : ∀ {x}, StatementIn x m → ReadAt ts x := fun hx => hx.readAt fun y hy => .inl (hm y hy)
  refine ⟨fun role block s hblock => hblock.elif hm, fun head body otherwise hs => ?_, ?_⟩
  · exact ⟨(hin hs).conditional, fun c hc => hc.hasElif_iff⟩
  · intro a ha
    obtain hread | ⟨c, hc⟩ := hin ha
    · exact hread.assignment_shaped
    · obtain ⟨_, _, _, _, _, hs, -⟩ := hc.read
      cases hs

/-- A conditional on one line that goes on in the next one, with a declaration and a chain of
assignments. -/
def chainedText : String := "if a: x: int\nelif b: y = z = 1\n"

theorem chainedText_shaped :
    parseModule (tokensOf chainedText) = .ok (statementsOf chainedText) ∧
    (∃ head body x c, StatementIn (.conditional head body (some [x])) (statementsOf chainedText) ∧
      x.isElif = true ∧
      ConditionalAt (tokensOf chainedText) head.kind (.conditional head body (some [x])) c ∧
      WithElif c) ∧
    ∀ a, StatementIn (.assignment a) (statementsOf chainedText) → a.Shaped := by
  obtain ⟨hparse, s, hs, b, hb, x, hx, helif⟩ :
      (parseModule (tokensOf chainedText)).toOption.isSome = true ∧
        ∃ s ∈ statementsOf chainedText, ∃ b ∈ s.suites, ∃ x ∈ b, x.isElif = true := by
    decide +kernel
  have hmodule := Except.eq_ok_of_isSome [] hparse
  obtain ⟨helifs, hwritten, hassignments⟩ := parseModule_shaped hmodule
  refine ⟨hmodule, ?_, hassignments⟩
  cases s with
  | function head body =>
    obtain rfl := List.mem_singleton.1 hb
    cases (helifs _ _ x (.function (.here hs)) hx helif).1
  | conditional head body otherwise =>
    rcases List.mem_cons.1 hb with rfl | hb
    · cases (helifs _ _ x (.consequent (.here hs)) hx helif).1
    · obtain rfl := Option.mem_toList.1 hb
      obtain ⟨-, rfl⟩ := helifs _ _ x (.alternative (.here hs)) hx helif
      obtain ⟨⟨c, hc⟩, hiff⟩ := hwritten head body _ (.here hs)
      exact ⟨head, body, x, c, .here hs, helif, hc, (hiff c hc).1 helif⟩
  | _ => cases hb

end Module

end Gradual
