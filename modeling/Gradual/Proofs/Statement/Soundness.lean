import Gradual.Proofs.Statement.Grammar

/-!
# What the parser of statements reads

* `Parser.yields_parameters`, `Parser.yields_finishSimple`, `Parser.yields_expressionStatement`: the
  parts of statements;
* **`Parser.yields_statement`**, `Parser.yields_suite`: what the parser reads is in the grammar, and
  its errors are at the tokens ahead;
* **`parseModule_settles`**: the same for a whole module.
-/

namespace Gradual

namespace Parser

open Gradual.Stream

/-! ## Parameters -/

theorem yields_expressionAfter (m : Mark) (c : Stream) :
    Yields c (expressionAfter m c) fun e c' => ∃ ts, c.Takes ts c' ∧ ReadsAfter m ts e := by
  unfold expressionAfter
  split
  · exact .pure ⟨[], c.takes_nil, .absent⟩
  · next t c₁ h₁ htake =>
    obtain ⟨ht, hkind⟩ := takes_of_take? htake
    refine .after ht (.bind (yields_expression c₁) ?_)
    rintro e c₂ h₂ ⟨ts, hts, he⟩
    exact .pure ⟨_, ht.cons hts, .present hkind he⟩

theorem yields_namedParameter (kind : ParameterKind) (c : Stream) {c₀ : Stream} {stars : List Token}
    (h : c₀.Takes stars c) (hkinds : stars.map (·.kind) = kind.kinds) :
    Yields c (namedParameter kind c) fun p c' =>
      ∃ ts, c₀.Takes ts c' ∧ ReadsParameter ts (some p) := by
  unfold namedParameter
  refine .bind (c.yields_expect _ _) ?_
  rintro t c₁ h₁ ⟨ht, hname⟩
  refine .bind (yields_expressionAfter _ c₁) ?_
  rintro declared c₂ h₂ ⟨ts, hts, hdeclared⟩
  refine .bind (yields_expressionAfter _ c₂) ?_
  rintro initial c₃ h₃ ⟨us, hus, hinitial⟩
  exact .pure ⟨_, h.append (ht.cons (hts.append hus)), .named hkinds hname hdeclared hinitial⟩

theorem yields_parameter (c : Stream) :
    Yields c (parameter c) fun p c' => ∃ ts, c.Takes ts c' ∧ ReadsParameter ts p := by
  unfold parameter
  split
  · next t c₁ h₁ htake =>
    obtain ⟨ht, hkind⟩ := takes_of_take? htake
    exact .after ht (.pure ⟨_, ht, .slash hkind⟩)
  split
  · next t c₁ h₁ htake =>
    obtain ⟨ht, hkind⟩ := takes_of_take? htake
    have hstars : [t].map (·.kind) = ParameterKind.varKeyword.kinds := by
      simp [hkind, ParameterKind.kinds]
    refine .after ht ?_
    exact .bind (yields_namedParameter .varKeyword c₁ ht hstars) fun p c₂ h₂ hp => .pure hp
  split
  · next t c₁ h₁ htake =>
    obtain ⟨ht, hkind⟩ := takes_of_take? htake
    refine .after ht ?_
    split
    · exact .pure ⟨_, ht, .star hkind⟩
    · have hstars : [t].map (·.kind) = ParameterKind.varPositional.kinds := by
        simp [hkind, ParameterKind.kinds]
      exact .bind (yields_namedParameter .varPositional c₁ ht hstars) fun p c₂ h₂ hp => .pure hp
  · refine .bind (yields_namedParameter .positional c c.takes_nil rfl) fun p c₁ h₁ hp => ?_
    exact .pure hp

theorem yields_parameters (c : Stream) :
    Yields c (parameters c) fun ps c' => ∃ ts, c.Takes ts c' ∧ ReadsParameters ts ps := by
  rw [parameters]
  split
  · exact .pure ⟨[], c.takes_nil, .none⟩
  · refine .bind (yields_parameter c) ?_
    rintro p c₁ h₁ ⟨ts, hts, hp⟩
    dsimp only
    split
    · exact .pure ⟨ts, hts, .last hp⟩
    · next comma c₂ h₂ htake =>
      obtain ⟨hcomma, hsign⟩ := takes_of_take? htake
      refine .after hcomma (.bind (yields_parameters c₂) ?_)
      rintro ps c₃ h₃ ⟨us, hus, hps⟩
      exact .pure ⟨_, hts.append (hcomma.cons hus), .more hp hsign hps⟩
termination_by c.size

/-! ## Statements that hold no others -/

theorem takes_skipNewline (c : Stream) : ∃ ts, c.Takes ts c.skipNewline.rest ∧ EndsLine ts := by
  unfold skipNewline
  split
  · next r hr =>
    obtain ⟨ht, hkind⟩ := takes_of_take? hr
    exact ⟨_, ht, by simp [EndsLine, hkind]⟩
  · exact ⟨_, c.takes_nil, by simp [EndsLine]⟩

theorem takes_skipNewlines (c : Stream) : ∃ ts, c.Takes ts c.skipNewlines.rest ∧ Separates ts := by
  refine ⟨_, takes_skipWhile c _, fun u hu => ?_⟩
  simpa using List.all_eq_true.1 List.all_takeWhile u hu

theorem yields_finishSimple (c : Stream) :
    Yields c (finishSimple c) fun _ c' => ∃ ts, c.Takes ts c' ∧ EndsSimple ts := by
  unfold finishSimple
  split
  · next t c₁ h₁ htake =>
    obtain ⟨ht, hkind⟩ := takes_of_take? htake
    obtain ⟨ts, hts, hends⟩ := takes_skipNewline c₁
    refine .after ht (.after hts (.pure ⟨_, ht.cons hts, ?_⟩))
    simp only [EndsLine, List.mem_cons, List.not_mem_nil, or_false] at hends
    rcases hends with hends | hends <;> simp [EndsSimple, hkind, hends]
  split
  · next t c₁ h₁ htake =>
    obtain ⟨ht, hkind⟩ := takes_of_take? htake
    exact .after ht (.pure ⟨_, ht, by simp [EndsSimple, hkind]⟩)
  split
  · exact .pure ⟨[], c.takes_nil, by simp [EndsSimple]⟩
  · exact .fail _ _

theorem yields_returnStatement (t : Token) (c : Stream) {c₀ : Stream} (ht : c₀.Takes [t] c)
    (hkind : t.kind = .keyword .returnKw) :
    Yields c (returnStatement t c) fun s c' => ∃ ts, c₀.Takes ts c' ∧ ReadsSimple ts s := by
  unfold returnStatement
  split
  · refine .bind (yields_finishSimple c) ?_
    rintro _ c₁ h₁ ⟨es, hes, hends⟩
    exact .pure ⟨_, ht.cons hes, .returns hkind hends⟩
  · refine .bind (yields_expressionList c) ?_
    rintro e c₁ h₁ ⟨ts, hts, he⟩
    refine .bind (yields_finishSimple c₁) ?_
    rintro _ c₂ h₂ ⟨es, hes, hends⟩
    exact .pure ⟨_, ht.cons (hts.append hes), .returnsValue hkind he hends⟩

theorem yields_assigned (c : Stream) :
    Yields c (assigned c) fun es c' => ∃ ts, c.Takes ts c' ∧ ReadsAssigned ts es := by
  rw [assigned]
  split
  · exact .pure ⟨[], c.takes_nil, .none⟩
  · next sign c₁ h₁ htake =>
    obtain ⟨hsign, hkind⟩ := takes_of_take? htake
    refine .after hsign (.bind (yields_expressionList c₁) ?_)
    rintro e c₂ h₂ ⟨ts, hts, he⟩
    refine .bind (yields_assigned c₂) ?_
    rintro es c₃ h₃ ⟨us, hus, hes⟩
    exact .pure ⟨_, hsign.cons (hts.append hus), .more hkind he hes⟩
termination_by c.size

theorem yields_expressionStatement (c : Stream) :
    Yields c (expressionStatement c) fun s c' => ∃ ts, c.Takes ts c' ∧ ReadsSimple ts s := by
  unfold expressionStatement
  refine .bind (yields_expressionList c) ?_
  rintro first c₁ h₁ ⟨ts, hts, hfirst⟩
  dsimp only
  split
  · next colon c₂ h₂ htake =>
    obtain ⟨hcolon, hsign⟩ := takes_of_take? htake
    refine .after hcolon (.bind (yields_expression c₂) ?_)
    rintro declared c₃ h₃ ⟨us, hus, hdeclared⟩
    dsimp only
    split
    · next equal c₄ h₄ htake' =>
      obtain ⟨hequal, hsign'⟩ := takes_of_take? htake'
      refine .after hequal (.bind (yields_expressionList c₄) ?_)
      rintro value c₅ h₅ ⟨vs, hvs, hvalue⟩
      refine .bind (yields_finishSimple c₅) ?_
      rintro _ c₆ h₆ ⟨es, hes, hends⟩
      exact .pure ⟨_, hts.append (hcolon.cons (hus.append (hequal.cons (hvs.append hes)))),
        .declaredValue hfirst hsign hdeclared hsign' hvalue hends⟩
    · refine .bind (yields_finishSimple c₃) ?_
      rintro _ c₄ h₄ ⟨es, hes, hends⟩
      exact .pure ⟨_, hts.append (hcolon.cons (hus.append hes)),
        .declared hfirst hsign hdeclared hends⟩
  split
  · next sign c₂ h₂ htake =>
    obtain ⟨hsign, hkind⟩ := takes_of_take? htake
    refine .after hsign (.bind (yields_expressionList c₂) ?_)
    rintro value c₃ h₃ ⟨us, hus, hvalue⟩
    refine .bind (yields_finishSimple c₃) ?_
    rintro _ c₄ h₄ ⟨es, hes, hends⟩
    exact .pure ⟨_, hts.append (hsign.cons (hus.append hes)), .augmented hfirst hkind hvalue hends⟩
  · refine .bind (yields_assigned c₁) ?_
    rintro more c₂ h₂ ⟨us, hus, hmore⟩
    refine .bind (yields_finishSimple c₂) ?_
    rintro _ c₃ h₃ ⟨es, hes, hends⟩
    exact .pure ⟨_, hts.append (hus.append hes), .assigned hfirst hmore hends⟩

/-! ## Statements that are read over -/

theorem takes_skipLine (c : Stream) : ∃ ts es, c.Takes (ts ++ es) (skipLine c).rest ∧
    (∀ u ∈ ts, u.kind ≠ .newline) ∧ EndsLine es := by
  obtain ⟨es, hes, hends⟩ := takes_skipNewline (c.skipWhile (· != .newline)).rest
  refine ⟨_, es, (c.takes_skipWhile _).append hes, fun u hu => ?_, hends⟩
  simpa using List.all_eq_true.1 List.all_takeWhile u hu

theorem yields_skipStatement (k : Keyword) (c : Stream) {c₀ : Stream} {t : Token}
    (ht : c₀.Takes [t] c) (hkind : t.kind = .keyword k) :
    Yields c (skipStatement k c) fun _ c' =>
      ReadsClause c₀ (.statement (.unsupported t.span (.statement t.lexeme))) c' := by
  unfold skipStatement
  split
  · obtain ⟨ts, es, hskip, hover, hends⟩ := takes_skipLine c
    dsimp only
    refine .after hskip ?_
    split
    · next hindent =>
      have hblock := (skipLine c).rest.takes_skipBlock
      refine .after hblock (.pure ?_)
      exact .skippedBlock (ht.cons hskip) hkind hover hends (by simpa [sees] using hindent) hblock
    · next hindent =>
      exact .pure (.skippedLine (ht.cons hskip) hkind hover hends (by simpa [sees] using hindent))
  · have hskip := c.takes_skipWhile (!endsStatement ·)
    have hover : ∀ u ∈ c.ahead.takeWhile (!endsStatement ·.kind), endsStatement u.kind = false := by
      intro u hu
      simpa using List.all_eq_true.1 List.all_takeWhile u hu
    dsimp only
    refine .after hskip fun hstop => ?_
    have hfinish := yields_finishSimple _ hstop
    split
    · next c₂ h₂ heq =>
      rw [heq] at hfinish
      obtain ⟨htakes, es, hes, hends⟩ := hfinish
      exact ⟨htakes, .simple (ht.cons (hskip.append hes)) (.skipped hkind hover hends)⟩
    · next e heq =>
      rw [heq] at hfinish
      exact hfinish

/-! ## Statements -/

mutual

theorem yields_statement (c : Stream) :
    Yields c (statement c) fun s c' => ReadsClause c (.statement s) c' := by
  have hsimple := (yields_expressionStatement c).mono fun s c' ⟨ts, hts, hs⟩ =>
    (ReadsClause.simple hts hs : ReadsClause c (.statement s) c')
  rw [statement]
  split
  · exact hsimple
  · next t c₁ h₁ hnext =>
    have ht := takes_of_next? hnext
    split
    · next hkind =>
      refine .after ht (.bind (yields_functionDefinition t c₁ c ht hkind) fun s c₂ h₂ hs => ?_)
      exact .pure hs
    · next hkind =>
      refine .after ht (.bind (yields_conditional .opening t c₁ c ht hkind) fun s c₂ h₂ hs => ?_)
      exact .pure (.conditional hs)
    · next hkind =>
      refine .after ht (.bind (yields_returnStatement t c₁ ht hkind) ?_)
      rintro s c₂ h₂ ⟨ts, hts, hs⟩
      exact .pure (.simple hts hs)
    · next hkind =>
      refine .after ht (.bind (yields_finishSimple c₁) ?_)
      rintro _ c₂ h₂ ⟨es, hes, hends⟩
      exact .pure (.simple (ht.cons hes) (.pass hkind hends))
    · next k _ _ _ _ hkind =>
      split
      · refine .after ht (.bind (yields_skipStatement k c₁ ht hkind) fun _ c₂ h₂ hs => ?_)
        exact .pure hs
      · exact hsimple
    · next hkind =>
      obtain ⟨ts, es, hskip, hover, hends⟩ := takes_skipLine c₁
      have hreads := ReadsSimple.decorator hkind hover hends
      exact .after ht (.after hskip (.pure (.simple (ht.cons hskip) hreads)))
    · exact hsimple
termination_by 4 * c.size + 1

theorem yields_functionDefinition (t : Token) (c c₀ : Stream) (ht : c₀.Takes [t] c)
    (hkind : t.kind = .keyword .defKw) :
    Yields c (functionDefinition t c) fun s c' => ReadsClause c₀ (.statement s) c' := by
  rw [functionDefinition]
  refine .bind (c.yields_expect _ _) ?_
  rintro name c₁ h₁ ⟨hname, hnamed⟩
  refine .bind (c₁.yields_expect _ _) ?_
  rintro lparen c₂ h₂ ⟨hlparen, hopens⟩
  refine .bind (yields_parameters c₂) ?_
  rintro ps c₃ h₃ ⟨ts, hts, hps⟩
  refine .bind (c₃.yields_expect _ _) ?_
  rintro rparen c₄ h₄ ⟨hrparen, hcloses⟩
  refine .bind (yields_expressionAfter _ c₄) ?_
  rintro returns c₅ h₅ ⟨us, hus, hreturns⟩
  refine .bind (c₅.yields_expect _ _) ?_
  rintro colon c₆ h₆ ⟨hcolon, hsign⟩
  refine .bind (yields_suite c₆) fun body c₇ h₇ hbody => ?_
  have hheader :=
    ht.cons (hname.cons (hlparen.cons (hts.append (hrparen.cons (hus.append hcolon)))))
  exact .pure (.function hheader hkind hnamed hopens hps hcloses hreturns hsign hbody)
termination_by 4 * c.size

theorem yields_conditional (kind : ConditionKind) (t : Token) (c c₀ : Stream) (ht : c₀.Takes [t] c)
    (hkind : t.kind = .keyword kind.keyword) :
    Yields c (conditional kind t c) fun s c' => ReadsClause c₀ (.branch kind s) c' := by
  rw [conditional]
  refine .bind (yields_expression c) ?_
  rintro test c₁ h₁ ⟨ts, hts, htest⟩
  refine .bind (c₁.yields_expect _ _) ?_
  rintro colon c₂ h₂ ⟨hcolon, hsign⟩
  refine .bind (yields_suite c₂) fun body c₃ h₃ hbody => ?_
  have hheader := ht.cons (hts.append hcolon)
  dsimp only
  split
  · next u c₄ h₄ htake =>
    obtain ⟨hu, hword⟩ := takes_of_take? htake
    refine .after hu (.bind (yields_conditional .elif u c₄ c₃ hu hword) fun s c₅ h₅ hs => ?_)
    exact .pure (.branchElif hheader hkind htest hsign hbody hs)
  split
  · next u c₄ h₄ htake =>
    obtain ⟨hu, hword⟩ := takes_of_take? htake
    refine .after hu (.bind (c₄.yields_expect _ _) ?_)
    rintro colon' c₅ h₅ ⟨hcolon', hsign'⟩
    refine .bind (yields_suite c₅) fun otherwise c₆ h₆ hotherwise => ?_
    exact .pure (.branchElse hheader hkind htest hsign hbody (hu.cons hcolon') hword hsign'
      hotherwise)
  · exact .pure (.branch hheader hkind htest hsign hbody)
termination_by 4 * c.size

theorem yields_suite (c : Stream) :
    Yields c (suite c) fun ss c' => ReadsClause c (.suite ss) c' := by
  rw [suite]
  split
  · next htake =>
    exact (yields_headerStatements c).mono fun ss c' hss => .lineSuite (take?_eq_none htake) hss
  · next newline c₁ h₁ htake =>
    obtain ⟨hnewline, hbelow⟩ := takes_of_take? htake
    obtain ⟨gap, hgap, hblank⟩ := takes_skipNewlines c₁
    have hlt := c₁.skipNewlines.lt
    dsimp only
    refine .after hnewline (.after hgap ?_)
    refine .bind (yields_expect _ _ _) ?_
    rintro indent c₃ h₃ ⟨hindent, hopens⟩
    refine .bind (yields_blockStatements c₃) ?_
    rintro ss c₄ h₄ ⟨hss, hend⟩
    have hheader := hnewline.cons (hgap.append hindent)
    dsimp only
    split
    · next t c₅ h₅ htake' =>
      obtain ⟨ht, hdedent⟩ := takes_of_take? htake'
      exact .after ht (.pure (.blockSuite hheader hbelow hblank hopens hss (.inr ⟨t, ht, hdedent⟩)))
    · next htake' =>
      refine .pure (.blockSuite hheader hbelow hblank hopens hss (.inl ⟨?_, rfl⟩))
      exact hend.elim (fun hdedent => (take?_eq_none htake').resolve_right (absurd hdedent)) id
termination_by 4 * c.size + 3

theorem yields_headerStatements (c : Stream) :
    Yields c (headerStatements c) fun ss c' => ReadsClause c (.line ss) c' := by
  rw [headerStatements]
  refine .bind (yields_statement c) fun s c₁ h₁ hs => ?_
  dsimp only
  split
  · exact .pure (.lastOfLine hs)
  · next hmore =>
    refine .bind (yields_headerStatements c₁) fun ss c₂ h₂ hss => ?_
    exact .pure (.onLine hs (by simp_all) hss)
termination_by 4 * c.size + 2

theorem yields_blockStatements (c : Stream) :
    Yields c (blockStatements c) fun ss c' =>
      ReadsClause c (.block ss) c' ∧ (c'.kind = .dedent ∨ c'.ahead = []) := by
  obtain ⟨gap, hgap, hblank⟩ := takes_skipNewlines c
  have hlt := c.skipNewlines.lt
  rw [blockStatements]
  dsimp only
  refine .after hgap ?_
  split
  · next hend =>
    exact .pure ⟨.endOfBlock hgap hblank, by simpa [sees, isAtEnd] using hend⟩
  · refine .bind (yields_statement _) fun s c₂ h₂ hs => ?_
    refine .bind (yields_blockStatements c₂) ?_
    rintro ss c₃ h₃ ⟨hss, hend⟩
    exact .pure ⟨.inBlock hgap hblank hs hss, hend⟩
termination_by 4 * c.size + 2

end

/-! ## Modules -/

theorem settles_statements (c : Stream) (hstop : c.stop.kind = .eof) :
    Settles c (statements c) (ReadsModule c) := by
  obtain ⟨gap, hgap, hblank⟩ := takes_skipNewlines c
  have hlt := c.skipNewlines.lt
  rw [statements]
  dsimp only
  refine .after hgap ?_
  split
  · next hend => exact ReadsModule.done hgap hblank (by simpa [isAtEnd] using hend)
  split
  · exact ⟨[], _, takes_nil _, rfl⟩
  · next hlevel =>
    refine (yields_statement _).settles (hgap.stop_eq ▸ hstop) fun s c₂ h₂ hs hstop₂ => ?_
    have hrest := settles_statements c₂ hstop₂
    cases hss : statements c₂ with
    | error e => rwa [hss] at hrest
    | ok ss =>
      rw [hss] at hrest
      exact ReadsModule.next hgap hblank (by simpa [sees] using hlevel) hs hrest
termination_by c.size

end Parser

/-- **A module** is read by the grammar up to the end of the input, or there is an error at one of
the tokens. -/
theorem parseModule_settles (ts : List Token) :
    Settles (.ofTokens ts) (parseModule ts) (ReadsModule (.ofTokens ts)) :=
  Parser.settles_statements _ (Stream.stop_ofTokens ts)

/-- A type written on its own is an expression that takes all tokens but line ends. -/
theorem parseHint_settles (ts : List Token) :
    Settles (.ofTokens ts) (parseHint ts) fun e => ∃ us gap c',
      (Stream.ofTokens ts).Takes (us ++ gap) c' ∧ Reads us (.expr e) ∧ Separates gap ∧
        c'.ahead = [] := by
  unfold parseHint
  refine (Parser.yields_expression _).settles (Stream.stop_ofTokens ts)
    fun e c₁ h₁ ⟨us, hus, he⟩ _ => ?_
  obtain ⟨gap, hgap, hblank⟩ := Parser.takes_skipNewlines c₁
  dsimp only
  refine .after hgap ?_
  split
  · next hend =>
    exact ⟨us, gap, _, hus.append hgap, he, hblank, by simpa [Stream.isAtEnd] using hend⟩
  · exact ⟨[], _, Stream.takes_nil _, rfl⟩

end Gradual
