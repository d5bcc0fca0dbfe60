import Gradual.Proofs.Statement.Layout
import Gradual.Proofs.Statement.Soundness
import Gradual.Proofs.Token.Words

/-!
# Where suites stand

The statements that belong to a header stand in an indented block, or they start on the line of the
header. In the second case the suite goes on after a statement that ends with a block of its own,
and takes in the lines below that block.

* `SuiteIn`: the suites of a module, at any depth;
* `Begins`, `BeginsLine`: where a statement begins in the tokens, and whether a line does;
* `SuiteForm`, **`ReadsClause.facts`**: the forms of suites;
* **`line_in_suite`**: which statements at the left margin are part of a suite;
* `AbsorbsLine`, `margin_lines_absorbed`: such statements.
-/

namespace Gradual

open Source

/-! ## Suites -/

/-- The suites that belong to a statement. -/
def Statement.suites : Statement → List (List Statement)
  | .function _ body => [body]
  | .conditional _ body otherwise => body :: otherwise.toList
  | _ => []

/-- A suite of one of the statements, or of a statement inside them. -/
inductive SuiteIn (ss : List Statement) : List Statement → Prop
  | here {s : Statement} {m : List Statement} (hs : s ∈ m) (h : ss ∈ s.suites) : SuiteIn ss m
  | inside {s : Statement} {block m : List Statement} (hs : s ∈ m) (h : block ∈ s.suites)
      (more : SuiteIn ss block) : SuiteIn ss m

/-! ## Lines -/

/-- The statement begins in the tokens after those of `pre`. -/
def Begins (ts : List Token) (s : Statement) (pre : List Token) : Prop :=
  ∃ t post, ts = pre ++ t :: post ∧ t.kind.hasText = true ∧ s.span.StartsAt t.start

/-- A line begins after the tokens. -/
def BeginsLine (pre : List Token) : Prop :=
  ∃ t ∈ pre.getLast?, t.kind = .newline ∨ t.kind = .dedent

/-- The number of blocks that are open after the tokens. -/
def levelAfter (pre : List Token) : Nat := (Layout.start.after pre).level

theorem not_beginsLine_append {pre us : List Token} {t : Token} (h : us.getLast? = some t)
    (ht : t.kind.hasText = true) : ¬ BeginsLine (pre ++ us) := by
  rintro ⟨u, hu, hk⟩
  have hlast : (pre ++ us).getLast? = some t := by simp [List.getLast?_append, h]
  rw [Option.mem_def, hlast] at hu
  obtain rfl := Option.some.inj hu
  rcases hk with hk | hk <;> simp [hk, TokenKind.hasText] at ht

/-! ## The forms of suites -/

/-- The statements of a suite stand in an indented block; or the first of them does not begin a
line, and no other one follows a line end; or they are a conditional that goes on another one. -/
inductive SuiteForm (ts : List Token) (ss : List Statement) : Prop
  | indented (deeper : ∀ s ∈ ss, ∃ pre, Begins ts s pre ∧ 0 < levelAfter pre)
  | onLine {s₀ : Statement} {pre₀ : List Token} (first : ss.head? = some s₀)
      (here : Begins ts s₀ pre₀) (middle : ¬ BeginsLine pre₀)
      (more : ∀ s ∈ ss, ∃ pre, Begins ts s pre ∧ ∀ t ∈ pre.getLast?, t.kind ≠ .newline)
  | further {s : Statement} (only : ss = [s]) (elif : s.isElif = true)

/-- All suites of a module are of these forms. -/
def SuitesFormed (ts : List Token) (m : List Statement) : Prop :=
  ∀ ss, SuiteIn ss m → SuiteForm ts ss

section SuitesFormed

variable {ts : List Token} {s : Statement} {ss : List Statement}

theorem suitesFormed_nil : SuitesFormed ts [] := by
  intro b hb
  cases hb with
  | here hs | inside hs => cases hs

theorem suitesFormed_cons (hs : SuitesFormed ts [s]) (hss : SuitesFormed ts ss) :
    SuitesFormed ts (s :: ss) := by
  intro b hb
  cases hb with
  | here hx h =>
    rcases List.mem_cons.1 hx with rfl | hx
    · exact hs b (.here List.mem_cons_self h)
    · exact hss b (.here hx h)
  | inside hx h more =>
    rcases List.mem_cons.1 hx with rfl | hx
    · exact hs b (.inside List.mem_cons_self h more)
    · exact hss b (.inside hx h more)

theorem suitesFormed_singleton (h : ∀ b ∈ s.suites, SuiteForm ts b ∧ SuitesFormed ts b) :
    SuitesFormed ts [s] := by
  intro b hb
  cases hb with
  | here hx hb =>
    obtain rfl := List.mem_singleton.1 hx
    exact (h b hb).1
  | inside hx hb more =>
    obtain rfl := List.mem_singleton.1 hx
    exact (h _ hb).2 b more

theorem suitesFormed_of_nil (h : s.suites = []) : SuitesFormed ts [s] :=
  suitesFormed_singleton (by simp [h])

theorem suitesFormed_function {head : FunctionHead}
    (hss : SuiteForm ts ss ∧ SuitesFormed ts ss) : SuitesFormed ts [.function head ss] :=
  suitesFormed_singleton (List.forall_mem_singleton.2 hss)

theorem suitesFormed_conditional {head : Condition} {otherwise : Option (List Statement)}
    (hss : SuiteForm ts ss ∧ SuitesFormed ts ss)
    (hotherwise : ∀ b ∈ otherwise.toList, SuiteForm ts b ∧ SuitesFormed ts b) :
    SuitesFormed ts [.conditional head ss otherwise] :=
  suitesFormed_singleton (List.forall_mem_cons.2 ⟨hss, hotherwise⟩)

end SuitesFormed

/-! ## Streams on the way -/

/-- The tokens of `pre` have been taken, and the stream knows whether the last of them ended a line.
-/
structure Reached (ts : List Token) (c : Stream) (pre : List Token) : Prop where
  split : ts = pre ++ c.ahead
  newline : ∀ t ∈ pre.getLast?, c.afterNewline = (t.kind == .newline)

/-- The tokens `us` lead on from a stream that is reached by those of `pre`, and as many blocks are
open after them as before. -/
structure LeadsOn (pre : List Token) (c : Stream) (us : List Token) (c' : Stream) : Prop where
  takes : c.Takes us c'
  level : levelAfter (pre ++ us) = levelAfter pre

theorem LeadsOn.append {pre us vs : List Token} {c c₁ c' : Stream} (h : LeadsOn pre c us c₁)
    (h' : LeadsOn (pre ++ us) c₁ vs c') : LeadsOn pre c (us ++ vs) c' where
  takes := h.takes.append h'.takes
  level := by rw [← List.append_assoc, h'.level, h.level]

section Reached

variable {ts us pre : List Token} {c c' : Stream}

theorem Reached.takes (h : Reached ts c pre) (hus : c.Takes us c') : Reached ts c' (pre ++ us) where
  split := by rw [h.split, hus.1, List.append_assoc]
  newline t ht := by
    cases hlast : us.getLast? with
    | none =>
      rw [List.getLast?_eq_none_iff] at hlast
      subst hlast
      rw [hus.eq_of_nil]
      exact h.newline t (by simpa using ht)
    | some u =>
      have hu : t = u := by simpa [List.getLast?_append, hlast, eq_comm] using ht
      rw [hus.afterNewline_eq hlast, hu]

theorem Reached.orderly (h : Reached ts c pre) (hts : Orderly .start ts) :
    Orderly (Layout.start.after pre) c.ahead := Orderly.after pre (h.split ▸ hts)

theorem Reached.leadsOn (h : Reached ts c pre) (hts : Orderly .start ts) (hus : c.Takes us c')
    (hfree : BlockFree us) : LeadsOn pre c us c' where
  takes := hus
  level := by
    have hblocks := hfree _ _ (hus.1 ▸ h.orderly hts)
    rw [levelAfter, Layout.after_append, hblocks.level_after, levelAfter]

theorem Reached.ordered (h : Reached ts c pre) (hts : Ordered ts) (hus : c.Takes us c') :
    Ordered us := by
  rw [h.split, hus.1] at hts
  exact hts.right.left

theorem Reached.begins {s : Statement} {t : Token} (h : Reached ts c pre)
    (hus : c.Takes (t :: us) c') (htext : t.kind.hasText = true) (hs : s.span.StartsAt t.start) :
    Begins ts s pre :=
  ⟨t, us ++ c'.ahead, by rw [h.split, hus.1, List.cons_append], htext, hs⟩

end Reached

section Header

variable {ts us pre : List Token} {c c₁ c₂ c' : Stream}

/-- A statement begins with its header. After the colon the level is the same, and no line
begins. -/
theorem Reached.header {t colon : Token} (s : Statement) (h : Reached ts c pre)
    (hts : Orderly .start ts) (hord : Ordered ts) (hus : c.Takes (t :: (us ++ [colon])) c')
    (hflat : Flat (t :: (us ++ [colon]))) (hword : t.kind.hasText = true)
    (hcolon : colon.kind = .mark .colon) (hspan : s.span = t.span.union colon.span) :
    LeadsOn pre c (t :: (us ++ [colon])) c' ∧ ¬ BeginsLine (pre ++ t :: (us ++ [colon])) ∧
      Begins ts s pre := by
  have hlast : (t :: (us ++ [colon])).getLast? = some colon := by simp [List.getLast?_cons]
  have hstart := (h.ordered hord hus).union_startsAt (u := colon) (by simp) t.span_startsAt
    colon.span_startsAt
  exact ⟨h.leadsOn hts hus hflat.blockFree, not_beginsLine_append hlast (by rw [hcolon]; rfl),
    h.begins hus hword (hspan ▸ hstart)⟩

/-- The header of a conditional. -/
theorem Reached.condition {kind : ConditionKind} {t colon : Token} {test : Expr}
    (h : Reached ts c pre) (hts : Orderly .start ts) (hord : Ordered ts)
    (hus : c.Takes (t :: (us ++ [colon])) c') (hword : t.kind = .keyword kind.keyword)
    (htest : Reads us (.expr test)) (hcolon : colon.kind = .mark .colon) (body : List Statement)
    (otherwise : Option (List Statement)) :
    LeadsOn pre c (t :: (us ++ [colon])) c' ∧ ¬ BeginsLine (pre ++ t :: (us ++ [colon])) ∧
      Begins ts (.conditional ⟨t.span.union colon.span, kind, test⟩ body otherwise) pre := by
  have hsign : Flat [colon] := flat_token (by rw [hcolon]; rfl)
  have hflat : Flat (t :: (us ++ [colon])) :=
    Flat.cons (by rw [hword]; rfl) (htest.flat.append hsign)
  exact h.header _ hts hord hus hflat (by rw [hword]; rfl) hcolon rfl

/-- The header of a function opens and closes no block. -/
theorem flat_functionHeader {t name lparen rparen colon : Token} {vs : List Token}
    {ps : List Parameter} {returns : Option Expr} (word : t.kind = .keyword .defKw)
    (named : name.kind = .identifier) (opens : lparen.kind = .mark .lparen)
    (parameters : ReadsParameters us ps) (closes : rparen.kind = .mark .rparen)
    (result : ReadsAfter .arrow vs returns) (sign : colon.kind = .mark .colon) :
    Flat (t :: (name :: (lparen :: (us ++ [rparen]) ++ vs) ++ [colon])) := by
  have hbrackets := flat_bracketed opens rfl parameters.flat.inside closes rfl rfl
  have hsign : Flat [colon] := flat_token (by rw [sign]; rfl)
  have hnamed := Flat.cons (t := name) (by rw [named]; rfl)
    ((hbrackets.append (result.flat rfl)).append hsign)
  exact Flat.cons (by rw [word]; rfl) hnamed

/-- A block opens one level more. -/
theorem levelAfter_indent (pre : List Token) {newline indent : Token} {gap : List Token}
    (below : newline.kind = .newline) (blank : Separates gap) (opens : indent.kind = .indent) :
    levelAfter (pre ++ newline :: (gap ++ [indent])) = levelAfter pre + 1 := by
  have hblocks : NoBlocks (newline :: gap) := noBlocks_cons.2 ⟨by simp [below], blank.noBlocks⟩
  have hsplit : pre ++ newline :: (gap ++ [indent]) = pre ++ (newline :: gap) ++ [indent] := by simp
  rw [hsplit, levelAfter, Layout.after_append, Layout.after_cons, Layout.after_nil,
    Layout.next_indent opens, Layout.after_append, hblocks.level_after, levelAfter]

theorem levelAfter_dedent {dedent : Token} (closes : dedent.kind = .dedent) :
    levelAfter (pre ++ [dedent]) = levelAfter pre - 1 := by
  rw [levelAfter, Layout.after_append, Layout.after_cons, Layout.after_nil,
    Layout.next_dedent closes, levelAfter]

/-- No block is open where the tokens end. -/
theorem Reached.levelAfter_end (h : Reached ts c pre) (hts : Orderly .start ts)
    (hend : c.ahead = []) : levelAfter pre = 0 := by
  have hlaid := (h.orderly hts).laidOut
  rw [hend] at hlaid
  cases hlaid with
  | done closed => exact closed

/-- A block below a header closes again. -/
theorem Reached.block (h : Reached ts c pre) (hts : Orderly .start ts)
    {newline indent : Token} {gap : List Token}
    (hopen : c.Takes (newline :: (gap ++ [indent])) c₁) (below : newline.kind = .newline)
    (blank : Separates gap) (opens : indent.kind = .indent)
    (hus : LeadsOn (pre ++ newline :: (gap ++ [indent])) c₁ us c₂)
    (close : (c₂.ahead = [] ∧ c' = c₂) ∨ ∃ t, c₂.Takes [t] c' ∧ t.kind = .dedent) :
    ∃ vs, LeadsOn pre c vs c' := by
  have hlevel := hus.level
  rw [levelAfter_indent pre below blank opens] at hlevel
  rcases close with ⟨hend, rfl⟩ | ⟨t, ht, hdedent⟩
  · have hzero := ((h.takes hopen).takes hus.takes).levelAfter_end hts hend
    omega
  · refine ⟨_, (hopen.append hus.takes).append ht, ?_⟩
    rw [← List.append_assoc, ← List.append_assoc, levelAfter_dedent hdedent, hlevel]
    rfl

/-- A block that is read over leaves the level as it was. -/
theorem Reached.skippedBlock (h : Reached ts c pre) (hts : Orderly .start ts)
    (opened : c.kind = .indent)
    (hus : c.Takes (c.ahead.take (Stream.blockLength 0 c.ahead)) c') :
    LeadsOn pre c (c.ahead.take (Stream.blockLength 0 c.ahead)) c' := by
  refine ⟨hus, ?_⟩
  have hlaid := (h.orderly hts).laidOut
  rw [levelAfter, Layout.after_append, levelAfter]
  cases hahead : c.ahead with
  | nil => rfl
  | cons t rest =>
    have hkind : t.kind = .indent := by simpa [Stream.kind, Stream.peek, hahead] using opened
    have hlen : Stream.blockLength 0 (t :: rest) = Stream.blockLength 1 rest + 1 := by
      simp [Stream.blockLength, hkind]
    have hrest : LaidOut ((Layout.start.after pre).next t) rest := by
      rw [hahead] at hlaid
      exact hlaid.after [t]
    have hnext := Layout.next_indent (l := Layout.start.after pre) hkind
    have hblock := level_after_blockLength hrest Nat.one_pos (by rw [hnext]; exact Nat.succ_pos _)
    rw [hlen, List.take_succ_cons, Layout.after_cons]
    rw [hnext] at hblock ⊢
    dsimp only at hblock
    omega

end Header

theorem ReadsSimple.suites_eq_nil {ts : List Token} {s : Statement} (h : ReadsSimple ts s) :
    s.suites = [] ∧ s.isElif = false := by
  cases h with
  | assigned =>
    unfold Parser.assignmentOf
    split <;> exact ⟨rfl, rfl⟩
  | _ => exact ⟨rfl, rfl⟩

/-! ## Clauses -/

/-- What a clause after the tokens of `pre` has to do with lines and blocks. -/
def Clause.Facts (ts pre : List Token) : Clause → Prop
  | .statement s => Begins ts s pre ∧ s.isElif = false ∧ SuitesFormed ts [s]
  | .branch kind s => Begins ts s pre ∧ s.isElif = (kind == .elif) ∧ SuitesFormed ts [s]
  | .suite ss => ¬ BeginsLine pre → SuiteForm ts ss ∧ SuitesFormed ts ss
  | .line ss => (∃ s₀, ss.head? = some s₀ ∧ Begins ts s₀ pre) ∧
      (∀ s ∈ ss, ∃ pre', Begins ts s pre' ∧ (pre' = pre ∨ ∀ t ∈ pre'.getLast?, t.kind ≠ .newline)) ∧
      SuitesFormed ts ss
  | .block ss => (∀ s ∈ ss, ∃ pre', Begins ts s pre' ∧ levelAfter pre' = levelAfter pre) ∧
      SuitesFormed ts ss

/-- The first statement on a line is where the line stands, and the next ones follow no line end. -/
theorem Clause.Facts.onLine {ts pre us : List Token} {c : Stream} {s : Statement}
    {ss : List Statement} (hs : (Clause.statement s).Facts ts pre)
    (hreached : Reached ts c (pre ++ us)) (more : c.afterNewline = false)
    (hss : (Clause.line ss).Facts ts (pre ++ us)) : (Clause.line (s :: ss)).Facts ts pre := by
  obtain ⟨hbegins, -, hforms⟩ := hs
  obtain ⟨-, hall, hforms'⟩ := hss
  refine ⟨⟨s, rfl, hbegins⟩, ?_, suitesFormed_cons hforms hforms'⟩
  refine List.forall_mem_cons.2 ⟨⟨pre, hbegins, .inl rfl⟩, fun x hx => ?_⟩
  obtain ⟨pre', hbegins', hpre'⟩ := hall x hx
  refine ⟨pre', hbegins', .inr ?_⟩
  rcases hpre' with rfl | hpre'
  · intro t ht hk
    have hnewline := hreached.newline t ht
    simp [more, hk] at hnewline
  · exact hpre'

/-- **A clause keeps the number of open blocks**, and its suites are of one of the forms. -/
theorem ReadsClause.facts {ts pre : List Token} {c c' : Stream} {l : Clause}
    (hts : Orderly .start ts) (hord : Ordered ts) (h : ReadsClause c l c')
    (hpre : Reached ts c pre) : ∃ us, LeadsOn pre c us c' ∧ l.Facts ts pre := by
  -- the tokens before a clause are kept general, for each of its parts comes after more of them
  induction h generalizing pre with
  | simple h reads =>
    obtain ⟨t, us, rfl, htext, hstart⟩ := reads.startsAt (hpre.ordered hord h)
    obtain ⟨hsuites, helif⟩ := reads.suites_eq_nil
    exact ⟨_, hpre.leadsOn hts h reads.blockFree, hpre.begins h htext hstart, helif,
      suitesFormed_of_nil hsuites⟩
  | @skippedLine c c' t us es k h word skips ends _ =>
    have htext : t.kind.hasText = true := by rw [word]; rfl
    have hfree := (blockFree_line htext skips).append ends.separates.noBlocks.blockFree
    exact ⟨_, hpre.leadsOn hts h hfree, hpre.begins h htext t.span_startsAt, rfl,
      suitesFormed_of_nil rfl⟩
  | @skippedBlock c c₁ c' t us es k h word skips ends opened h' =>
    have htext : t.kind.hasText = true := by rw [word]; rfl
    have hfree := (blockFree_line htext skips).append ends.separates.noBlocks.blockFree
    have hblock := (hpre.takes h).skippedBlock hts opened h'
    exact ⟨_, (hpre.leadsOn hts h hfree).append hblock, hpre.begins h htext t.span_startsAt, rfl,
      suitesFormed_of_nil rfl⟩
  | @function c c₁ c' t name lparen rparen colon us vs ps returns body h word named opens parameters
      closes result sign suite ih =>
    have hflat := flat_functionHeader word named opens parameters closes result sign
    have htakes : c.Takes (t :: (name :: (lparen :: (us ++ [rparen]) ++ vs) ++ [colon])) c₁ := by
      simpa using h
    obtain ⟨hheader, hline, hbegins⟩ := hpre.header (.function
      ⟨⟨name.lexeme, name.span⟩, t.span.union colon.span, ps, returns⟩ body) hts hord htakes hflat
      (by rw [word]; rfl) sign rfl
    obtain ⟨ws, hws, hsuite⟩ := ih (hpre.takes htakes)
    exact ⟨_, hheader.append hws, hbegins, rfl, suitesFormed_function (hsuite hline)⟩
  | conditional _ ih =>
    obtain ⟨us, hus, hbegins, helif, hforms⟩ := ih hpre
    exact ⟨us, hus, hbegins, helif, hforms⟩
  | branch h word condition sign suite ih =>
    obtain ⟨hheader, hline, hbegins⟩ := hpre.condition hts hord h word condition sign _ none
    obtain ⟨ws, hws, hsuite⟩ := ih (hpre.takes h)
    exact ⟨_, hheader.append hws, hbegins, rfl,
      suitesFormed_conditional (hsuite hline) (by simp)⟩
  | branchElif h word condition sign suite further ih ih' =>
    obtain ⟨hheader, hline, hbegins⟩ := hpre.condition hts hord h word condition sign _ _
    obtain ⟨ws, hws, hsuite⟩ := ih (hpre.takes h)
    have hbody := hheader.append hws
    obtain ⟨xs, hxs, -, helif, hforms⟩ := ih' (hpre.takes hbody.takes)
    exact ⟨_, hbody.append hxs, hbegins, rfl, suitesFormed_conditional (hsuite hline)
      (List.forall_mem_singleton.2 ⟨.further rfl helif, hforms⟩)⟩
  | @branchElse c c₁ c₂ c₃ c' kind t colon u colon' us test body otherwise h word condition sign
      suite h' word' sign' alternative ih ih' =>
    obtain ⟨hheader, hline, hbegins⟩ := hpre.condition hts hord h word condition sign _ _
    obtain ⟨ws, hws, hsuite⟩ := ih (hpre.takes h)
    have hflat : Flat [u, colon'] :=
      Flat.cons (by rw [word']; rfl) (flat_token (by rw [sign']; rfl))
    have hbody := hheader.append hws
    have helse := hbody.append ((hpre.takes hbody.takes).leadsOn hts h' hflat.blockFree)
    obtain ⟨xs, hxs, hsuite'⟩ := ih' (hpre.takes helse.takes)
    have hline' : ¬ BeginsLine (pre ++ (t :: (us ++ [colon]) ++ ws ++ [u, colon'])) :=
      not_beginsLine_append (t := colon') (by rw [List.getLast?_append]; rfl) (by rw [sign']; rfl)
    exact ⟨_, helse.append hxs, hbegins, rfl, suitesFormed_conditional (hsuite hline)
      (List.forall_mem_singleton.2 (hsuite' hline'))⟩
  | lineSuite here statements ih =>
    obtain ⟨us, hus, ⟨s₀, hfirst, hbegins⟩, hall, hforms⟩ := ih hpre
    refine ⟨us, hus, fun hline => ⟨.onLine hfirst hbegins hline fun s hs => ?_, hforms⟩⟩
    obtain ⟨pre', hbegins', hpre'⟩ := hall s hs
    refine ⟨pre', hbegins', ?_⟩
    rcases hpre' with rfl | hpre'
    · exact fun t ht hk => hline ⟨t, ht, .inl hk⟩
    · exact hpre'
  | blockSuite h below blank opens statements close ih =>
    obtain ⟨us, hus, hall, hforms⟩ := ih (hpre.takes h)
    obtain ⟨vs, hvs⟩ := hpre.block hts h below blank opens hus close
    refine ⟨vs, hvs, fun _ => ⟨.indented fun s hs => ?_, hforms⟩⟩
    obtain ⟨pre', hbegins, hlevel⟩ := hall s hs
    rw [levelAfter_indent pre below blank opens] at hlevel
    exact ⟨pre', hbegins, by omega⟩
  | lastOfLine h ih =>
    obtain ⟨us, hus, hbegins, -, hforms⟩ := ih hpre
    exact ⟨us, hus, ⟨_, rfl, hbegins⟩,
      List.forall_mem_singleton.2 ⟨pre, hbegins, .inl rfl⟩, hforms⟩
  | onLine h more h' ih ih' =>
    obtain ⟨us, hus, hs⟩ := ih hpre
    have hreached := hpre.takes hus.takes
    obtain ⟨vs, hvs, hss⟩ := ih' hreached
    exact ⟨_, hus.append hvs, hs.onLine hreached more hss⟩
  | endOfBlock h blank =>
    exact ⟨_, hpre.leadsOn hts h blank.noBlocks.blockFree, List.forall_mem_nil _, suitesFormed_nil⟩
  | inBlock h blank head tail ih ih' =>
    have hgap := hpre.leadsOn hts h blank.noBlocks.blockFree
    obtain ⟨us, hus, hbegins, -, hforms⟩ := ih (hpre.takes h)
    have hhead := hgap.append hus
    obtain ⟨vs, hvs, hall, hforms'⟩ := ih' (hpre.takes hhead.takes)
    refine ⟨_, hhead.append hvs, List.forall_mem_cons.2 ⟨⟨_, hbegins, hgap.level⟩, fun x hx => ?_⟩,
      suitesFormed_cons hforms hforms'⟩
    obtain ⟨pre', hbegins', hpre'⟩ := hall x hx
    exact ⟨pre', hbegins', hpre'.trans hhead.level⟩

/-! ## Modules -/

theorem ReadsModule.suitesFormed {ts pre : List Token} {c : Stream} {m : List Statement}
    (hts : Orderly .start ts) (hord : Ordered ts) (h : ReadsModule c m) (hpre : Reached ts c pre) :
    SuitesFormed ts m := by
  induction h generalizing pre with
  | done => exact suitesFormed_nil
  | next h _ _ head _ ih =>
    have hreached := hpre.takes h
    obtain ⟨us, hus, -, -, hforms⟩ := head.facts hts hord hreached
    exact suitesFormed_cons hforms (ih (hreached.takes hus.takes))

theorem Begins.append {ts us pre : List Token} {s : Statement} (h : Begins ts s pre) :
    Begins (ts ++ us) s pre := by
  obtain ⟨t, post, rfl, htext, hstart⟩ := h
  exact ⟨t, post ++ us, by simp, htext, hstart⟩

/-- A token of the text stands after another one only at a later place. -/
theorem Ordered.eq_of_start {pre pre' post post' : List Token} {t t' : Token}
    (h : Ordered (pre ++ t :: post)) (heq : pre ++ t :: post = pre' ++ t' :: post')
    (htext : t.kind.hasText = true) (htext' : t'.kind.hasText = true)
    (hstart : t.start = t'.start) : pre = pre' := by
  rcases List.append_eq_append_iff.1 heq with ⟨as, rfl, has⟩ | ⟨as, rfl, has⟩
  · cases as with
    | nil => simp
    | cons a as =>
      obtain ⟨rfl, rfl⟩ := List.cons.inj has
      have hbefore := List.rel_of_pairwise_cons h.right.2 (show t' ∈ as ++ t' :: post' by simp)
      exact absurd hstart (hbefore.2 htext).ne
  · cases as with
    | nil => simp
    | cons a as =>
      obtain ⟨rfl, rfl⟩ := List.cons.inj has
      rw [List.append_assoc] at h
      have hbefore := List.rel_of_pairwise_cons h.right.2 (show t ∈ as ++ t :: post by simp)
      exact absurd hstart.symm (hbefore.2 htext').ne

theorem Begins.unique {ts pre pre' : List Token} {s : Statement} (hts : Ordered ts)
    (h : Begins ts s pre) (h' : Begins ts s pre') : pre = pre' := by
  obtain ⟨t, post, rfl, htext, hline, hcolumn⟩ := h
  obtain ⟨t', post', heq, htext', hline', hcolumn'⟩ := h'
  have hstart : t.start = t'.start := by
    cases ht : t.start
    cases ht' : t'.start
    simp_all
  exact hts.eq_of_start heq htext htext' hstart

/-- The number of open blocks is that of the blocks opened less that of the blocks closed. -/
theorem LaidOut.level_after {l : Layout} {pre post : List Token} (h : LaidOut l (pre ++ post)) :
    (l.after pre).level + pre.countP (·.kind == .dedent) =
      l.level + pre.countP (·.kind == .indent) := by
  induction pre generalizing l with
  | nil => rfl
  | cons t pre ih =>
    rw [Layout.after_cons]
    cases h with
    | newline kind _ more =>
      have hrest := ih more
      rw [Layout.next_newline kind] at hrest ⊢
      simpa [kind] using hrest
    | indent kind _ _ more =>
      have hrest := ih more
      rw [Layout.next_indent kind] at hrest ⊢
      simp [kind] at hrest ⊢
      omega
    | dedent kind _ inside _ more =>
      have hrest := ih more
      rw [Layout.next_dedent kind] at hrest ⊢
      simp [kind] at hrest ⊢
      omega
    | code kind more =>
      have hrest := ih more
      obtain ⟨hindent, hdedent⟩ := noBlocks_of_hasText kind
      rw [Layout.next_code kind] at hrest ⊢
      simpa [hindent, hdedent] using hrest

theorem TidyLambdas.of_append {ts us : List Token} (h : TidyLambdas (ts ++ us)) :
    TidyLambdas ts := by
  intro t header colon more hsuffix
  obtain ⟨before, rfl⟩ := hsuffix
  exact h t header colon (more ++ us) ⟨before, by simp⟩

theorem tidyLambdas_of_none {ts : List Token} (h : ∀ t ∈ ts, t.kind ≠ .keyword .lambdaKw) :
    TidyLambdas ts :=
  fun t _ _ _ hsuffix hword => absurd hword (h t (hsuffix.subset List.mem_cons_self))

/-- **The suites of a module** are indented blocks, or start on the line of their header, or are a
conditional that goes on another one. -/
theorem parseModule_suitesFormed {text : String} {ts : List Token} {m : List Statement}
    (hlex : tokenize text = .ok ts) (hparse : parseModule ts = .ok m) (htidy : TidyLambdas ts) :
    ∃ us e, ts = us ++ [e] ∧ LaidOut .start us ∧ SuitesFormed us m := by
  obtain ⟨us, e, rfl, he, hus, hlaid⟩ := tokenize_laidOut hlex
  have hord : Ordered us := Ordered.left (tokenize_ordered hlex)
  have hreads := parseModule_settles (us ++ [e])
  rw [hparse] at hreads
  have hreached : Reached us (.ofTokens (us ++ [e])) [] :=
    ⟨(Stream.ahead_ofTokens hus (by simp [he])).symm, by simp⟩
  exact ⟨us, e, rfl, hlaid, hreads.suitesFormed ⟨hlaid, htidy.of_append⟩ hord hreached⟩

/-! ## Places by number -/

/-- The statements of a text, if it has any. -/
def statementsOf (text : String) : List Statement :=
  (parseModule (tokensOf text)).toOption.getD []

/-- The statement at `place` belongs to a suite of a statement of the text and goes on no
conditional. It begins a line at the left margin, with the token of the number `n`. -/
def MarginLineAt (text : String) (n : Nat) (place : Span) : Prop :=
  ((tokenize text).toOption.isSome = true ∧ (parseModule (tokensOf text)).toOption.isSome = true) ∧
    (∃ f ∈ statementsOf text, ∃ ss ∈ f.suites, ∃ s ∈ ss, s.isElif = false ∧ s.span = place) ∧
    (∃ t ∈ ((tokensOf text).drop n).head?, t.kind.hasText = true ∧
      place.line = t.start.line ∧ place.column = t.start.column) ∧
    (∃ t ∈ ((tokensOf text).take n).getLast?, t.kind = .newline ∨ t.kind = .dedent) ∧
    ((tokensOf text).take n).countP (·.kind == .indent) =
      ((tokensOf text).take n).countP (·.kind == .dedent)

instance (text : String) (n : Nat) (place : Span) : Decidable (MarginLineAt text n place) :=
  inferInstanceAs (Decidable (_ ∧ _))

theorem begins_of_index {ts : List Token} {s : Statement} {n : Nat} {t : Token}
    (ht : t ∈ (ts.drop n).head?) (htext : t.kind.hasText = true)
    (hstart : s.span.StartsAt t.start) : Begins ts s (ts.take n) := by
  obtain ⟨post, hpost⟩ := List.head?_eq_some_iff.1 ht
  exact ⟨t, post, by rw [← hpost, List.take_append_drop], htext, hstart⟩

theorem MarginLineAt.exists_line {text : String} {n : Nat} {place : Span}
    (h : MarginLineAt text n place) :
    tokenize text = .ok (tokensOf text) ∧
      parseModule (tokensOf text) = .ok (statementsOf text) ∧
      ∃ ss s, SuiteIn ss (statementsOf text) ∧ s ∈ ss ∧ s.isElif = false ∧ s.span = place ∧
        Begins (tokensOf text) s ((tokensOf text).take n) := by
  obtain ⟨⟨hlex, hparse⟩, ⟨f, hf, ss, hss, s, hs, helif, rfl⟩, ⟨t, ht, htext, hstart⟩, -⟩ := h
  exact ⟨Except.eq_ok_of_isSome [] hlex, Except.eq_ok_of_isSome [] hparse, ss, s, .here hf hss, hs,
    helif, rfl, begins_of_index ht htext hstart⟩

/-! ## The left margin -/

/-- **Lines at the left margin in a suite**: the suite starts on the line of its header, and the
token before the line closes a block. -/
theorem line_in_suite {text : String} {ts pre : List Token} {m ss : List Statement} {s : Statement}
    (hlex : tokenize text = .ok ts) (hparse : parseModule ts = .ok m) (htidy : TidyLambdas ts)
    (hss : SuiteIn ss m) (hs : s ∈ ss) (helif : s.isElif = false) (hbegins : Begins ts s pre)
    (hline : BeginsLine pre)
    (hmargin : pre.countP (·.kind == .indent) = pre.countP (·.kind == .dedent)) :
    (∃ t, pre.getLast? = some t ∧ t.kind = .dedent) ∧
      ∃ s₀ pre₀, ss.head? = some s₀ ∧ Begins ts s₀ pre₀ ∧ ¬ BeginsLine pre₀ := by
  obtain ⟨us, e, rfl, hlaid, hforms⟩ := parseModule_suitesFormed hlex hparse htidy
  have hord : Ordered (us ++ [e]) := tokenize_ordered hlex
  cases hforms ss hss with
  | indented deeper =>
    obtain ⟨pre', hbegins', hlevel⟩ := deeper s hs
    obtain rfl := hbegins.unique hord hbegins'.append
    obtain ⟨t, post, rfl, -⟩ := hbegins'
    have hcount := hlaid.level_after
    unfold levelAfter at hlevel
    simp only [Layout.start] at hcount hlevel
    omega
  | onLine first here middle more =>
    obtain ⟨pre', hbegins', hlast⟩ := more s hs
    obtain rfl := hbegins.unique hord hbegins'.append
    refine ⟨?_, _, _, first, here.append, middle⟩
    obtain ⟨t, ht, hkind⟩ := hline
    exact ⟨t, ht, hkind.resolve_left (hlast t ht)⟩
  | further only elif =>
    subst only
    obtain rfl := List.mem_singleton.1 hs
    rw [helif] at elif
    cases elif

/-- A function whose body starts on its line with a conditional, which has a block of its own. -/
def definitionOnLine : String := "def f(): if b:\n    return 1\nx = 1\n"

theorem definitionOnLine_body :
    ∃ ss s pre, SuiteIn ss (statementsOf definitionOnLine) ∧ s ∈ ss ∧
      Begins (tokensOf definitionOnLine) s pre ∧ BeginsLine pre ∧
      (∃ t, pre.getLast? = some t ∧ t.kind = .dedent) ∧
      ∃ s₀ pre₀, ss.head? = some s₀ ∧ Begins (tokensOf definitionOnLine) s₀ pre₀ ∧
        ¬ BeginsLine pre₀ := by
  obtain ⟨hline, htidy⟩ : MarginLineAt definitionOnLine 14 ⟨3, 1, 3, 5⟩ ∧
      ∀ t ∈ tokensOf definitionOnLine, t.kind ≠ .keyword .lambdaKw := by decide +kernel
  obtain ⟨hlex, hparse, ss, s, hss, hs, helif, -, hbegins⟩ := hline.exists_line
  obtain ⟨-, -, -, hline, hmargin⟩ := hline
  exact ⟨ss, s, _, hss, hs, hbegins, hline, line_in_suite hlex hparse (tidyLambdas_of_none htidy)
    hss hs helif hbegins hline hmargin⟩

/-- A statement of the text begins a line at the left margin, goes on no conditional, belongs to a
suite, and is none of the statements of the module. -/
def AbsorbsLine (text : String) : Prop :=
  ∃ ts m ss s pre, tokenize text = .ok ts ∧ parseModule ts = .ok m ∧ SuiteIn ss m ∧ s ∈ ss ∧
    s.isElif = false ∧ Begins ts s pre ∧ BeginsLine pre ∧
    pre.countP (·.kind == .indent) = pre.countP (·.kind == .dedent) ∧ ∀ x ∈ m, x.span ≠ s.span

theorem MarginLineAt.absorbsLine {text : String} {n : Nat} {place : Span}
    (h : MarginLineAt text n place) (hfree : ∀ x ∈ statementsOf text, x.span ≠ place) :
    AbsorbsLine text := by
  obtain ⟨hlex, hparse, ss, s, hss, hs, helif, rfl, hbegins⟩ := h.exists_line
  obtain ⟨-, -, -, hline, hmargin⟩ := h
  exact ⟨_, _, ss, s, _, hlex, hparse, hss, hs, helif, hbegins, hline, hmargin, hfree⟩

/-- A conditional whose body starts on its line with another one, which has a block of its own. -/
def conditionalOnLine : String := "if a: if b:\n    c\nd\n"

/-- A function with a `lambda` whose colon stands below its block. -/
def lambdaAcrossLines : String := "def f():\n    x = lambda\ny: 1\nz\n"

/-- **Lines at the left margin can be absorbed**: by a suite on the line of its header, as above,
and by an indented block that the header of a `lambda` leaves. -/
theorem margin_lines_absorbed : AbsorbsLine conditionalOnLine ∧ AbsorbsLine lambdaAcrossLines := by
  obtain ⟨hif, hfree⟩ : MarginLineAt conditionalOnLine 11 ⟨3, 1, 3, 1⟩ ∧
      ∀ x ∈ statementsOf conditionalOnLine, x.span ≠ ⟨3, 1, 3, 1⟩ := by decide +kernel
  obtain ⟨hlambda, hfree'⟩ : MarginLineAt lambdaAcrossLines 16 ⟨4, 1, 4, 1⟩ ∧
      ∀ x ∈ statementsOf lambdaAcrossLines, x.span ≠ ⟨4, 1, 4, 1⟩ := by decide +kernel
  exact ⟨hif.absorbsLine hfree, hlambda.absorbsLine hfree'⟩

end Gradual
