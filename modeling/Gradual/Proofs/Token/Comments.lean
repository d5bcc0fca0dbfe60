import Gradual.Proofs.Source.Lines
import Gradual.Proofs.Token.Run

/-!
# Comments and types in comments

A type in a comment is looked for by line, without a view to tokens. The marker before it stands in
a comment, or else in a string.

* `Comment`, `LexState.comment?`, `comments`: the comments of a text;
* `LexState.step_of_comment?`, **`skipped_of_mem_comments`**: they are gone over without a token;
* `Holder`, **`LexStep.holder`**: a step goes over one comment or one string, and over no other `#`;
* `Marked`, **`tokens_marker`**: each marker of a text stands in a comment or in a string;
* `Comment.States`, **`hint_from_comment_or_string`**: so does that of each type that is found.
-/

namespace Gradual

open Source Text

/-! ## Comments -/

/-- A comment, from its `#` up to the end of its line, and its place. -/
structure Comment where
  place : Position
  text : List Char
  deriving DecidableEq, Repr

namespace LexState

/-- The comment at the head of a text. -/
def headComment? (s : LexState) : Option Comment :=
  if s.rest.head? = some '#' then some ⟨s.place, s.rest.takeWhile (!isBreak ·)⟩ else none

/-- The comment that the next step goes over. -/
def comment? (s : LexState) : Option Comment :=
  if s.lineStart then
    if s.depth = 0 then (s.move (s.rest.takeWhile isSpacing).length).headComment? else none
  else s.headComment?

/-- The comments from a state up to the end of the text. -/
def comments (s : LexState) : List Comment :=
  if hs : s.isDone then []
  else
    match h : s.step with
    | .error _ => []
    | .ok (_, t) =>
      have : t.measure < s.measure := measure_step (by simpa using hs) h
      s.comment?.toList ++ t.comments
termination_by s.measure

theorem comments_of_step {s t : LexState} {ts : List Token} (hs : s.isDone = false)
    (h : s.step = .ok (ts, t)) : s.comments = s.comment?.toList ++ t.comments := by
  rw [comments, dif_neg (by simp [hs])]
  split
  next e he => cases h.symm.trans he
  next us u hu =>
    obtain ⟨rfl, rfl⟩ := Prod.mk.inj (Except.ok.inj (h.symm.trans hu))
    rfl

theorem headComment?_of_rest {s : LexState} {text cs : List Char} (h : s.rest = '#' :: text ++ cs)
    (line : ∀ c ∈ text, isBreak c = false) (ends : ∀ c ∈ cs.head?, isBreak c = true) :
    s.headComment? = some ⟨s.place, '#' :: text⟩ := by
  have htext : ('#' :: text ++ cs).takeWhile (!isBreak ·) = '#' :: text :=
    takeWhile_append_stop (List.forall_mem_cons.2 ⟨rfl, by simpa using line⟩) (by simpa using ends)
  have hhead : ('#' :: text ++ cs).head? = some '#' := rfl
  rw [headComment?, h, htext, if_pos hhead]

theorem headComment?_eq_some {s : LexState} {c : Comment} (h : s.headComment? = some c) :
    (∃ cs, s.rest = '#' :: cs) ∧ c = ⟨s.place, s.rest.takeWhile (!isBreak ·)⟩ := by
  unfold headComment? at h
  split at h
  next hhead => exact ⟨List.head?_eq_some_iff.1 hhead, (Option.some.inj h).symm⟩
  next => cases h

theorem breakLength_le_two (cs : List Char) : breakLength cs ≤ 2 := by
  unfold breakLength
  split <;> omega

/-- A step goes over its comment, with spacing before it and at most the end of the line behind it,
and yields no token. -/
theorem step_of_comment? {s : LexState} {c : Comment} (h : s.comment? = some c) :
    ∃ t blanks ends, s.step = .ok ([], t) ∧ s.rest = blanks ++ c.text ++ ends ++ t.rest ∧
      (∀ d ∈ blanks, isSpacing d = true) ∧ ends.length ≤ 2 ∧ c.place = s.place.after blanks := by
  unfold comment? at h
  split at h
  next hs =>
    split at h
    next hd =>
      have hsplit : s.rest = s.rest.takeWhile isSpacing ++ s.rest.dropWhile isSpacing :=
        List.takeWhile_append_dropWhile.symm
      have hblank : ∀ d ∈ s.rest.takeWhile isSpacing, isSpacing d = true :=
        fun d hd => List.mem_takeWhile_imp hd
      rw [move_of_rest hsplit] at h
      obtain ⟨⟨cs, hcs⟩, rfl⟩ := headComment?_eq_some h
      rw [step, if_pos hs, if_pos hd, startLine]
      simp only [move_of_rest hsplit]
      generalize s.rest.takeWhile isSpacing = blanks at *
      generalize s.rest.dropWhile isSpacing = code at *
      obtain rfl : code = '#' :: cs := hcs
      have htail := rest_skipComment { s.past blanks ('#' :: cs) with lineStart := false }
      refine ⟨_, blanks, (('#' :: cs).dropWhile (!isBreak ·)).take
        (breakLength (('#' :: cs).dropWhile (!isBreak ·))), rfl, ?_, hblank, ?_, rfl⟩
      · change s.rest = _ ++ _ ++ _ ++ List.drop _ (LexState.rest _)
        rw [htail]
        simp only [rest_past, List.append_assoc, List.take_append_drop]
        rw [hsplit, List.takeWhile_append_dropWhile]
      · rw [List.length_take]
        exact Nat.le_trans (Nat.min_le_left ..) (breakLength_le_two _)
    next => cases h
  next hs =>
    obtain ⟨⟨cs, hcs⟩, rfl⟩ := headComment?_eq_some h
    refine ⟨s.skipComment, [], [], ?_, ?_, by simp, by simp, rfl⟩
    · rw [step, if_neg hs, hcs]
      rfl
    · simp [rest_skipComment, List.takeWhile_append_dropWhile]

/-- A comment starts with `#` and stays on its line. -/
theorem comment?_line {s : LexState} {c : Comment} (h : s.comment? = some c) :
    c.text.head? = some '#' ∧ ∀ d ∈ c.text, isBreak d = false := by
  have hline : ∀ {s : LexState}, s.headComment? = some c →
      c.text.head? = some '#' ∧ ∀ d ∈ c.text, isBreak d = false := by
    intro s hc
    obtain ⟨⟨cs, hcs⟩, rfl⟩ := headComment?_eq_some hc
    exact ⟨by simp [hcs, isBreak], fun d => isBreak_of_mem_comment⟩
  unfold comment? at h
  split at h
  · split at h
    · exact hline h
    · cases h
  · exact hline h

theorem comments_line {s : LexState} {c : Comment} (h : c ∈ s.comments) :
    c.text.head? = some '#' ∧ ∀ d ∈ c.text, isBreak d = false := by
  fun_induction comments s with
  | case1 | case2 => cases h
  | case3 s hs ts t hstep _ ih =>
    rcases List.mem_append.1 h with hc | hc
    · exact comment?_line (Option.mem_toList.1 hc)
    · exact ih hc

end LexState

/-- The comments of a text. -/
def comments (source : String) : List Comment := (LexState.start source.toList).comments

/-- The steps over a text go over the comment without a token, with spacing before it and at most
the end of its line behind it. -/
def Comment.Skipped (source : String) (c : Comment) : Prop :=
  ∃ before blanks ends ts s t, LexRun (.start source.toList) before ts s ∧ s.step = .ok ([], t) ∧
    source.toList = before ++ blanks ++ c.text ++ ends ++ t.rest ∧
    (∀ d ∈ blanks, isSpacing d = true) ∧ ends.length ≤ 2 ∧
    c.place = Position.start.after (before ++ blanks)

theorem LexState.exists_run_of_mem_comments {s : LexState} {c : Comment} (h : c ∈ s.comments) :
    ∃ before ts t, LexRun s before ts t ∧ t.comment? = some c := by
  fun_induction LexState.comments s with
  | case1 | case2 => cases h
  | case3 s hs ts t hstep _ ih =>
    rcases List.mem_append.1 h with hc | hc
    · exact ⟨[], [], s, .refl, Option.mem_toList.1 hc⟩
    · obtain ⟨before, us, u, hrun, hu⟩ := ih hc
      obtain ⟨piece, hpiece⟩ := lexStep_of_step (by simpa using hs) hstep
      exact ⟨_, _, u, .head hpiece hrun, hu⟩

/-- **The comments of a text are gone over without a token.** -/
theorem skipped_of_mem_comments {source : String} {c : Comment} (h : c ∈ comments source) :
    c.Skipped source := by
  obtain ⟨before, ts, s, hrun, hc⟩ := LexState.exists_run_of_mem_comments h
  obtain ⟨t, blanks, ends, hstep, hrest, hblank, hends, hplace⟩ := LexState.step_of_comment? hc
  have hcut := hrun.cleanCut
  rw [hrest, List.append_assoc, List.append_assoc] at hcut
  refine ⟨before, blanks, ends, ts, s, t, hrun, hstep, ?_, hblank, hends, ?_⟩
  · have hsource : source.toList = before ++ s.rest := hrun.rest_eq
    rw [hsource, hrest]
    simp only [List.append_assoc]
  · rw [Position.after_append _ hcut.of_append_right, hplace, hrun.place_eq]
    rfl

/-! ## One step -/

/-- What may hold a `#` in a step with `after` behind it: the comment or the string that the step
goes over. -/
inductive Holder (s : LexState) (ts : List Token) (after : List Char) :
    Position → List Char → Prop
  | comment {c : Comment} (found : s.comment? = some c)
      (ends : ∀ d ∈ after.head?, isBreak d = true) : Holder s ts after c.place c.text
  | string {u : Token} {text : List Char} (found : u ∈ ts) (lexeme : u.lexeme.toList = text)
      (string : StringText u.kind text) : Holder s ts after u.start text

section Step

variable {s t : LexState} {piece : List Char} {ts : List Token}

theorem not_mem_of_spacing {cs : List Char} (h : ∀ c ∈ cs, isSpacing c = true) : '#' ∉ cs :=
  fun hmem => by cases h _ hmem

theorem LineBreak.not_mem {after : List Char} (h : LineBreak piece after) : '#' ∉ piece := by
  cases h with
  | pair => decide
  | single hc =>
    rintro hmem
    rw [← List.mem_singleton.1 hmem] at hc
    cases hc

theorem comment?_of_rest {text cs : List Char} (hs : s.lineStart = false)
    (h : s.rest = '#' :: text ++ cs) (line : ∀ c ∈ text, isBreak c = false)
    (ends : ∀ c ∈ cs.head?, isBreak c = true) :
    s.comment? = some ⟨s.place, '#' :: text⟩ := by
  rw [LexState.comment?, hs, if_neg Bool.false_ne_true]
  exact LexState.headComment?_of_rest h line ends

theorem comment?_of_line {blanks text cs : List Char} (hs : s.lineStart = true) (hd : s.depth = 0)
    (h : s.rest = blanks ++ ('#' :: text ++ cs)) (blank : ∀ c ∈ blanks, isSpacing c = true)
    (line : ∀ c ∈ text, isBreak c = false) (ends : ∀ c ∈ cs.head?, isBreak c = true) :
    s.comment? = some ⟨s.place.after blanks, '#' :: text⟩ := by
  have hblanks : s.rest.takeWhile isSpacing = blanks := by
    rw [h]
    refine takeWhile_append_stop blank ?_
    rintro c ⟨⟩
    rfl
  rw [LexState.comment?, if_pos hs, if_pos hd, hblanks, LexState.move_of_rest h]
  exact LexState.headComment?_of_rest (s := s.past blanks _) rfl line ends

/-- **A step goes over one comment or one string, and over no other `#`.** -/
theorem LexStep.holder (h : LexStep s piece ts t) :
    '#' ∉ piece ∨ ∃ lead text ends, piece = lead ++ text ++ ends ∧ '#' ∉ lead ∧ '#' ∉ ends ∧
      Holder s ts (ends ++ t.rest) (s.place.after lead) text := by
  cases h with
  | spacing _ _ blank => exact .inl (not_mem_of_spacing (by simpa using blank))
  | innerBreak _ _ ends | newline _ _ ends => exact .inl ends.not_mem
  | comment inside rest line ends =>
    exact .inr ⟨[], _, [], (List.append_nil _).symm, List.not_mem_nil, List.not_mem_nil,
      .comment (comment?_of_rest inside rest line ends) ends⟩
  | continuation _ _ ends =>
    exact .inl (by simpa using ends.not_mem)
  | token _ rest _ _ found =>
    rw [rest]
    rcases plain_or_string found with hplain | hstring
    · exact .inl fun hmem => by cases hplain _ hmem
    · exact .inr ⟨[], _, [], (List.append_nil _).symm, List.not_mem_nil, List.not_mem_nil,
        .string List.mem_cons_self String.toList_ofList hstring⟩
  | bracketLine => exact .inl List.not_mem_nil
  | blankEnd _ _ blank | indent _ _ _ blank | dedent _ _ _ blank =>
    exact .inl (not_mem_of_spacing blank)
  | blankLine _ _ _ blank ends =>
    exact .inl (List.not_mem_append (not_mem_of_spacing blank) ends.not_mem)
  | @commentLine blanks text ending cs start outside rest blank line ends =>
    have hhead : ∀ c ∈ (ending ++ cs).head?, isBreak c = true := by
      rcases ends with ends | ⟨rfl, rfl⟩
      · exact ends.head
      · simp
    have hends : '#' ∉ ending := by
      rcases ends with ends | ⟨rfl, -⟩
      · exact ends.not_mem
      · exact List.not_mem_nil
    refine .inr ⟨blanks, _, ending, rfl, not_mem_of_spacing blank, hends, ?_⟩
    exact .comment (comment?_of_line start outside (by simpa using rest) blank line hhead) hhead

/-- No marker lies across the end of a comment or of a string. -/
theorem Holder.unsplit {place : Position} {text after : List Char} {c : Char}
    (h : Holder s ts after place text) (hlast : text.getLast? = some c) (hc : c = '#' ∨ c = ':') :
    after.head? ≠ some ':' := by
  intro hhead
  cases h with
  | comment _ ends => cases ends _ hhead
  | string _ _ string =>
    obtain ⟨-, q, hq, hquote⟩ := string
    obtain rfl : c = q := Option.some.inj (hlast.symm.trans hquote)
    rcases hc with rfl | rfl <;> cases hq

/-- A marker that starts in a comment or in a string ends there. -/
theorem Holder.marker {place : Position} {text after inner more post : List Char}
    (h : Holder s ts after place text) (htext : text = inner ++ '#' :: more)
    (hpost : ':' :: ':' :: post = more ++ after) :
    ∃ tail, text = inner ++ hintMarker ++ tail ∧ post = tail ++ after := by
  cases more with
  | nil =>
    have hhead : after.head? = some ':' := by rw [← List.nil_append after, ← hpost]; rfl
    exact absurd hhead (h.unsplit (by simp [htext]) (.inl rfl))
  | cons c more =>
    obtain ⟨rfl, hnext⟩ := List.cons.inj (hpost.trans (List.cons_append ..))
    cases more with
    | nil =>
      have hhead : after.head? = some ':' := by rw [← List.nil_append after, ← hnext]; rfl
      exact absurd hhead (h.unsplit (by simp [htext]) (.inr rfl))
    | cons d tail =>
      obtain ⟨rfl, htail⟩ := List.cons.inj (hnext.trans (List.cons_append ..))
      exact ⟨tail, by simp [htext, hintMarker], htail⟩

end Step

/-! ## All steps -/

/-- A marker with `before` before it stands in `text`, with `tail` behind it there; the place of
`text` is counted from `origin`. -/
def MarkerIn (origin place : Position) (text before tail : List Char) : Prop :=
  ∃ lead inner, before = lead ++ inner ∧ place = origin.after lead ∧
    text = inner ++ hintMarker ++ tail

/-- A marker, with `before` before it and `after` behind it, stands in one of some comments, or in a
string among some tokens. -/
def Marked (origin : Position) (cs : List Comment) (ts : List Token) (before after : List Char) :
    Prop :=
  (∃ c ∈ cs, MarkerIn origin c.place c.text before (after.takeWhile (!isBreak ·))) ∨
  ∃ u ∈ ts, u.kind.isString = true ∧
    ∃ tail, tail <+: after ∧ MarkerIn origin u.start u.lexeme.toList before tail

theorem MarkerIn.prepend {origin place : Position} {text before tail piece rest : List Char}
    (h : MarkerIn (origin.after piece) place text before tail)
    (hcut : CleanCut piece (before ++ rest)) :
    MarkerIn origin place text (piece ++ before) tail := by
  obtain ⟨lead, inner, rfl, rfl, htext⟩ := h
  refine ⟨piece ++ lead, inner, (List.append_assoc ..).symm, ?_, htext⟩
  rw [List.append_assoc] at hcut
  rw [Position.after_append origin hcut.of_append_right]

theorem Marked.prepend {origin : Position} {cs : List Comment} {ts : List Token}
    {before after piece rest : List Char} (h : Marked (origin.after piece) cs ts before after)
    (hcut : CleanCut piece (before ++ rest)) : Marked origin cs ts (piece ++ before) after := by
  obtain ⟨c, hc, hmark⟩ | ⟨u, hu, hkind, tail, htail, hmark⟩ := h
  · exact .inl ⟨c, hc, hmark.prepend hcut⟩
  · exact .inr ⟨u, hu, hkind, tail, htail, hmark.prepend hcut⟩

theorem Marked.mono {origin : Position} {cs ds : List Comment} {ts us : List Token}
    {before after : List Char} (h : Marked origin cs ts before after) (hcs : cs ⊆ ds)
    (hts : ts ⊆ us) : Marked origin ds us before after := by
  obtain ⟨c, hc, hmark⟩ | ⟨u, hu, hmark⟩ := h
  · exact .inl ⟨c, hcs hc, hmark⟩
  · exact .inr ⟨u, hts hu, hmark⟩

theorem append_cons_eq_append {α : Type} {a b x y : List α} {c : α}
    (h : a ++ c :: b = x ++ y) :
    (∃ w, x = a ++ c :: w ∧ b = w ++ y) ∨ ∃ w, a = x ++ w ∧ y = w ++ c :: b := by
  obtain ⟨w, rfl, hy⟩ | hright := List.append_eq_append_iff.1 h
  · cases w with
    | nil => exact .inr ⟨[], by simp, hy.symm⟩
    | cons d w =>
      obtain ⟨rfl, rfl⟩ := List.cons.inj hy
      exact .inl ⟨w, rfl, rfl⟩
  · exact .inr hright

section

variable {s t : LexState} {piece before after : List Char} {ts : List Token}

theorem Holder.marked {lead inner text tail : List Char}
    (h : Holder s ts after (s.place.after lead) text) (htext : text = inner ++ hintMarker ++ tail) :
    Marked s.place s.comment?.toList ts (lead ++ inner) (tail ++ after) := by
  generalize hplace : s.place.after lead = place at h
  cases h with
  | comment found ends =>
    have hline := (LexState.comment?_line found).2
    have htail : (tail ++ after).takeWhile (!isBreak ·) = tail :=
      takeWhile_append_stop (fun c hc => by simp [hline c (by simp [htext, hc])])
        (by simpa using ends)
    rw [← htail] at htext
    exact .inl ⟨_, by simp [found], lead, inner, rfl, hplace.symm, htext⟩
  | string found lexeme string =>
    exact .inr ⟨_, found, string.1, tail, List.prefix_append .., lead, inner, rfl, hplace.symm,
      lexeme.trans htext⟩

/-- A marker that starts in the piece of a step lies in the comment or in the string that the step
goes over. Any other one lies behind the piece. -/
theorem LexStep.marker (h : LexStep s piece ts t) (hrest : s.rest = before ++ hintMarker ++ after) :
    Marked s.place s.comment?.toList ts before after ∨
    ∃ more, before = piece ++ more ∧ t.rest = more ++ hintMarker ++ after := by
  have hsplit : before ++ '#' :: (':' :: ':' :: after) = piece ++ t.rest := by
    rw [← h.rest_eq, hrest, List.append_assoc]
    rfl
  obtain ⟨more, hpiece, hmore⟩ | ⟨more, hbefore, hmore⟩ := append_cons_eq_append hsplit
  · left
    obtain hnone | ⟨lead, text, ends, rfl, hlead, hends, hholder⟩ := h.holder
    · exact absurd (by simp [hpiece]) hnone
    · rw [List.append_assoc] at hpiece
      obtain ⟨_, rfl, -⟩ | ⟨inner, rfl, hinner⟩ := append_cons_eq_append hpiece.symm
      · simp at hlead
      · obtain ⟨w, htext, rfl⟩ | ⟨_, -, rfl⟩ := append_cons_eq_append hinner.symm
        · rw [List.append_assoc] at hmore
          obtain ⟨tail, hmarker, rfl⟩ := hholder.marker htext hmore
          exact hholder.marked hmarker
        · simp at hends
  · exact .inr ⟨more, hbefore, by rw [hmore]; simp [hintMarker]⟩

end

/-- **Each marker of a text stands in a comment or in a string.** -/
theorem tokens_marker {s : LexState} {ts : List Token} (h : s.tokens = .ok ts) :
    ∀ before after, s.rest = before ++ hintMarker ++ after →
      Marked s.place s.comments ts before after := by
  refine LexState.step_induction (P := fun s ts => ∀ before after,
    s.rest = before ++ hintMarker ++ after → Marked s.place s.comments ts before after) ?_ ?_ h
  · intro s hdone before after hrest
    simp [LexState.isDone, hrest, hintMarker] at hdone
  · intro s ts t us hdone hstep _ ih before after hrest
    obtain ⟨piece, hpiece⟩ := lexStep_of_step hdone hstep
    rw [LexState.comments_of_step hdone hstep]
    obtain hmark | ⟨more, rfl, hmore⟩ := hpiece.marker hrest
    · exact hmark.mono (List.subset_append_left ..) (List.subset_append_left ..)
    · have hmark := ih more after hmore
      have hcut := hpiece.cleanCut
      rw [hpiece.place_eq] at hmark
      rw [hmore, List.append_assoc] at hcut
      exact (hmark.prepend hcut).mono (List.subset_append_right ..) (List.subset_append_right ..)

/-! ## Types in comments -/

/-- The line of a marker in a comment is that of the comment. -/
theorem MarkerIn.line {place : Position} {text before tail : List Char}
    (h : MarkerIn .start place text before tail) (hhead : text.head? = some '#')
    (hline : ∀ c ∈ text, isBreak c = false) : place.line = 1 + lineBreaks before := by
  obtain ⟨lead, inner, rfl, rfl, rfl⟩ := h
  have hinner : lineBreaks inner = 0 := lineBreaks_of_breakless fun c hc => hline c (by simp [hc])
  have hcut : CleanCut lead inner := by
    refine CleanCut.of_append_right (c := hintMarker ++ tail) fun _ hbreak => ?_
    rw [← List.append_assoc, hhead] at hbreak
    cases hbreak
  rw [Position.after_start, lineBreaks_append hcut, hinner, Nat.add_zero]

/-- A comment on line `n` states `text` behind a marker. -/
def Comment.States (c : Comment) (n : Nat) (text : String) : Prop :=
  c.place.line = n ∧ ∃ lead tail, c.text = lead ++ hintMarker ++ tail ∧ text.toList = trim tail

/-- **Where a type in a comment is found**: its marker stands in a comment, or else in a string. The
lines of the two may differ by the carriage returns that stand alone before the comment. -/
theorem hint_from_comment_or_string {source text : String} {ts : List Token} {n : Nat}
    (hts : tokenize source = .ok ts) (h : (scanHints source)[n]? = some text) :
    ∃ before after, source.toList = before ++ hintMarker ++ after ∧ n = 1 + before.count '\n' ∧
      text.toList = trim (after.takeWhile (· != '\n')) ∧
      ((∃ c ∈ comments source, c.Skipped source ∧
          MarkerIn .start c.place c.text before (after.takeWhile (!isBreak ·)) ∧
          c.place.line = n + loneReturns before ∧
          (loneReturns source.toList = 0 → c.States n text)) ∨
        ∃ u ∈ ts, u.kind.isString = true ∧
          ∃ tail, tail <+: after ∧ MarkerIn .start u.start u.lexeme.toList before tail) := by
  obtain ⟨before, after, hsource, hn, htext⟩ := scanHints_eq_some h
  refine ⟨before, after, hsource, hn, htext, ?_⟩
  obtain ⟨c, hc, hmark⟩ | hstring := tokens_marker hts before after hsource
  · obtain ⟨hhead, hline⟩ := LexState.comments_line hc
    have hplace : c.place.line = n + loneReturns before := by
      rw [hmark.line hhead hline, lineBreaks_eq, hn, Nat.add_assoc]
    refine .inl ⟨c, hc, skipped_of_mem_comments hc, hmark, hplace, fun hnone => ?_⟩
    have hsum : loneReturns before + loneReturns after = 0 := by
      rw [← hnone, hsource, loneReturns_append (.append (by simp [CleanCut, hintMarker])
        (by simp [CleanCut, hintMarker])), loneReturns_append (by simp [CleanCut, hintMarker])]
      rfl
    obtain ⟨lead, inner, -, -, hinner⟩ := hmark
    refine ⟨by omega, inner, _, hinner, ?_⟩
    rw [htext, trim_line (by omega)]
  · exact .inr hstring

/-- A text with a `#` in a string, comments before and behind tokens, and line breaks of both kinds.
-/
def commentedPair : String := "# a\r\np = (\"#\", # b #:: list \n 2)\n"

theorem commentedPair_hint : (∃ ts, tokenize commentedPair = .ok ts) ∧
    (scanHints commentedPair)[2]? = some "list" ∧
    ∃ c ∈ comments commentedPair, c.place = ⟨2, 11⟩ ∧ c.States 2 "list" := by
  have hts : tokenize commentedPair = .ok ((tokenize commentedPair).toOption.getD []) := by
    decide +kernel
  have hhint : (scanHints commentedPair)[2]? = some "list" := by decide +kernel
  have hplain : ∀ u ∈ (tokenize commentedPair).toOption.getD [],
      u.kind.isString = true → ':' ∉ u.lexeme.toList := by decide +kernel
  have hplaces : ∀ c ∈ comments commentedPair, c.place.line = 2 → c.place = ⟨2, 11⟩ := by
    decide +kernel
  refine ⟨⟨_, hts⟩, hhint, ?_⟩
  obtain ⟨before, after, -, -, -, ⟨c, hc, -, -, -, hstates⟩ | ⟨u, hu, hkind, tail, -, hmark⟩⟩ :=
    hint_from_comment_or_string hts hhint
  · have hline := hstates (by decide +kernel)
    exact ⟨c, hc, hplaces c hc hline.1, hline⟩
  · obtain ⟨lead, inner, -, -, hlexeme⟩ := hmark
    exact absurd (by simp [hlexeme, hintMarker]) (hplain u hu hkind)

/-- A text whose only marker stands in a string. -/
def quotedMarker : String := "x = \"\"\"#:: int\n\"\"\"\n"

/-- A text with a carriage return that stands alone before a comment. -/
def returnedComment : String := "a = 1\rb = c #:: str\n"

/-- A type is also found in a string, where no comment states it. Behind a carriage return that
stands alone, the comment that states it is not on the line that is given with it. -/
theorem hint_without_comment :
    ((∃ ts, tokenize quotedMarker = .ok ts) ∧ (scanHints quotedMarker)[1]? = some "int" ∧
      ¬∃ c ∈ comments quotedMarker, c.States 1 "int") ∧
    (∃ ts, tokenize returnedComment = .ok ts) ∧ (scanHints returnedComment)[1]? = some "str" ∧
      ¬∃ c ∈ comments returnedComment, c.States 1 "str" := by
  have hquoted : tokenize quotedMarker = .ok ((tokenize quotedMarker).toOption.getD []) := by
    decide +kernel
  have hreturned : tokenize returnedComment =
      .ok ((tokenize returnedComment).toOption.getD []) := by decide +kernel
  have hnone : comments quotedMarker = [] := by decide +kernel
  have hlines : ∀ c ∈ comments returnedComment, c.place.line = 2 := by decide +kernel
  refine ⟨⟨⟨_, hquoted⟩, by decide +kernel, ?_⟩, ⟨_, hreturned⟩, by decide +kernel, ?_⟩
  · rw [hnone]
    rintro ⟨c, hc, -⟩
    cases hc
  · rintro ⟨c, hc, hline, -⟩
    exact absurd (hline.symm.trans (hlines c hc)) (by decide)

end Gradual
