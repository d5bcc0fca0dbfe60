import Gradual.Proofs.Token.Steps

/-!
# Every character of a text is accounted for

A text is the lexemes of its tokens in their order, with gaps between them that hold nothing but
white space, comments and continued lines. The place of a token is that of its lexeme.

* `TokenKind.hasText`: the tokens that are read from a text of their own;
* **`plain_or_string`**: which lexemes may hold a line break or a `#`;
* `recognise_last`: a lexeme does not end inside a line break;
* `Gap`: what may stand between lexemes;
* `Covering`, **`tokenize_covers`**: a text is covered by its tokens.
-/

namespace Gradual

open Source Text Number

/-- Whether a token of this kind is read from a text of its own. -/
def TokenKind.hasText : TokenKind → Bool
  | .newline | .indent | .dedent | .eof => false
  | _ => true

theorem TokenKind.hasText_iff {k : TokenKind} :
    k.hasText = true ↔ k ≠ .newline ∧ k ≠ .indent ∧ k ≠ .dedent ∧ k ≠ .eof := by
  cases k <;> simp [hasText]

/-! ## The end of a lexeme -/

section Lexeme

variable {k : TokenKind} {n : Nat}

theorem getLast?_take_add {α : Type} {l : List α} {a : α} {m : Nat}
    (h : ((l.drop m).take n).getLast? = some a) : (l.take (m + n)).getLast? = some a := by
  rw [List.take_add, List.getLast?_append, h]
  rfl

theorem StringForm.getLast?_put {text v cs : List Char} {m : Nat} {q : Char}
    {r : Except LexFault (List Char × Nat)} (h : put text m r = .ok (v, n))
    (hr : ∀ {n v}, r = .ok (v, n) → ((cs.drop m).take n).getLast? = some q) :
    (cs.take n).getLast? = some q := by
  cases r with
  | error e => cases h
  | ok p =>
    obtain ⟨-, rfl⟩ := Prod.mk.inj (Except.ok.inj h)
    exact getLast?_take_add (hr rfl)

/-- The inside of a string literal ends with a quote. -/
theorem StringForm.getLast?_body (f : StringForm) {cs v : List Char}
    (h : f.body cs = .ok (v, n)) : (cs.take n).getLast? = some f.quote := by
  fun_induction f.body cs generalizing v n with
  | case1 | case2 | case6 | case10 => cases h
  | case3 cs ih | case4 c cs _ ih | case5 cs _ ih | case11 c cs _ _ _ _ _ _ ih =>
    exact getLast?_put h ih
  | case7 c cs _ _ _ _ hq =>
    obtain ⟨-, rfl⟩ := Prod.mk.inj (Except.ok.inj h)
    simpa using hq
  | case8 c cs _ _ _ _ _ _ hclose =>
    obtain ⟨-, rfl⟩ := Prod.mk.inj (Except.ok.inj h)
    obtain ⟨tail, rfl⟩ := List.isPrefixOf_iff_prefix.1 hclose
    rfl
  | case9 c cs _ _ _ _ _ _ _ ih => exact getLast?_put h ih

theorem getLast?_stringLiteral {letters rest : List Char} {q : Char}
    (h : stringLiteral letters q rest = .ok (k, n)) :
    ((q :: rest).take n).getLast? = some q := by
  simp only [stringLiteral] at h
  generalize hopen : (if [q, q].isPrefixOf rest then 3 else 1 : Nat) = opening at h
  have hpos : 0 < opening := by rw [← hopen]; split <;> omega
  generalize hbody : StringForm.body _ _ = r at h
  cases r with
  | error e => cases h
  | ok v =>
    obtain ⟨-, rfl⟩ := Prod.mk.inj (Except.ok.inj h)
    apply getLast?_take_add
    rw [← Nat.sub_add_cancel hpos, List.drop_succ_cons]
    exact StringForm.getLast?_body _ hbody

/-- Whether `c` ends a line or starts a comment. Of all lexemes only those of strings may hold such
a character. -/
def endsCode (c : Char) : Bool := isBreak c || c == '#'

theorem endsCode_eq_false {p : Char → Bool} (hn : p '\n' = false) (hr : p '\r' = false)
    (hh : p '#' = false) {c : Char} (h : p c = true) : endsCode c = false := by
  cases hc : endsCode c with
  | false => rfl
  | true =>
    simp only [endsCode, isBreak, Bool.or_eq_true, beq_iff_eq] at hc
    rcases hc with (rfl | rfl) | rfl
    · rw [hn] at h
      cases h
    · rw [hr] at h
      cases h
    · rw [hh] at h
      cases h

/-- The characters of a number, of a name and of a mark neither end a line nor start a comment. -/
def Plain (cs : List Char) : Prop := ∀ c ∈ cs, endsCode c = false

theorem plain_cons {c : Char} {cs : List Char} (hc : endsCode c = false) (h : Plain cs) :
    Plain (c :: cs) :=
  List.forall_mem_cons.2 ⟨hc, h⟩

theorem plain_numberSpan (fractional afterMark : Bool) (text : List Char) :
    Plain (text.take (numberSpan fractional afterMark text).1) := by
  fun_induction numberSpan fractional afterMark text with
  | case1 | case5 => simp [Plain]
  | case2 fractional afterMark c cs more hc ih =>
    refine plain_cons (endsCode_eq_false (p := fun c => c.isDigit || c == '_' ||
      (afterMark && (c == '+' || c == '-'))) ?_ ?_ ?_ hc) ih
    all_goals cases afterMark <;> rfl
  | case3 fractional afterMark c cs more _ hc ih =>
    refine plain_cons (endsCode_eq_false (p := fun c => c == '.' && !fractional) rfl rfl rfl hc) ih
  | case4 fractional afterMark c cs more _ _ hc ih =>
    refine plain_cons (endsCode_eq_false (p := fun c => (c == 'e' || c == 'E') &&
      isExponent cs) rfl rfl rfl hc) ih

theorem radix?_eq_some {text : List Char} {r : Nat} (h : radix? text = some r) :
    ∃ c cs, text = '0' :: c :: cs ∧ endsCode c = false := by
  unfold radix? at h
  split at h
  · next c cs =>
    refine ⟨c, cs, rfl, endsCode_eq_false (p := fun c => c == 'x' || c == 'X' || c == 'o' ||
      c == 'O' || c == 'b' || c == 'B') rfl rfl rfl ?_⟩
    grind
  · cases h

theorem plain_take_succ {text : List Char} {p : Char → Bool} (h : Plain (text.take n))
    (hn : (text.drop n).head?.any p = true) (hp : ∀ c, p c = true → endsCode c = false) :
    Plain (text.take (n + 1)) := by
  intro c hc
  rw [List.take_add, List.mem_append] at hc
  rcases hc with hc | hc
  · exact h c hc
  · generalize text.drop n = tail at *
    cases tail with
    | nil => simp at hn
    | cons d tail =>
      obtain rfl : c = d := by simpa using hc
      exact hp c (by simpa using hn)

theorem plain_number {text : List Char} (h : number text = .ok (k, n)) :
    Plain (text.take n) := by
  have hspan := plain_numberSpan false false text
  simp only [number] at h
  split at h
  · next radix hradix =>
    obtain ⟨c, cs, rfl, hc⟩ := radix?_eq_some hradix
    split at h
    · obtain ⟨-, rfl⟩ := Prod.mk.inj (Except.ok.inj h)
      refine plain_cons rfl (plain_cons hc ?_)
      change Plain (cs.take (cs.takeWhile fun c => c.isAlphanum || c == '_').length)
      rw [← List.prefix_iff_eq_take.1 (List.takeWhile_prefix _)]
      intro c hc
      have hpart := List.mem_takeWhile_imp hc
      exact endsCode_eq_false (p := fun c => c.isAlphanum || c == '_') rfl rfl rfl hpart
    · cases h
  · split at h
    · next hj =>
      split at h
      · obtain ⟨-, rfl⟩ := Prod.mk.inj (Except.ok.inj h)
        exact plain_take_succ hspan hj fun c =>
          endsCode_eq_false (p := fun c => c == 'j' || c == 'J') rfl rfl rfl
      · cases h
    · split at h
      all_goals
        split at h
        · obtain ⟨-, rfl⟩ := Prod.mk.inj (Except.ok.inj h)
          exact hspan
        · cases h

theorem Mark.plain_spelling {e : String × Mark} (h : e ∈ Mark.table) : Plain e.1.toList := by
  have hall : (Mark.table.all (·.1.toList.all (!endsCode ·))) = true := by decide
  simp only [List.all_eq_true, Bool.not_eq_true'] at hall
  exact hall e h

theorem plain_mark {text : List Char} {e : String × Mark} (h : Mark.find? text = some e) :
    Plain (text.take e.1.length) := by
  unfold Mark.find? at h
  have hstart := List.find?_some h
  obtain ⟨tail, rfl⟩ := List.isPrefixOf_iff_prefix.1 hstart
  rw [← String.length_toList, List.take_left]
  exact Mark.plain_spelling (List.mem_of_find?_eq_some h)

theorem plain_name {c : Char} {name : List Char} (hc : isNameStart c = true)
    (part : ∀ d ∈ name, isNamePart d = true) : Plain (c :: name) := by
  have hstart : ∀ c, isNameStart c = true → endsCode c = false := fun c =>
    endsCode_eq_false (by decide +kernel) (by decide +kernel) (by decide +kernel)
  have hpart : ∀ c, isNamePart c = true → endsCode c = false := fun c =>
    endsCode_eq_false (by decide +kernel) (by decide +kernel) (by decide +kernel)
  exact plain_cons (hstart c hc) fun d hd => hpart d (part d hd)

/-- Whether this is a string or a byte string. -/
def TokenKind.isString : TokenKind → Bool
  | .string _ | .bytes _ => true
  | _ => false

theorem isString_stringLiteral {letters rest : List Char} {q : Char}
    (h : stringLiteral letters q rest = .ok (k, n)) : k.isString = true := by
  simp only [stringLiteral] at h
  generalize StringForm.body _ _ = r at h
  cases r with
  | error e => cases h
  | ok v =>
    obtain ⟨rfl, -⟩ := Prod.mk.inj (Except.ok.inj h)
    split <;> rfl

/-- A word is a name or a reserved word, or it goes on as a string literal. -/
theorem word_eq_ok {c : Char} {cs : List Char} (h : word c cs = .ok (k, n)) :
    (n = (c :: cs.takeWhile isNamePart).length ∧ (k = .identifier ∨ ∃ w, k = .keyword w)) ∨
    ∃ letters q after m, cs.dropWhile isNamePart = q :: after ∧ isQuote q = true ∧
      stringLiteral letters q after = .ok (k, m) ∧
      n = (c :: cs.takeWhile isNamePart).length + m := by
  simp only [word] at h
  generalize c :: cs.takeWhile isNamePart = name at *
  have hplain : ∀ {kind : TokenKind}, (kind = .identifier ∨ ∃ w, kind = .keyword w) →
      (kind, name.length) = (k, n) →
      n = name.length ∧ (k = .identifier ∨ ∃ w, k = .keyword w) := by
    rintro kind hkind heq
    obtain ⟨rfl, rfl⟩ := Prod.mk.inj heq
    exact ⟨rfl, hkind⟩
  split at h
  · next quote after hrest =>
    split at h
    · next hquote =>
      cases hs : stringLiteral (name.map Char.toLower) quote after with
      | error e => rw [hs] at h; cases h
      | ok r =>
        rw [hs] at h
        obtain ⟨rfl, rfl⟩ := Prod.mk.inj (Except.ok.inj h)
        exact .inr ⟨_, quote, after, r.2, hrest, (Bool.and_eq_true_iff.1 hquote).1, hs, rfl⟩
    · split at h <;> exact .inl (hplain (by simp) (Except.ok.inj h))
  · split at h <;> exact .inl (hplain (by simp) (Except.ok.inj h))

/-- The lexeme of a string: it ends with a quote. -/
def StringText (k : TokenKind) (text : List Char) : Prop :=
  k.isString = true ∧ ∃ q, isQuote q = true ∧ text.getLast? = some q

theorem plain_or_string_word {c : Char} {cs : List Char} (hc : isNameStart c = true)
    (h : word c cs = .ok (k, n)) :
    Plain ((c :: cs).take n) ∨ StringText k ((c :: cs).take n) := by
  have hsplit : c :: cs = (c :: cs.takeWhile isNamePart) ++ cs.dropWhile isNamePart := by
    rw [List.cons_append, List.takeWhile_append_dropWhile]
  rw [hsplit]
  obtain ⟨rfl, -⟩ | ⟨letters, q, after, m, hrest, hq, hs, rfl⟩ := word_eq_ok h
  · rw [List.take_left]
    exact .inl (plain_name hc fun d => List.mem_takeWhile_imp)
  · refine .inr ⟨isString_stringLiteral hs, q, hq, ?_⟩
    rw [hrest, List.take_length_add_append, List.getLast?_append, getLast?_stringLiteral hs]
    rfl

/-- **A lexeme is plain, unless it is that of a string.** -/
theorem plain_or_string {c : Char} {cs : List Char} (h : recognise c cs = .ok (k, n)) :
    Plain ((c :: cs).take n) ∨ StringText k ((c :: cs).take n) := by
  unfold recognise at h
  split at h
  · next hq => exact .inr ⟨isString_stringLiteral h, c, hq, getLast?_stringLiteral h⟩
  · split at h
    · exact .inl (plain_number h)
    · split at h
      · next hc => exact plain_or_string_word hc h
      · split at h
        · next e m hm =>
          obtain ⟨-, rfl⟩ := Prod.mk.inj (Except.ok.inj h)
          exact .inl (plain_mark hm)
        · cases h

/-- A lexeme does not end with a carriage return. -/
theorem recognise_last {c : Char} {cs : List Char} (h : recognise c cs = .ok (k, n)) :
    ∀ d ∈ ((c :: cs).take n).getLast?, d ≠ '\r' := by
  rintro d hd rfl
  rcases plain_or_string h with hplain | ⟨-, q, hq, hlast⟩
  · cases hplain _ (List.mem_of_getLast? hd)
  · obtain rfl : q = '\r' := Option.some.inj (hlast.symm.trans hd)
    cases hq

theorem hasText_of_isString (h : k.isString = true) : k.hasText = true := by
  cases k with
  | string | bytes => rfl
  | _ => cases h

theorem recognise_hasText {c : Char} {cs : List Char} (h : recognise c cs = .ok (k, n)) :
    k.hasText = true := by
  unfold recognise at h
  split at h
  · exact hasText_of_isString (isString_stringLiteral h)
  · split at h
    · simp only [number] at h
      repeat' split at h
      all_goals cases h
      all_goals rfl
    · split at h
      · obtain ⟨-, rfl | ⟨w, rfl⟩⟩ | ⟨letters, q, after, m, -, -, hs, -⟩ := word_eq_ok h
        · rfl
        · rfl
        · exact hasText_of_isString (isString_stringLiteral hs)
      · split at h
        · obtain ⟨rfl, -⟩ := Prod.mk.inj (Except.ok.inj h)
          rfl
        · cases h

end Lexeme

/-! ## Gaps -/

/-- What may stand between lexemes, with `after` behind it: spacing, line breaks, comments up to the
end of their line, and lines that are continued by a backslash. -/
inductive Gap : (text after : List Char) → Prop
  | nil (after : List Char) : Gap [] after
  | spacing {c : Char} {text after : List Char} (h : isSpacing c = true) (more : Gap text after) :
      Gap (c :: text) after
  | lineBreak {c : Char} {text after : List Char} (h : isBreak c = true) (more : Gap text after) :
      Gap (c :: text) after
  | comment {line text after : List Char} (h : ∀ c ∈ line, isBreak c = false)
      (ends : ∀ c ∈ (text ++ after).head?, isBreak c = true) (more : Gap text after) :
      Gap ('#' :: line ++ text) after
  | continuation {c : Char} {text after : List Char} (h : isBreak c = true)
      (more : Gap text after) : Gap ('\\' :: c :: text) after

theorem Gap.append {a b after : List Char} (ha : Gap a (b ++ after)) (hb : Gap b after) :
    Gap (a ++ b) after := by
  generalize hrest : b ++ after = rest at ha
  induction ha with
  | nil => exact hb
  | spacing h _ ih => exact .spacing h (ih hrest)
  | lineBreak h _ ih => exact .lineBreak h (ih hrest)
  | comment h ends _ ih =>
    subst hrest
    rw [List.append_assoc]
    exact .comment h (by rwa [List.append_assoc]) (ih rfl)
  | continuation h _ ih => exact .continuation h (ih hrest)

theorem gap_of_spacing {cs : List Char} (h : ∀ c ∈ cs, isSpacing c = true) (after : List Char) :
    Gap cs after := by
  induction cs with
  | nil => exact .nil after
  | cons c cs ih => exact .spacing (h c (by simp)) (ih fun d hd => h d (by simp [hd]))

section LineBreak

variable {piece after : List Char}

theorem LineBreak.gap (h : LineBreak piece after) : Gap piece after := by
  cases h with
  | pair => exact .lineBreak rfl (.lineBreak rfl (.nil after))
  | single hc => exact .lineBreak hc (.nil after)

theorem LineBreak.gap_continued (h : LineBreak piece after) : Gap ('\\' :: piece) after := by
  cases h with
  | pair => exact .continuation rfl (.lineBreak rfl (.nil after))
  | single hc => exact .continuation hc (.nil after)

theorem LineBreak.cleanCut (h : LineBreak piece after) : CleanCut piece after := by
  cases h with
  | pair => simp [CleanCut]
  | single _ whole => simpa [CleanCut] using whole

theorem LineBreak.head (h : LineBreak piece after) :
    ∀ c ∈ (piece ++ after).head?, isBreak c = true := by
  cases h with
  | pair => simp [isBreak]
  | single hc => simpa using hc

end LineBreak

/-! ## One step -/

section Step

variable {s t : LexState} {piece : List Char} {ts : List Token}

/-- No step ends inside a line break. -/
theorem LexStep.cleanCut (h : LexStep s piece ts t) : CleanCut piece t.rest := by
  cases h with
  | spacing _ _ blank => exact cleanCut_of_spacing (by simpa using blank)
  | innerBreak _ _ ends | newline _ _ ends => exact ends.cleanCut
  | comment _ _ line =>
    exact cleanCut_of_breakless (List.forall_mem_cons.2 ⟨rfl, line⟩)
  | continuation _ _ ends => exact .append (a := ['\\']) (by simp [CleanCut]) ends.cleanCut
  | token _ rest _ _ found =>
    rw [rest]
    exact cleanCut_of_ne (recognise_last found)
  | bracketLine => exact cleanCut_nil _
  | blankEnd _ _ blank | indent _ _ _ blank | dedent _ _ _ blank => exact cleanCut_of_spacing blank
  | blankLine _ _ _ blank ends => exact .append (cleanCut_of_spacing blank) ends.cleanCut
  | commentLine _ _ _ blank line ends =>
    refine .append (cleanCut_of_breakless ?_) ?_
    · exact List.forall_mem_append.2
        ⟨fun c hc => isBreak_of_spacing (blank c hc), List.forall_mem_cons.2 ⟨rfl, line⟩⟩
    · rcases ends with ends | ⟨rfl, rfl⟩
      · exact ends.cleanCut
      · exact cleanCut_nil _

/-- A step goes over a gap, or it takes the lexeme of one token. -/
theorem LexStep.gap_or_token (h : LexStep s piece ts t) :
    (Gap piece t.rest ∧ ts.filter (·.kind.hasText) = []) ∨
    ∃ u, ts = [u] ∧ u.kind.hasText = true ∧ u.lexeme.toList = piece ∧ u.start = s.place := by
  cases h with
  | spacing _ _ blank => exact .inl ⟨gap_of_spacing (by simpa using blank) _, rfl⟩
  | innerBreak _ _ ends | newline _ _ ends => exact .inl ⟨ends.gap, rfl⟩
  | comment _ _ line ends =>
    refine .inl ⟨?_, rfl⟩
    simpa using Gap.comment line (by simpa using ends) (.nil _)
  | continuation _ _ ends => exact .inl ⟨ends.gap_continued, rfl⟩
  | token _ rest _ _ found =>
    exact .inr ⟨_, rfl, recognise_hasText found, String.toList_ofList, rfl⟩
  | bracketLine => exact .inl ⟨.nil _, rfl⟩
  | blankEnd _ _ blank | indent _ _ _ blank => exact .inl ⟨gap_of_spacing blank _, rfl⟩
  | dedent _ _ _ blank =>
    refine .inl ⟨gap_of_spacing blank _, List.filter_eq_nil_iff.2 fun u hu => ?_⟩
    rw [List.eq_of_mem_replicate hu]
    exact Bool.false_ne_true
  | blankLine _ _ _ blank ends => exact .inl ⟨.append (gap_of_spacing blank _) ends.gap, rfl⟩
  | commentLine _ _ _ blank line ends =>
    refine .inl ⟨?_, rfl⟩
    rw [List.append_assoc]
    refine .append (gap_of_spacing blank _) ?_
    rcases ends with ends | ⟨rfl, rfl⟩
    · exact .comment line ends.head ends.gap
    · exact .comment line (by simp) (.nil _)

end Step

/-! ## All tokens -/

/-- The text `rest` after `before` is covered by tokens: it is their lexemes in order with gaps
around them, and each token has the place of its lexeme, counted in line breaks and in characters
after the last of them. -/
inductive Covering : (before : List Char) → List Token → (rest : List Char) → Prop
  | last {before gap : List Char} (h : Gap gap []) : Covering before [] gap
  | token {before gap rest : List Char} {t : Token} {ts : List Token}
      (h : Gap gap (t.lexeme.toList ++ rest))
      (line : t.start.line = 1 + lineBreaks (before ++ gap))
      (column : t.start.column = 1 + (lastLine (before ++ gap)).length)
      (more : Covering (before ++ gap ++ t.lexeme.toList) ts rest) :
      Covering before (t :: ts) (gap ++ t.lexeme.toList ++ rest)

/-- The tokens that end a text stand at its end and have no text of their own. -/
theorem LexState.mem_finish {s : LexState} {t : Token} (h : t ∈ s.finish) :
    t.start = s.place ∧ t.kind.hasText = false := by
  simp only [finish, List.mem_append, List.mem_map, List.mem_singleton] at h
  rcases h with (h | ⟨_, _, rfl⟩) | rfl
  · cases hline : s.lineOpen <;> simp [hline] at h
    rw [h]
    exact ⟨rfl, rfl⟩
  · exact ⟨rfl, rfl⟩
  · exact ⟨rfl, rfl⟩

/-- The tokens from a state on cover what is left, if the gap before it is added. -/
theorem LexState.covering {s : LexState} {ts : List Token} (h : s.tokens = .ok ts) :
    ∀ before gap, s.place = Position.start.after (before ++ gap) → CleanCut (before ++ gap) s.rest →
      Gap gap s.rest → Covering before (ts.filter (·.kind.hasText)) (gap ++ s.rest) := by
  refine LexState.run_induction (P := fun s ts => ∀ before gap, s.place = Position.start.after
    (before ++ gap) → CleanCut (before ++ gap) s.rest → Gap gap s.rest →
      Covering before (ts.filter (·.kind.hasText)) (gap ++ s.rest)) ?done ?step h
  case done =>
    intro s hs before gap _ _ hgap
    have hrest : s.rest = [] := by simpa using (Bool.and_eq_true_iff.1 hs).1
    have hfinish : s.finish.filter (·.kind.hasText) = [] :=
      List.filter_eq_nil_iff.2 fun t ht => by simp [(mem_finish ht).2]
    rw [hfinish, hrest, List.append_nil]
    rw [hrest] at hgap
    exact .last hgap
  case step =>
    intro s piece ts t us hstep _ ih before gap hplace hcut hgap
    rw [hstep.rest_eq] at hcut hgap
    have hplace' : t.place = Position.start.after (before ++ gap ++ piece) := by
      rw [hstep.place_eq, hplace, Position.after_append _ hcut.of_append_right]
    have hcut' : CleanCut (before ++ gap ++ piece) t.rest := hcut.append hstep.cleanCut
    rw [List.filter_append, hstep.rest_eq]
    obtain ⟨hpiece, hts⟩ | ⟨u, rfl, htext, rfl, hu⟩ := hstep.gap_or_token
    · rw [hts, List.nil_append, ← List.append_assoc]
      rw [List.append_assoc] at hplace' hcut'
      exact ih before (gap ++ piece) hplace' hcut' (hgap.append hpiece)
    · have hone : [u].filter (·.kind.hasText) = [u] := by simp [htext]
      have hstart := Position.after_start (before ++ gap)
      rw [← hplace, ← hu] at hstart
      rw [hone, ← List.append_assoc]
      refine .token hgap (by rw [hstart]) (by rw [hstart]) ?_
      simpa using ih (before ++ gap ++ u.lexeme.toList) [] (by simpa using hplace')
        (by simpa using hcut') (.nil _)

/-- **Every character of a text is accounted for**: it is covered by the tokens that have a text,
each at the place of its lexeme. -/
theorem tokenize_covers {text : String} {ts : List Token} (h : tokenize text = .ok ts) :
    Covering [] (ts.filter (·.kind.hasText)) text.toList :=
  LexState.covering h [] [] rfl (cleanCut_nil _) (.nil _)

/-- A text with a comment, a line break in brackets, a continued line and a string over two lines.
-/
def crossingLines : String := "f(1, # one\r\n  2) \\\n  + \"\"\"\n\"\"\";a"

theorem crossingLines_covered : ∃ ts, tokenize crossingLines = .ok ts ∧
    ts.map (fun t => (t.lexeme, t.start)) = [("f", ⟨1, 1⟩), ("(", ⟨1, 2⟩), ("1", ⟨1, 3⟩),
      (",", ⟨1, 4⟩), ("2", ⟨2, 3⟩), (")", ⟨2, 4⟩), ("+", ⟨3, 3⟩), ("\"\"\"\n\"\"\"", ⟨3, 5⟩),
      (";", ⟨4, 4⟩), ("a", ⟨4, 5⟩), ("\n", ⟨4, 6⟩), ("", ⟨4, 6⟩)] ∧
    Covering [] (ts.filter (·.kind.hasText)) crossingLines.toList := by
  have h : tokenize crossingLines = .ok ((tokenize crossingLines).toOption.getD []) := by
    decide +kernel
  exact ⟨_, h, by decide +kernel, tokenize_covers h⟩

end Gradual
