import Mathlib.Data.List.Find
import Gradual.Proofs.Token.Boundary

/-!
# Line feeds in pairs

A text whose lines end with line feeds may have a carriage return before each of them instead. The
token at the head of the one text is that at the head of the other, with its line feeds paired.

* `paired`: the text with a carriage return before each line feed;
* `Corresponds`, `ReadAlike`: outcomes that correspond, and what is read of the two texts;
* `StringForm.endsAlike`, `number_paired`, `word_paired`: each kind of token;
* **`recognise_paired`**: the token at the head of a text.
-/

namespace Gradual

open Source Text Number

/-! ## Texts with their line feeds paired -/

namespace Source

/-- The text with a carriage return before each line feed. -/
def paired (cs : List Char) : List Char :=
  cs.flatMap fun c => if c = '\n' then ['\r', '\n'] else [c]

variable {c : Char} {cs : List Char}

theorem paired_feed (cs : List Char) : paired ('\n' :: cs) = '\r' :: '\n' :: paired cs := rfl

theorem paired_cons (hc : c ≠ '\n') (cs : List Char) : paired (c :: cs) = c :: paired cs := by
  simp [paired, hc]

theorem paired_append (a b : List Char) : paired (a ++ b) = paired a ++ paired b :=
  List.flatMap_append

theorem ne_feed_of_breakless (hc : isBreak c = false) : c ≠ '\n' := by
  rintro rfl
  cases hc

theorem eq_feed_of_break (hc : isBreak c = true) (hr : c ≠ '\r') : c = '\n' := by
  simpa [isBreak, hr] using hc

theorem paired_of_breakless (h : ∀ c ∈ cs, isBreak c = false) : paired cs = cs := by
  induction cs with
  | nil => rfl
  | cons c cs ih =>
    obtain ⟨hc, hcs⟩ := List.forall_mem_cons.1 h
    rw [paired_cons (ne_feed_of_breakless hc), ih hcs]

theorem paired_append_of_breakless {a : List Char} (h : ∀ c ∈ a, isBreak c = false)
    (b : List Char) : paired (a ++ b) = a ++ paired b := by
  rw [paired_append, paired_of_breakless h]

theorem any_head_paired {p : Char → Bool} (hp : p '\r' = p '\n') (cs : List Char) :
    (paired cs).head?.any p = cs.head?.any p := by
  cases cs with
  | nil => rfl
  | cons c cs =>
    by_cases hc : c = '\n'
    · subst hc
      simpa [paired_feed] using hp
    · simp [paired_cons hc]

theorem forall_head_paired {p : Char → Bool} (hp : p '\r' = p '\n')
    (h : ∀ c ∈ cs.head?, p c = false) : ∀ c ∈ (paired cs).head?, p c = false := by
  have hany : cs.head?.any p = false := (Option.any_eq_false ..).2 h
  rw [← any_head_paired hp] at hany
  exact (Option.any_eq_false ..).1 hany

theorem takeWhile_paired {p : Char → Bool} (hn : p '\n' = false) (hr : p '\r' = false)
    (cs : List Char) : (paired cs).takeWhile p = cs.takeWhile p := by
  induction cs with
  | nil => rfl
  | cons c cs ih =>
    by_cases hc : c = '\n'
    · subst hc
      simp [paired_feed, hn, hr]
    · rw [paired_cons hc, List.takeWhile_cons, List.takeWhile_cons, ih]

theorem isPrefixOf_paired {a : List Char} (h : ∀ c ∈ a, isBreak c = false) (cs : List Char) :
    a.isPrefixOf (paired cs) = a.isPrefixOf cs := by
  induction a generalizing cs with
  | nil => simp
  | cons b a ih =>
    obtain ⟨hb, ha⟩ := List.forall_mem_cons.1 h
    cases cs with
    | nil => rfl
    | cons c cs =>
      by_cases hc : c = '\n'
      · subst hc
        have hr : (b == '\r') = false := (Bool.or_eq_false_iff.1 hb).2
        have hn : (b == '\n') = false := (Bool.or_eq_false_iff.1 hb).1
        rw [paired_feed, List.isPrefixOf_cons_cons, List.isPrefixOf_cons_cons, hr, hn,
          Bool.false_and, Bool.false_and]
      · rw [paired_cons hc, List.isPrefixOf_cons_cons, List.isPrefixOf_cons_cons, ih ha]

/-- A pair counts as one line break. -/
theorem Position.after_paired (p : Position) (h : ∀ c ∈ cs, c ≠ '\r') :
    p.after (paired cs) = p.after cs := by
  induction cs generalizing p with
  | nil => rfl
  | cons c cs ih =>
    obtain ⟨hc, hcs⟩ := List.forall_mem_cons.1 h
    have hone : ∀ ds : List Char, p.after (c :: ds) = (p.next c).after ds := fun ds => by
      rw [after]
      exact fun _ hr => absurd hr hc
    rw [hone]
    by_cases hn : c = '\n'
    · subst hn
      exact ih _ hcs
    · rw [paired_cons hn, hone, ih _ hcs]

end Source

/-! ## Outcomes that correspond -/

/-- Two outcomes correspond: both are the same fault, or they are values that are related. -/
inductive Corresponds {ε α β : Type} (r : α → β → Prop) : Except ε α → Except ε β → Prop
  | error (e : ε) : Corresponds r (.error e) (.error e)
  | ok {a : α} {b : β} (related : r a b) : Corresponds r (.ok a) (.ok b)

section Corresponds

variable {ε α β α' β' : Type} {r : α → β → Prop} {r' : α' → β' → Prop} {x : Except ε α}
  {y : Except ε β}

theorem Corresponds.map {f : α → α'} {g : β → β'} (h : Corresponds r x y)
    (hr : ∀ a b, r a b → r' (f a) (g b)) : Corresponds r' (x.map f) (y.map g) := by
  cases h with
  | error e => exact .error e
  | ok related => exact .ok (hr _ _ related)

theorem Corresponds.isOk_iff (h : Corresponds r x y) : (∃ a, x = .ok a) ↔ ∃ b, y = .ok b := by
  cases h with
  | error e => simp
  | ok => simp

theorem Corresponds.of_ok {a : α} {b : β} (h : Corresponds r (.ok a : Except ε α) (.ok b)) :
    r a b := by
  cases h with
  | ok related => exact related

end Corresponds

/-- What is read of a text and of the text with its line feeds paired: a piece of the one and the
same piece of the other, with values that are related, and that are the same if the piece lies on
one line. -/
inductive ReadAlike {α : Type} (r : α → α → Prop) : List Char → α × Nat → α × Nat → Prop
  | mk {a b : α} {piece rest : List Char} (related : r a b)
      (whole : (∀ c ∈ piece, isBreak c = false) → b = a) :
      ReadAlike r (piece ++ rest) (a, piece.length) (b, (paired piece).length)

section ReadAlike

variable {α β : Type} {r : α → α → Prop} {r' : β → β → Prop} {text : List Char} {p q : α × Nat}

/-- A piece on one line is the same in both texts. -/
theorem readAlike_of_breakless (piece rest : List Char) {a : α}
    (h : ∀ c ∈ piece, isBreak c = false) (hr : r a a) :
    ReadAlike r (piece ++ rest) (a, piece.length) (a, piece.length) := by
  have halike : ReadAlike r (piece ++ rest) (a, piece.length) (a, (paired piece).length) :=
    .mk hr fun _ => rfl
  rwa [paired_of_breakless h] at halike

/-- What is read behind a further piece, with what this piece adds to the value. -/
theorem ReadAlike.prepend {f g : α → β} (h : ReadAlike r text p q) (lead : List Char)
    (hr : ∀ a b, r a b → r' (f a) (g b)) (hlead : (∀ c ∈ lead, isBreak c = false) → g = f) :
    ReadAlike r' (lead ++ text) (f p.1, lead.length + p.2)
      (g q.1, (paired lead).length + q.2) := by
  obtain ⟨related, whole⟩ := h
  rw [← List.length_append, ← List.length_append, ← paired_append, ← List.append_assoc]
  refine .mk (hr _ _ related) fun hbreakless => ?_
  obtain ⟨hl, hp⟩ := List.forall_mem_append.1 hbreakless
  rw [hlead hl, whole hp]

end ReadAlike

/-! ## Strings -/

namespace StringForm

variable {f : StringForm} {c : Char} {cs : List Char}

theorem closesTriple_paired (hq : isQuote f.quote = true) (cs : List Char) :
    f.closesTriple (paired cs) = f.closesTriple cs :=
  isPrefixOf_paired (by simp [isBreak_of_quote hq]) cs

/-- The inside of a literal ends at the same quotes in both texts, or has the same fault. -/
def EndsAlike (f : StringForm) (cs : List Char) : Prop :=
  Corresponds (ReadAlike (fun _ _ => True) cs) (f.body cs) (f.body (paired cs))

theorem corresponds_put (lead : List Char) {x y : Except LexFault (List Char × Nat)}
    {text v w : List Char} {m n : Nat}
    (h : Corresponds (ReadAlike (fun _ _ => True) text) x y) (hm : m = lead.length)
    (hn : n = (paired lead).length) (hlead : (∀ c ∈ lead, isBreak c = false) → w = v) :
    Corresponds (ReadAlike (fun _ _ => True) (lead ++ text)) (put v m x) (put w n y) := by
  subst hm hn
  exact h.map fun p q hpq => hpq.prepend lead (fun _ _ _ => trivial) fun hl => by rw [hlead hl]

theorem EndsAlike.escaped (ih : f.EndsAlike cs) (hc : c ≠ '\r') :
    f.EndsAlike ('\\' :: c :: cs) := by
  rw [EndsAlike, body_escaped fun hr => absurd hr hc, paired_cons (by decide)]
  by_cases hn : c = '\n'
  · subst hn
    exact corresponds_put ['\\', '\n'] ih rfl rfl fun hl => by cases hl '\n' (by simp)
  · rw [paired_cons hn, body_escaped fun hr => absurd hr hc]
    refine corresponds_put ['\\', c] ih rfl ?_ fun _ => rfl
    rw [paired_cons (by decide), paired_cons hn]
    rfl

theorem EndsAlike.feed (ih : f.EndsAlike cs) (hq : isQuote f.quote = true) :
    f.EndsAlike ('\n' :: cs) := by
  have hquote : ('\n' == f.quote) = false := by
    rw [beq_eq_false_iff_ne]
    rintro hn
    rw [← hn] at hq
    cases hq
  rw [EndsAlike, paired_feed, body, body_char (by decide) fun h => absurd h (by decide), hquote,
    if_neg Bool.false_ne_true]
  cases htriple : f.triple with
  | false => exact .error _
  | true => exact corresponds_put ['\n'] ih rfl rfl fun hl => by cases hl '\n' (by simp)

theorem EndsAlike.char (ih : f.EndsAlike cs) (hq : isQuote f.quote = true) (plain : c ≠ '\\')
    (hbreak : isBreak c = false) : f.EndsAlike (c :: cs) := by
  have hr : c ≠ '\r' := by
    rintro rfl
    cases hbreak
  have hput : Corresponds (ReadAlike (fun _ _ => True) ([c] ++ cs)) (put [c] 1 (f.body cs))
      (put [c] 1 (f.body (paired cs))) := by
    refine corresponds_put [c] ih rfl ?_ fun _ => rfl
    rw [paired_of_breakless (by simpa using hbreak)]
    rfl
  rw [EndsAlike, paired_cons (ne_feed_of_breakless hbreak), body_char plain fun h => absurd h hr,
    body_char plain fun h => absurd h hr, closesTriple_paired hq, hbreak, Bool.false_and]
  split
  · split
    · exact .ok (readAlike_of_breakless [c] _ (by simpa using hbreak) trivial)
    · split
      · next hclose =>
        obtain ⟨tail, rfl⟩ := List.isPrefixOf_iff_prefix.1 hclose
        exact .ok (readAlike_of_breakless [c, f.quote, f.quote] _
          (by simp [hbreak, isBreak_of_quote hq]) trivial)
      · exact hput
  · exact hput

/-- **The inside of a literal ends at the same quotes in both texts.** -/
theorem endsAlike (hq : isQuote f.quote = true) (h : ∀ c ∈ cs, c ≠ '\r') :
    f.EndsAlike cs := by
  have hcons : ∀ {c cs}, c ≠ '\\' → c ≠ '\r' → f.EndsAlike cs → f.EndsAlike (c :: cs) := by
    intro c cs plain hr ih
    by_cases hn : c = '\n'
    · subst hn
      exact ih.feed hq
    · exact ih.char hq plain (by simp [isBreak, hn, hr])
  induction cs using List.twoStepInduction with
  | nil => exact .error _
  | singleton c =>
    by_cases hc : c = '\\'
    · subst hc
      exact .error _
    · exact hcons hc (h c (by simp)) (.error _)
  | cons_cons c d cs ih ih' =>
    obtain ⟨hc, hds⟩ := List.forall_mem_cons.1 h
    obtain ⟨hd, hcs⟩ := List.forall_mem_cons.1 hds
    by_cases hplain : c = '\\'
    · subst hplain
      exact (ih hcs).escaped hd
    · exact hcons hplain hc (ih' d hds)

end StringForm

/-! ## The token at the head of a text -/

/-- Kinds of tokens that are the same, or strings of one sort whatever they denote. -/
inductive TokenKind.Alike : TokenKind → TokenKind → Prop
  | refl (k : TokenKind) : Alike k k
  | string (v w : String) : Alike (.string v) (.string w)
  | bytes (v w : String) : Alike (.bytes v) (.bytes w)

section Recognise

variable {c q : Char} {cs letters text : List Char}

theorem Plain.breakless (h : Plain text) : ∀ c ∈ text, isBreak c = false :=
  fun c hc => (Bool.or_eq_false_iff.1 (h c hc)).1

theorem stringKind_alike (letters v w : List Char) :
    (stringKind letters v).Alike (stringKind letters w) := by
  unfold stringKind
  split
  · exact .bytes _ _
  · exact .string _ _

/-- A literal in both texts, behind its opening quotes. -/
theorem corresponds_quoted {f : StringForm} (lead : List Char) (hq : isQuote f.quote = true)
    (hlead : ∀ c ∈ lead, isBreak c = false) (h : ∀ c ∈ cs, c ≠ '\r') :
    Corresponds (ReadAlike TokenKind.Alike (lead ++ cs))
      ((f.body cs).map fun v => (stringKind letters v.1, lead.length + v.2))
      ((f.body (paired cs)).map fun v => (stringKind letters v.1, lead.length + v.2)) := by
  refine (StringForm.endsAlike hq h).map fun v w hvw => ?_
  have hlead' := hvw.prepend lead (fun a b _ => stringKind_alike letters a b) fun _ => rfl
  rwa [paired_of_breakless hlead] at hlead'

theorem stringLiteral_paired (hq : isQuote q = true) (h : ∀ c ∈ cs, c ≠ '\r') :
    Corresponds (ReadAlike TokenKind.Alike (q :: cs)) (stringLiteral letters q cs)
      (stringLiteral letters q (paired cs)) := by
  have hbreak := isBreak_of_quote hq
  have hquote := ne_feed_of_breakless hbreak
  have hopen : [q, q].isPrefixOf (paired cs) = [q, q].isPrefixOf cs :=
    isPrefixOf_paired (by simp [hbreak]) cs
  unfold stringLiteral
  rw [hopen]
  cases htriple : [q, q].isPrefixOf cs with
  | false =>
    exact corresponds_quoted (f := ⟨q, false, letters.contains 'r'⟩) [q] hq
      (List.forall_mem_singleton.2 hbreak) h
  | true =>
    obtain ⟨more, rfl⟩ := List.isPrefixOf_iff_prefix.1 htriple
    have hmore : paired ([q, q] ++ more) = [q, q] ++ paired more :=
      paired_append_of_breakless (by simp [hbreak]) more
    rw [hmore]
    exact corresponds_quoted (f := ⟨q, true, letters.contains 'r'⟩) [q, q, q] hq
      (by simp [hbreak]) (List.forall_mem_append.1 h).2

theorem isExponent_paired (cs : List Char) : isExponent (paired cs) = isExponent cs := by
  obtain _ | ⟨c, cs⟩ := cs
  · rfl
  · by_cases hc : c = '\n'
    · subst hc
      cases cs <;> rfl
    · obtain _ | ⟨d, cs⟩ := cs
      · rw [paired_cons hc]
        rfl
      · rw [paired_cons hc]
        by_cases hd : d = '\n'
        · subst hd
          simp [paired_feed, isExponent]
        · rw [paired_cons hd]
          rfl

theorem numberSpan_paired (fractional afterMark : Bool) (text : List Char) :
    numberSpan fractional afterMark (paired text) = numberSpan fractional afterMark text := by
  induction text generalizing fractional afterMark with
  | nil => rfl
  | cons c cs ih =>
    by_cases hc : c = '\n'
    · subst hc
      rw [numberSpan_stop (by simp [paired_feed, isNumberPart]),
        numberSpan_stop (by simp [isNumberPart])]
    · simp only [paired_cons hc, numberSpan, ih, isExponent_paired]

theorem radix?_paired (text : List Char) : radix? (paired text) = radix? text := by
  cases text with
  | nil => rfl
  | cons c cs =>
    by_cases hzero : c = '0'
    · subst hzero
      rw [paired_cons (by decide)]
      cases cs with
      | nil => rfl
      | cons d cs =>
        by_cases hd : d = '\n'
        · subst hd
          rfl
        · rw [paired_cons hd]
          rfl
    · by_cases hc : c = '\n'
      · subst hc
        rfl
      · simp [paired_cons hc, radix?, hzero]

/-- A number is the same in both texts. -/
theorem number_paired (text : List Char) : number (paired text) = number text := by
  cases hradix : radix? text with
  | some radix =>
    obtain ⟨c, cs, rfl, hc⟩ := radix?_eq_some hradix
    have hpaired : paired ('0' :: c :: cs) = '0' :: c :: paired cs := by
      rw [paired_cons (by decide), paired_cons (ne_feed_of_breakless (Bool.or_eq_false_iff.1 hc).1)]
    have hradix' := radix?_paired ('0' :: c :: cs)
    rw [hpaired, hradix] at hradix'
    rw [hpaired, number_radix hradix, number_radix hradix', takeWhile_paired rfl rfl]
  | none =>
    obtain ⟨lexeme, after, rfl, hlen, -⟩ := numberSpan_local false false text
    have hplain := plain_numberSpan false false (lexeme ++ after)
    rw [hlen, List.take_left] at hplain
    have hpaired : paired (lexeme ++ after) = lexeme ++ paired after :=
      paired_append_of_breakless hplain.breakless after
    have hradix' := radix?_paired (lexeme ++ after)
    have hspan := numberSpan_paired false false (lexeme ++ after)
    rw [hpaired] at hradix' hspan ⊢
    exact number_congr hradix hlen (hradix'.trans hradix) hspan (any_head_paired rfl after)

theorem corresponds_number (text : List Char) :
    Corresponds (ReadAlike TokenKind.Alike text) (number text) (number (paired text)) := by
  rw [number_paired]
  cases h : number text with
  | error e => exact .error e
  | ok p =>
    obtain ⟨k, n⟩ := p
    have hplain := plain_number h
    obtain ⟨lexeme, after, rfl, rfl, -⟩ := number_local h
    rw [List.take_left] at hplain
    exact .ok (readAlike_of_breakless lexeme after hplain.breakless (.refl k))

theorem word_paired (hc : isNameStart c = true) (h : ∀ c ∈ cs, c ≠ '\r') :
    Corresponds (ReadAlike TokenKind.Alike (c :: cs)) (word c cs) (word c (paired cs)) := by
  obtain @⟨name, after, part, stop, plain⟩ | @⟨name, after, q, part, quote, letters⟩ :=
    wordForm c cs
  · have hbreakless := (plain_name hc part).breakless
    have stop' := forall_head_paired (by decide +kernel) stop
    have plain' := forall_head_paired rfl plain
    rw [paired_append_of_breakless (List.forall_mem_cons.1 hbreakless).2,
      word_of_name part stop plain, word_of_name part stop' plain']
    exact .ok (readAlike_of_breakless (c :: name) after hbreakless (.refl _))
  · have hbreakless := (plain_name hc part).breakless
    have hrest : ∀ d ∈ after, d ≠ '\r' :=
      (List.forall_mem_cons.1 (List.forall_mem_append.1 h).2).2
    rw [paired_append_of_breakless (List.forall_mem_cons.1 hbreakless).2,
      paired_cons (ne_feed_of_breakless (isBreak_of_quote quote)),
      word_of_string part quote letters, word_of_string part quote letters]
    refine (stringLiteral_paired quote hrest).map fun v w hvw => ?_
    have hlead := hvw.prepend (c :: name) (fun _ _ => id) fun _ => rfl
    rwa [paired_of_breakless hbreakless] at hlead

theorem startsNumber_paired (c : Char) (cs : List Char) :
    startsNumber (c :: paired cs) = startsNumber (c :: cs) := by
  rw [startsNumber, startsNumber, any_head_paired rfl]

theorem Mark.find?_paired (text : List Char) : Mark.find? (paired text) = Mark.find? text := by
  have hall : ∀ e ∈ Mark.table, e.1.toList.isPrefixOf (paired text) = e.1.toList.isPrefixOf text :=
    fun e he => isPrefixOf_paired (Mark.plain_spelling he).breakless text
  exact List.find?_congr hall

/-- **The token at the head of a text** is the same in both texts, but for what a string over
several lines denotes. -/
theorem recognise_paired (hc : isBreak c = false) (h : ∀ d ∈ cs, d ≠ '\r') :
    Corresponds (ReadAlike TokenKind.Alike (c :: cs)) (recognise c cs)
      (recognise c (paired cs)) := by
  have hcons : paired (c :: cs) = c :: paired cs := paired_cons (ne_feed_of_breakless hc) cs
  unfold recognise
  rw [startsNumber_paired, ← hcons, Mark.find?_paired]
  split
  · next hq => exact stringLiteral_paired hq h
  · split
    · exact corresponds_number (c :: cs)
    · split
      · next hname => exact word_paired hname h
      · cases hfind : Mark.find? (c :: cs) with
        | none => exact .error _
        | some e =>
          have hplain := Mark.plain_spelling (List.mem_of_find?_eq_some hfind)
          obtain ⟨after, htext, -⟩ := Mark.find?_local hfind
          have hread := readAlike_of_breakless e.1.toList after hplain.breakless
            (TokenKind.Alike.refl (.mark e.2))
          rw [String.length_toList, ← htext] at hread
          exact .ok hread

end Recognise

end Gradual
