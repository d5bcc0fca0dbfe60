import Gradual.Proofs.Token.Respacing

/-!
# What string literals denote

A literal without backslashes denotes the text between its quotes, except that of a carriage return
and a line feed behind it only the first is kept. With backslashes each text can be written in each
form that is not raw, and it is read back.

* `StringForm.quotes`, `Quoted`: a literal as letters, quotes, a body and the same quotes;
* `joined`, `joined_eq_self_iff`: the text without the line feeds of its pairs;
* `StringForm.Denotes.exists_body`, `recognise_string`, **`string_without_backslash`**: what a
  literal without backslashes denotes;
* `escapeChar`, `StringForm.denotes_written`, **`tokenize_written`**: each text is denoted by a
  literal of each form.
-/

namespace Gradual

open Source

/-! ## Quotes -/

/-- The quotes at both ends of a literal. -/
def StringForm.quotes (f : StringForm) : List Char :=
  if f.triple then [f.quote, f.quote, f.quote] else [f.quote]

/-- The text is a literal of the form `f`: letters, the opening quotes, a body and the closing
quotes, which are the first after the opening ones. -/
structure Quoted (f : StringForm) (letters body text : List Char) : Prop where
  split : text = letters ++ f.quotes ++ body ++ f.quotes
  quote : isQuote f.quote = true
  lettered : letters = [] ∨ stringLetters.contains (letters.map Char.toLower) = true
  raw : f.raw = (letters.map Char.toLower).contains 'r'
  first : ¬ f.quotes <:+: body ++ f.quotes.dropLast

/-! ## Pairs of a carriage return and a line feed -/

/-- The text without the line feed of each pair. -/
def joined : List Char → List Char
  | [] => []
  | '\r' :: '\n' :: cs => '\r' :: joined cs
  | c :: cs => c :: joined cs

theorem joined_cons {c : Char} {cs : List Char} (h : c = '\r' → cs.head? ≠ some '\n') :
    joined (c :: cs) = c :: joined cs := by
  rw [joined]
  rintro tail rfl rfl
  exact h rfl rfl

theorem length_joined_le (cs : List Char) : (joined cs).length ≤ cs.length := by
  fun_induction joined cs with
  | case1 => exact Nat.le_refl 0
  | case2 cs ih =>
    simp only [List.length_cons]
    omega
  | case3 c cs _ ih => exact Nat.succ_le_succ ih

/-- A text is changed exactly if it has a pair. -/
theorem joined_eq_self_iff (cs : List Char) : joined cs = cs ↔ ¬ ['\r', '\n'] <:+: cs := by
  fun_induction joined cs with
  | case1 => simp
  | case2 cs ih =>
    have hlen := length_joined_le cs
    refine iff_of_false (fun heq => ?_) (not_not.2 ⟨[], cs, rfl⟩)
    have := congrArg List.length heq
    simp only [List.length_cons] at this
    omega
  | case3 c cs hne ih =>
    have hhead : ¬ ['\r', '\n'] <+: c :: cs := by
      rintro ⟨tail, heq⟩
      obtain ⟨rfl, rfl⟩ := List.cons.inj heq
      exact hne tail rfl rfl
    rw [List.cons_inj_right, ih, List.infix_cons_iff, or_iff_right hhead]

/-! ## Literals without backslashes -/

namespace StringForm

variable {f : StringForm} {c : Char} {inner body v : List Char}

theorem quotes_cons (f : StringForm) :
    f.quotes = f.quote :: if f.triple then [f.quote, f.quote] else [] := by
  unfold quotes
  split <;> rfl

theorem quotes_single (single : f.triple = false) : f.quotes = [f.quote] := by
  rw [quotes, single]
  rfl

theorem quotes_triple (triple : f.triple = true) : f.quotes = [f.quote, f.quote, f.quote] := by
  rw [quotes, triple]
  rfl

/-- Where a character may stand in a body, the closing quotes do not start. -/
theorem not_quotes_head (hquote : c = f.quote → f.triple = true ∧
    f.closesTriple (body ++ f.quotes) = false) :
    ¬ f.quotes <+: c :: (body ++ f.quotes.dropLast) := by
  intro hstart
  have hc : f.quote = c := by
    rw [quotes_cons] at hstart
    exact (List.cons_prefix_cons.1 hstart).1
  obtain ⟨triple, hopen⟩ := hquote hc.symm
  rw [quotes_triple triple] at hstart hopen
  -- two more quotes behind `c` would start the closing ones there
  have htwo : [f.quote, f.quote] <+: body ++ [f.quote, f.quote] :=
    (List.cons_prefix_cons.1 hstart).2
  have hthree : [f.quote, f.quote] <+: body ++ [f.quote, f.quote, f.quote] :=
    htwo.trans ⟨[f.quote], by simp⟩
  cases hopen.symm.trans (List.isPrefixOf_iff_prefix.2 hthree)

/-- The inside of a literal without backslashes is a body and the closing quotes, and it denotes the
body without the line feeds of its pairs. -/
theorem Denotes.exists_body (h : f.Denotes inner v) (hq : isQuote f.quote = true)
    (hplain : '\\' ∉ inner) :
    ∃ body, inner = body ++ f.quotes ∧ v = joined body ∧
      ¬ f.quotes <:+: body ++ f.quotes.dropLast := by
  have hbreak : ∀ {c}, isBreak c = true → f.quote ≠ c := by
    rintro c hc rfl
    cases hc.symm.trans (isBreak_of_quote hq)
  induction h with
  | close single =>
    refine ⟨[], (quotes_single single).symm, rfl, ?_⟩
    rw [quotes_single single]
    simp
  | closeTriple triple =>
    refine ⟨[], (quotes_triple triple).symm, rfl, fun hinfix => ?_⟩
    rw [quotes_triple triple] at hinfix
    simpa using hinfix.length_le
  | escapedPair | escaped => exact absurd List.mem_cons_self hplain
  | pair triple _ ih =>
    obtain ⟨body, rfl, rfl, hfirst⟩ := ih fun hmem => hplain (by simp [hmem])
    refine ⟨'\r' :: '\n' :: body, rfl, rfl, ?_⟩
    rw [List.cons_append, List.cons_append, List.infix_cons_iff, List.infix_cons_iff]
    refine not_or.2 ⟨?_, not_or.2 ⟨not_quotes_head fun hn => absurd hn.symm (hbreak rfl), hfirst⟩⟩
    rw [← List.cons_append]
    exact not_quotes_head fun hr => absurd hr.symm (hbreak rfl)
  | @char c cs v plain whole quote line _ ih =>
    obtain ⟨body, rfl, rfl, hfirst⟩ := ih fun hmem => hplain (by simp [hmem])
    refine ⟨c :: body, rfl, (joined_cons fun hr => ?_).symm, ?_⟩
    · intro hn
      refine whole hr ?_
      rw [List.head?_append, hn]
      rfl
    · rw [List.cons_append, List.infix_cons_iff]
      exact not_or.2 ⟨not_quotes_head quote, hfirst⟩

end StringForm

section Recognise

variable {letters rest cs : List Char} {c q : Char} {k : TokenKind} {n : Nat}

theorem isString_number {text : List Char} (h : number text = .ok (k, n)) : k.isString = false := by
  simp only [number] at h
  repeat' split at h
  all_goals cases h
  all_goals rfl

theorem isString_wordKind (name : List Char) : (wordKind name).isString = false := by
  unfold wordKind
  split <;> rfl

/-- A string that is a whole text: the letters before its quotes, and the literal behind them. -/
theorem recognise_string (h : recognise c cs = .ok (k, cs.length + 1)) (hk : k.isString = true) :
    ∃ letters q rest, c :: cs = letters ++ q :: rest ∧ isQuote q = true ∧
      (letters = [] ∨ stringLetters.contains (letters.map Char.toLower) = true) ∧
      stringLiteral (letters.map Char.toLower) q rest = .ok (k, rest.length + 1) := by
  unfold recognise at h
  split at h
  · next hq => exact ⟨[], c, cs, rfl, hq, .inl rfl, h⟩
  · split at h
    · cases hk.symm.trans (isString_number h)
    · split at h
      · obtain @⟨name, after, part, stop, plain⟩ | @⟨name, after, q, part, quote, letters⟩ :=
          wordForm c cs
        · rw [word_of_name part stop plain] at h
          obtain ⟨rfl, -⟩ := Prod.mk.inj (Except.ok.inj h)
          cases hk.symm.trans (isString_wordKind (c :: name))
        · rw [word_of_string part quote letters] at h
          refine ⟨c :: name, q, after, rfl, quote, .inr letters, ?_⟩
          cases hs : stringLiteral ((c :: name).map Char.toLower) q after with
          | error e =>
            rw [hs] at h
            cases h
          | ok r =>
            rw [hs] at h
            obtain ⟨rfl, hlen⟩ := Prod.mk.inj (Except.ok.inj h)
            -- the word is the whole text, so the literal is all of it behind the letters
            have hr : r.2 = after.length + 1 := by
              simp only [List.length_cons, List.length_append] at hlen
              omega
            rw [← hr]
      · split at h
        · obtain ⟨rfl, -⟩ := Prod.mk.inj (Except.ok.inj h)
          cases hk
        · cases h

/-- A literal that is a whole text: its opening quotes and an inside that closes it. -/
theorem stringLiteral_whole (h : stringLiteral letters q rest = .ok (k, rest.length + 1)) :
    ∃ (f : StringForm) (inner v : List Char), f.quote = q ∧ f.raw = letters.contains 'r' ∧
      q :: rest = f.quotes ++ inner ∧ f.Denotes inner v ∧ k = stringKind letters v := by
  obtain ⟨inner, after, v, rfl, ⟨rfl, hlen, hinner⟩ | ⟨rfl, hlen, hinner⟩⟩ := stringLiteral_eq_ok h
  · obtain rfl : after = [] := List.eq_nil_of_length_eq_zero (by simpa using hlen)
    exact ⟨_, inner, v, rfl, rfl, by simp [StringForm.quotes], hinner, rfl⟩
  · obtain rfl : after = [] := by
      refine List.eq_nil_of_length_eq_zero ?_
      simp only [List.length_append, List.length_cons, List.length_nil] at hlen
      omega
    exact ⟨_, inner, v, rfl, rfl, by simp [StringForm.quotes], hinner, rfl⟩

theorem value_stringKind {v : List Char} {value : String}
    (h : stringKind letters v = .string value ∨ stringKind letters v = .bytes value) :
    value.toList = v := by
  unfold stringKind at h
  split at h
  · rcases h with h | h <;> cases h
    exact String.toList_ofList
  · rcases h with h | h <;> cases h
    exact String.toList_ofList

end Recognise

/-- **A string token without backslashes denotes the text between its quotes**, without the line
feed of each pair of a carriage return and a line feed. -/
theorem string_without_backslash {text value : String} {ts : List Token} {t : Token}
    (h : tokenize text = .ok ts) (ht : t ∈ ts)
    (kind : t.kind = .string value ∨ t.kind = .bytes value) (plain : '\\' ∉ t.lexeme.toList) :
    ∃ f letters body, Quoted f letters body t.lexeme.toList ∧ value.toList = joined body ∧
      (value.toList = body ↔ ¬ ['\r', '\n'] <:+: body) := by
  have hstring : t.kind.isString = true := by
    rcases kind with hk | hk <;> rw [hk] <;> rfl
  have hlexeme := lexeme_of_mem h ht (hasText_of_isString hstring)
  obtain ⟨c, cs, hcs, -⟩ := hlexeme.code
  have hread := hlexeme.read c cs [] hcs detached_nil
  rw [List.append_nil] at hread
  obtain ⟨letters, q, rest, hsplit, hq, hletters, hliteral⟩ := recognise_string hread hstring
  obtain ⟨f, inner, v, rfl, hraw, hquotes, hinner, hkind⟩ := stringLiteral_whole hliteral
  rw [hcs, hsplit, hquotes] at plain
  obtain ⟨body, rfl, rfl, hfirst⟩ := hinner.exists_body hq fun hmem => plain (by simp [hmem])
  rw [hkind] at kind
  rw [value_stringKind kind, hcs, hsplit, hquotes]
  exact ⟨f, letters, body, ⟨by simp, hq, hletters, hraw, hfirst⟩, rfl, joined_eq_self_iff body⟩

/-- A text with strings without backslashes: one with letters and another quote inside, and one over
two lines with quotes of its own. -/
def unescapedStrings : String := "Rb'a\x22' \x22\x22\x22\x22b\x22\x22\n\x22\x22\x22"

theorem unescapedStrings_denote : (∃ ts, tokenize unescapedStrings = .ok ts ∧
      ⟨.bytes "a\x22", "Rb'a\x22'", ⟨1, 1⟩⟩ ∈ ts ∧
      ⟨.string "\x22b\x22\x22\n", "\x22\x22\x22\x22b\x22\x22\n\x22\x22\x22", ⟨1, 8⟩⟩ ∈ ts) ∧
    ∃ f letters body, Quoted f letters body "\x22\x22\x22\x22b\x22\x22\n\x22\x22\x22".toList ∧
      "\x22b\x22\x22\n".toList = joined body ∧
      ("\x22b\x22\x22\n".toList = body ↔ ¬ ['\r', '\n'] <:+: body) := by
  have hts : tokenize unescapedStrings = .ok ((tokenize unescapedStrings).toOption.getD []) := by
    decide +kernel
  have hmem : ⟨.string "\x22b\x22\x22\n", "\x22\x22\x22\x22b\x22\x22\n\x22\x22\x22", ⟨1, 8⟩⟩ ∈
      (tokenize unescapedStrings).toOption.getD [] := by decide +kernel
  exact ⟨⟨_, hts, by decide +kernel, hmem⟩,
    string_without_backslash hts hmem (.inl rfl) (by decide +kernel)⟩

/-- The line feed of a pair is between the quotes and not in the string. -/
theorem pair_loses_feed :
    Quoted ⟨'\x22', true, false⟩ [] ['a', '\r', '\n', 'b'] "\x22\x22\x22a\r\nb\x22\x22\x22".toList ∧
    tokenize "\x22\x22\x22a\r\nb\x22\x22\x22" = .ok
      [⟨.string "a\rb", "\x22\x22\x22a\r\nb\x22\x22\x22", ⟨1, 1⟩⟩, ⟨.newline, "\n", ⟨2, 5⟩⟩,
        ⟨.eof, "", ⟨2, 5⟩⟩] ∧
    "a\rb".toList ≠ ['a', '\r', '\n', 'b'] := by
  exact ⟨⟨by decide, rfl, .inl rfl, rfl, by decide⟩, by decide +kernel, by decide⟩

/-! ## A literal for each text -/

/-- How a character is written between quotes `q`: a backslash, the quote and the characters of line
breaks stand behind a backslash. -/
def escapeChar (q c : Char) : List Char :=
  if c = '\\' then ['\\', '\\']
  else if c = q then ['\\', q]
  else if c = '\n' then ['\\', 'n']
  else if c = '\r' then ['\\', 'r']
  else [c]

/-- The letters before the quotes in which a backslash escapes the character behind it. -/
def escapingLetters : List (List Char) := [] :: ['u', 'U', 'f', 'F', 'b', 'B'].map ([·])

/-- The literal for the text `s`. -/
def written (letters : List Char) (q : Char) (triple : Bool) (s : String) : String :=
  let quotes := StringForm.quotes ⟨q, triple, false⟩
  String.ofList (letters ++ quotes ++ s.toList.flatMap (escapeChar q) ++ quotes)

namespace StringForm

variable {f : StringForm} {c : Char} {letters inner v : List Char}

theorem denotes_quotes (f : StringForm) : f.Denotes f.quotes [] := by
  cases htriple : f.triple with
  | false =>
    rw [quotes_single htriple]
    exact .close htriple
  | true =>
    rw [quotes_triple htriple]
    exact .closeTriple htriple

/-- A character is denoted by what is written for it. -/
theorem Denotes.escapeChar_append (more : f.Denotes inner v) (hq : isQuote f.quote = true)
    (hraw : f.raw = false) (c : Char) : f.Denotes (escapeChar f.quote c ++ inner) (c :: v) := by
  have hescaped : ∀ {d}, d ≠ '\r' → unescape d = [c] → f.Denotes ('\\' :: d :: inner) (c :: v) := by
    intro d hd hc
    have hdenotes : f.Denotes ('\\' :: d :: inner) (f.escaped d ++ v) :=
      .escaped (fun hr => absurd hr hd) more
    rwa [StringForm.escaped, hraw, if_neg Bool.false_ne_true, hc] at hdenotes
  unfold escapeChar
  split_ifs with hslash hquote hfeed hreturn
  · subst hslash
    exact hescaped (by decide) rfl
  · subst hquote
    rcases isQuote_iff.1 hq with hq | hq <;> rw [hq] at hescaped ⊢ <;>
      exact hescaped (by decide) rfl
  · subst hfeed
    exact hescaped (by decide) rfl
  · subst hreturn
    exact hescaped (by decide) rfl
  · refine .char hslash (fun hr => absurd hr hreturn) (fun hc => absurd hc hquote) ?_ more
    intro hbreak
    simp only [isBreak, Bool.or_eq_true, beq_iff_eq] at hbreak
    exact absurd hbreak (not_or.2 ⟨hfeed, hreturn⟩)

/-- Each text is denoted by what is written for its characters. -/
theorem denotes_written (hq : isQuote f.quote = true) (hraw : f.raw = false) (s : List Char) :
    f.Denotes (s.flatMap (escapeChar f.quote) ++ f.quotes) s := by
  induction s with
  | nil => exact f.denotes_quotes
  | cons c s ih =>
    rw [List.flatMap_cons, List.append_assoc]
    exact ih.escapeChar_append hq hraw c

/-- What denotes a text is read as a whole literal behind opening quotes. -/
theorem Denotes.stringLiteral_eq (h : f.Denotes inner v) (hq : isQuote f.quote = true)
    (hraw : f.raw = letters.contains 'r') :
    ∃ rest, f.quotes ++ inner = f.quote :: rest ∧
      stringLiteral letters f.quote rest = .ok (stringKind letters v, rest.length + 1) := by
  obtain ⟨q, triple, raw⟩ := f
  obtain rfl : raw = letters.contains 'r' := hraw
  cases triple with
  | false =>
    have hread := @stringLiteral_single letters inner v [] q hq h (by simp)
    rw [List.append_nil] at hread
    exact ⟨inner, rfl, hread⟩
  | true =>
    have hread := @stringLiteral_triple letters inner v [] q hq h
    rw [List.append_nil] at hread
    exact ⟨[q, q] ++ inner, rfl, hread⟩

end StringForm

section Written

variable {letters : List Char} {q : Char}

theorem breakless_escapeChar (hq : isQuote q = true) (c : Char) :
    ∀ d ∈ escapeChar q c, isBreak d = false := by
  unfold escapeChar
  split_ifs with hslash hquote hfeed hreturn
  · simp [isBreak]
  · simpa [isBreak] using isBreak_of_quote hq
  · simp [isBreak]
  · simp [isBreak]
  · simp [isBreak, hfeed, hreturn]

/-- A literal is on one line. -/
theorem breakless_written (hq : isQuote q = true) (hletters : letters ∈ escapingLetters)
    (triple : Bool) (s : String) :
    ∀ c ∈ (written letters q triple s).toList, isBreak c = false := by
  have hl : ∀ letters ∈ escapingLetters, ∀ c ∈ letters, isBreak c = false := by
    simp [escapingLetters, isBreak]
  have hquotes : ∀ c ∈ StringForm.quotes ⟨q, triple, false⟩, isBreak c = false := by
    unfold StringForm.quotes
    split <;> simp [isBreak_of_quote hq]
  simp only [written, String.toList_ofList, List.forall_mem_append, List.mem_flatMap]
  refine ⟨⟨⟨hl letters hletters, hquotes⟩, ?_⟩, hquotes⟩
  rintro d ⟨c, -, hd⟩
  exact breakless_escapeChar hq c d hd

/-- A literal behind letters is read whole if it is read whole without them. -/
theorem recognise_lettered {rest : List Char} {k : TokenKind} (hq : isQuote q = true)
    (hletters : letters ∈ escapingLetters)
    (h : stringLiteral (letters.map Char.toLower) q rest = .ok (k, rest.length + 1)) :
    ∃ c cs, letters ++ q :: rest = c :: cs ∧ StartsCode (c :: cs) ∧ c ≠ '\\' ∧
      recognise c cs = .ok (k, cs.length + 1) := by
  rcases List.mem_cons.1 hletters with rfl | hletter
  · refine ⟨q, rest, rfl, ⟨q, rest, rfl, ?_⟩, ?_, ?_⟩
    · rcases isQuote_iff.1 hq with rfl | rfl <;> decide
    · rintro rfl
      cases hq
    · rw [recognise, if_pos hq]
      exact h
  · obtain ⟨c, hc, rfl⟩ := List.mem_map.1 hletter
    have hfacts : (isSpacing c = false ∧ isBreak c = false ∧ c ≠ '#') ∧ c ≠ '\\' ∧
        isQuote c = false ∧ c.isDigit = false ∧ c ≠ '.' ∧ isNameStart c = true ∧
        stringLetters.contains ([c].map Char.toLower) = true := by
      simp only [List.mem_cons, List.not_mem_nil, or_false] at hc
      rcases hc with rfl | rfl | rfl | rfl | rfl | rfl <;> decide +kernel
    obtain ⟨hcode, hslash, hquote, hdigit, hpoint, hname, hstring⟩ := hfacts
    have hnumber : startsNumber (c :: q :: rest) = false := by
      simp [startsNumber, hdigit, hpoint]
    refine ⟨c, q :: rest, rfl, ⟨c, _, rfl, hcode⟩, hslash, ?_⟩
    have hword := @word_of_string c [] q rest (by simp) hq hstring
    have hlength : [c].length + (rest.length + 1) = (q :: rest).length + 1 := Nat.add_comm ..
    rw [recognise, hquote, hnumber, if_neg Bool.false_ne_true, if_neg Bool.false_ne_true,
      if_pos hname, ← hlength]
    rwa [h] at hword

/-- **Each text is denoted by a literal of each form**: its characters between quotes, with a
backslash before backslashes, the quote and line breaks, are one string token that denotes it. -/
theorem tokenize_written (hq : isQuote q = true) (hletters : letters ∈ escapingLetters)
    (triple : Bool) (s : String) :
    tokenize (written letters q triple s) = .ok
      [⟨if letters = ['b'] ∨ letters = ['B'] then .bytes s else .string s,
          written letters q triple s, ⟨1, 1⟩⟩,
        ⟨.newline, "\n", ⟨1, 1 + (written letters q triple s).length⟩⟩,
        ⟨.eof, "", ⟨1, 1 + (written letters q triple s).length⟩⟩] := by
  have hkind : ∀ letters ∈ escapingLetters, stringKind (letters.map Char.toLower) s.toList =
      if letters = ['b'] ∨ letters = ['B'] then .bytes s else .string s := by
    simp [escapingLetters, stringKind]
  have hraw : ∀ letters ∈ escapingLetters, false = (letters.map Char.toLower).contains 'r' := by
    decide +kernel
  obtain ⟨rest, hrest, hread⟩ :=
    (StringForm.denotes_written (f := ⟨q, triple, false⟩) hq rfl s.toList).stringLiteral_eq hq
      (hraw letters hletters)
  rw [hkind letters hletters] at hread
  obtain ⟨c, cs, hcs, code, whole, hrecognise⟩ := recognise_lettered hq hletters hread
  have htext : (written letters q triple s).toList = c :: cs := by
    rw [← hcs, ← hrest]
    simp [written]
  have hlexeme := recognise_lexeme hrecognise code whole
  rw [← List.length_cons, List.take_length, ← htext] at hlexeme
  rw [hlexeme.tokenize_eq, Position.after_breakless _ (breakless_written hq hletters triple s),
    String.length_toList]
  rfl

/-- A backslash, both quotes and both characters of a line break, between triple quotes. -/
theorem written_escapes : isQuote '\x27' = true ∧ ['B'] ∈ escapingLetters ∧
    written ['B'] '\x27' true "\\\x27\x22\r\n\x27" =
      "B\x27\x27\x27\\\\\\\x27\x22\\r\\n\\\x27\x27\x27\x27" ∧
    tokenize "B\x27\x27\x27\\\\\\\x27\x22\\r\\n\\\x27\x27\x27\x27" = .ok
      [⟨.bytes "\\\x27\x22\r\n\x27", "B\x27\x27\x27\\\\\\\x27\x22\\r\\n\\\x27\x27\x27\x27", ⟨1, 1⟩⟩,
        ⟨.newline, "\n", ⟨1, 19⟩⟩, ⟨.eof, "", ⟨1, 19⟩⟩] := by
  have hwritten : written ['B'] '\x27' true "\\\x27\x22\r\n\x27" =
      "B\x27\x27\x27\\\\\\\x27\x22\\r\\n\\\x27\x27\x27\x27" := by decide +kernel
  have htokens := @tokenize_written ['B'] '\x27' rfl (by decide) true
    "\\\x27\x22\r\n\x27"
  rw [hwritten] at htokens
  exact ⟨rfl, by decide, hwritten, htokens⟩

end Written

end Gradual
