import Gradual.Proofs.Token.Cover

/-!
# String literals

The inside of a string literal is a text of its own, which denotes another one. It is read up to its
closing quotes, whatever comes behind them.

* `StringForm.Denotes`: the inside of a literal with its closing quotes, and what it denotes;
* `StringForm.body_eq_ok`, **`StringForm.Denotes.body_eq`**: exactly these texts are read;
* `stringLiteral_eq_ok`, `stringLiteral_single`, `stringLiteral_triple`: literals with their quotes.
-/

namespace Gradual

open Source

theorem isQuote_iff {q : Char} : isQuote q = true ↔ q = '\x22' ∨ q = '\x27' := by
  simp [isQuote]

theorem isBreak_of_quote {q : Char} (hq : isQuote q = true) : isBreak q = false := by
  rcases isQuote_iff.1 hq with rfl | rfl <;> rfl

/-! ## The inside of a literal -/

namespace StringForm

variable {f : StringForm} {c : Char} {cs v tail : List Char} {n : Nat}

/-- The inside of a literal with its closing quotes, and the text that it denotes. -/
inductive Denotes (f : StringForm) : (text value : List Char) → Prop
  | close (single : f.triple = false) : Denotes f [f.quote] []
  | closeTriple (triple : f.triple = true) : Denotes f [f.quote, f.quote, f.quote] []
  | escapedPair {cs v : List Char} (more : Denotes f cs v) :
      Denotes f ('\\' :: '\r' :: '\n' :: cs) (f.escaped '\r' ++ v)
  | escaped {c : Char} {cs v : List Char} (whole : c = '\r' → cs.head? ≠ some '\n')
      (more : Denotes f cs v) : Denotes f ('\\' :: c :: cs) (f.escaped c ++ v)
  | pair {cs v : List Char} (triple : f.triple = true) (more : Denotes f cs v) :
      Denotes f ('\r' :: '\n' :: cs) ('\r' :: v)
  | char {c : Char} {cs v : List Char} (plain : c ≠ '\\') (whole : c = '\r' → cs.head? ≠ some '\n')
      (quote : c = f.quote → f.triple = true ∧ f.closesTriple cs = false)
      (line : isBreak c = true → f.triple = true) (more : Denotes f cs v) :
      Denotes f (c :: cs) (c :: v)

theorem body_escaped (whole : c = '\r' → cs.head? ≠ some '\n') :
    f.body ('\\' :: c :: cs) = put (f.escaped c) 2 (f.body cs) := by
  rw [body]
  rintro tail rfl rfl
  exact whole rfl rfl

theorem body_char (plain : c ≠ '\\') (whole : c = '\r' → cs.head? ≠ some '\n') :
    f.body (c :: cs) = if c == f.quote then
      if !f.triple then .ok ([], 1)
      else if f.closesTriple cs then .ok ([], 3)
      else put [c] 1 (f.body cs)
    else if isBreak c && !f.triple then .error .unterminatedString
    else put [c] 1 (f.body cs) := by
  rw [body]
  · exact fun hc _ => plain hc
  · exact fun _ hc _ => plain hc
  · exact fun _ _ hc _ => plain hc
  · rintro tail rfl rfl
    exact whole rfl rfl

theorem put_ok (text w : List Char) (m k : Nat) :
    put text m (.ok (w, k)) = .ok (text ++ w, m + k) := rfl

theorem put_eq_ok {text : List Char} {m : Nat} {r : Except LexFault (List Char × Nat)}
    (h : put text m r = .ok (v, n)) : ∃ w k, r = .ok (w, k) ∧ v = text ++ w ∧ n = m + k := by
  cases r with
  | error e => cases h
  | ok p =>
    obtain ⟨rfl, rfl⟩ := Prod.mk.inj (Except.ok.inj h)
    exact ⟨p.1, p.2, rfl, rfl, rfl⟩

theorem whole_of_append {text after : List Char}
    (h : ∀ tail, c = '\r' → text ++ after = '\n' :: tail → False) (hc : c = '\r') :
    text.head? ≠ some '\n' := by
  intro htext
  obtain ⟨tail, rfl⟩ := List.head?_eq_some_iff.1 htext
  exact h _ hc rfl

theorem ne_backslash (lone : c = '\\' → cs = [] → False)
    (escaped : ∀ d ds, c = '\\' → cs = d :: ds → False) : c ≠ '\\' := by
  intro hc
  cases cs with
  | nil => exact lone hc rfl
  | cons d ds => exact escaped d ds hc rfl

theorem closesTriple_append (h : f.closesTriple cs = true) (tail : List Char) :
    f.closesTriple (cs ++ tail) = true := by
  obtain ⟨more, rfl⟩ := List.isPrefixOf_iff_prefix.1 h
  simp [closesTriple]

/-- What is read of the inside of a literal is one. -/
theorem body_eq_ok (h : f.body cs = .ok (v, n)) :
    ∃ text after, cs = text ++ after ∧ n = text.length ∧ f.Denotes text v := by
  fun_induction f.body cs generalizing v n with
  | case1 | case2 | case6 | case10 => cases h
  | case3 cs ih =>
    obtain ⟨w, k, hw, rfl, rfl⟩ := put_eq_ok h
    obtain ⟨text, after, rfl, rfl, ht⟩ := ih hw
    exact ⟨'\\' :: '\r' :: '\n' :: text, after, rfl, by simp; omega, .escapedPair ht⟩
  | case4 c cs hne ih =>
    obtain ⟨w, k, hw, rfl, rfl⟩ := put_eq_ok h
    obtain ⟨text, after, rfl, rfl, ht⟩ := ih hw
    exact ⟨'\\' :: c :: text, after, rfl, by simp; omega, .escaped (whole_of_append hne) ht⟩
  | case5 cs triple ih =>
    obtain ⟨w, k, hw, rfl, rfl⟩ := put_eq_ok h
    obtain ⟨text, after, rfl, rfl, ht⟩ := ih hw
    exact ⟨'\r' :: '\n' :: text, after, rfl, by simp; omega, .pair triple ht⟩
  | case7 c cs _ _ _ _ hq single =>
    obtain ⟨rfl, rfl⟩ := Prod.mk.inj (Except.ok.inj h)
    obtain rfl := eq_of_beq hq
    exact ⟨[f.quote], cs, rfl, rfl, .close (by simpa using single)⟩
  | case8 c cs _ _ _ _ hq triple hclose =>
    obtain ⟨rfl, rfl⟩ := Prod.mk.inj (Except.ok.inj h)
    obtain rfl := eq_of_beq hq
    obtain ⟨tail, rfl⟩ := List.isPrefixOf_iff_prefix.1 hclose
    exact ⟨[f.quote, f.quote, f.quote], tail, rfl, rfl, .closeTriple (by simpa using triple)⟩
  | case9 c cs hlone _ hescaped hpair hq triple hopen ih =>
    obtain ⟨w, k, hw, rfl, rfl⟩ := put_eq_ok h
    obtain ⟨text, after, rfl, rfl, ht⟩ := ih hw
    have htriple : f.triple = true := by simpa using triple
    have htext : f.closesTriple text = false :=
      Bool.eq_false_iff.2 fun hclose => hopen (closesTriple_append hclose after)
    exact ⟨c :: text, after, rfl, Nat.add_comm .., .char (ne_backslash hlone hescaped)
      (whole_of_append hpair) (fun _ => ⟨htriple, htext⟩) (fun _ => htriple) ht⟩
  | case11 c cs hlone _ hescaped hpair hq line ih =>
    obtain ⟨w, k, hw, rfl, rfl⟩ := put_eq_ok h
    obtain ⟨text, after, rfl, rfl, ht⟩ := ih hw
    have hquote : c ≠ f.quote := by simpa using hq
    exact ⟨c :: text, after, rfl, Nat.add_comm .., .char (ne_backslash hlone hescaped)
      (whole_of_append hpair) (fun hc => absurd hc hquote) (by simpa using line) ht⟩

theorem Denotes.ne_nil (h : f.Denotes cs v) : cs ≠ [] := by
  cases h <;> simp

theorem Denotes.head_append (h : f.Denotes cs v) (tail : List Char) :
    (cs ++ tail).head? = cs.head? := by
  obtain ⟨c, cs, rfl⟩ := List.exists_cons_of_ne_nil h.ne_nil
  rfl

theorem Denotes.length_triple (h : f.Denotes cs v) (triple : f.triple = true) : 2 < cs.length := by
  induction h with
  | close single => cases single.symm.trans triple
  | closeTriple => simp
  | escapedPair | escaped | pair | char => simp only [List.length_cons]; omega

theorem Denotes.closesTriple_eq (h : f.Denotes cs v) (triple : f.triple = true)
    (tail : List Char) : f.closesTriple (cs ++ tail) = f.closesTriple cs := by
  have hlen := h.length_triple triple
  obtain _ | ⟨c, _ | ⟨d, cs⟩⟩ := cs
  · simp at hlen
  · simp at hlen
  · rfl

/-- The inside of a literal is read whole, whatever comes behind it. -/
theorem Denotes.body_eq (h : f.Denotes cs v) (hq : isQuote f.quote = true) (tail : List Char) :
    f.body (cs ++ tail) = .ok (v, cs.length) := by
  have hplain : f.quote ≠ '\\' := by rintro heq; rw [heq] at hq; cases hq
  have hbreak : f.quote ≠ '\r' := by rintro heq; rw [heq] at hq; cases hq
  induction h with
  | close single =>
    rw [List.singleton_append, body_char hplain fun hr => absurd hr hbreak]
    simp [single]
  | closeTriple triple =>
    rw [List.cons_append, body_char hplain fun hr => absurd hr hbreak]
    simp [triple, closesTriple]
  | escapedPair _ ih =>
    rw [List.cons_append, List.cons_append, List.cons_append, body, ih, put_ok, Nat.add_comm]
    rfl
  | escaped whole more ih =>
    rw [List.cons_append, List.cons_append, body_escaped (by rwa [more.head_append]), ih, put_ok,
      Nat.add_comm]
    rfl
  | pair triple _ ih =>
    rw [List.cons_append, List.cons_append, body, if_pos triple, ih, put_ok, Nat.add_comm]
    rfl
  | @char c cs v plain whole quote line more ih =>
    rw [List.cons_append, body_char plain (by rwa [more.head_append]), ih, put_ok, Nat.add_comm]
    by_cases hc : c = f.quote
    · obtain ⟨triple, hopen⟩ := quote hc
      rw [more.closesTriple_eq triple, hopen, triple]
      simp
    · have hline : (isBreak c && !f.triple) = false := by simpa using line
      rw [hline]
      simp [hc]

/-- A literal between single quotes starts with a quote only if it is empty. -/
theorem Denotes.eq_close_or_head (h : f.Denotes cs v) (hq : isQuote f.quote = true)
    (single : f.triple = false) : cs = [f.quote] ∨ cs.head? ≠ some f.quote := by
  cases h with
  | close => exact .inl rfl
  | closeTriple triple | pair triple => cases single.symm.trans triple
  | escapedPair | escaped =>
    refine .inr fun heq => ?_
    rw [← Option.some.inj heq] at hq
    cases hq
  | char _ _ quote =>
    refine .inr fun heq => ?_
    cases single.symm.trans (quote (Option.some.inj heq)).1

end StringForm

/-! ## Literals with their quotes -/

section Strings

variable {letters inner v tail : List Char} {q : Char} {k : TokenKind} {n : Nat}

/-- The token of a string literal that denotes `value`, with `letters` before its quotes. -/
def stringKind (letters value : List Char) : TokenKind :=
  if letters.contains 'b' then .bytes (String.ofList value) else .string (String.ofList value)

theorem stringLiteral_single (hq : isQuote q = true)
    (h : StringForm.Denotes ⟨q, false, letters.contains 'r'⟩ inner v)
    (htail : tail.head? ≠ some q) :
    stringLiteral letters q (inner ++ tail) = .ok (stringKind letters v, inner.length + 1) := by
  have hsingle : [q, q].isPrefixOf (inner ++ tail) = false := by
    rw [Bool.eq_false_iff, ne_eq, List.isPrefixOf_iff_prefix]
    rintro ⟨more, hmore⟩
    obtain rfl | hhead := h.eq_close_or_head hq rfl
    · obtain rfl : q :: more = tail := (List.cons.inj hmore).2
      exact htail rfl
    · refine hhead ?_
      rw [← h.head_append tail, ← hmore]
      rfl
  rw [Nat.add_comm]
  unfold stringLiteral
  rw [hsingle]
  exact congrArg (Except.map _) (h.body_eq hq tail)

theorem stringLiteral_triple (hq : isQuote q = true)
    (h : StringForm.Denotes ⟨q, true, letters.contains 'r'⟩ inner v) :
    stringLiteral letters q ([q, q] ++ inner ++ tail) =
      .ok (stringKind letters v, inner.length + 3) := by
  have htriple : [q, q].isPrefixOf ([q, q] ++ inner ++ tail) = true := by
    rw [List.isPrefixOf_iff_prefix, List.append_assoc]
    exact List.prefix_append ..
  rw [Nat.add_comm]
  unfold stringLiteral
  rw [htriple]
  exact congrArg (Except.map _) (h.body_eq hq tail)

/-- What is read of a string literal stands between single quotes or between triple ones. -/
theorem stringLiteral_eq_ok {rest : List Char} (h : stringLiteral letters q rest = .ok (k, n)) :
    ∃ inner after v, k = stringKind letters v ∧
      (rest = inner ++ after ∧ n = inner.length + 1 ∧
          StringForm.Denotes ⟨q, false, letters.contains 'r'⟩ inner v ∨
        rest = [q, q] ++ inner ++ after ∧ n = inner.length + 3 ∧
          StringForm.Denotes ⟨q, true, letters.contains 'r'⟩ inner v) := by
  have hmap : ∀ {r : Except LexFault (List Char × Nat)} {m : Nat},
      (r.map fun v => (stringKind letters v.1, m + v.2)) = .ok (k, n) →
      ∃ v i, r = .ok (v, i) ∧ k = stringKind letters v ∧ n = i + m := by
    intro r m hr
    cases r with
    | error e => cases hr
    | ok p =>
      obtain ⟨rfl, rfl⟩ := Prod.mk.inj (Except.ok.inj hr)
      exact ⟨p.1, p.2, rfl, rfl, Nat.add_comm ..⟩
  unfold stringLiteral at h
  cases htriple : [q, q].isPrefixOf rest with
  | false =>
    rw [htriple] at h
    obtain ⟨v, i, hbody, rfl, rfl⟩ := hmap h
    obtain ⟨inner, after, hrest, rfl, hinner⟩ := StringForm.body_eq_ok hbody
    exact ⟨inner, after, v, rfl, .inl ⟨hrest, rfl, hinner⟩⟩
  | true =>
    rw [htriple] at h
    obtain ⟨more, rfl⟩ := List.isPrefixOf_iff_prefix.1 htriple
    obtain ⟨v, i, hbody, rfl, rfl⟩ := hmap h
    obtain ⟨inner, after, hrest, rfl, hinner⟩ := StringForm.body_eq_ok hbody
    obtain rfl : more = inner ++ after := hrest
    exact ⟨inner, after, v, rfl, .inr ⟨(List.append_assoc ..).symm, rfl, hinner⟩⟩

end Strings

end Gradual
