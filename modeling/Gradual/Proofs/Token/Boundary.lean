import Gradual.Proofs.Token.Strings

/-!
# The end of a lexeme

How a token is read depends on the characters behind it: on a quote behind a letter, on a digit
behind a point, on a longer operator. None of these decisions is changed by white space behind the
token.

* `Detached`: a text that starts with white space, or is empty;
* `WordForm`, `wordForm`: a word is a name, or the letters of a string;
* `stringLiteral_local`, `number_local`, `word_local`, `Mark.find?_local`: each kind of token is
  read alike before all detached texts;
* `Lexeme`, **`recognise_lexeme`**: so is each token that is read at the head of a text.
-/

namespace Gradual

open Source Text Number

/-! ## Detached texts -/

/-- White space: what separates tokens on a line or ends the line. -/
def isWhite (c : Char) : Bool := isSpacing c || isBreak c

/-- The text is empty or starts with white space. -/
def Detached (text : List Char) : Prop := ∀ c ∈ text.head?, isWhite c = true

theorem detached_nil : Detached [] := by simp [Detached]

theorem detached_cons {c : Char} (hc : isWhite c = true) (cs : List Char) : Detached (c :: cs) := by
  simpa [Detached] using hc

/-- A property that no white space has does not hold of the first character behind a token. -/
theorem Detached.eq_false {p : Char → Bool} {tail : List Char} (h : Detached tail)
    (hp : [' ', '\t', '\x0c', '\n', '\r'].all (!p ·) = true) : ∀ c ∈ tail.head?, p c = false := by
  intro c hc
  have hwhite := h c hc
  simp only [isWhite, isSpacing, isBreak, Bool.or_eq_true, beq_iff_eq] at hwhite
  simp only [List.all_cons, List.all_nil, Bool.and_true, Bool.and_eq_true, Bool.not_eq_true'] at hp
  obtain ⟨hspace, htab, hfeed, hline, hreturn⟩ := hp
  rcases hwhite with ((rfl | rfl) | rfl) | rfl | rfl <;> assumption

/-! ## Strings -/

section Strings

variable {letters tail : List Char} {q : Char} {k : TokenKind} {n : Nat}

theorem Detached.head_ne_quote (h : Detached tail) (hq : isQuote q = true) :
    tail.head? ≠ some q := by
  intro htail
  cases hq.symm.trans (h.eq_false (p := isQuote) rfl q htail)

/-- A string literal is read alike before all detached texts. -/
theorem stringLiteral_local {rest : List Char} (hq : isQuote q = true)
    (h : stringLiteral letters q rest = .ok (k, n)) :
    ∃ text after, rest = text ++ after ∧ n = text.length + 1 ∧
      ∀ tail, Detached tail → stringLiteral letters q (text ++ tail) = .ok (k, n) := by
  obtain ⟨inner, after, v, rfl, ⟨rfl, rfl, hinner⟩ | ⟨rfl, rfl, hinner⟩⟩ := stringLiteral_eq_ok h
  · exact ⟨inner, after, rfl, rfl, fun tail htail =>
      stringLiteral_single hq hinner (htail.head_ne_quote hq)⟩
  · exact ⟨[q, q] ++ inner, after, rfl, by simp, fun tail _ =>
      stringLiteral_triple hq hinner⟩

end Strings

/-! ## Numbers -/

section Numbers

variable {k : TokenKind} {n : Nat} {tail : List Char}

/-- Whether `c` may go on a decimal number. -/
def isNumberPart (c : Char) : Bool :=
  c.isDigit || c == '_' || c == '+' || c == '-' || c == '.' || c == 'e' || c == 'E'

theorem numberSpan_stop {fractional afterMark : Bool}
    (h : ∀ c ∈ tail.head?, isNumberPart c = false) :
    numberSpan fractional afterMark tail = (0, fractional) := by
  cases tail with
  | nil => rfl
  | cons c cs =>
    have hc := h c rfl
    simp only [isNumberPart, Bool.or_eq_false_iff] at hc
    simp [numberSpan, hc]

theorem isExponent_of_digit {c : Char} (hc : c.isDigit = true) (cs : List Char) :
    isExponent (c :: cs) = true := by
  cases cs <;> simp [isExponent, hc]

theorem isExponent_cases {text : List Char} (h : isExponent text = true) :
    (∃ c cs, text = c :: cs ∧ c.isDigit = true) ∨
      ∃ c d cs, text = c :: d :: cs ∧ (c = '+' ∨ c = '-') ∧ d.isDigit = true := by
  obtain _ | ⟨c, _ | ⟨d, cs⟩⟩ := text
  · simp [isExponent] at h
  · exact .inl ⟨c, [], rfl, h⟩
  · simp only [isExponent, Bool.or_eq_true, Bool.and_eq_true, beq_iff_eq] at h
    rcases h with hc | ⟨hsign, hd⟩
    · exact .inl ⟨c, d :: cs, rfl, hc⟩
    · exact .inr ⟨c, d, cs, rfl, hsign, hd⟩

/-- What follows an exponent mark is among the characters that a number takes. -/
theorem isExponent_local {text after : List Char} (h : isExponent (text ++ after) = true)
    (hspan : (numberSpan true true (text ++ after)).1 = text.length) (tail : List Char) :
    isExponent (text ++ tail) = true := by
  obtain ⟨c, cs, heq, hc⟩ | ⟨c, d, cs, heq, hsign, hd⟩ := isExponent_cases h
  · have hone : 0 < text.length := by
      rw [← hspan, heq]
      simp [numberSpan, hc]
    obtain ⟨b, text, rfl⟩ := List.exists_cons_of_length_pos hone
    obtain rfl := (List.cons.inj heq).1
    exact isExponent_of_digit hc (text ++ tail)
  · have htwo : 1 < text.length := by
      rw [← hspan, heq]
      rcases hsign with rfl | rfl <;> simp [numberSpan, hd]
    obtain _ | ⟨a, _ | ⟨b, text⟩⟩ := text
    · simp at htwo
    · simp at htwo
    · exact h

/-- The characters of a number are taken alike before all texts that cannot go on a number. -/
theorem numberSpan_local (fractional afterMark : Bool) (text : List Char) :
    ∃ lexeme after, text = lexeme ++ after ∧
      (numberSpan fractional afterMark text).1 = lexeme.length ∧
      ∀ tail : List Char, (∀ c ∈ tail.head?, isNumberPart c = false) →
        numberSpan fractional afterMark (lexeme ++ tail) =
          numberSpan fractional afterMark text := by
  fun_induction numberSpan fractional afterMark text with
  | case1 fractional afterMark => exact ⟨[], [], rfl, rfl, fun tail => numberSpan_stop⟩
  | case5 fractional afterMark c cs => exact ⟨[], c :: cs, rfl, rfl, fun tail => numberSpan_stop⟩
  | case2 fractional afterMark c cs more hc ih =>
    obtain ⟨lexeme, after, rfl, hlen, hlocal⟩ := ih
    refine ⟨c :: lexeme, after, rfl, congrArg (· + 1) hlen, fun tail htail => ?_⟩
    rw [List.cons_append, numberSpan, if_pos hc, hlocal tail htail]
  | case3 fractional afterMark c cs more hc hpoint ih =>
    obtain ⟨lexeme, after, rfl, hlen, hlocal⟩ := ih
    refine ⟨c :: lexeme, after, rfl, congrArg (· + 1) hlen, fun tail htail => ?_⟩
    rw [List.cons_append, numberSpan, if_neg hc, if_pos hpoint, hlocal tail htail]
  | case4 fractional afterMark c cs more hc hpoint hmark ih =>
    obtain ⟨lexeme, after, rfl, hlen, hlocal⟩ := ih
    obtain ⟨hmark, hexp⟩ := Bool.and_eq_true_iff.1 hmark
    refine ⟨c :: lexeme, after, rfl, congrArg (· + 1) hlen, fun tail htail => ?_⟩
    rw [List.cons_append, numberSpan, if_neg hc, if_neg hpoint, if_pos, hlocal tail htail]
    exact Bool.and_eq_true_iff.2 ⟨hmark, isExponent_local hexp hlen tail⟩

/-- Whether `c` announces a radix behind a zero. -/
def isRadixMark (c : Char) : Bool :=
  c == 'x' || c == 'X' || c == 'o' || c == 'O' || c == 'b' || c == 'B'

theorem radix?_eq_none_iff {text : List Char} :
    radix? text = none ↔ ∀ c cs, text = '0' :: c :: cs → isRadixMark c = false := by
  unfold radix?
  split
  · next c cs =>
    have hforall : (∀ d ds, '0' :: c :: cs = '0' :: d :: ds → isRadixMark d = false) ↔
        isRadixMark c = false := by simp
    rw [hforall]
    grind [isRadixMark]
  · next hne => exact iff_of_true rfl fun c cs heq => absurd heq (hne c cs)

theorem radix?_local {text after : List Char} (h : radix? (text ++ after) = none)
    (htail : ∀ c ∈ tail.head?, c ≠ '0' ∧ isRadixMark c = false) : radix? (text ++ tail) = none := by
  rw [radix?_eq_none_iff] at h ⊢
  intro c cs heq
  obtain _ | ⟨a, _ | ⟨b, text⟩⟩ := text
  · obtain rfl : tail = '0' :: c :: cs := heq
    exact absurd rfl (htail '0' rfl).1
  · obtain rfl : tail = c :: cs := (List.cons.inj heq).2
    exact (htail c rfl).2
  · obtain ⟨rfl, hcons⟩ := List.cons.inj heq
    obtain ⟨rfl, -⟩ := List.cons.inj hcons
    exact h b _ rfl

/-- Whether `c` may stand behind the mark of a radix. -/
def isRadixPart (c : Char) : Bool := c.isAlphanum || c == '_'

/-- Whether `c` makes the number before it imaginary. -/
def isImaginaryMark (c : Char) : Bool := c == 'j' || c == 'J'

/-- A number with the mark of a radix is read from the letters and digits behind the mark. -/
theorem number_radix {c : Char} {cs : List Char} {radix : Nat}
    (hradix : radix? ('0' :: c :: cs) = some radix) :
    number ('0' :: c :: cs) =
      ((Integer.read radix ((cs.takeWhile isRadixPart).filter (· != '_'))).map fun value =>
        (TokenKind.integer value, (cs.takeWhile isRadixPart).length + 2)).mapError
      (.badInteger (String.ofList ('0' :: c :: cs.takeWhile isRadixPart))) := by
  have htake : cs.take (cs.takeWhile isRadixPart).length = cs.takeWhile isRadixPart :=
    (List.prefix_iff_eq_take.1 (List.takeWhile_prefix _)).symm
  have hspan : cs.takeWhile (fun c => c.isAlphanum || c == '_') = cs.takeWhile isRadixPart := rfl
  simp only [number, hradix, List.drop_succ_cons, List.drop_zero, List.take_succ_cons, hspan, htake]
  cases Integer.read radix ((cs.takeWhile isRadixPart).filter (· != '_')) <;> rfl

theorem number_of_radix {c : Char} {radix value : Nat} {digits : List Char}
    (hradix : radix? ['0', c] = some radix) (hdigits : ∀ d ∈ digits, isRadixPart d = true)
    (hread : Integer.read radix (digits.filter (· != '_')) = .ok value)
    (htail : ∀ d ∈ tail.head?, isRadixPart d = false) :
    number (('0' :: c :: digits) ++ tail) = .ok (.integer value, digits.length + 2) := by
  have hspan : (digits ++ tail).takeWhile isRadixPart = digits :=
    takeWhile_append_stop hdigits htail
  have hnumber := @number_radix c (digits ++ tail) radix hradix
  rw [hspan, hread] at hnumber
  exact hnumber

theorem number_radix_eq_ok {c : Char} {cs : List Char} {radix : Nat}
    (hradix : radix? ('0' :: c :: cs) = some radix) (h : number ('0' :: c :: cs) = .ok (k, n)) :
    ∃ digits after value, cs = digits ++ after ∧ (∀ d ∈ digits, isRadixPart d = true) ∧
      Integer.read radix (digits.filter (· != '_')) = .ok value ∧ k = .integer value ∧
      n = digits.length + 2 := by
  rw [number_radix hradix] at h
  cases hread : Integer.read radix ((cs.takeWhile isRadixPart).filter (· != '_')) with
  | error why =>
    rw [hread] at h
    cases h
  | ok value =>
    rw [hread] at h
    obtain ⟨rfl, rfl⟩ := Prod.mk.inj (Except.ok.inj h)
    exact ⟨_, _, value, List.takeWhile_append_dropWhile.symm, fun d => List.mem_takeWhile_imp,
      hread, rfl, rfl⟩

/-- How a decimal number is read depends on its characters, and on whether it is imaginary. -/
theorem number_congr {lexeme after : List Char} (hradix : radix? (lexeme ++ after) = none)
    (hlen : (numberSpan false false (lexeme ++ after)).1 = lexeme.length)
    (hradix' : radix? (lexeme ++ tail) = none)
    (hspan : numberSpan false false (lexeme ++ tail) = numberSpan false false (lexeme ++ after))
    (hmark : tail.head?.any isImaginaryMark = after.head?.any isImaginaryMark) :
    number (lexeme ++ tail) = number (lexeme ++ after) := by
  unfold number
  rw [hradix, hradix', hspan]
  generalize numberSpan false false (lexeme ++ after) = p at hlen
  obtain ⟨m, fractional⟩ := p
  obtain rfl : m = lexeme.length := hlen
  unfold isImaginaryMark at hmark
  simp only [List.take_left, List.drop_left, hmark]

theorem number_length {text : List Char} (hradix : radix? text = none)
    (h : number text = .ok (k, n)) :
    n = (numberSpan false false text).1 +
      ((text.drop (numberSpan false false text).1).head?.any isImaginaryMark).toNat := by
  unfold number at h
  rw [hradix] at h
  generalize numberSpan false false text = p at *
  obtain ⟨m, fractional⟩ := p
  change n = m + ((text.drop m).head?.any isImaginaryMark).toNat
  simp only at h
  split at h
  · next hmark =>
    have hmark : (text.drop m).head?.any isImaginaryMark = true := hmark
    rw [hmark]
    split at h
    · exact (Prod.mk.inj (Except.ok.inj h)).2.symm
    · cases h
  · next hmark =>
    have hmark : (text.drop m).head?.any isImaginaryMark = false := Bool.eq_false_iff.2 hmark
    rw [hmark]
    split at h
    all_goals
      split at h
      · exact (Prod.mk.inj (Except.ok.inj h)).2.symm
      · cases h

/-- A number is read alike before all detached texts. -/
theorem number_local {text : List Char} (h : number text = .ok (k, n)) :
    ∃ lexeme after, text = lexeme ++ after ∧ n = lexeme.length ∧
      ∀ tail, Detached tail → number (lexeme ++ tail) = .ok (k, n) := by
  cases hradix : radix? text with
  | some radix =>
    obtain ⟨c, cs, rfl, -⟩ := radix?_eq_some hradix
    obtain ⟨digits, after, value, rfl, hdigits, hread, rfl, rfl⟩ := number_radix_eq_ok hradix h
    exact ⟨'0' :: c :: digits, after, rfl, rfl, fun tail htail =>
      number_of_radix hradix hdigits hread (htail.eq_false rfl)⟩
  | none =>
    obtain ⟨lexeme, after, rfl, hlen, hlocal⟩ := numberSpan_local false false text
    have hn := number_length hradix h
    rw [hlen, List.drop_left] at hn
    have hcongr : ∀ tail : List Char,
        (∀ c ∈ tail.head?, isNumberPart c = false ∧ isRadixMark c = false) →
        tail.head?.any isImaginaryMark = after.head?.any isImaginaryMark →
        number (lexeme ++ tail) = .ok (k, n) := fun tail htail hmark => by
      rw [← h]
      refine number_congr hradix hlen (radix?_local hradix fun c hc => ?_)
        (hlocal tail fun c hc => (htail c hc).1) hmark
      refine ⟨?_, (htail c hc).2⟩
      rintro rfl
      cases (htail _ hc).1
    cases hmark : after.head?.any isImaginaryMark with
    | false =>
      rw [hmark] at hn
      refine ⟨lexeme, after, rfl, hn, fun tail htail => hcongr tail (fun c hc =>
        ⟨htail.eq_false rfl c hc, htail.eq_false rfl c hc⟩) ?_⟩
      rw [hmark, Option.any_eq_false]
      exact fun c hc => by simp [htail.eq_false (p := isImaginaryMark) rfl c hc]
    | true =>
      rw [hmark] at hn
      -- the mark belongs to the lexeme, and stands behind the characters of the span
      obtain ⟨c, hc, himaginary⟩ := (Option.any_eq_true ..).1 hmark
      obtain ⟨after, rfl⟩ := List.head?_eq_some_iff.1 hc
      refine ⟨lexeme ++ [c], after, (List.append_cons ..), by simpa using hn, fun tail _ => ?_⟩
      rw [← List.append_cons]
      refine hcongr (c :: tail) (fun d hd => ?_) rfl
      obtain rfl := Option.some.inj hd
      simp only [isImaginaryMark, Bool.or_eq_true, beq_iff_eq] at himaginary
      rcases himaginary with rfl | rfl <;> exact ⟨rfl, rfl⟩

end Numbers

/-! ## Words and marks -/

section Words

variable {k : TokenKind} {n : Nat} {c : Char} {name tail : List Char}

/-- The token of a word that is no string: a reserved word or a name. -/
def wordKind (name : List Char) : TokenKind :=
  match Keyword.ofSpelling? (String.ofList name) with
  | some k => .keyword k
  | none => .identifier

theorem dropWhile_append_stop {α : Type} {p : α → Bool} {a b : List α}
    (inside : ∀ c ∈ a, p c = true) (stop : ∀ c ∈ b.head?, p c = false) :
    (a ++ b).dropWhile p = b := by
  rw [List.dropWhile_append_of_pos inside]
  cases b with
  | nil => rfl
  | cons c b => exact List.dropWhile_cons_of_neg (by simp [stop c rfl])

/-- A list is cut where a property fails first. -/
theorem exists_span {α : Type} (p : α → Bool) (l : List α) : ∃ a b, l = a ++ b ∧
    (∀ c ∈ a, p c = true) ∧ ∀ c ∈ b.head?, p c = false := by
  refine ⟨_, _, List.takeWhile_append_dropWhile.symm, fun c => List.mem_takeWhile_imp, ?_⟩
  intro c hc
  have hhead := List.head?_dropWhile_not p l
  simpa [Option.mem_def.1 hc] using hhead

theorem word_of_name (hname : ∀ d ∈ name, isNamePart d = true)
    (htail : ∀ d ∈ tail.head?, isNamePart d = false)
    (hplain : ∀ q ∈ tail.head?,
      (isQuote q && stringLetters.contains ((c :: name).map Char.toLower)) = false) :
    word c (name ++ tail) = .ok (wordKind (c :: name), name.length + 1) := by
  have htake := takeWhile_append_stop hname htail
  have hdrop := dropWhile_append_stop hname htail
  cases tail with
  | nil =>
    cases hkey : Keyword.ofSpelling? (String.ofList (c :: name)) <;>
      simp only [word, wordKind, htake, hdrop, hkey, List.length_cons]
  | cons q after =>
    cases hkey : Keyword.ofSpelling? (String.ofList (c :: name)) <;>
      simp only [word, wordKind, htake, hdrop, hkey, hplain q rfl, List.length_cons,
        Bool.false_eq_true, if_false]

theorem isNamePart_of_quote {q : Char} (hq : isQuote q = true) : isNamePart q = false := by
  rcases isQuote_iff.1 hq with rfl | rfl <;> decide +kernel

theorem word_of_string {q : Char} {after : List Char} (hname : ∀ d ∈ name, isNamePart d = true)
    (hq : isQuote q = true)
    (hletters : stringLetters.contains ((c :: name).map Char.toLower) = true) :
    word c (name ++ q :: after) = (stringLiteral ((c :: name).map Char.toLower) q after).map
      fun r => (r.1, (c :: name).length + r.2) := by
  have hstop : ∀ d ∈ (q :: after).head?, isNamePart d = false := by
    simpa using isNamePart_of_quote hq
  have htake := takeWhile_append_stop hname hstop
  have hdrop := dropWhile_append_stop hname hstop
  simp only [word, htake, hdrop, hq, hletters, Bool.and_self, if_true]

/-- A word with first letter `c` is a name or a reserved word, or it is the letters of a string. -/
inductive WordForm (c : Char) : List Char → Prop
  | name {name after : List Char} (part : ∀ d ∈ name, isNamePart d = true)
      (stop : ∀ d ∈ after.head?, isNamePart d = false)
      (plain : ∀ q ∈ after.head?,
        (isQuote q && stringLetters.contains ((c :: name).map Char.toLower)) = false) :
      WordForm c (name ++ after)
  | string {name after : List Char} {q : Char} (part : ∀ d ∈ name, isNamePart d = true)
      (quote : isQuote q = true)
      (letters : stringLetters.contains ((c :: name).map Char.toLower) = true) :
      WordForm c (name ++ q :: after)

theorem wordForm (c : Char) (cs : List Char) : WordForm c cs := by
  obtain ⟨name, after, rfl, part, stop⟩ := exists_span isNamePart cs
  by_cases plain : ∀ q ∈ after.head?,
      (isQuote q && stringLetters.contains ((c :: name).map Char.toLower)) = false
  · exact .name part stop plain
  · push Not at plain
    obtain ⟨q, hq, hstring⟩ := plain
    obtain ⟨after, rfl⟩ := List.head?_eq_some_iff.1 hq
    obtain ⟨quote, letters⟩ := Bool.and_eq_true_iff.1 (eq_true_of_ne_false hstring)
    exact .string part quote letters

/-- A word is read alike before all detached texts. -/
theorem word_local {cs : List Char} (h : word c cs = .ok (k, n)) :
    ∃ text after, cs = text ++ after ∧ n = text.length + 1 ∧
      ∀ tail, Detached tail → word c (text ++ tail) = .ok (k, n) := by
  obtain @⟨name, after, part, stop, plain⟩ | @⟨name, after, q, part, quote, letters⟩ :=
    wordForm c cs
  · rw [word_of_name part stop plain] at h
    obtain ⟨rfl, rfl⟩ := Prod.mk.inj (Except.ok.inj h)
    refine ⟨name, after, rfl, rfl, fun tail htail => word_of_name part ?_ fun q hq => ?_⟩
    · exact htail.eq_false (by decide +kernel)
    · rw [htail.eq_false (p := isQuote) rfl q hq, Bool.false_and]
  · rw [word_of_string part quote letters] at h
    cases hs : stringLiteral ((c :: name).map Char.toLower) q after with
    | error e => rw [hs] at h; cases h
    | ok r =>
      rw [hs] at h
      obtain ⟨rfl, rfl⟩ := Prod.mk.inj (Except.ok.inj h)
      obtain ⟨text, after, rfl, hlen, hlocal⟩ := stringLiteral_local quote hs
      refine ⟨name ++ q :: text, after, by simp, by simp; omega, fun tail htail => ?_⟩
      rw [List.append_assoc, List.cons_append, word_of_string part quote letters,
        hlocal tail htail]
      rfl

/-- A text without white space that starts a longer one ends before its white space. -/
theorem prefix_of_detached {a b tail : List Char} (hb : ∀ c ∈ b, isWhite c = false)
    (htail : Detached tail) (h : b <+: a ++ tail) : b <+: a := by
  obtain hba | ⟨more, rfl⟩ := List.prefix_or_prefix_of_prefix h (List.prefix_append a tail)
  · exact hba
  · cases more with
    | nil => simp
    | cons c more =>
      obtain ⟨after, hafter⟩ := (List.prefix_append_right_inj a).1 h
      have hwhite := htail c (by rw [← hafter]; rfl)
      cases hwhite.symm.trans (hb c (by simp))

/-- A mark is read alike before all detached texts. -/
theorem Mark.find?_local {text : List Char} {e : String × Mark} (h : Mark.find? text = some e) :
    ∃ after, text = e.1.toList ++ after ∧
      ∀ tail, Detached tail → Mark.find? (e.1.toList ++ tail) = some e := by
  have hwhite : (Mark.table.all (·.1.toList.all (!isWhite ·))) = true := by decide
  simp only [List.all_eq_true, Bool.not_eq_true'] at hwhite
  unfold Mark.find? at h
  obtain ⟨hstart, before, more, htable, hbefore⟩ := List.find?_eq_some_iff_append.1 h
  obtain ⟨after, rfl⟩ := List.isPrefixOf_iff_prefix.1 hstart
  refine ⟨after, rfl, fun tail htail => List.find?_eq_some_iff_append.2
    ⟨List.isPrefixOf_iff_prefix.2 (List.prefix_append ..), before, more, htable, fun d hd => ?_⟩⟩
  -- an earlier spelling that starts here would start the text before
  have hmem : d ∈ Mark.table := by rw [htable]; simp [hd]
  have hd' := hbefore d hd
  rw [Bool.not_eq_true', Bool.eq_false_iff, ne_eq, List.isPrefixOf_iff_prefix] at hd' ⊢
  exact fun h => hd' ((prefix_of_detached (hwhite d hmem) htail h).trans (List.prefix_append ..))

end Words

/-! ## The head of a text -/

section Lexeme

variable {k : TokenKind} {n : Nat} {c : Char} {cs : List Char}

/-- The text is that of a token of kind `k`, before all detached texts. -/
structure Lexeme (k : TokenKind) (text : List Char) : Prop where
  code : StartsCode text
  whole : text.head? ≠ some '\\'
  read : ∀ c cs tail, text = c :: cs → Detached tail →
    recognise c (cs ++ tail) = .ok (k, cs.length + 1)

theorem startsNumber_local {text after tail : List Char} (htail : Detached tail)
    (h : startsNumber (c :: (text ++ after)) = false) :
    startsNumber (c :: (text ++ tail)) = false := by
  cases text with
  | cons d text => exact h
  | nil =>
    simp only [startsNumber, Bool.or_eq_false_iff] at h ⊢
    refine ⟨h.1, ?_⟩
    have hdigit : tail.head?.any Char.isDigit = false := by
      rw [Option.any_eq_false]
      exact fun d hd => by simp [htail.eq_false (p := Char.isDigit) rfl d hd]
    rw [List.nil_append, hdigit, Bool.and_false]

theorem startsNumber_of_number {text after tail : List Char}
    (h : startsNumber (c :: (text ++ after)) = true)
    (hread : number (c :: text) = .ok (k, n)) :
    startsNumber (c :: (text ++ tail)) = true := by
  cases text with
  | cons d text => exact h
  | nil =>
    simp only [startsNumber, Bool.or_eq_true, Bool.and_eq_true] at h ⊢
    obtain hc | ⟨hc, -⟩ := h
    · exact .inl hc
    · -- a point alone is no number
      obtain rfl := eq_of_beq hc
      have hnone : (number ['.']).toOption = none := by decide +kernel
      rw [hread] at hnone
      cases hnone

/-- The token at the head of a text is read alike before all detached texts. -/
theorem recognise_local (h : recognise c cs = .ok (k, n)) :
    ∃ text after, cs = text ++ after ∧ n = text.length + 1 ∧
      ∀ tail, Detached tail → recognise c (text ++ tail) = .ok (k, n) := by
  unfold recognise at h
  split at h
  · next hquote =>
    obtain ⟨text, after, rfl, hlen, hlocal⟩ := stringLiteral_local hquote h
    refine ⟨text, after, rfl, hlen, fun tail htail => ?_⟩
    rw [recognise, if_pos hquote, hlocal tail htail]
  · next hquote =>
    split at h
    · next hnumber =>
      obtain ⟨lexeme, after, hcs, rfl, hlocal⟩ := number_local h
      obtain ⟨d, text, rfl⟩ := List.exists_cons_of_length_pos (number_pos hnumber h)
      obtain ⟨rfl, rfl⟩ := List.cons.inj hcs
      have halone := hlocal [] detached_nil
      rw [List.append_nil] at halone
      refine ⟨text, after, rfl, rfl, fun tail htail => ?_⟩
      rw [recognise, if_neg hquote, if_pos (startsNumber_of_number hnumber halone)]
      exact hlocal tail htail
    · next hnumber =>
      have hnumber : startsNumber (c :: cs) = false := Bool.eq_false_iff.2 hnumber
      split at h
      · next hname =>
        obtain ⟨text, after, rfl, hlen, hlocal⟩ := word_local h
        refine ⟨text, after, rfl, hlen, fun tail htail => ?_⟩
        rw [recognise, if_neg hquote, startsNumber_local htail hnumber, if_neg Bool.false_ne_true,
          if_pos hname, hlocal tail htail]
      · next hname =>
        split at h
        · next spelling m hfind =>
          obtain ⟨rfl, rfl⟩ := Prod.mk.inj (Except.ok.inj h)
          obtain ⟨after, hcs, hlocal⟩ := Mark.find?_local hfind
          have hpos : 0 < spelling.toList.length := by
            rw [String.length_toList]
            exact Mark.find?_pos hfind
          obtain ⟨d, text, htext⟩ := List.exists_cons_of_length_pos hpos
          rw [htext] at hcs hlocal
          obtain ⟨rfl, rfl⟩ := List.cons.inj hcs
          have hlen : spelling.length = text.length + 1 := by
            rw [← String.length_toList, htext]
            rfl
          refine ⟨text, after, rfl, hlen, fun tail htail => ?_⟩
          have hfound : Mark.find? (c :: (text ++ tail)) = some (spelling, m) := hlocal tail htail
          rw [recognise, if_neg hquote, startsNumber_local htail hnumber,
            if_neg Bool.false_ne_true, if_neg hname, hfound]
        · cases h

/-- **A token that is read at the head of a text is read alike before all detached texts.** -/
theorem recognise_lexeme (h : recognise c cs = .ok (k, n)) (code : StartsCode (c :: cs))
    (whole : c ≠ '\\') : Lexeme k ((c :: cs).take n) := by
  obtain ⟨text, after, rfl, rfl, hlocal⟩ := recognise_local h
  have htake : (c :: (text ++ after)).take (text.length + 1) = c :: text := by simp
  obtain ⟨d, ds, hcons, hcode⟩ := code
  obtain ⟨rfl, -⟩ := List.cons.inj hcons
  rw [htake]
  refine ⟨⟨c, text, rfl, hcode⟩, fun hc => whole (Option.some.inj hc), ?_⟩
  rintro d ds tail hd htail
  obtain ⟨rfl, rfl⟩ := List.cons.inj hd
  exact hlocal tail htail

end Lexeme

end Gradual
