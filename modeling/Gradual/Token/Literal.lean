import Gradual.Number.Decimal
import Gradual.Text.Alphabetic
import Gradual.Token.Basic

/-!
# The token at the head of a text

A token that has a text of its own is recognised from the characters at the head of the input: the
result is its kind and the number of characters that it takes.

* `LexFault`: what can be wrong with a source text;
* `StringForm`, `StringForm.body`: the inside of a string literal, up to its closing quotes;
* `numberSpan`, `number`: numeric literals;
* `word`: names, reserved words, and strings with a letter before the quote;
* `recognise`, **`recognise_pos`**: the token at the head of a text takes at least one character.
-/

namespace Gradual

open Number Text Source

/-- What can be wrong with a source text. -/
inductive LexFault where
  | inconsistentDedent
  | strayContinuation
  | unterminatedString
  | unterminatedEscape
  | badInteger (text : String) (why : Integer.Fault)
  | badFloat (text : String)
  | badImaginary (text : String)
  | unexpected (c : Char)
  deriving DecidableEq, Repr

/-- A kind of token and the number of characters that it takes. -/
abbrev Recognised := TokenKind × Nat

/-! ## Strings -/

/-- How a string literal is delimited and whether backslashes stay in it as they are. -/
structure StringForm where
  quote : Char
  triple : Bool
  raw : Bool
  deriving DecidableEq, Repr

namespace StringForm

/-- The text denoted by a backslash and the character after it. A line break is dropped, and a
backslash before any other character stands for itself. -/
def unescape : Char → List Char
  | 'n' => ['\n']
  | 't' => ['\t']
  | 'r' => ['\r']
  | '0' => ['\x00']
  | '\\' => ['\\']
  | '\x27' => ['\x27']
  | '\x22' => ['\x22']
  | c => if isBreak c then [] else ['\\', c]

/-- The text denoted by a backslash and the character after it, in a literal of this form. -/
def escaped (f : StringForm) (c : Char) : List Char := if f.raw then ['\\', c] else unescape c

/-- Whether three quotes in a row stand at the head of a text whose first quote is already known. -/
def closesTriple (f : StringForm) (rest : List Char) : Bool := [f.quote, f.quote].isPrefixOf rest

/-- Puts `n` characters that denote `text` before the outcome of the rest. -/
def put (text : List Char) (n : Nat) (r : Except LexFault (List Char × Nat)) :
    Except LexFault (List Char × Nat) :=
  r.map fun v => (text ++ v.1, n + v.2)

/-- The text denoted by the inside of a literal, and the number of characters up to the end of the
closing quotes. A carriage return and a line feed are one line break, which denotes the former. -/
def body (f : StringForm) : List Char → Except LexFault (List Char × Nat)
  | [] => .error .unterminatedString
  | ['\\'] => .error .unterminatedEscape
  | '\\' :: '\r' :: '\n' :: cs => put (f.escaped '\r') 3 (f.body cs)
  | '\\' :: c :: cs => put (f.escaped c) 2 (f.body cs)
  | '\r' :: '\n' :: cs =>
    if f.triple then put ['\r'] 2 (f.body cs) else .error .unterminatedString
  | c :: cs =>
    if c == f.quote then
      if !f.triple then .ok ([], 1)
      else if f.closesTriple cs then .ok ([], 3)
      else put [c] 1 (f.body cs)
    else if isBreak c && !f.triple then .error .unterminatedString
    else put [c] 1 (f.body cs)

end StringForm

/-- The letters that may stand before the quote of a string literal, in lower case. -/
def stringLetters : List (List Char) :=
  [['r'], ['b'], ['f'], ['u'], ['r', 'b'], ['b', 'r'], ['f', 'r'], ['r', 'f']]

/-- Whether `c` opens a string literal. -/
def isQuote (c : Char) : Bool := c == '\x22' || c == '\x27'

/-- The string literal whose opening quote is `quote` and whose further text is `rest`; `letters`
are those before the quote, in lower case. -/
def stringLiteral (letters : List Char) (quote : Char) (rest : List Char) :
    Except LexFault Recognised :=
  let triple := [quote, quote].isPrefixOf rest
  let form : StringForm := ⟨quote, triple, letters.contains 'r'⟩
  let opening := if triple then 3 else 1
  (form.body (rest.drop (opening - 1))).map fun v =>
    let text := String.ofList v.1
    (if letters.contains 'b' then .bytes text else .string text, opening + v.2)

/-! ## Numbers -/

/-- Whether a text can stand after an exponent mark: a digit, or a sign and a digit. -/
def isExponent : List Char → Bool
  | [] => false
  | [c] => c.isDigit
  | c :: d :: _ => c.isDigit || ((c == '+' || c == '-') && d.isDigit)

/-- How many characters of a text belong to a decimal number, and whether a point or an exponent is
among them; `fractional` says whether one came before, and `afterMark` whether the character before
is an exponent mark. Underscores may stand between digits, and a point is not taken after a point or
an exponent. -/
def numberSpan (fractional afterMark : Bool) : List Char → Nat × Bool
  | [] => (0, fractional)
  | c :: cs =>
    let more (r : Nat × Bool) : Nat × Bool := (r.1 + 1, r.2)
    if c.isDigit || c == '_' || (afterMark && (c == '+' || c == '-')) then
      more (numberSpan fractional false cs)
    else if c == '.' && !fractional then more (numberSpan true false cs)
    else if (c == 'e' || c == 'E') && isExponent cs then more (numberSpan true true cs)
    else (0, fractional)

/-- The radix announced by the first two characters of a number. -/
def radix? : List Char → Option Nat
  | '0' :: c :: _ =>
    if c == 'x' || c == 'X' then some 16
    else if c == 'o' || c == 'O' then some 8
    else if c == 'b' || c == 'B' then some 2
    else none
  | _ => none

/-- The number literal at the head of a text. -/
def number (text : List Char) : Except LexFault Recognised :=
  match radix? text with
  | some radix =>
    let n := ((text.drop 2).takeWhile fun c => c.isAlphanum || c == '_').length
    let lexeme := text.take (n + 2)
    match Integer.read radix ((lexeme.drop 2).filter (· != '_')) with
    | .ok value => .ok (.integer value, n + 2)
    | .error why => .error (.badInteger (String.ofList lexeme) why)
  | none =>
    let (n, fractional) := numberSpan false false text
    let digits := (text.take n).filter (· != '_')
    let isImaginary := (text.drop n).head?.any fun c => c == 'j' || c == 'J'
    if isImaginary then
      match Binary64.read? digits with
      | some x => .ok (.imaginary x, n + 1)
      | none => .error (.badImaginary (String.ofList digits))
    else if fractional then
      match Binary64.read? digits with
      | some x => .ok (.float x, n)
      | none => .error (.badFloat (String.ofList digits))
    else
      match Integer.read 10 digits with
      | .ok value => .ok (.integer value, n)
      | .error why => .error (.badInteger (String.ofList digits) why)

/-! ## Words -/

/-- Whether `c` can start a name. -/
def isNameStart (c : Char) : Bool := isAlphabetic c || c == '_'

/-- Whether `c` can go on a name. -/
def isNamePart (c : Char) : Bool := isAlphanumeric c || c == '_'

/-- The name, reserved word or string literal whose first letter is `c`. -/
def word (c : Char) (rest : List Char) : Except LexFault Recognised :=
  let name := c :: rest.takeWhile isNamePart
  let letters := name.map Char.toLower
  let plain : Recognised :=
    match Keyword.ofSpelling? (String.ofList name) with
    | some k => (.keyword k, name.length)
    | none => (.identifier, name.length)
  match rest.dropWhile isNamePart with
  | quote :: after =>
    if isQuote quote && stringLetters.contains letters then
      (stringLiteral letters quote after).map fun r => (r.1, name.length + r.2)
    else .ok plain
  | [] => .ok plain

/-! ## The head of a text -/

/-- Whether a text starts with a number. -/
def startsNumber : List Char → Bool
  | [] => false
  | c :: cs => c.isDigit || (c == '.' && cs.head?.any Char.isDigit)

/-- The token at the head of the text `c :: rest`. -/
def recognise (c : Char) (rest : List Char) : Except LexFault Recognised :=
  if isQuote c then stringLiteral [] c rest
  else if startsNumber (c :: rest) then number (c :: rest)
  else if isNameStart c then word c rest
  else
    match Mark.find? (c :: rest) with
    | some (spelling, m) => .ok (.mark m, spelling.length)
    | none => .error (.unexpected c)

/-! ## A token takes at least one character -/

theorem stringLiteral_pos {letters : List Char} {q : Char} {rest : List Char} {k : TokenKind}
    {n : Nat} (h : stringLiteral letters q rest = .ok (k, n)) : 0 < n := by
  simp only [stringLiteral] at h
  generalize StringForm.body _ _ = r at h
  cases r with
  | error => simp [Except.map] at h
  | ok v =>
    simp only [Except.map, Except.ok.injEq, Prod.mk.injEq] at h
    obtain ⟨_, rfl⟩ := h
    split <;> omega

theorem numberSpan_pos {text : List Char} (h : startsNumber text = true) :
    0 < (numberSpan false false text).1 := by
  cases text with
  | nil => simp [startsNumber] at h
  | cons c cs =>
    simp only [startsNumber, Bool.or_eq_true, Bool.and_eq_true] at h
    simp only [numberSpan]
    split
    · simp
    · next hc =>
      split
      · simp
      · next hd =>
        simp only [Bool.false_and, Bool.or_false, Bool.or_eq_true, not_or] at hc
        simp only [Bool.not_false, Bool.and_true] at hd
        rcases h with h | h
        · exact absurd h hc.1
        · exact absurd h.1 hd

theorem number_pos {text : List Char} (hs : startsNumber text = true) {k : TokenKind} {n : Nat}
    (h : number text = .ok (k, n)) : 0 < n := by
  have hpos := numberSpan_pos hs
  simp only [number] at h
  split at h
  · split at h
    · simp only [Except.ok.injEq, Prod.mk.injEq] at h
      omega
    · simp at h
  · split at h
    · split at h
      · simp only [Except.ok.injEq, Prod.mk.injEq] at h
        omega
      · simp at h
    · split at h
      · split at h
        · simp only [Except.ok.injEq, Prod.mk.injEq] at h
          omega
        · simp at h
      · split at h
        · simp only [Except.ok.injEq, Prod.mk.injEq] at h
          omega
        · simp at h

theorem word_pos {c : Char} {rest : List Char} {k : TokenKind} {n : Nat}
    (h : word c rest = .ok (k, n)) : 0 < n := by
  have plain : ∀ {r : Recognised}, r = (match Keyword.ofSpelling?
      (String.ofList (c :: rest.takeWhile isNamePart)) with
      | some k => (.keyword k, (c :: rest.takeWhile isNamePart).length)
      | none => (.identifier, (c :: rest.takeWhile isNamePart).length)) → 0 < r.2 := by
    intro r hr
    subst hr
    split <;> simp
  simp only [word] at h
  split at h
  · split at h
    · generalize stringLiteral _ _ _ = r at h
      cases r with
      | error => simp [Except.map] at h
      | ok v =>
        simp only [Except.map, Except.ok.injEq, Prod.mk.injEq, List.length_cons] at h
        omega
    · exact plain (Except.ok.inj h).symm
  · exact plain (Except.ok.inj h).symm

theorem Mark.find?_pos {text : List Char} {e : String × Mark} (h : Mark.find? text = some e) :
    0 < e.1.length := by
  have hall : ∀ e ∈ Mark.table, 0 < e.1.length := by decide
  exact hall e (List.mem_of_find?_eq_some h)

/-- **A token takes at least one character.** -/
theorem recognise_pos {c : Char} {rest : List Char} {k : TokenKind} {n : Nat}
    (h : recognise c rest = .ok (k, n)) : 0 < n := by
  simp only [recognise] at h
  split at h
  · exact stringLiteral_pos h
  · split at h
    · next hs => exact number_pos hs h
    · split at h
      · exact word_pos h
      · split at h
        · next hm =>
          simp only [Except.ok.injEq, Prod.mk.injEq] at h
          have := Mark.find?_pos hm
          simp only at this
          omega
        · simp at h

end Gradual
