import Gradual.Proofs.Token.Respacing
import Mathlib.Data.Nat.Digits.Defs

/-!
# What integer literals denote

An integer literal is a run of digits with underscores among them, in the radix ten or behind the
mark of another radix. It is read as the number that its digits denote, or it is refused as a whole
because that number is too large.

* `digitTable`, `Digits`, `Numeral`: digits, runs of digits, and literals with their numbers;
* `Digits.numberFrom`, `Digits.readFrom_eq`: digits are read exactly, up to the limit;
* `number_decimal`, `Numeral.number_eq`: a literal is read as one number;
* **`tokenize_numeral`**: as a text of its own it is one token, or its fault is at its start.
-/

namespace Gradual

open Source Number

/-! ## Literals and their numbers -/

/-- The digits of all radices with their values. -/
def digitTable : List (Char × Nat) :=
  "0123456789abcdef".toList.zipIdx ++ "ABCDEF".toList.zipIdx 10

/-- The letters that mark a radix behind a zero. -/
def radixTable : List (Char × Nat) :=
  [('x', 16), ('X', 16), ('o', 8), ('O', 8), ('b', 2), ('B', 2)]

/-- A run of digits and underscores, and the values of its digits from the left. -/
inductive Digits (radix : Nat) : List Char → List Nat → Prop
  | nil : Digits radix [] []
  | underscore {cs : List Char} {ds : List Nat} (more : Digits radix cs ds) :
      Digits radix ('_' :: cs) ds
  | digit {c : Char} {d : Nat} {cs : List Char} {ds : List Nat} (value : (c, d) ∈ digitTable)
      (small : d < radix) (more : Digits radix cs ds) : Digits radix (c :: cs) (d :: ds)

theorem digits_nil_iff {radix : Nat} {ds : List Nat} : Digits radix [] ds ↔ ds = [] := by
  constructor
  · rintro ⟨⟩
    rfl
  · rintro rfl
    exact .nil

theorem digits_cons_iff {radix : Nat} {c : Char} {cs : List Char} {ds : List Nat} :
    Digits radix (c :: cs) ds ↔ (c = '_' ∧ Digits radix cs ds) ∨
      ∃ d ∈ ds.head?, (c, d) ∈ digitTable ∧ d < radix ∧ Digits radix cs ds.tail := by
  constructor
  · rintro (_ | more | ⟨value, small, more⟩)
    · exact .inl ⟨rfl, more⟩
    · exact .inr ⟨_, rfl, value, small, more⟩
  · rintro (⟨rfl, more⟩ | ⟨d, hd, value, small, more⟩)
    · exact .underscore more
    · obtain ⟨ds, rfl⟩ := List.head?_eq_some_iff.1 hd
      exact .digit value small more

instance decidableDigits (radix : Nat) : (cs : List Char) → (ds : List Nat) →
    Decidable (Digits radix cs ds)
  | [], _ => decidable_of_iff _ digits_nil_iff.symm
  | _ :: cs, ds =>
    have := decidableDigits radix cs ds
    have := decidableDigits radix cs ds.tail
    decidable_of_iff _ digits_cons_iff.symm

/-- An integer literal and the number that it denotes. -/
inductive Numeral : List Char → Nat → Prop
  | decimal {c : Char} {cs : List Char} {ds : List Nat} (first : c ≠ '_')
      (digits : Digits 10 (c :: cs) ds) : Numeral (c :: cs) (Nat.ofDigits 10 ds.reverse)
  | marked {c : Char} {radix : Nat} {cs : List Char} {ds : List Nat}
      (mark : (c, radix) ∈ radixTable) (digits : Digits radix cs ds) (some : ds ≠ []) :
      Numeral ('0' :: c :: cs) (Nat.ofDigits radix ds.reverse)

/-! ## Digits are read exactly -/

namespace Digits

variable {radix : Nat} {cs : List Char} {ds : List Nat}

/-- What holds of underscores and of the digits of a radix holds in a run of them. -/
theorem forall_mem (h : Digits radix cs ds) {p : Char → Bool} (underscore : p '_' = true)
    (digit : ∀ e ∈ digitTable, e.2 < radix → p e.1 = true) : ∀ c ∈ cs, p c = true := by
  induction h with
  | nil => simp
  | underscore _ ih => exact List.forall_mem_cons.2 ⟨underscore, ih⟩
  | digit value small _ ih => exact List.forall_mem_cons.2 ⟨digit _ value small, ih⟩

theorem breakless (h : Digits radix cs ds) : ∀ c ∈ cs, isBreak c = false := by
  have htable : ∀ e ∈ digitTable, (!isBreak e.1) = true := by decide
  simpa using h.forall_mem (p := (!isBreak ·)) rfl fun e he _ => htable e he

theorem filter_digit {c : Char} {d : Nat} (value : (c, d) ∈ digitTable) (cs : List Char) :
    (c :: cs).filter (· != '_') = c :: cs.filter (· != '_') := by
  have htable : ∀ e ∈ digitTable, (e.1 != '_') = true := by decide
  exact List.filter_cons_of_pos (p := (· != '_')) (htable (c, d) value)

theorem filter_ne_nil (h : Digits radix cs ds) (hne : ds ≠ []) : cs.filter (· != '_') ≠ [] := by
  induction h with
  | nil => exact absurd rfl hne
  | underscore _ ih => exact ih hne
  | digit value =>
    rw [filter_digit value]
    exact List.cons_ne_nil _ _

theorem digit?_eq {c : Char} {d : Nat} (hradix : radix ∈ [2, 8, 10, 16])
    (value : (c, d) ∈ digitTable) (small : d < radix) : digit? radix c = some d := by
  have htable : ∀ radix ∈ [2, 8, 10, 16], ∀ e ∈ digitTable, e.2 < radix →
      digit? radix e.1 = some e.2 := by decide
  exact htable radix hradix (c, d) value small

/-- The number of the digits `ds` behind those that make up `v`. -/
def numberFrom (radix v : Nat) (ds : List Nat) : Nat := ds.foldl (fun v d => v * radix + d) v

theorem numberFrom_cons (radix v d : Nat) (ds : List Nat) :
    numberFrom radix v (d :: ds) = numberFrom radix (v * radix + d) ds := rfl

theorem numberFrom_zero (radix : Nat) (ds : List Nat) :
    numberFrom radix 0 ds = Nat.ofDigits radix ds.reverse := by
  rw [numberFrom, Nat.ofDigits_eq_foldr, List.foldr_reverse]
  congr 1
  funext v d
  simp only [Nat.cast_id]
  ring

/-- More digits do not make a number smaller. -/
theorem le_numberFrom (hradix : 0 < radix) (ds : List Nat) (v : Nat) :
    v ≤ numberFrom radix v ds := by
  induction ds generalizing v with
  | nil => exact Nat.le_refl v
  | cons d ds ih =>
    calc v ≤ v * radix := Nat.le_mul_of_pos_right v hradix
      _ ≤ v * radix + d := Nat.le_add_right ..
      _ ≤ numberFrom radix v (d :: ds) := ih _

/-- Digits are read exactly, or refused if they denote too large a number. -/
theorem readFrom_eq (h : Digits radix cs ds) (hradix : radix ∈ [2, 8, 10, 16]) {v : Nat}
    (hv : v ≤ Integer.largest) :
    Integer.readFrom radix v (cs.filter (· != '_')) =
      if numberFrom radix v ds ≤ Integer.largest then .ok (numberFrom radix v ds)
      else .error .tooLarge := by
  have hpos : 0 < radix := by
    have hall : ∀ radix ∈ [2, 8, 10, 16], 0 < radix := by decide
    exact hall radix hradix
  induction h generalizing v with
  | nil => exact (if_pos hv).symm
  | underscore _ ih => exact ih hv
  | @digit c d cs ds value small _ ih =>
    rw [filter_digit value, Integer.readFrom, digit?_eq hradix value small, numberFrom_cons]
    by_cases hnext : v * radix + d ≤ Integer.largest
    · simp only [if_pos hnext, ih hnext]
    · -- the reader stops here, and the digits behind do not bring the number back below the limit
      have hlarge : ¬ numberFrom radix (v * radix + d) ds ≤ Integer.largest := fun hle =>
        hnext ((le_numberFrom hpos ds _).trans hle)
      simp only [if_neg hnext, if_neg hlarge]

theorem read_eq (h : Digits radix cs ds) (hradix : radix ∈ [2, 8, 10, 16]) (hne : ds ≠ []) :
    Integer.read radix (cs.filter (· != '_')) =
      if Nat.ofDigits radix ds.reverse ≤ Integer.largest then .ok (Nat.ofDigits radix ds.reverse)
      else .error .tooLarge := by
  have hread : Integer.read radix (cs.filter (· != '_')) =
      Integer.readFrom radix 0 (cs.filter (· != '_')) := by
    obtain ⟨c, digits, hdigits⟩ := List.exists_cons_of_ne_nil (h.filter_ne_nil hne)
    rw [hdigits, Integer.read]
  rw [hread, h.readFrom_eq hradix (Nat.zero_le _), numberFrom_zero]

end Digits

/-! ## A literal is read as one number -/

section Decimal

variable {text : List Char}

theorem numberSpan_digits (h : ∀ c ∈ text, (c.isDigit || c == '_') = true)
    (fractional afterMark : Bool) :
    numberSpan fractional afterMark text = (text.length, fractional) := by
  induction text generalizing afterMark with
  | nil => rfl
  | cons c cs ih =>
    obtain ⟨hc, hcs⟩ := List.forall_mem_cons.1 h
    rw [numberSpan, hc, Bool.true_or, if_pos rfl, ih hcs]
    rfl

/-- A number without the mark of a radix, a point and an exponent is read from its digits. -/
theorem number_decimal (h : ∀ c ∈ text, (c.isDigit || c == '_') = true) :
    number text = ((Integer.read 10 (text.filter (· != '_'))).map fun value =>
      (TokenKind.integer value, text.length)).mapError
      (.badInteger (String.ofList (text.filter (· != '_')))) := by
  have hradix : radix? text = none := by
    refine radix?_eq_none_iff.2 fun c cs htext => ?_
    have hc := h c (by simp [htext])
    refine Bool.eq_false_iff.2 fun hmark => ?_
    simp only [isRadixMark, Bool.or_eq_true, beq_iff_eq] at hmark
    rcases hmark with ((((rfl | rfl) | rfl) | rfl) | rfl) | rfl <;> exact absurd hc (by decide)
  simp only [number, hradix, numberSpan_digits h, List.take_length, List.drop_length,
    List.head?_nil, Option.any_none, Bool.false_eq_true, if_false]
  cases Integer.read 10 (text.filter (· != '_')) <;> rfl

end Decimal

namespace Numeral

variable {text : List Char} {v : Nat}

/-- A literal is read whole as the number that it denotes, or that number is too large. -/
theorem number_eq (h : Numeral text v) :
    ∃ shown : String, shown.toList.filter (· != '_') = text.filter (· != '_') ∧
      number text = if v ≤ Integer.largest then .ok (.integer v, text.length)
        else .error (.badInteger shown .tooLarge) := by
  cases h with
  | @decimal c cs ds first digits =>
    have hparts : ∀ d ∈ c :: cs, (d.isDigit || d == '_') = true :=
      digits.forall_mem (p := fun d => d.isDigit || d == '_') rfl (by decide)
    have hne : ds ≠ [] := by
      rintro rfl
      cases digits
      exact first rfl
    refine ⟨String.ofList ((c :: cs).filter (· != '_')), by simp, ?_⟩
    rw [number_decimal hparts, digits.read_eq (by decide) hne]
    split <;> rfl
  | @marked c radix cs ds mark digits some =>
    have hradix : radix? ('0' :: c :: cs) = .some radix ∧ radix ∈ [2, 8, 10, 16] := by
      have htable : ∀ e ∈ radixTable, radix? ['0', e.1] = .some e.2 ∧ e.2 ∈ [2, 8, 10, 16] := by
        decide
      exact htable (c, radix) mark
    have hparts : cs.takeWhile isRadixPart = cs := by
      have htable : ∀ e ∈ digitTable, isRadixPart e.1 = true := by decide
      exact List.takeWhile_eq_self_iff.2 (digits.forall_mem rfl fun e he _ => htable e he)
    refine ⟨String.ofList ('0' :: c :: cs), by simp, ?_⟩
    rw [number_radix hradix.1, hparts, digits.read_eq hradix.2 some]
    split <;> rfl

theorem exists_digit (h : Numeral text v) : ∃ c cs, text = c :: cs ∧ c.isDigit = true := by
  cases h with
  | @decimal c cs ds first digits =>
    have htable : ∀ e ∈ digitTable, e.2 < 10 → e.1.isDigit = true := by decide
    cases digits with
    | underscore => exact absurd rfl first
    | digit value small => exact ⟨c, cs, rfl, htable _ value small⟩
  | @marked c radix cs => exact ⟨'0', c :: cs, rfl, rfl⟩

theorem breakless (h : Numeral text v) : ∀ c ∈ text, isBreak c = false := by
  cases h with
  | decimal _ digits => exact digits.breakless
  | marked mark digits =>
    have htable : ∀ e ∈ radixTable, isBreak e.1 = false := by decide
    exact List.forall_mem_cons.2 ⟨rfl, List.forall_mem_cons.2 ⟨htable _ mark, digits.breakless⟩⟩

end Numeral

theorem recognise_digit {c : Char} (hc : c.isDigit = true) (cs : List Char) :
    StartsCode (c :: cs) ∧ c ≠ '\\' ∧ recognise c cs = number (c :: cs) := by
  have hne : ∀ {d : Char}, d.isDigit = false → c ≠ d := by
    rintro d hd rfl
    cases hc.symm.trans hd
  have hquote : isQuote c = false := by
    simp [isQuote, hne (d := '\x22') rfl, hne (d := '\x27') rfl]
  have hnumber : startsNumber (c :: cs) = true := by simp [startsNumber, hc]
  refine ⟨⟨c, cs, rfl, ?_, ?_, hne rfl⟩, hne rfl, ?_⟩
  · simp [isSpacing, hne (d := ' ') rfl, hne (d := '\t') rfl, hne (d := '\x0c') rfl]
  · simp [isBreak, hne (d := '\n') rfl, hne (d := '\r') rfl]
  · rw [recognise, hquote, if_neg Bool.false_ne_true, if_pos hnumber]

/-- **An integer literal is read exactly or refused**: as a text of its own it is one token if its
number is below `2 ^ 63`, and else a fault at its start. -/
theorem tokenize_numeral {text : String} {v : Nat} (h : Numeral text.toList v) :
    (v < 2 ^ 63 → tokenize text = .ok
      [⟨.integer v, text, ⟨1, 1⟩⟩, ⟨.newline, "\n", ⟨1, 1 + text.length⟩⟩,
        ⟨.eof, "", ⟨1, 1 + text.length⟩⟩]) ∧
    (2 ^ 63 ≤ v → ∃ shown : String,
      shown.toList.filter (· != '_') = text.toList.filter (· != '_') ∧
      tokenize text = .error ⟨.badInteger shown .tooLarge, ⟨1, 1⟩⟩) := by
  have hlargest : Integer.largest + 1 = 2 ^ 63 := rfl
  obtain ⟨c, cs, htext, hdigit⟩ := h.exists_digit
  obtain ⟨shown, hshown, hnumber⟩ := h.number_eq
  obtain ⟨code, whole, hrecognise⟩ := recognise_digit hdigit cs
  rw [← htext, hnumber] at hrecognise
  refine ⟨fun hsmall => ?_, fun hlarge => ⟨shown, hshown, ?_⟩⟩
  · rw [if_pos (by omega)] at hrecognise
    have hlexeme := recognise_lexeme hrecognise code whole
    rw [← htext, List.take_length] at hlexeme
    rw [hlexeme.tokenize_eq, Position.after_breakless _ h.breakless, String.length_toList]
    rfl
  · rw [if_neg (by omega)] at hrecognise
    exact tokenize_fault htext (htext ▸ code) whole hrecognise

/-- The largest number that a literal may denote, and the next one with the mark of a radix. -/
theorem numeral_limits : Numeral "9_223372036854775807".toList 9223372036854775807 ∧
    tokenize "9_223372036854775807" = .ok
      [⟨.integer 9223372036854775807, "9_223372036854775807", ⟨1, 1⟩⟩, ⟨.newline, "\n", ⟨1, 21⟩⟩,
        ⟨.eof, "", ⟨1, 21⟩⟩] ∧
    Numeral "0X_8000000000000000".toList 9223372036854775808 ∧
    ∃ shown, tokenize "0X_8000000000000000" = .error ⟨.badInteger shown .tooLarge, ⟨1, 1⟩⟩ := by
  have hlast : Numeral "9_223372036854775807".toList 9223372036854775807 := by
    have hdigits : Digits 10 "9_223372036854775807".toList
      [9, 2, 2, 3, 3, 7, 2, 0, 3, 6, 8, 5, 4, 7, 7, 5, 8, 0, 7] := by decide +kernel
    exact .decimal (by decide) hdigits
  have hnext : Numeral "0X_8000000000000000".toList 9223372036854775808 := by
    have hdigits : Digits 16 "_8000000000000000".toList (8 :: List.replicate 15 0) := by
      decide +kernel
    exact .marked (by decide) hdigits (by decide)
  obtain ⟨shown, -, hfault⟩ := (tokenize_numeral hnext).2 (by decide)
  exact ⟨hlast, (tokenize_numeral hlast).1 (by decide), hnext, shown, hfault⟩

end Gradual
