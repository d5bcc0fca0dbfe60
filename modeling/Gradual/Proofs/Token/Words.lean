import Gradual.Proofs.Token.Stream
import Gradual.Token.Lexer

/-!
# Words

What a parser sees of a token: its kind, and the text of a name. A sequence of words says which
tokens stand at the front of a stream, wherever they were read from.

* `Word`, `Token.word`, `separated`, `Inside`;
* `tokensOf`: the tokens of a text;
* `Stream.Spells`, `Stream.Spells.append`, `Stream.Spells.cons`: the words at the front of a stream;
* `Parses`, **`Parses.bind`**: a parser ends well, with a value and a rest.
-/

namespace Gradual

/-! ## Words -/

/-- The kind of a token, and its text if it is a name. -/
structure Word where
  kind : TokenKind
  name : String
  deriving DecidableEq, Repr

namespace Word

/-- A word that is no name. -/
def ofKind (k : TokenKind) : Word := ⟨k, ""⟩

/-- A name. -/
def ofName (name : String) : Word := ⟨.identifier, name⟩

/-- Punctuation or an operator. -/
def mark (m : Mark) : Word := ofKind (.mark m)

/-- A reserved word. -/
def keyword (k : Keyword) : Word := ofKind (.keyword k)

@[simp] theorem kind_ofKind (k : TokenKind) : (ofKind k).kind = k := rfl

@[simp] theorem kind_ofName (s : String) : (ofName s).kind = .identifier := rfl

@[simp] theorem kind_mark (m : Mark) : (mark m).kind = .mark m := rfl

@[simp] theorem kind_keyword (k : Keyword) : (keyword k).kind = .keyword k := rfl

end Word

/-- The word of a token. -/
def Token.word (t : Token) : Word := ⟨t.kind, if t.kind = .identifier then t.lexeme else ""⟩

/-- The tokens of a text, if it has any. -/
def tokensOf (text : String) : List Token := (tokenize text).toOption.getD []

theorem Except.eq_ok_of_isSome {ε α : Type} {x : Except ε α} (d : α)
    (h : x.toOption.isSome = true) : x = .ok (x.toOption.getD d) := by
  cases x with
  | error => cases h
  | ok => rfl

/-- Phrases with a mark between them. -/
def separated (m : Mark) : List (List Word) → List Word
  | [] => []
  | ws :: more => ws ++ more.flatMap (.mark m :: ·)

/-- None of the words ends the input. -/
def Inside (ws : List Word) : Prop := ∀ w ∈ ws, w.kind ≠ .eof

@[simp] theorem inside_nil : Inside [] := by simp [Inside]

@[simp] theorem inside_cons {w : Word} {ws : List Word} :
    Inside (w :: ws) ↔ w.kind ≠ .eof ∧ Inside ws := by simp [Inside]

@[simp] theorem inside_append {ws vs : List Word} : Inside (ws ++ vs) ↔ Inside ws ∧ Inside vs := by
  simp only [Inside, List.mem_append, or_imp, forall_and]

theorem inside_separated {m : Mark} {wss : List (List Word)} (h : ∀ ws ∈ wss, Inside ws) :
    Inside (separated m wss) := by
  cases wss with
  | nil => exact inside_nil
  | cons ws more =>
    refine inside_append.2 ⟨h ws List.mem_cons_self, fun w hw => ?_⟩
    obtain ⟨vs, hvs, hw⟩ := List.mem_flatMap.1 hw
    have hinside : Inside (.mark m :: vs) := by simpa using h vs (List.mem_cons_of_mem ws hvs)
    exact hinside w hw

namespace Stream

variable {c c₁ d : Stream} {t : Token} {k : TokenKind} {w : Word} {ws vs : List Word}

/-! ## Tokens that are there -/

theorem Takes.split (ts : List Token) {us : List Token} (h : c.Takes (ts ++ us) d) :
    ∃ c₁, c.Takes ts c₁ ∧ c₁.Takes us d := by
  have htake : c.ahead.take ts.length = ts := by rw [h.1, List.append_assoc, List.take_left]
  have hdrop : (c.drop ts.length).ahead = us ++ d.ahead := by
    simp only [drop]
    rw [h.1, List.append_assoc, List.drop_left]
  have hts := c.takes_drop ts.length
  rw [htake] at hts
  refine ⟨_, hts, hdrop, ?_⟩
  rw [drop_drop, h.2, List.length_append]

theorem next?_of_takes (h : c.Takes [t] d) : ∃ hlt, c.next? = some ⟨t, d, hlt⟩ := by
  cases hn : c.next? with
  | none =>
    have hnil := h.1.symm.trans (next?_eq_none hn)
    cases hnil
  | some r =>
    obtain ⟨u, d', hlt⟩ := r
    have hu := takes_of_next? hn
    obtain rfl : d' = d := hu.2.trans h.2.symm
    have hhead : u :: d'.ahead = t :: d'.ahead := hu.1.symm.trans h.1
    cases hhead
    exact ⟨hlt, rfl⟩

theorem kind_of_next? {hlt : d.size < c.size} (h : c.next? = some ⟨t, d, hlt⟩) : c.kind = t.kind :=
  (takes_of_next? h).kind_eq

theorem take?_of_next? {hlt : d.size < c.size} (h : c.next? = some ⟨t, d, hlt⟩) (ht : t.kind = k) :
    c.take? k = some ⟨t, d, hlt⟩ := by simp [take?, h, ht]

theorem take?_of_kind_ne (h : c.kind ≠ k) : c.take? k = none := by
  unfold take?
  split
  · next r hr =>
    rw [if_neg]
    rwa [← kind_of_next? hr]
  · rfl

theorem sees_of_kind_ne (h : c.kind ≠ k) : c.sees k = false := by simpa [sees] using h

theorem takeWhile_of_kind {p : TokenKind → Bool} (h : p c.kind = false) :
    c.ahead.takeWhile (p ·.kind) = [] := by
  cases hc : c.ahead with
  | nil => rfl
  | cons t ts =>
    have hkind : c.kind = t.kind := by rw [kind, peek, hc, List.headD_cons]
    rw [hkind] at h
    simp [h]

theorem skipWhile_of_kind {p : TokenKind → Bool} (h : p c.kind = false) :
    (c.skipWhile p).rest = c := by
  have htakes := c.takes_skipWhile p
  rw [takeWhile_of_kind h] at htakes
  exact htakes.eq_of_nil

theorem skipNewlines_of_kind (h : c.kind ≠ .newline) (h' : c.kind ≠ .mark .semicolon) :
    c.skipNewlines = c.keep () := by
  have hrest : c.skipNewlines.rest = c := skipWhile_of_kind (by simp [h, h'])
  generalize c.skipNewlines = r at hrest
  obtain ⟨_, c', _⟩ := r
  obtain rfl : c' = c := hrest
  rfl

/-! ## Words at the front -/

/-- The words at the front of the stream `c`, before what is left in `d`. -/
def Spells (c : Stream) (ws : List Word) (d : Stream) : Prop :=
  ∃ ts, c.Takes ts d ∧ ts.map Token.word = ws

theorem Spells.eq_of_nil (h : c.Spells [] d) : d = c := by
  obtain ⟨ts, hts, hws⟩ := h
  obtain rfl := List.map_eq_nil_iff.1 hws
  exact hts.eq_of_nil

theorem Spells.append (h : c.Spells (ws ++ vs) d) : ∃ c₁, c.Spells ws c₁ ∧ c₁.Spells vs d := by
  obtain ⟨ts, hts, hws⟩ := h
  obtain ⟨us, us', rfl, hus, hus'⟩ := List.map_eq_append_iff.1 hws
  obtain ⟨c₁, h₁, h₂⟩ := hts.split us
  exact ⟨c₁, ⟨us, h₁, hus⟩, us', h₂, hus'⟩

theorem Spells.cons (h : c.Spells (w :: ws) d) :
    ∃ t c₁ hlt, c.next? = some ⟨t, c₁, hlt⟩ ∧ t.word = w ∧ c₁.Spells ws d := by
  obtain ⟨ts, hts, hws⟩ := h
  obtain ⟨t, us, rfl, ht, hus⟩ := List.map_eq_cons_iff.1 hws
  obtain ⟨c₁, h₁, h₂⟩ := Takes.split [t] hts
  obtain ⟨hlt, hnext⟩ := next?_of_takes h₁
  exact ⟨t, c₁, hlt, hnext, ht, us, h₂, hus⟩

theorem Spells.kind_eq (h : c.Spells (w :: ws) d) : c.kind = w.kind := by
  obtain ⟨t, c₁, hlt, hnext, rfl, -⟩ := h.cons
  exact kind_of_next? hnext

/-- A word that is no name is a token of its kind. -/
theorem Spells.token (h : c.Spells (.ofKind k :: ws) d) :
    ∃ t c₁ hlt, c.next? = some ⟨t, c₁, hlt⟩ ∧ t.kind = k ∧ c₁.Spells ws d := by
  obtain ⟨t, c₁, hlt, hnext, hword, hrest⟩ := h.cons
  exact ⟨t, c₁, hlt, hnext, congrArg Word.kind hword, hrest⟩

/-- A name is an identifier with its text. -/
theorem Spells.name {s : String} (h : c.Spells (.ofName s :: ws) d) :
    ∃ t c₁ hlt, c.next? = some ⟨t, c₁, hlt⟩ ∧ t.kind = .identifier ∧ t.lexeme = s ∧
      c₁.Spells ws d := by
  obtain ⟨t, c₁, hlt, hnext, hword, hrest⟩ := h.cons
  have hkind : t.kind = .identifier := congrArg Word.kind hword
  have hname : (if t.kind = .identifier then t.lexeme else "") = s := congrArg Word.name hword
  exact ⟨t, c₁, hlt, hnext, hkind, by rwa [if_pos hkind] at hname, hrest⟩

theorem Spells.bracketed {opening closing : Mark}
    (h : c.Spells (.mark opening :: (ws ++ [.mark closing])) d) :
    ∃ t c₁ h₁ c₂ t' h₂, c.next? = some ⟨t, c₁, h₁⟩ ∧ t.kind = .mark opening ∧ c₁.Spells ws c₂ ∧
      c₂.next? = some ⟨t', d, h₂⟩ ∧ t'.kind = .mark closing := by
  obtain ⟨t, c₁, h₁, hnext, hkind, h⟩ := h.token
  obtain ⟨c₂, hws, h⟩ := h.append
  obtain ⟨t', c₃, h₂, hnext', hkind', h⟩ := h.token
  obtain rfl := h.eq_of_nil
  exact ⟨t, c₁, h₁, c₂, t', h₂, hnext, hkind, hws, hnext', hkind'⟩

/-- Phrases after a mark each: none are left, or the mark and the phrases with the mark between
them. -/
theorem Spells.more {m : Mark} {wss : List (List Word)}
    (h : c.Spells (wss.flatMap (.mark m :: ·)) d) :
    wss = [] ∧ d = c ∨ wss ≠ [] ∧ ∃ t c₁ hlt, c.next? = some ⟨t, c₁, hlt⟩ ∧ t.kind = .mark m ∧
      c₁.Spells (separated m wss) d := by
  cases wss with
  | nil => exact .inl ⟨rfl, h.eq_of_nil⟩
  | cons ws more =>
    rw [List.flatMap_cons] at h
    exact .inr ⟨by simp, h.token⟩

theorem Spells.kind_more {m : Mark} {wss : List (List Word)}
    (h : c.Spells (wss.flatMap (.mark m :: ·)) d) : c.kind = d.kind ∨ c.kind = .mark m := by
  obtain ⟨-, rfl⟩ | ⟨-, t, c₁, _, hnext, hkind, -⟩ := h.more
  · exact .inl rfl
  · exact .inr ((kind_of_next? hnext).trans hkind)

end Stream

/-! ## Parsers that end well -/

/-- A parser gives the value `a` and leaves `d`. -/
def Parses {α : Type} {n : Nat} (x : Except ParseError (Parsed n α)) (a : α) (d : Stream) : Prop :=
  ∃ h, x = .ok ⟨a, d, h⟩

section Parses

variable {α β : Type} {m n : Nat} {c d : Stream} {a : α} {b : β}
  {x : Except ParseError (Parsed n α)} {f : Parsed n α → Except ParseError (Parsed m β)}

theorem parses_ok {h : d.size < n} : Parses (.ok ⟨a, d, h⟩) a d := ⟨h, rfl⟩

theorem Parses.bind (hx : Parses x a c) (hf : ∀ h, Parses (f ⟨a, c, h⟩) b d) :
    Parses (x >>= f) b d := by
  obtain ⟨h, rfl⟩ := hx
  exact hf h

theorem parses_expect {k : TokenKind} {fault : ParseFault} {t : Token} {hlt : d.size < c.size}
    (h : c.next? = some ⟨t, d, hlt⟩) (ht : t.kind = k) : Parses (c.expect k fault) t d := by
  rw [Stream.expect, Stream.take?_of_next? h ht]
  exact parses_ok

end Parses

end Gradual
