import Gradual.Proofs.Expr.Grammar
import Gradual.Proofs.Token.Layout

/-!
# Expressions and the layout of lines

An expression opens and closes no block: line ends inside brackets are no tokens, and what is read
over in brackets ends at the bracket. The parameters of a `lambda` are the exception, as they are
gone over up to the next colon, wherever it stands.

* `TidyLambdas`: the parameters of every `lambda` stay in their block and in their brackets;
* `Orderly`: tokens that are laid out in good order, with such parameters;
* `Flat`, `FlatInside`: tokens that open and close no block wherever they stand, or in brackets;
* **`Reads.flat`**: the tokens of an expression are flat.
-/

namespace Gradual

open Gradual.Stream (openBrackets Balanced)

/-! ## Going over tokens -/

/-- No token opens or closes a block. -/
def NoBlocks (ts : List Token) : Prop := ∀ t ∈ ts, t.kind ≠ .indent ∧ t.kind ≠ .dedent

theorem noBlocks_append {ts us : List Token} : NoBlocks (ts ++ us) ↔ NoBlocks ts ∧ NoBlocks us :=
  List.forall_mem_append

theorem noBlocks_cons {t : Token} {ts : List Token} :
    NoBlocks (t :: ts) ↔ (t.kind ≠ .indent ∧ t.kind ≠ .dedent) ∧ NoBlocks ts :=
  List.forall_mem_cons

theorem Layout.level_next {l : Layout} {t : Token} (h : t.kind ≠ .indent ∧ t.kind ≠ .dedent) :
    (l.next t).level = l.level := by
  unfold next
  split
  · rfl
  · next hk => exact absurd hk h.1
  · next hk => exact absurd hk h.2
  · rfl

theorem NoBlocks.level_after {ts : List Token} (h : NoBlocks ts) (l : Layout) :
    (l.after ts).level = l.level := by
  induction ts generalizing l with
  | nil => rfl
  | cons t ts ih =>
    obtain ⟨ht, hts⟩ := noBlocks_cons.1 h
    rw [Layout.after_cons, ih hts, Layout.level_next ht]

/-- The number of brackets that are open after a token, as counted from the outermost. -/
theorem Layout.depth_next (l : Layout) (t : Token) :
    (l.next t).depth = depthAfter l.depth t.kind := by
  unfold next depthAfter
  cases t.kind <;> rfl

/-- Counted from an outer bracket or from an inner one, a token opens and closes the same. -/
theorem openBrackets_cons {k j : Nat} {t : Token} {ts : List Token}
    (h : openBrackets k (t :: ts) = some j) :
    ∃ k', openBrackets k' ts = some j ∧ ∀ d, k ≤ d → depthAfter d t.kind + k = d + k' := by
  cases hk : t.kind with
  | mark m =>
    simp only [openBrackets, hk] at h
    simp only [depthAfter]
    split at h
    · next hopens =>
      refine ⟨_, h, fun d _ => ?_⟩
      rw [if_pos hopens]
      omega
    · next hopens =>
      split at h
      · next hcloses =>
        split at h
        · cases h
        · refine ⟨_, h, fun d _ => ?_⟩
          rw [if_neg hopens, if_pos hcloses]
          omega
      · next hcloses =>
        refine ⟨_, h, fun d _ => ?_⟩
        rw [if_neg hopens, if_neg hcloses]
  | _ =>
    simp only [openBrackets, hk] at h
    exact ⟨k, h, fun d _ => rfl⟩

theorem depth_after_of_openBrackets {l : Layout} {k j : Nat} {ts : List Token}
    (h : openBrackets k ts = some j) (hk : k ≤ l.depth) :
    (l.after ts).depth + k = l.depth + j := by
  induction ts generalizing l k with
  | nil =>
    cases h
    rfl
  | cons t ts ih =>
    obtain ⟨k', hk', hnext⟩ := openBrackets_cons h
    have hdepth := hnext l.depth hk
    rw [← l.depth_next] at hdepth
    have hrest := ih (l := l.next t) hk' (by omega)
    rw [Layout.after_cons]
    omega

/-- In brackets, and with a text to follow, there are no line ends and no blocks. -/
theorem LaidOut.next_of_depth {l : Layout} {t u : Token} {ts us : List Token}
    (h : LaidOut l (t :: (ts ++ u :: us))) (hdepth : 0 < l.depth) (hu : u.kind.hasText = true) :
    t.kind.hasText = true ∧ LaidOut (l.next t) (ts ++ u :: us) := by
  have hrest : ¬ (l.depth = 0 ∨ ∀ v ∈ ts ++ u :: us, v.kind.hasText = false) := by
    rintro (hzero | hall)
    · omega
    · simp [hall u (by simp)] at hu
  cases h with
  | newline _ outside | dedent _ _ _ outside => exact absurd outside hrest
  | indent _ _ outside => omega
  | code kind more => exact ⟨kind, more⟩

theorem noBlocks_of_hasText {t : Token} (h : t.kind.hasText = true) :
    t.kind ≠ .indent ∧ t.kind ≠ .dedent := by
  constructor <;> intro hk <;> simp [hk, TokenKind.hasText] at h

theorem noBlocks_of_openBrackets {l : Layout} {k j : Nat} {u : Token} {ts us : List Token}
    (h : openBrackets k ts = some j) (hk : k < l.depth) (hlaid : LaidOut l (ts ++ u :: us))
    (hu : u.kind.hasText = true) : NoBlocks ts := by
  induction ts generalizing l k with
  | nil => exact fun t ht => absurd ht List.not_mem_nil
  | cons t ts ih =>
    obtain ⟨htext, hmore⟩ := hlaid.next_of_depth (by omega) hu
    obtain ⟨k', hk', hnext⟩ := openBrackets_cons h
    have hdepth := hnext l.depth (by omega)
    rw [← l.depth_next] at hdepth
    exact noBlocks_cons.2 ⟨noBlocks_of_hasText htext, ih hk' (by omega) hmore⟩

/-! ## Orderly tokens -/

/-- The parameters of every `lambda`, up to the next colon, open and close no block and close no
bracket that is open around them. -/
def TidyLambdas (ts : List Token) : Prop :=
  ∀ t header colon more, t :: (header ++ colon :: more) <:+ ts → t.kind = .keyword .lambdaKw →
    (∀ u ∈ header, u.kind ≠ .mark .colon) → colon.kind = .mark .colon →
      NoBlocks header ∧ (openBrackets 0 header).isSome = true

/-- Tokens that are laid out in good order, with tidy parameters. -/
structure Orderly (l : Layout) (ts : List Token) : Prop where
  laidOut : LaidOut l ts
  tidy : TidyLambdas ts

theorem Orderly.after {l : Layout} {us : List Token} (ts : List Token) (h : Orderly l (ts ++ us)) :
    Orderly (l.after ts) us where
  laidOut := h.laidOut.after ts
  tidy t header colon more hsuffix :=
    h.tidy t header colon more (hsuffix.trans (List.suffix_append ..))

/-! ## Flat tokens -/

/-- Tokens that open and close no block, and close no bracket around them, wherever they stand. -/
def Flat (ts : List Token) : Prop :=
  ∀ l rest, Orderly l (ts ++ rest) → NoBlocks ts ∧ l.depth ≤ (l.after ts).depth

/-- The same of tokens that stand in brackets. -/
def FlatInside (ts : List Token) : Prop :=
  ∀ l t rest, Orderly l (ts ++ t :: rest) → 0 < l.depth → t.kind.hasText = true →
    NoBlocks ts ∧ l.depth ≤ (l.after ts).depth

/-- The kinds of tokens that have a text and close no bracket. -/
def TokenKind.isFlat : TokenKind → Bool
  | .mark m => !m.closes
  | k => k.hasText

theorem le_depthAfter {k : TokenKind} (h : k.isFlat = true) (d : Nat) : d ≤ depthAfter d k := by
  unfold depthAfter
  split
  · next m =>
    split
    · omega
    · rw [if_neg (by simpa [TokenKind.isFlat] using h)]
  · exact Nat.le_refl d

theorem TokenKind.hasText_of_isFlat {k : TokenKind} (h : k.isFlat = true) : k.hasText = true := by
  unfold isFlat at h
  split at h
  · rfl
  · exact h

section Flat

variable {t open' close : Token} {ts us : List Token} {m m' : Mark}

theorem flat_nil : Flat [] := fun _ _ _ => ⟨fun _ h => absurd h List.not_mem_nil, Nat.le_refl _⟩

theorem Flat.append (hts : Flat ts) (hus : Flat us) : Flat (ts ++ us) := by
  intro l rest h
  rw [List.append_assoc] at h
  obtain ⟨hblocks, hdepth⟩ := hts l _ h
  obtain ⟨hblocks', hdepth'⟩ := hus _ _ (h.after ts)
  rw [Layout.after_append]
  exact ⟨noBlocks_append.2 ⟨hblocks, hblocks'⟩, hdepth.trans hdepth'⟩

theorem flat_token (h : t.kind.isFlat = true) : Flat [t] := by
  intro l rest _
  have htext := TokenKind.hasText_of_isFlat h
  refine ⟨noBlocks_cons.2 ⟨noBlocks_of_hasText htext, fun _ hu => absurd hu List.not_mem_nil⟩, ?_⟩
  rw [Layout.after_cons, Layout.after_nil, Layout.depth_next]
  exact le_depthAfter h l.depth

theorem Flat.cons (h : t.kind.isFlat = true) (hts : Flat ts) : Flat (t :: ts) :=
  (flat_token h).append hts

theorem flat_of_kinds (h : ∀ t ∈ ts, t.kind.isFlat = true) : Flat ts := by
  induction ts with
  | nil => exact flat_nil
  | cons t ts ih => exact .cons (h t (by simp)) (ih fun u hu => h u (by simp [hu]))

theorem Flat.inside (h : Flat ts) : FlatInside ts := fun l _ _ hl _ _ => h l _ hl

theorem Flat.append_inside (hts : Flat ts) (hus : FlatInside us) : FlatInside (ts ++ us) := by
  intro l t rest h hpos htext
  rw [List.append_assoc] at h
  obtain ⟨hblocks, hdepth⟩ := hts l _ h
  obtain ⟨hblocks', hdepth'⟩ := hus _ _ _ (h.after _) (by omega) htext
  rw [Layout.after_append]
  exact ⟨noBlocks_append.2 ⟨hblocks, hblocks'⟩, hdepth.trans hdepth'⟩

theorem flatInside_of_balanced (h : Balanced ts) : FlatInside ts := by
  intro l t rest hl hpos htext
  have hdepth := depth_after_of_openBrackets (l := l) h (by omega)
  exact ⟨noBlocks_of_openBrackets h hpos hl.laidOut htext, by omega⟩

theorem flat_bracketed (hopen : open'.kind = .mark m) (opens : m.opens = true)
    (hts : FlatInside ts) (hclose : close.kind = .mark m') (closes : m'.closes = true)
    (h : us = ts ++ [close]) : Flat (open' :: us) := by
  subst h
  intro l rest hl
  have hpos : (l.next open').depth = l.depth + 1 := by
    simp [Layout.depth_next, hopen, depthAfter, opens]
  have hcloses : ∀ l : Layout, l.depth - 1 ≤ (l.next close).depth := by
    intro l
    cases hm : m'.opens <;> simp [Layout.depth_next, hclose, depthAfter, hm, closes]
    omega
  have hnext : Orderly (l.next open') (ts ++ close :: rest) := by
    simpa using Orderly.after [open'] hl
  obtain ⟨hblocks, hdepth⟩ := hts _ _ _ hnext (by omega) (by rw [hclose]; rfl)
  refine ⟨?_, ?_⟩
  · refine noBlocks_cons.2 ⟨by simp [hopen], noBlocks_append.2 ⟨hblocks, ?_⟩⟩
    exact noBlocks_cons.2 ⟨by simp [hclose], fun _ h => absurd h List.not_mem_nil⟩
  · rw [Layout.after_cons, Layout.after_append, Layout.after_cons, Layout.after_nil]
    have := hcloses ((l.next open').after ts)
    omega

end Flat

/-! ## Expressions -/

/-- The parameters of a `lambda` are flat where they are tidy. -/
theorem flat_lambda {t colon : Token} {header ts : List Token} (word : t.kind = .keyword .lambdaKw)
    (inside : ∀ u ∈ header, u.kind ≠ .mark .colon) (last : colon.kind = .mark .colon)
    (hts : Flat ts) : Flat (t :: (header ++ colon :: ts)) := by
  intro l rest hl
  have hsuffix :
      t :: (header ++ colon :: (ts ++ rest)) <:+ t :: (header ++ colon :: ts) ++ rest := by
    simp
  obtain ⟨hblocks, hopen⟩ := hl.tidy t header colon _ hsuffix word inside last
  obtain ⟨j, hj⟩ := Option.isSome_iff_exists.1 hopen
  have ht : (l.next t).depth = l.depth := by simp [Layout.depth_next, word, depthAfter]
  have hheader := depth_after_of_openBrackets (l := l.next t) hj (Nat.zero_le _)
  have hbody : Orderly ((l.next t).after header) (colon :: ts ++ rest) := by
    have hsplit : Orderly l (t :: header ++ (colon :: ts ++ rest)) := by simpa using hl
    simpa using hsplit.after
  obtain ⟨hblocks', hdepth⟩ := Flat.cons (by rw [last]; rfl) hts _ _ hbody
  rw [Layout.after_cons, Layout.after_append]
  exact ⟨noBlocks_cons.2 ⟨by simp [word], noBlocks_append.2 ⟨hblocks, hblocks'⟩⟩, by omega⟩

theorem BinaryOp.isFlat_kinds (op : BinaryOp) : ∀ k ∈ op.kinds, k.isFlat = true := by
  cases op <;> decide

theorem Construct.isFlat_openings {k : Construct} {ks : List TokenKind} (h : ks ∈ k.openings) :
    ∀ k ∈ ks, k.isFlat = true := by
  unfold openings at h
  split at h <;> simp only [List.mem_cons, List.not_mem_nil, or_false] at h
  · rw [h]; decide
  · rcases h with rfl | rfl <;> decide
  · rcases h with rfl | rfl <;> decide
  · rw [h]; decide

theorem flat_of_map {ts : List Token} {ks : List TokenKind} (h : ts.map (·.kind) = ks)
    (hks : ∀ k ∈ ks, k.isFlat = true) : Flat ts := by
  subst h
  exact flat_of_kinds fun t ht => hks t.kind (List.mem_map_of_mem ht)

theorem ArgumentLabel.flat {ts : List Token} {id : Option Identifier} (h : ArgumentLabel ts id) :
    Flat ts := by
  cases h with
  | positional => exact flat_nil
  | named name equal => exact .cons (by rw [name]; rfl) (flat_token (by rw [equal]; rfl))

/-- A phrase is flat, or it is flat in the brackets that it needs. -/
def Phrase.FlatIn : Phrase → List Token → Prop
  | .expr _, ts | .elements _, ts => Flat ts
  | .entries _, ts | .subscript _, ts | .arguments _, ts => FlatInside ts

theorem Reads.flatIn {ts : List Token} {p : Phrase} (h : Reads ts p) : p.FlatIn ts := by
  induction h with
  | name kind => exact flat_token (by rw [kind]; rfl)
  | @number t v kind =>
    refine flat_token ?_
    cases hk : t.kind <;> simp [hk, Literal.ofNumber?] at kind <;> rfl
  | @strings t more v kind texts =>
    refine flat_of_kinds fun u hu => ?_
    have htext : (Parser.literalText? u.kind).isSome = true := by
      rcases List.mem_cons.1 hu with rfl | hu
      · cases hk : u.kind <;> simp [hk, Literal.ofTexts?] at kind <;> rfl
      · exact texts u hu
    cases hk : u.kind <;> simp [hk, Parser.literalText?] at htext <;> rfl
  | @unary _ _ op _ kind _ ih => exact .cons (by rw [kind]; cases op <;> rfl) ih
  | @binary _ _ _ op _ _ _ kinds _ ihl ihr =>
    exact ihl.append ((flat_of_map kinds op.isFlat_kinds).append ihr)
  | opened _ kinds _ ih => exact (flat_of_map rfl (Construct.isFlat_openings kinds)).append ih
  | alone _ kinds => exact flat_of_map rfl (Construct.isFlat_openings kinds)
  | lambda kind inside last _ ih => exact flat_lambda kind inside last ih
  | conditional _ hif _ helse _ ihe iht iho =>
    exact ihe.append (.cons (by rw [hif]; rfl) (iht.append (.cons (by rw [helse]; rfl) iho)))
  | assignment _ sign _ ihe ihv => exact ihe.append (.cons (by rw [sign]; rfl) ihv)
  | listed _ _ _ ihe ihm => exact ihe.append ihm
  | emptyTuple opens closes => exact flat_bracketed opens rfl flat_nil.inside closes rfl rfl
  | emptyList opens closes => exact flat_bracketed opens rfl flat_nil.inside closes rfl rfl
  | emptyDict opens closes => exact flat_bracketed opens rfl flat_nil.inside closes rfl rfl
  | parenthesized opens _ closes ih => exact flat_bracketed opens rfl ih.inside closes rfl rfl
  | tuple opens _ _ closes ihe ihm =>
    exact flat_bracketed opens rfl (ihe.append ihm).inside closes rfl (by simp)
  | list opens _ _ closes ihe ihm =>
    exact flat_bracketed opens rfl (ihe.append ihm).inside closes rfl (by simp)
  | @readOver _ _ _ _ k _ _ _ brackets opens _ skip closes ih =>
    have hinside := Flat.append_inside ih (flatInside_of_balanced skip)
    cases k <;>
      simp only [Construct.brackets, Option.some.injEq, Prod.mk.injEq, reduceCtorEq] at brackets <;>
      obtain ⟨rfl, rfl⟩ := brackets <;>
      exact flat_bracketed opens rfl hinside closes rfl (by simp)
  | dictComprehension opens _ sign _ skip closes ihk ihv =>
    have hentry := ihk.append (Flat.cons (by rw [sign]; rfl) ihv)
    have hinside := hentry.append_inside (flatInside_of_balanced skip)
    exact flat_bracketed opens rfl hinside closes rfl (by simp)
  | dict opens _ sign _ _ closes ihk ihv ihm | dictUnpacking opens _ sign _ _ closes ihk ihv ihm =>
    have hentry := ihk.append (Flat.cons (by rw [sign]; rfl) ihv)
    exact flat_bracketed opens rfl (hentry.append_inside ihm) closes rfl (by simp)
  | call _ opens _ closes ihe iha => exact ihe.append (flat_bracketed opens rfl iha closes rfl rfl)
  | index _ opens _ closes ihe ihi => exact ihe.append (flat_bracketed opens rfl ihi closes rfl rfl)
  | member _ sign name ih =>
    exact ih.append (.cons (by rw [sign]; rfl) (flat_token (by rw [name]; rfl)))
  | noElements => exact flat_nil
  | lastComma sign => exact flat_token (by rw [sign]; rfl)
  | element sign _ _ ihe ihm => exact .cons (by rw [sign]; rfl) (ihe.append ihm)
  | noEntries | noArguments => exact flat_nil.inside
  | lastEntry sign => exact (flat_token (by rw [sign]; rfl)).inside
  | unpacking sign skip =>
    exact (flat_token (by rw [sign]; rfl)).append_inside (flatInside_of_balanced skip)
  | entry sign _ between _ _ ihk ihv ihm =>
    have hentry := (Flat.cons (by rw [sign]; rfl) ihk).append (Flat.cons (by rw [between]; rfl) ihv)
    simpa [Phrase.FlatIn] using hentry.append_inside ihm
  | slice _ skip => exact flatInside_of_balanced skip
  | sliceFrom _ skip ih | generator _ skip ih =>
    exact ih.append_inside (flatInside_of_balanced skip)
  | subscript _ ih => exact ih.inside
  | lastArgument label _ ih => exact (label.flat.append ih).inside
  | argument label _ sign _ ihe ihm =>
    have hmore := (flat_token (by rw [sign]; rfl)).append_inside ihm
    exact label.flat.append_inside (ihe.append_inside hmore)

/-- **The tokens of an expression are flat.** -/
theorem Reads.flat {ts : List Token} {e : Expr} (h : Reads ts (.expr e)) : Flat ts := h.flatIn

end Gradual
