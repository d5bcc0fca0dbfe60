import Gradual.Proofs.Expr.Places
import Gradual.Proofs.Statement.Grammar

/-!
# Statements and the layout of lines

What holds no other statement opens and closes no block: it is made of expressions, or of the tokens
up to the end of a line. A block that is read over is gone over whole.

* `BlockFree`: tokens that open and close no block, wherever they stand;
* **`ReadsSimple.blockFree`**, `ReadsParameters.flat`;
* `level_after_blockLength`: a block that is read over is closed again;
* **`ReadsSimple.startsAt`**: a statement starts at its first token.
-/

namespace Gradual

/-! ## Tokens that open and close no block -/

/-- Tokens that open and close no block, wherever they stand. -/
def BlockFree (ts : List Token) : Prop := ∀ l rest, Orderly l (ts ++ rest) → NoBlocks ts

section BlockFree

variable {t : Token} {ts us : List Token}

theorem Flat.blockFree (h : Flat ts) : BlockFree ts := fun l rest hl => (h l rest hl).1

theorem NoBlocks.blockFree (h : NoBlocks ts) : BlockFree ts := fun _ _ _ => h

theorem BlockFree.append (hts : BlockFree ts) (hus : BlockFree us) : BlockFree (ts ++ us) := by
  intro l rest h
  rw [List.append_assoc] at h
  exact noBlocks_append.2 ⟨hts l _ h, hus _ _ (h.after ts)⟩

theorem BlockFree.cons (h : t.kind.hasText = true) (hts : BlockFree ts) : BlockFree (t :: ts) := by
  intro l rest hl
  exact noBlocks_cons.2 ⟨noBlocks_of_hasText h, hts _ _ (hl.after [t])⟩

/-- In the middle of a line no block opens or closes before the next line. -/
theorem noBlocks_of_line {l : Layout} {rest : List Token} (hfresh : l.fresh = false)
    (hl : LaidOut l (ts ++ rest)) (hts : ∀ u ∈ ts, u.kind ≠ .newline) : NoBlocks ts := by
  induction ts generalizing l with
  | nil => exact fun t ht => absurd ht List.not_mem_nil
  | cons t ts ih =>
    cases hl with
    | newline kind => exact absurd kind (hts t List.mem_cons_self)
    | indent _ fresh | dedent _ fresh =>
      rw [hfresh] at fresh
      cases fresh
    | code kind more =>
      refine noBlocks_cons.2 ⟨noBlocks_of_hasText kind, ih ?_ more fun u hu => ?_⟩
      · rw [Layout.next_code kind]
      · exact hts u (List.mem_cons_of_mem _ hu)

theorem blockFree_line (h : t.kind.hasText = true) (hts : ∀ u ∈ ts, u.kind ≠ .newline) :
    BlockFree (t :: ts) := by
  intro l rest hl
  refine noBlocks_cons.2 ⟨noBlocks_of_hasText h, ?_⟩
  exact noBlocks_of_line (by rw [Layout.after_cons, Layout.next_code h]; rfl)
    (hl.after [t]).laidOut hts

end BlockFree

theorem Separates.noBlocks {ts : List Token} (h : Separates ts) : NoBlocks ts := by
  intro t ht
  rcases h t ht with hk | hk <;> simp [hk]

theorem EndsLine.separates {ts : List Token} (h : EndsLine ts) : Separates ts := by
  intro t ht
  have hk : t.kind ∈ ts.map (·.kind) := List.mem_map_of_mem ht
  simp only [EndsLine, List.mem_cons, List.not_mem_nil, or_false] at h
  rcases h with h | h <;> simp [h] at hk
  exact .inl hk

theorem EndsSimple.separates {ts : List Token} (h : EndsSimple ts) : Separates ts := by
  intro t ht
  have hk : t.kind ∈ ts.map (·.kind) := List.mem_map_of_mem ht
  simp only [EndsSimple, List.mem_cons, List.not_mem_nil, or_false] at h
  rcases h with h | h | h | h <;> simp [h] at hk
  · exact .inl hk
  · exact .inr hk
  · exact hk.symm

/-! ## Parts of statements -/

theorem ReadsAfter.flat {m : Mark} {ts : List Token} {e : Option Expr} (hm : m.closes = false)
    (h : ReadsAfter m ts e) : Flat ts := by
  cases h with
  | absent => exact flat_nil
  | present sign reads => exact .cons (by rw [sign]; simp [TokenKind.isFlat, hm]) reads.flat

theorem ReadsParameter.flat {ts : List Token} {p : Option Parameter} (h : ReadsParameter ts p) :
    Flat ts := by
  cases h with
  | slash sign | star sign => exact flat_token (by rw [sign]; rfl)
  | @named _ _ _ _ kind _ _ kinds name type value =>
    have hkinds : ∀ k ∈ kind.kinds, k.isFlat = true := by cases kind <;> decide
    have hrest := (type.flat rfl).append (value.flat rfl)
    exact (flat_of_map kinds hkinds).append (.cons (by rw [name]; rfl) hrest)

theorem ReadsParameters.flat {ts : List Token} {ps : List Parameter} (h : ReadsParameters ts ps) :
    Flat ts := by
  induction h with
  | none => exact flat_nil
  | last head => exact head.flat
  | more head sign _ ih => exact head.flat.append (.cons (by rw [sign]; rfl) ih)

theorem ReadsAssigned.flat {ts : List Token} {es : List Expr} (h : ReadsAssigned ts es) :
    Flat ts := by
  induction h with
  | none => exact flat_nil
  | more equal head _ ih => exact .cons (by rw [equal]; rfl) (head.flat.append ih)

/-- **A statement without others inside opens and closes no block.** -/
theorem ReadsSimple.blockFree {ts : List Token} {s : Statement} (h : ReadsSimple ts s) :
    BlockFree ts := by
  cases h with
  | pass word ends | returns word ends =>
    exact .cons (by rw [word]; rfl) ends.separates.noBlocks.blockFree
  | returnsValue word value ends =>
    exact .cons (by rw [word]; rfl) (value.flat.blockFree.append ends.separates.noBlocks.blockFree)
  | declared head sign typed ends =>
    have hhead := head.flat.append (.cons (by rw [sign]; rfl) typed.flat)
    simpa using hhead.blockFree.append ends.separates.noBlocks.blockFree
  | declaredValue head sign typed sign' tail ends =>
    have hvalue := Flat.cons (by rw [sign']; rfl) tail.flat
    have hhead := head.flat.append (.cons (by rw [sign]; rfl) (typed.flat.append hvalue))
    simpa using hhead.blockFree.append ends.separates.noBlocks.blockFree
  | augmented head kind tail ends =>
    have hhead := head.flat.append (.cons (by rw [kind]; rfl) tail.flat)
    simpa using hhead.blockFree.append ends.separates.noBlocks.blockFree
  | assigned head tail ends =>
    have hhead := head.flat.append tail.flat
    simpa using hhead.blockFree.append ends.separates.noBlocks.blockFree
  | skipped word skips ends =>
    have hline := blockFree_line (by rw [word]; rfl) fun u hu hk => by
      simpa [hk, Parser.endsStatement] using skips u hu
    exact hline.append ends.separates.noBlocks.blockFree
  | decorator sign skips ends =>
    exact (blockFree_line (by rw [sign]; rfl) skips).append ends.separates.noBlocks.blockFree

/-! ## Blocks that are read over -/

theorem level_after_blockLength {l : Layout} {d : Nat} {ts : List Token} (hl : LaidOut l ts)
    (hd : 0 < d) (hlevel : d ≤ l.level) :
    (l.after (ts.take (Stream.blockLength d ts))).level + d = l.level := by
  induction ts generalizing l d with
  | nil =>
    cases hl with
    | done closed => omega
  | cons t ts ih =>
    have hskip : (t.kind ≠ .indent ∧ t.kind ≠ .dedent) → LaidOut (l.next t) ts →
        (l.after ((t :: ts).take (Stream.blockLength d (t :: ts)))).level + d = l.level := by
      intro hk more
      have hlen : Stream.blockLength d (t :: ts) = Stream.blockLength d ts + 1 := by
        rw [Stream.blockLength]
        split
        · next h => exact absurd h hk.1
        · next h => exact absurd h hk.2
        · rfl
      have hsame := Layout.level_next (l := l) hk
      rw [hlen, List.take_succ_cons, Layout.after_cons, ih more hd (by omega), hsame]
    cases hl with
    | newline kind _ more => exact hskip (by simp [kind]) more
    | code kind more => exact hskip (noBlocks_of_hasText kind) more
    | indent kind _ _ more =>
      have hlen : Stream.blockLength d (t :: ts) = Stream.blockLength (d + 1) ts + 1 := by
        simp [Stream.blockLength, kind]
      have hnext : (l.next t).level = l.level + 1 := by rw [Layout.next_indent kind]
      have hrest := ih more (show 0 < d + 1 by omega) (by omega)
      rw [hlen, List.take_succ_cons, Layout.after_cons]
      omega
    | dedent kind _ _ _ more =>
      have hnext : (l.next t).level = l.level - 1 := by rw [Layout.next_dedent kind]
      by_cases hone : d ≤ 1
      · have hlen : Stream.blockLength d (t :: ts) = 1 := by simp [Stream.blockLength, kind, hone]
        rw [hlen, List.take_succ_cons, List.take_zero, Layout.after_cons, Layout.after_nil]
        omega
      · have hlen : Stream.blockLength d (t :: ts) = Stream.blockLength (d - 1) ts + 1 := by
          simp [Stream.blockLength, kind, hone]
        have hrest := ih more (show 0 < d - 1 by omega) (by omega)
        rw [hlen, List.take_succ_cons, Layout.after_cons]
        omega

/-! ## Where statements start -/

theorem ReadsAssigned.startsAt {ts : List Token} {es : List Expr} (h : ReadsAssigned ts es)
    (hts : Ordered ts) : ∀ e ∈ es, ∃ t ∈ ts, e.span.StartsAt t.start := by
  induction h with
  | none => exact fun e he => absurd he List.not_mem_nil
  | more _ head _ ih =>
    intro x hx
    rcases List.mem_cons.1 hx with rfl | hx
    · obtain ⟨t, us, rfl, -, hstart⟩ := head.startsAt hts.tail.left
      exact ⟨t, by simp, hstart⟩
    · obtain ⟨u, hu, hstart⟩ := ih hts.tail.right x hx
      exact ⟨u, by simp [hu], hstart⟩

/-- **A statement without others inside starts at its first token.** -/
theorem ReadsSimple.startsAt {ts : List Token} {s : Statement} (h : ReadsSimple ts s)
    (hts : Ordered ts) :
    ∃ t us, ts = t :: us ∧ t.kind.hasText = true ∧ s.span.StartsAt t.start := by
  have hafter : ∀ {ts us vs : List Token} {first last : Expr} {s : Statement},
      s.span = first.span.union last.span → Ordered (ts ++ us) → Reads ts (.expr first) →
        Reads vs (.expr last) → Ordered vs → vs ⊆ us →
          ∃ t ws, ts ++ us = t :: ws ∧ t.kind.hasText = true ∧ s.span.StartsAt t.start := by
    intro ts us vs first last s hs hord hfirst hlast hvs hsub
    rw [hs]
    exact starts_union (x := .unsupported (first.span.union last.span) .slice) rfl hord
      (hfirst.starts hord.left) (hlast.starts hvs) hsub
  cases h with
  | @pass t _ word | @returns t _ word => exact ⟨t, _, rfl, by rw [word]; rfl, t.span_startsAt⟩
  | @returnsValue t ts _ e word value =>
    obtain ⟨u, us, rfl, -, hstart⟩ := value.startsAt hts.tail.left
    refine ⟨t, _, rfl, by rw [word]; rfl, ?_⟩
    exact hts.union_startsAt (by simp) t.span_startsAt hstart
  | declared head _ typed =>
    exact hafter rfl hts head typed hts.right.tail.left fun u hu => by simp [hu]
  | declaredValue head _ _ _ tail =>
    exact hafter rfl hts head tail hts.right.tail.right.tail.left fun u hu => by simp [hu]
  | augmented head _ tail =>
    exact hafter rfl hts head tail hts.right.tail.left fun u hu => by simp [hu]
  | @assigned ts us es first more head tail =>
    obtain ⟨t, ts, rfl, htext, hfirst⟩ := head.startsAt hts.left
    refine ⟨t, _, rfl, htext, ?_⟩
    unfold Parser.assignmentOf
    split
    · exact hfirst
    · next value hvalue =>
      obtain ⟨u, hu, hstart⟩ := tail.startsAt hts.right.left value (List.mem_of_getLast? hvalue)
      exact hts.union_startsAt (by simp [hu]) hfirst hstart
  | @skipped t _ _ _ word => exact ⟨t, _, rfl, by rw [word]; rfl, t.span_startsAt⟩
  | @decorator t _ _ sign => exact ⟨t, _, rfl, by rw [sign]; rfl, t.span_startsAt⟩

end Gradual
