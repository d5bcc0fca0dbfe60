import Gradual.Hint
import Gradual.Proofs.Source.Position

/-!
# Lines by line feeds

A line of a text is often taken to end at a line feed only. Such lines are those between line
breaks, unless a carriage return stands alone.

* `loneReturns`, `lineBreaks_eq`: line breaks that are no line feeds;
* `takeWhile_line`, `trim_line`: the rest of a line in both senses;
* `LineAt`, `splitLines_eq_some`, `exists_line_of_infix`: where a line stands in a text, and what
  lies on it;
* `ofList_scanLines_eq_some_iff`: what is found line by line;
* **`scanHints_eq_some`**: where the text of a type in a comment stands.
-/

namespace Gradual

open Source Text

/-! ## Carriage returns -/

namespace Source

/-- The number of carriage returns without a line feed after them. -/
def loneReturns : List Char → Nat
  | [] => 0
  | '\r' :: '\n' :: cs => loneReturns cs
  | c :: cs => loneReturns cs + if c = '\r' then 1 else 0

/-- A line break is a line feed, alone or in a pair, or a carriage return alone. -/
theorem lineBreaks_eq (cs : List Char) : lineBreaks cs = cs.count '\n' + loneReturns cs := by
  fun_induction loneReturns cs with
  | case1 => rfl
  | case2 cs ih =>
    rw [lineBreaks, ih]
    simp
    omega
  | case3 c cs hne ih =>
    rw [lineBreaks, ih, List.count_cons]
    · have hbreak : (if isBreak c = true then 1 else 0) =
          (if (c == '\n') = true then 1 else 0) + if c = '\r' then 1 else 0 := by
        by_cases hn : c = '\n'
        · subst hn
          rfl
        · by_cases hr : c = '\r'
          · subst hr
            rfl
          · simp [isBreak, hn, hr]
      omega
    · exact hne

theorem loneReturns_append {a b : List Char} (h : CleanCut a b) :
    loneReturns (a ++ b) = loneReturns a + loneReturns b := by
  have hline := congrArg Position.line (Position.after_append .start h)
  rw [Position.after_eq, Position.after_eq, Position.after_eq] at hline
  simp only [lineBreaks_eq, List.count_append] at hline
  omega

theorem lineBreaks_append {a b : List Char} (h : CleanCut a b) :
    lineBreaks (a ++ b) = lineBreaks a + lineBreaks b := by
  rw [lineBreaks_eq, lineBreaks_eq, lineBreaks_eq, loneReturns_append h, List.count_append]
  omega

/-- Without lone carriage returns, the rest of a line up to the line feed is the rest up to the line
break, with the carriage return of a pair. -/
theorem takeWhile_line {cs : List Char} (h : loneReturns cs = 0) :
    cs.takeWhile (· != '\n') = cs.takeWhile (!isBreak ·) ∨
    cs.takeWhile (· != '\n') = cs.takeWhile (!isBreak ·) ++ ['\r'] := by
  fun_induction loneReturns cs with
  | case1 => exact .inl rfl
  | case2 cs ih => exact .inr rfl
  | case3 c cs hne ih =>
    have hr : c ≠ '\r' := by
      rintro rfl
      simp at h
    by_cases hn : c = '\n'
    · subst hn
      exact .inl rfl
    · have hc : isBreak c = false := by simp [isBreak, hn, hr]
      rw [if_neg hr, Nat.add_zero] at h
      simpa [List.takeWhile_cons, hn, hc] using ih h

end Source

/-! ## White space -/

namespace Text

/-- The character has the property *White_Space*. -/
def IsWhite (c : Char) : Prop := ∃ r ∈ blankRanges.list, r.1 ≤ c.toNat ∧ c.toNat ≤ r.2

theorem isBlank_iff {c : Char} : isBlank c = true ↔ IsWhite c := blankRanges.contains_iff c.toNat

theorem trimEnd_append_blank (cs : List Char) {c : Char} (h : isBlank c = true) :
    trimEnd (cs ++ [c]) = trimEnd cs := by
  rw [trimEnd, trimEnd, List.reverse_append, List.reverse_singleton, List.singleton_append,
    List.dropWhile_cons_of_pos h]

theorem trim_append_blank (cs : List Char) {c : Char} (h : isBlank c = true) :
    trim (cs ++ [c]) = trim cs := by
  rw [trim, trim, trimStart, trimStart, List.dropWhile_append]
  split
  next hempty =>
    rw [List.isEmpty_iff.1 hempty, List.dropWhile_cons_of_pos h, List.dropWhile_nil]
  next => exact trimEnd_append_blank _ h

theorem trim_line {cs : List Char} (h : loneReturns cs = 0) :
    trim (cs.takeWhile (· != '\n')) = trim (cs.takeWhile (!isBreak ·)) := by
  rcases takeWhile_line h with hline | hline
  · rw [hline]
  · rw [hline, trim_append_blank _ (by decide)]

/-! ## Lines -/

/-- A line stands in a text, with `before` before it and `rest` behind it. -/
structure LineAt (before line rest : List Char) : Prop where
  start : before = [] ∨ before.getLast? = some '\n'
  inner : '\n' ∉ line
  unpaired : line.getLast? = some '\r' → rest.head? ≠ some '\n'
  stop : rest = [] ∨ rest.head? = some '\n' ∨ ∃ after, rest = '\r' :: '\n' :: after

theorem LineAt.before_eq_nil {before line rest : List Char} (h : LineAt before line rest)
    (hcount : before.count '\n' = 0) : before = [] := by
  rcases h.start with hnil | hlast
  · exact hnil
  · exact absurd (List.mem_of_getLast? hlast) (List.count_eq_zero.1 hcount)

theorem LineAt.prepend {before line rest : List Char} (h : LineAt before line rest)
    (lead : List Char) (hlead : before = [] → lead.getLast? = some '\n') :
    LineAt (lead ++ before) line rest where
  start := by
    right
    rw [List.getLast?_append]
    rcases h.start with hnil | hlast
    · rw [hnil, hlead hnil]
      rfl
    · rw [hlast]
      rfl
  inner := h.inner
  unpaired := h.unpaired
  stop := h.stop

theorem splitLines_eq_nil {cs : List Char} (h : splitLines cs = []) : cs = [] := by
  unfold splitLines at h
  split at h
  · rfl
  · cases h
  · cases h
  · split at h <;> cases h

/-- The lines of a text are counted by the line feeds before them. -/
theorem splitLines_eq_some {cs line : List Char} {i : Nat} (h : (splitLines cs)[i]? = some line) :
    ∃ before rest, cs = before ++ line ++ rest ∧ before.count '\n' = i ∧
      LineAt before line rest := by
  fun_induction splitLines cs generalizing i line with
  | case1 => simp at h
  | case2 cs ih =>
    cases i with
    | zero =>
      cases h
      exact ⟨[], '\n' :: cs, rfl, rfl, .inl rfl, by simp, by simp, .inr (.inl rfl)⟩
    | succ i =>
      obtain ⟨before, rest, rfl, hcount, hline⟩ := ih h
      exact ⟨'\n' :: before, rest, rfl, by simp [hcount], hline.prepend ['\n'] fun _ => rfl⟩
  | case3 cs ih =>
    cases i with
    | zero =>
      cases h
      exact ⟨[], '\r' :: '\n' :: cs, rfl, rfl, .inl rfl, by simp, by simp, .inr (.inr ⟨cs, rfl⟩)⟩
    | succ i =>
      obtain ⟨before, rest, rfl, hcount, hline⟩ := ih h
      exact ⟨'\r' :: '\n' :: before, rest, rfl, by simp [hcount],
        hline.prepend ['\r', '\n'] fun _ => rfl⟩
  | case4 c cs hn hpair hnil ih =>
    cases splitLines_eq_nil hnil
    cases i with
    | zero =>
      cases h
      refine ⟨[], [], rfl, rfl, .inl rfl, ?_, by simp, .inl rfl⟩
      simpa [eq_comm] using hn
    | succ i => simp at h
  | case5 c cs hn hpair first others hcons ih =>
    cases i with
    | zero =>
      cases h
      obtain ⟨before, rest, rfl, hcount, hline⟩ := ih (i := 0) (by rw [hcons]; rfl)
      cases hline.before_eq_nil hcount
      refine ⟨[], rest, rfl, rfl, .inl rfl, ?_, fun hlast => ?_, hline.stop⟩
      · simpa [eq_comm, hline.inner] using hn
      · cases first with
        | nil =>
          intro hhead
          obtain ⟨after, rfl⟩ := List.head?_eq_some_iff.1 hhead
          exact hpair after (by simpa using hlast) rfl
        | cons d first => exact hline.unpaired (by simpa [List.getLast?_cons] using hlast)
    | succ i =>
      obtain ⟨before, rest, rfl, hcount, hline⟩ := ih (i := i + 1) (by rw [hcons]; exact h)
      have hc : c ≠ '\n' := by simpa using hn
      refine ⟨c :: before, rest, rfl, by simp [hcount, hc], hline.prepend [c] fun hnil => ?_⟩
      rw [hnil] at hcount
      simp at hcount

theorem splitLines_cons {c : Char} {cs : List Char} (hc : c ≠ '\n')
    (hpair : c = '\r' → cs.head? ≠ some '\n') :
    splitLines (c :: cs) = (c :: (splitLines cs).headD []) :: (splitLines cs).tail := by
  rw [splitLines]
  · cases splitLines cs <;> rfl
  · exact hc
  · rintro after rfl rfl
    exact hpair rfl rfl

/-- A text without line feeds stands at the head of the first line. -/
theorem splitLines_append {p cs : List Char} (hp : p ≠ []) (hn : '\n' ∉ p)
    (hpair : p.getLast? = some '\r' → cs.head? ≠ some '\n') :
    splitLines (p ++ cs) = (p ++ (splitLines cs).headD []) :: (splitLines cs).tail := by
  induction p with
  | nil => exact absurd rfl hp
  | cons c p ih =>
    have hc : c ≠ '\n' := fun h => hn (h ▸ List.mem_cons_self)
    cases p with
    | nil => exact splitLines_cons hc fun h => hpair (by simp [h])
    | cons d p =>
      have hd : d ≠ '\n' := fun h => hn (by simp [h])
      have hrest := ih (List.cons_ne_nil d p) (fun h => hn (List.mem_cons_of_mem c h))
        (by simpa [List.getLast?_cons] using hpair)
      rw [List.cons_append, splitLines_cons hc fun _ => by simpa using hd, hrest]
      rfl

/-- What stands in a text is found on the line that is counted by the line feeds before it. -/
theorem splitLines_after (before : List Char) {cs : List Char} (hcs : cs ≠ [])
    (hhead : cs.head? ≠ some '\n') :
    ∃ lead, (splitLines (before ++ cs))[before.count '\n']? =
      some (lead ++ (splitLines cs).headD []) := by
  fun_induction splitLines before with
  | case1 =>
    refine ⟨[], ?_⟩
    cases hlines : splitLines cs with
    | nil => exact absurd (splitLines_eq_nil hlines) hcs
    | cons line lines => simp [hlines]
  | case2 before ih =>
    obtain ⟨lead, hlead⟩ := ih
    exact ⟨lead, by simpa [splitLines] using hlead⟩
  | case3 before ih =>
    obtain ⟨lead, hlead⟩ := ih
    exact ⟨lead, by simpa [splitLines] using hlead⟩
  | case4 c before hn hpair _ ih | case5 c before hn hpair _ _ _ ih =>
    have hc : c ≠ '\n' := by simpa using hn
    have hunpaired : c = '\r' → (before ++ cs).head? ≠ some '\n' := by
      intro hr h
      cases before with
      | nil => exact hhead h
      | cons d before => exact hpair before hr (by simpa using h)
    obtain ⟨lead, hlead⟩ := ih
    rw [List.cons_append, splitLines_cons hc hunpaired, List.count_cons_of_ne hc]
    cases hlines : splitLines (before ++ cs) with
    | nil => simp [hlines] at hlead
    | cons line lines =>
      rw [hlines] at hlead
      cases hcount : before.count '\n' with
      | zero =>
        rw [hcount] at hlead
        exact ⟨c :: lead, by simpa using hlead⟩
      | succ k =>
        rw [hcount] at hlead
        exact ⟨lead, hlead⟩

/-- A text without line feeds lies on the line that is counted by the line feeds before it. -/
theorem exists_line_of_infix (before after : List Char) {p : List Char} (hp : p ≠ [])
    (hn : '\n' ∉ p) (hpair : p.getLast? = some '\r' → after.head? ≠ some '\n') :
    ∃ line, (splitLines (before ++ p ++ after))[before.count '\n']? = some line ∧ p <:+: line := by
  have hhead : (p ++ after).head? ≠ some '\n' := by
    cases p with
    | nil => exact absurd rfl hp
    | cons c p =>
      rintro ⟨⟩
      exact hn List.mem_cons_self
  obtain ⟨lead, hlead⟩ := splitLines_after before (by simp [hp]) hhead
  rw [splitLines_append hp hn hpair] at hlead
  exact ⟨_, by rw [List.append_assoc]; exact hlead, lead, _, List.append_assoc ..⟩

/-- What lies on a line has no line feed in it, nor one behind a carriage return at its end. -/
theorem LineAt.onLine {before lead p tail rest : List Char}
    (h : LineAt before (lead ++ p ++ tail) rest) :
    (before ++ lead).count '\n' = before.count '\n' ∧ '\n' ∉ p ∧
      (p.getLast? = some '\r' → (tail ++ rest).head? ≠ some '\n') := by
  have hn : '\n' ∉ lead ∧ '\n' ∉ p ∧ '\n' ∉ tail := by simpa [not_or] using h.inner
  refine ⟨?_, hn.2.1, fun hlast => ?_⟩
  · rw [List.count_append, List.count_eq_zero.2 hn.1, Nat.add_zero]
  · cases tail with
    | nil => exact h.unpaired (by simp [List.getLast?_append, hlast])
    | cons d tail =>
      have hd : '\n' ≠ d ∧ '\n' ∉ tail := by simpa [not_or] using hn.2.2
      simpa using hd.1.symm

theorem LineAt.trim_tail {before line rest lead tail : List Char} (h : LineAt before line rest)
    (hline : line = lead ++ tail) : trim ((tail ++ rest).takeWhile (· != '\n')) = trim tail := by
  have htail : ∀ c ∈ tail, (c != '\n') = true := by
    rintro c hc
    have hne : c ≠ '\n' := by
      rintro rfl
      exact h.inner (hline ▸ List.mem_append_right lead hc)
    simpa using hne
  rw [List.takeWhile_append_of_pos htail]
  rcases h.stop with rfl | hhead | ⟨after, rfl⟩
  · rw [List.takeWhile_nil, List.append_nil]
  · obtain ⟨after, rfl⟩ := List.head?_eq_some_iff.1 hhead
    rw [List.takeWhile_cons_of_neg (by decide), List.append_nil]
  · rw [List.takeWhile_cons_of_pos (by decide), List.takeWhile_cons_of_neg (by decide)]
    exact trim_append_blank tail (by decide)

end Text

/-! ## Scanning lines -/

theorem afterMark_eq_some {mark text tail : List Char} (h : afterMark mark text = some tail) :
    text = mark ++ tail := by
  unfold afterMark at h
  split at h
  next hmark =>
    obtain ⟨after, rfl⟩ := List.isPrefixOf_iff_prefix.1 hmark
    rw [List.drop_left] at h
    rw [Option.some.inj h]
  next => cases h

theorem afterMark_append (mark tail : List Char) : afterMark mark (mark ++ tail) = some tail := by
  simp [afterMark]

theorem firstMatch_eq_some {α : Type} {f : List Char → Option α} {cs : List Char} {a : α}
    (h : firstMatch f cs = some a) : ∃ lead tail, cs = lead ++ tail ∧ f tail = some a := by
  fun_induction firstMatch f cs with
  | case1 => exact ⟨[], [], rfl, h⟩
  | case2 c cs b hb => exact ⟨[], c :: cs, rfl, hb.trans h⟩
  | case3 c cs hnone ih =>
    obtain ⟨lead, tail, rfl, htail⟩ := ih h
    exact ⟨c :: lead, tail, rfl, htail⟩

theorem firstMatch_isSome {α : Type} {f : List Char → Option α} {tail : List Char}
    (h : (f tail).isSome) (lead : List Char) : (firstMatch f (lead ++ tail)).isSome := by
  induction lead with
  | nil =>
    cases tail with
    | nil => exact h
    | cons c tail =>
      obtain ⟨a, ha⟩ := Option.isSome_iff_exists.1 h
      simp [firstMatch, ha]
  | cons c lead ih =>
    rw [List.cons_append, firstMatch]
    split
    · rfl
    · exact ih

theorem mem_scanLines_iff {f : List Char → Option String} {source text : String} {n : Nat} :
    (n, text) ∈ scanLines f source ↔
      1 ≤ n ∧ ∃ line, (splitLines source.toList)[n - 1]? = some line ∧ f line = some text := by
  simp only [scanLines, List.mem_filterMap, Prod.exists, List.mem_zipIdx_iff_le_and_getElem?_sub,
    Option.map_eq_some_iff, Prod.mk.injEq]
  constructor
  · rintro ⟨line, m, ⟨hm, hline⟩, text, htext, rfl, rfl⟩
    exact ⟨hm, line, hline, htext⟩
  · rintro ⟨hn, line, hline, htext⟩
    exact ⟨line, n, ⟨hn, hline⟩, text, htext, rfl, rfl⟩

theorem scanLines_keys (f : List Char → Option String) (source : String) :
    (scanLines f source).Pairwise fun a b => ¬compare a.1 b.1 = .eq := by
  have hrange : (((splitLines source.toList).zipIdx 1).map Prod.snd).Pairwise (· < ·) := by
    rw [List.zipIdx_map_snd]
    exact List.pairwise_lt_range'
  refine List.Pairwise.filterMap _ ?_ (List.pairwise_map.1 hrange)
  rintro ⟨_, m⟩ ⟨_, n⟩ hlt a ha b hb heq
  obtain ⟨_, _, rfl⟩ := Option.map_eq_some_iff.1 ha
  obtain ⟨_, _, rfl⟩ := Option.map_eq_some_iff.1 hb
  exact absurd (Nat.compare_eq_eq.1 heq) (Nat.ne_of_lt hlt)

/-- The results on the lines of a text, by line number. -/
theorem ofList_scanLines_eq_some_iff {f : List Char → Option String} {source text : String}
    {n : Nat} : (Std.ExtTreeMap.ofList (scanLines f source))[n]? = some text ↔
      1 ≤ n ∧ ∃ line, (splitLines source.toList)[n - 1]? = some line ∧ f line = some text := by
  rw [← mem_scanLines_iff]
  constructor
  · intro h
    have hkey : n ∈ Std.ExtTreeMap.ofList (scanLines f source) :=
      Std.ExtTreeMap.mem_iff_isSome_getElem?.2 (by rw [h]; rfl)
    obtain ⟨⟨_, other⟩, hother, rfl⟩ :=
      List.mem_map.1 (List.contains_iff_mem.1 (Std.ExtTreeMap.mem_ofList.1 hkey))
    have hfound := Std.ExtTreeMap.getElem?_ofList_of_mem Std.ReflCmp.compare_self
      (scanLines_keys f source) hother
    obtain rfl : text = other := Option.some.inj (h.symm.trans hfound)
    exact hother
  · exact Std.ExtTreeMap.getElem?_ofList_of_mem Std.ReflCmp.compare_self (scanLines_keys f source)

/-! ## Types in comments -/

theorem hintText_eq_some {line : List Char} {text : String} (h : hintText line = some text) :
    ∃ lead tail, line = lead ++ hintMarker ++ tail ∧ text.toList = trim tail := by
  unfold hintText at h
  split at h
  next => cases h
  next => cases h
  next found _ hfound =>
    obtain ⟨tail, hmatch, rfl⟩ := Option.map_eq_some_iff.1 hfound
    obtain ⟨lead, marked, rfl, hmark⟩ := firstMatch_eq_some hmatch
    obtain rfl := Option.some.inj h
    refine ⟨lead, tail, ?_, String.toList_ofList⟩
    rw [afterMark_eq_some hmark, List.append_assoc]

/-- **Where the text of a type in a comment stands**: behind a marker, up to the next line feed, on
the line that is found by counting the line feeds before it. -/
theorem scanHints_eq_some {source text : String} {n : Nat}
    (h : (scanHints source)[n]? = some text) :
    ∃ before after, source.toList = before ++ hintMarker ++ after ∧ n = 1 + before.count '\n' ∧
      text.toList = trim (after.takeWhile (· != '\n')) := by
  obtain ⟨hn, line, hline, hhint⟩ := ofList_scanLines_eq_some_iff.1 h
  obtain ⟨before, rest, hsplit, hcount, hat⟩ := splitLines_eq_some hline
  obtain ⟨lead, tail, rfl, htext⟩ := hintText_eq_some hhint
  refine ⟨before ++ lead, tail ++ rest, by simp [hsplit], ?_, ?_⟩
  · rw [hat.onLine.1, hcount, Nat.add_sub_of_le hn]
  · rw [htext, hat.trim_tail rfl]

end Gradual
