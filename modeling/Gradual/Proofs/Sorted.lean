import Mathlib.Data.List.Sort
import Gradual.Diagnostic
import Gradual.Sorted

/-!
# Sets as sorted lists

* `Sorted.mem_foldl_insert`, `Sorted.mem_ofList`: the members;
* `Sorted.mem_ofList_of_distinct`: the same where only some elements compare as equal to no other;
* `Sorted.isSorted_insert`, `Sorted.isSorted_ofList`: they increase strictly;
* **`Sorted.insert_comm`**, `Sorted.insert_insert_self`: neither the order of insertion matters, nor
  repetition;
* **`Sorted.ofList_congr`**, `Sorted.IsSorted.ofList_eq`: the set of a list depends on the elements
  alone, and a set is that of its own members;
* **`Diagnostics.push_comm`**, **`Diagnostics.foldl_push_of_subset`**: nor does it matter in which
  order diagnostics are found, and how often.
-/

namespace Gradual

/-! ## Lists in the order of their elements -/

/-- A comparison of lists by their first difference is the lexicographic one. -/
theorem eq_compareLex {α : Type} {cmp : α → α → Ordering} {f : List α → List α → Ordering}
    (nil_nil : f [] [] = .eq) (nil_cons : ∀ b l, f [] (b :: l) = .lt)
    (cons_nil : ∀ a k, f (a :: k) [] = .gt)
    (cons_cons : ∀ a k b l, f (a :: k) (b :: l) = (cmp a b).then (f k l)) (k l : List α) :
    f k l = k.compareLex cmp l := by
  induction k generalizing l with
  | nil =>
    cases l with
    | nil => exact nil_nil
    | cons b l => exact nil_cons b l
  | cons a k ih =>
    cases l with
    | nil => exact cons_nil a k
    | cons b l => rw [cons_cons, ih, List.compareLex_cons_cons]

/-! ## Insertion -/

namespace Sorted

variable {α : Type} {cmp : α → α → Ordering}

theorem mem_of_mem_insert {a b : α} {l : List α} (h : b ∈ insert cmp a l) : b = a ∨ b ∈ l := by
  induction l with
  | nil => exact .inl (List.mem_singleton.1 h)
  | cons c l ih =>
    rw [insert] at h
    split at h
    · exact List.mem_cons.1 h
    · exact .inr h
    · rcases List.mem_cons.1 h with rfl | hb
      · exact .inr List.mem_cons_self
      · exact (ih hb).imp_right (List.mem_cons_of_mem _)

/-- The same for the other direction, if `a` compares as equal to no other member. -/
theorem mem_insert_of_distinct {a b : α} {l : List α} (hl : ∀ c ∈ l, cmp a c = .eq → a = c)
    (h : b = a ∨ b ∈ l) : b ∈ insert cmp a l := by
  induction l with
  | nil => simpa [insert] using h
  | cons c l ih =>
    obtain ⟨hc, hl⟩ := List.forall_mem_cons.1 hl
    rw [insert]
    split
    next => simpa using h
    next hac =>
      rw [hc hac] at h
      simpa using h
    next =>
      rcases h with rfl | hb
      · exact List.mem_cons_of_mem _ (ih hl (.inl rfl))
      · rcases List.mem_cons.1 hb with rfl | hb
        · exact List.mem_cons_self
        · exact List.mem_cons_of_mem _ (ih hl (.inr hb))

theorem mem_of_mem_foldl_insert {a : α} {s l : List α}
    (h : a ∈ l.foldl (fun s b => insert cmp b s) s) : a ∈ l ∨ a ∈ s := by
  induction l generalizing s with
  | nil => exact .inr h
  | cons b l ih =>
    rcases ih h with ha | ha
    · exact .inl (List.mem_cons_of_mem _ ha)
    · rcases mem_of_mem_insert ha with rfl | ha
      · exact .inl List.mem_cons_self
      · exact .inr ha

/-- Elements that compare as equal only to themselves are all members. -/
theorem mem_foldl_insert_of_distinct {a : α} {s l : List α}
    (hd : ∀ b ∈ l ++ s, ∀ c ∈ l ++ s, cmp b c = .eq → b = c) (h : a ∈ l ∨ a ∈ s) :
    a ∈ l.foldl (fun s b => insert cmp b s) s := by
  induction l generalizing s with
  | nil => simpa using h
  | cons b l ih =>
    have hsub : ∀ c ∈ l ++ insert cmp b s, c ∈ b :: l ++ s := by
      intro c hc
      rcases List.mem_append.1 hc with hc | hc
      · simp [hc]
      · rcases mem_of_mem_insert hc with rfl | hc <;> simp [*]
    have hb : ∀ c ∈ s, cmp b c = .eq → b = c := fun c hc => hd b (by simp) c (by simp [hc])
    refine ih (fun c hc e he => hd c (hsub c hc) e (hsub e he)) ?_
    rcases h with ha | ha
    · rcases List.mem_cons.1 ha with rfl | ha
      · exact .inr (mem_insert_of_distinct hb (.inl rfl))
      · exact .inl ha
    · exact .inr (mem_insert_of_distinct hb (.inr ha))

/-- The members of the set of a list whose elements compare as equal only to themselves. -/
theorem mem_ofList_of_distinct {a : α} {l : List α}
    (hd : ∀ b ∈ l, ∀ c ∈ l, cmp b c = .eq → b = c) : a ∈ ofList cmp l ↔ a ∈ l := by
  refine ⟨fun h => ?_, fun h => mem_foldl_insert_of_distinct (by simpa using hd) (.inl h)⟩
  simpa using mem_of_mem_foldl_insert h

variable [Std.TransCmp cmp]

theorem isSorted_insert {l : List α} (h : IsSorted cmp l) (a : α) :
    IsSorted cmp (insert cmp a l) := by
  induction l with
  | nil => exact List.pairwise_singleton _ a
  | cons b l ih =>
    obtain ⟨hb, hl⟩ := List.pairwise_cons.1 h
    rw [insert]
    split
    next hab =>
      refine List.pairwise_cons.2 ⟨fun x hx => ?_, h⟩
      rcases List.mem_cons.1 hx with rfl | hx
      · exact hab
      · exact Std.TransCmp.lt_trans hab (hb x hx)
    next => exact h
    next hab =>
      refine List.pairwise_cons.2 ⟨fun x hx => ?_, ih hl⟩
      rcases mem_of_mem_insert hx with rfl | hx
      · exact Std.OrientedCmp.lt_of_gt hab
      · exact hb x hx

theorem isSorted_foldl_insert {s : List α} (hs : IsSorted cmp s) (l : List α) :
    IsSorted cmp (l.foldl (fun s a => insert cmp a s) s) := by
  induction l generalizing s with
  | nil => exact hs
  | cons a l ih => exact ih (isSorted_insert hs a)

theorem isSorted_ofList (l : List α) : IsSorted cmp (ofList cmp l) :=
  isSorted_foldl_insert .nil l

/-- A set has one list of members. -/
theorem IsSorted.eq_of_mem_iff {s t : List α} (hs : IsSorted cmp s) (ht : IsSorted cmp t)
    (h : ∀ a, a ∈ s ↔ a ∈ t) : s = t := by
  have : Std.Irrefl fun a b => cmp a b = .lt := ⟨fun a => by simp [Std.ReflCmp.compare_self]⟩
  have : Std.Antisymm fun a b => cmp a b = .lt :=
    ⟨fun a b hab hba => by simp [Std.OrientedCmp.gt_of_lt hab] at hba⟩
  exact List.Pairwise.eq_of_mem_iff hs ht h

variable [Std.LawfulEqCmp cmp]

omit [Std.TransCmp cmp] in
theorem mem_foldl_insert {a : α} {s l : List α} :
    a ∈ l.foldl (fun s b => insert cmp b s) s ↔ a ∈ l ∨ a ∈ s :=
  ⟨mem_of_mem_foldl_insert,
    mem_foldl_insert_of_distinct fun _ _ _ _ => Std.LawfulEqCmp.eq_of_compare⟩

omit [Std.TransCmp cmp] in
theorem mem_ofList {a : α} {l : List α} : a ∈ ofList cmp l ↔ a ∈ l :=
  mem_ofList_of_distinct fun _ _ _ _ => Std.LawfulEqCmp.eq_of_compare

theorem insert_comm_of_lt {a b : α} (h : cmp a b = .lt) (l : List α) :
    insert cmp a (insert cmp b l) = insert cmp b (insert cmp a l) := by
  have hba : cmp b a = .gt := Std.OrientedCmp.gt_of_lt h
  induction l with
  | nil => simp [insert, h, hba]
  | cons c l ih =>
    cases hac : cmp a c with
    | lt => cases hbc : cmp b c <;> simp [insert, h, hba, hac, hbc]
    | eq =>
      obtain rfl : a = c := Std.LawfulEqCmp.eq_of_compare hac
      simp [insert, hba, hac]
    | gt =>
      have hbc : cmp b c = .gt := Std.TransCmp.gt_trans hba hac
      simp [insert, hac, hbc, ih]

/-- **The order of insertion does not matter.** -/
theorem insert_comm (a b : α) (l : List α) :
    insert cmp a (insert cmp b l) = insert cmp b (insert cmp a l) := by
  cases h : cmp a b with
  | lt => exact insert_comm_of_lt h l
  | eq => rw [Std.LawfulEqCmp.eq_of_compare h]
  | gt => exact (insert_comm_of_lt (Std.OrientedCmp.lt_of_gt h) l).symm

omit [Std.TransCmp cmp] in
/-- A member that is inserted again changes nothing. -/
theorem insert_insert_self (a : α) (l : List α) :
    insert cmp a (insert cmp a l) = insert cmp a l := by
  induction l with
  | nil => simp [insert, Std.ReflCmp.compare_self]
  | cons b l ih => cases h : cmp a b <;> simp [insert, h, ih, Std.ReflCmp.compare_self]

/-- **The set of a list depends on the elements alone**, not on their order or number. -/
theorem ofList_congr {k l : List α} (h : ∀ a, a ∈ k ↔ a ∈ l) : ofList cmp k = ofList cmp l :=
  (isSorted_ofList k).eq_of_mem_iff (isSorted_ofList l) fun a => by
    rw [mem_ofList, mem_ofList, h a]

theorem IsSorted.ofList_eq {s : List α} (h : IsSorted cmp s) : ofList cmp s = s :=
  (isSorted_ofList s).eq_of_mem_iff h fun _ => mem_ofList

omit [Std.TransCmp cmp] [Std.LawfulEqCmp cmp] in
theorem length_insert_le (a : α) (l : List α) : (insert cmp a l).length ≤ l.length + 1 := by
  induction l with
  | nil => exact Nat.le_refl 1
  | cons b l ih =>
    rw [insert]
    split
    · exact Nat.le_refl _
    · exact Nat.le_succ _
    · exact Nat.succ_le_succ ih

end Sorted

/-! ## Diagnostics -/

open Source

instance : Std.TransCmp Span.cmp :=
  inferInstanceAs (Std.TransCmp (compareLex (compareOn Span.line) (compareLex
    (compareOn Span.column) (compareLex (compareOn Span.endLine) (compareOn Span.endColumn)))))

instance : Std.LawfulEqCmp Span.cmp where
  eq_of_compare {a b} h := by
    obtain ⟨l, c, m, d⟩ := a
    obtain ⟨l', c', m', d'⟩ := b
    simpa [Span.cmp, Ordering.then_eq_eq] using h

instance : Std.TransCmp fun a b : Diagnostic => a.span.cmp b.span where
  eq_swap {a b} := @Std.OrientedCmp.eq_swap Span Span.cmp _ a.span b.span
  isLE_trans {a b c} := @Std.TransCmp.isLE_trans Span Span.cmp _ a.span b.span c.span

instance : Std.TransCmp Diagnostic.cmp :=
  inferInstanceAs (Std.TransCmp (compareLex (fun a b : Diagnostic => a.span.cmp b.span)
    (compareLex (compareOn fun d : Diagnostic => d.level.rank) (compareOn Diagnostic.message))))

theorem Level.rank_injective {l k : Level} (h : l.rank = k.rank) : l = k := by
  cases l <;> cases k <;> simp_all [rank]

instance : Std.LawfulEqCmp Diagnostic.cmp where
  eq_of_compare {a b} h := by
    simp only [Diagnostic.cmp, Ordering.then_eq_eq] at h
    obtain ⟨hs, hl, hm⟩ := h
    have hspan : a.span = b.span := Std.LawfulEqCmp.eq_of_compare hs
    have hlevel : a.level = b.level := Level.rank_injective (Std.LawfulEqCmp.eq_of_compare hl)
    have hmessage : a.message = b.message := Std.LawfulEqCmp.eq_of_compare hm
    cases a
    cases b
    simp_all

namespace Diagnostics

/-- **The order in which diagnostics are found does not matter.** -/
theorem push_comm (ds : Diagnostics) (d e : Diagnostic) :
    (ds.push d).push e = (ds.push e).push d :=
  congrArg mk (Sorted.insert_comm e d ds.entries)

theorem foldl_push (ds : Diagnostics) (d : Diagnostic) (l : List Diagnostic) :
    l.foldl push (ds.push d) = (l.foldl push ds).push d := by
  induction l generalizing ds with
  | nil => rfl
  | cons e l ih => rw [List.foldl_cons, push_comm, ih, List.foldl_cons]

theorem foldl_push_of_mem (ds : Diagnostics) {d : Diagnostic} {l : List Diagnostic} (h : d ∈ l) :
    l.foldl push (ds.push d) = l.foldl push ds := by
  induction l generalizing ds with
  | nil => cases h
  | cons e l ih =>
    rw [List.foldl_cons, List.foldl_cons]
    rcases List.mem_cons.1 h with rfl | hl
    · have hself : (ds.push d).push d = ds.push d :=
        congrArg mk (Sorted.insert_insert_self d ds.entries)
      rw [hself]
    · rw [push_comm, ih _ hl]

/-- **What is found again is not counted again.** -/
theorem foldl_push_of_subset (ds : Diagnostics) {k l : List Diagnostic} (h : k ⊆ l) :
    l.foldl push (k.foldl push ds) = l.foldl push ds := by
  induction k generalizing ds with
  | nil => rfl
  | cons d k ih =>
    obtain ⟨hd, hk⟩ := List.cons_subset.1 h
    rw [List.foldl_cons, ih _ hk, foldl_push_of_mem ds hd]

theorem entries_foldl_push (ds : Diagnostics) (l : List Diagnostic) :
    (l.foldl push ds).entries =
      l.foldl (fun s d => Sorted.insert Diagnostic.cmp d s) ds.entries := by
  induction l generalizing ds with
  | nil => rfl
  | cons d l ih => exact ih (ds.push d)

theorem mem_foldl_push {ds : Diagnostics} {d : Diagnostic} {l : List Diagnostic} :
    d ∈ (l.foldl push ds).entries ↔ d ∈ l ∨ d ∈ ds.entries := by
  rw [entries_foldl_push, Sorted.mem_foldl_insert]

theorem size_foldl_push_le (ds : Diagnostics) (l : List Diagnostic) :
    (l.foldl push ds).size ≤ ds.size + l.length := by
  induction l generalizing ds with
  | nil => exact Nat.le_refl _
  | cons d l ih =>
    have hpush : (ds.push d).size ≤ ds.size + 1 := Sorted.length_insert_le d ds.entries
    have hrest := ih (ds.push d)
    rw [List.foldl_cons, List.length_cons]
    omega

theorem isSorted_foldl_push {ds : Diagnostics} (h : Sorted.IsSorted Diagnostic.cmp ds.entries)
    (l : List Diagnostic) : Sorted.IsSorted Diagnostic.cmp (l.foldl push ds).entries := by
  rw [entries_foldl_push]
  exact Sorted.isSorted_foldl_insert h l

end Diagnostics

end Gradual
