import Gradual.Proofs.Ty.WellFormed

/-!
# Unions by their members

A join is determined by what its parts stand for in a union, as a set. So neither the order of the
parts matters nor their number, and of types that are kept as joins make them the grouping does not
matter either.

* `Ty.Proper`, `Ty.Flat`: unions of several members, and those without unions among them;
* **`Ty.join_congr`**: a join depends on the set of its parts;
* `Ty.join_singleton`, `Ty.mem_members_join`: the join of one type, and the members of any join;
* **`Ty.merge_join`**: the join of two joins is that of all parts;
* `Ty.merge_comm`, `Ty.merge_assoc`, `Ty.merge_self`, `Ty.Flat.merge`: the laws of merging.
-/

namespace Gradual.Ty

variable {a b c m : Ty} {as bs : List Ty}

/-! ## Forms of unions -/

/-- If the type is a union, it has at least two members, which increase strictly. -/
structure Proper (a : Ty) : Prop where
  several : ∀ ms, a = union ms → 2 ≤ ms.length
  sorted : ∀ ms, a = union ms → Sorted.IsSorted cmp ms

/-- If the type is a union, it has at least two members, and none of them is a union. -/
structure Flat (a : Ty) : Prop extends a.Proper where
  plain : ∀ ms, a = union ms → ∀ m ∈ ms, ∀ ks, m ≠ union ks

theorem flat_of_ne (h : ∀ ms, a ≠ union ms) : a.Flat :=
  ⟨⟨fun ms hms => absurd hms (h ms), fun ms hms => absurd hms (h ms)⟩,
    fun ms hms => absurd hms (h ms)⟩

theorem flat_none : none.Flat := flat_of_ne (by simp [none])

theorem flat_union {ms : List Ty} (several : 2 ≤ ms.length) (sorted : Sorted.IsSorted cmp ms)
    (plain : ∀ m ∈ ms, ∀ ks, m ≠ union ks) : (union ms).Flat := by
  constructor
  · constructor
    · rintro _ ⟨⟩
      exact several
    · rintro _ ⟨⟩
      exact sorted
  · rintro _ ⟨⟩
    exact plain

theorem WellFormed.toFlat (h : a.WellFormed) : a.Flat := by
  cases h with
  | union several flat sorted members => exact flat_union several sorted flat
  | _ => exact flat_of_ne nofun

theorem Proper.ne_union_nil (h : a.Proper) : a ≠ union [] := by
  intro ha
  have hlen := h.several [] ha
  simp at hlen

theorem Flat.members_plain (h : a.Flat) : ∀ m ∈ a.members, ∀ ks, m ≠ union ks := by
  cases a with
  | union ms => exact h.plain ms rfl
  | _ =>
    intro m hm ks
    cases List.mem_singleton.1 hm
    exact nofun

theorem members_of_ne (h : ∀ ms, a ≠ union ms) : a.members = [a] := by
  cases a with
  | union ms => exact absurd rfl (h ms)
  | _ => rfl

/-! ## Joins and sets -/

theorem join_congr_members (h : ∀ m, m ∈ as.flatMap members ↔ m ∈ bs.flatMap members) :
    join as = join bs := by
  have hset : setOf (as.flatMap members) = setOf (bs.flatMap members) := Sorted.ofList_congr h
  rw [join, join, hset]

/-- **A join depends on the set of its parts**, not on their order or number. -/
theorem join_congr (h : ∀ t, t ∈ as ↔ t ∈ bs) : join as = join bs :=
  join_congr_members fun m => by simp only [List.mem_flatMap, h]

/-- The join of one type is this type. -/
theorem join_singleton (h : a.Proper) : join [a] = a := by
  cases a with
  | union ms =>
    have hset : setOf ([union ms].flatMap members) = ms := by
      rw [List.flatMap_singleton]
      exact (h.sorted ms rfl).ofList_eq
    have hlen := h.several ms rfl
    rw [join, hset]
    split
    · simp at hlen
    · simp at hlen
    · rfl
  | _ => rfl

/-- The members of a join are those of its parts. -/
theorem mem_members_join (hne : as ≠ []) (h : ∀ a ∈ as, a.Flat) :
    m ∈ (join as).members ↔ m ∈ as.flatMap members := by
  have hnil := flatMap_members_ne_nil hne fun a ha => (h a ha).ne_union_nil
  rcases join_cases hnil with hone | ⟨ms, hjoin, hms⟩
  · -- The join is itself one of the members, and so it is no union.
    obtain ⟨a, ha, hmem⟩ := List.mem_flatMap.1 ((hone _).2 rfl)
    rw [members_of_ne ((h a ha).members_plain _ hmem), List.mem_singleton, hone]
  · rw [hjoin, hms]
    rfl

/-- **The join of two joins is that of all parts.** -/
theorem merge_join (has : as ≠ []) (hbs : bs ≠ []) (ha : ∀ a ∈ as, a.Flat)
    (hb : ∀ b ∈ bs, b.Flat) : (join as).merge (join bs) = join (as ++ bs) := by
  apply join_congr_members
  intro m
  rw [List.flatMap_append, List.mem_append, ← mem_members_join has ha, ← mem_members_join hbs hb]
  simp

theorem flat_join (h : ∀ a ∈ as, a.Flat) : (join as).Flat := by
  have hplain : ∀ m ∈ setOf (as.flatMap members), ∀ ks, m ≠ union ks := by
    intro m hm
    obtain ⟨a, ha, hma⟩ := List.mem_flatMap.1 (mem_setOf.1 hm)
    exact (h a ha).members_plain m hma
  have hsorted := isSorted_setOf (as.flatMap members)
  rw [join]
  generalize setOf (as.flatMap members) = ms at hplain hsorted
  cases ms with
  | nil => exact flat_of_ne (by simp)
  | cons m rest =>
    cases rest with
    | nil => exact flat_of_ne (hplain m List.mem_cons_self)
    | cons => exact flat_union (Nat.le_add_left 2 _) hsorted hplain

/-! ## Merging -/

theorem merge_comm (a b : Ty) : a.merge b = b.merge a :=
  join_congr fun t => by simp [or_comm]

theorem merge_self (h : a.Proper) : a.merge a = a := by
  have hone : a.merge a = join [a] := join_congr fun t => by simp
  rw [hone, join_singleton h]

theorem Flat.merge (ha : a.Flat) (hb : b.Flat) : (a.merge b).Flat :=
  flat_join (by simp [ha, hb])

theorem merge_assoc (ha : a.Flat) (hb : b.Flat) (hc : c.Flat) :
    (a.merge b).merge c = a.merge (b.merge c) := by
  have hleft : (join [a, b]).merge (join [c]) = join [a, b, c] :=
    merge_join (by simp) (by simp) (by simp [ha, hb]) (by simp [hc])
  have hright : (join [a]).merge (join [b, c]) = join [a, b, c] :=
    merge_join (by simp) (by simp) (by simp [ha]) (by simp [hb, hc])
  rw [join_singleton hc.toProper] at hleft
  rw [join_singleton ha.toProper] at hright
  exact hleft.trans hright.symm

end Gradual.Ty
