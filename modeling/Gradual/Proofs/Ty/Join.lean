import Gradual.Proofs.Sorted
import Gradual.Proofs.Ty.Order
import Gradual.Ty.Fits
import Gradual.Ty.Join

/-!
# What fits a union

The relation `Ty.fits` is not transitive, and still the union of some types is their least upper
bound: what fits one of them fits the union, and the union fits where all of them do.

* `Ty.union_fits_iff`, `Ty.fits_union_iff`: the rules for unions on both sides;
* `Ty.fits_union_of_mem`, `Ty.union_fits_iff_forall`: what fits a member fits the union, and a union
  fits where its members do;
* `Ty.fits_of_plain`: what fits is decided by types other than unions;
* **`Ty.fits_join_of_mem`**, `Ty.fits_merge_left`, `Ty.fits_merge_right`: a join is an upper bound;
* **`Ty.join_least_upper_bound`**: it is the least one.
-/

namespace Gradual.Ty

variable {a b t u : Ty} {ms : List Ty}

/-! ## Unions on either side -/

/-- Induction on unions inside unions. -/
theorem union_induction {P : Ty → Prop} (plain : ∀ t, (∀ ks, t ≠ union ks) → P t)
    (union : ∀ ks, (∀ k ∈ ks, P k) → P (union ks)) (t : Ty) : P t := by
  cases t with
  | union ks =>
    refine union ks fun k hk => ?_
    have hlt := List.sizeOf_lt_of_mem hk
    exact union_induction plain union k
  | _ => exact plain _ nofun
termination_by sizeOf t
decreasing_by
  rw [Ty.union.sizeOf_spec]
  omega

/-- A union fits where each member does; it may also be what is expected. -/
theorem union_fits_iff : (union ms).fits t ↔ union ms = t ∨ ∀ m ∈ ms, m.fits t := by
  rw [fits_eq]
  by_cases h : union ms = t
  · simp [h]
  · rw [if_neg h]
    cases t with
    | unknown => simp [fits_unknown]
    | _ => simp [h, List.all_eq_true]

theorem union_fits (h : ∀ m ∈ ms, m.fits t) : (union ms).fits t :=
  union_fits_iff.2 (.inr h)

/-- Anything else fits a union where it fits a member. -/
theorem fits_union_iff (ht : ∀ ks, t ≠ union ks) : t.fits (union ms) ↔ ∃ m ∈ ms, t.fits m := by
  rw [fits_eq, if_neg (ht ms)]
  cases t with
  | union ks => exact absurd rfl (ht ks)
  | func f =>
    obtain ⟨params, names, ret, kwargs⟩ := f
    simp [List.any_eq_true]
  | _ => simp [List.any_eq_true]

/-- **What fits a member fits the union**, also if it is itself a union. -/
theorem fits_union_of_mem {m : Ty} (hm : m ∈ ms) (h : t.fits m) : t.fits (union ms) := by
  induction t using union_induction generalizing m ms with
  | plain t ht => exact (fits_union_iff ht).2 ⟨m, hm, h⟩
  | union ks ih =>
    refine union_fits fun k hk => ih k hk hm ?_
    rcases union_fits_iff.1 h with rfl | hall
    · exact ih k hk hk (fits_self k)
    · exact hall k hk

/-- **A union fits exactly where all of its members do.** -/
theorem union_fits_iff_forall : (union ms).fits t ↔ ∀ m ∈ ms, m.fits t := by
  refine ⟨fun h m hm => ?_, union_fits⟩
  -- If the union itself is expected, its members need not fit one another, only the union.
  rcases union_fits_iff.1 h with rfl | hall
  · exact fits_union_of_mem hm (fits_self m)
  · exact hall m hm

/-- What fits `t` fits `u` if this is so for types other than unions. -/
theorem fits_of_plain (plain : ∀ a : Ty, (∀ ms, a ≠ union ms) → a.fits t → a.fits u)
    (h : a.fits t) : a.fits u := by
  induction a using union_induction with
  | plain a ha => exact plain a ha h
  | union ks ih =>
    rw [union_fits_iff_forall] at h ⊢
    exact fun k hk => ih k hk (h k hk)

/-! ## Joins -/

/-- What fits `a` fits `u` if this is so for the members of `a`. -/
theorem fits_of_members (hu : ∀ m ∈ a.members, ∀ t : Ty, t.fits m → t.fits u) (h : t.fits a) :
    t.fits u := by
  cases a with
  | union ms =>
    refine fits_of_plain (fun t ht h => ?_) h
    obtain ⟨m, hm, htm⟩ := (fits_union_iff ht).1 h
    exact hu m hm t htm
  | _ => exact hu _ (List.mem_singleton_self _) t h

theorem mem_setOf {as : List Ty} : a ∈ setOf as ↔ a ∈ as := Sorted.mem_ofList

theorem fits_join_of_mem_members {as : List Ty} {m : Ty} (hm : m ∈ as.flatMap members)
    (h : t.fits m) : t.fits (join as) := by
  have hset := mem_setOf.2 hm
  rw [join]
  split
  next hnil =>
    rw [hnil] at hset
    cases hset
  next hone =>
    rw [hone, List.mem_singleton] at hset
    rwa [← hset]
  next => exact fits_union_of_mem hset h

/-- **A join is an upper bound**: what fits one of the types fits their join. -/
theorem fits_join_of_mem {as : List Ty} (ha : a ∈ as) (h : t.fits a) : t.fits (join as) :=
  fits_of_members (fun _ hm _ => fits_join_of_mem_members (List.mem_flatMap.2 ⟨a, ha, hm⟩)) h

theorem fits_merge_left (h : t.fits a) : t.fits (a.merge b) :=
  fits_join_of_mem List.mem_cons_self h

theorem fits_merge_right (h : t.fits b) : t.fits (a.merge b) :=
  fits_join_of_mem (List.mem_cons_of_mem a List.mem_cons_self) h

/-! ## Least upper bounds -/

section Least

variable {as : List Ty}

theorem members_fit_iff : (∀ m ∈ a.members, m.fits t) ↔ a.fits t := by
  cases a with
  | union ms => exact union_fits_iff_forall.symm
  | _ => simp [members]

theorem flatMap_members_fit_iff : (∀ m ∈ as.flatMap members, m.fits t) ↔ ∀ a ∈ as, a.fits t := by
  constructor
  · intro h a ha
    exact members_fit_iff.1 fun m hm => h m (List.mem_flatMap.2 ⟨a, ha, hm⟩)
  · intro h m hm
    obtain ⟨a, ha, hma⟩ := List.mem_flatMap.1 hm
    exact members_fit_iff.2 (h a ha) m hma

theorem fits_of_mem_members {m : Ty} (hm : m ∈ a.members) (h : t.fits m) : t.fits a := by
  cases a with
  | union ms => exact fits_union_of_mem hm h
  | _ =>
    cases List.mem_singleton.1 hm
    exact h

theorem flatMap_members_ne_nil (hne : as ≠ []) (hempty : ∀ a ∈ as, a ≠ union []) :
    as.flatMap members ≠ [] := by
  obtain ⟨a, ha⟩ := List.exists_mem_of_ne_nil as hne
  intro hnil
  have hmembers := List.flatMap_eq_nil_iff.1 hnil a ha
  cases a with
  | union ms => exact hempty _ ha (congrArg union hmembers)
  | _ => simp [members] at hmembers

/-- The forms of a join of something: a single type, or a union. -/
theorem join_cases (h : as.flatMap members ≠ []) :
    (∀ m, m ∈ as.flatMap members ↔ m = join as) ∨
      ∃ ms, join as = union ms ∧ ∀ m, m ∈ as.flatMap members ↔ m ∈ ms := by
  obtain ⟨a, ha⟩ := List.exists_mem_of_ne_nil _ h
  have hset (m : Ty) : m ∈ as.flatMap members ↔ m ∈ setOf (as.flatMap members) := mem_setOf.symm
  rw [join]
  split
  next hnil => exact absurd ((hset a).1 ha) (by simp [hnil])
  next b hone => exact .inl fun m => by rw [hset, hone, List.mem_singleton]
  next => exact .inr ⟨_, rfl, hset⟩

theorem join_fits_iff (h : as.flatMap members ≠ []) :
    (join as).fits t ↔ ∀ a ∈ as, a.fits t := by
  rw [← flatMap_members_fit_iff]
  rcases join_cases h with hone | ⟨ms, hjoin, hms⟩
  · simp only [hone, forall_eq]
  · simp only [hjoin, union_fits_iff_forall, hms]

theorem exists_fits_of_fits_join (h : as.flatMap members ≠ []) (ht : ∀ ks, t ≠ union ks)
    (hjoin : t.fits (join as)) : ∃ a ∈ as, t.fits a := by
  have hmember : ∃ m ∈ as.flatMap members, t.fits m := by
    rcases join_cases h with hone | ⟨ms, heq, hms⟩
    · exact ⟨join as, (hone _).2 rfl, hjoin⟩
    · rw [heq] at hjoin
      obtain ⟨m, hm, hfits⟩ := (fits_union_iff ht).1 hjoin
      exact ⟨m, (hms m).2 hm, hfits⟩
  obtain ⟨m, hm, hfits⟩ := hmember
  obtain ⟨a, ha, hma⟩ := List.mem_flatMap.1 hm
  exact ⟨a, ha, fits_of_mem_members hma hfits⟩

/-- **A join is a least upper bound**: it fits exactly where all of its types do, and what fits one
of them fits the join. -/
theorem join_least_upper_bound (hne : as ≠ []) (hempty : ∀ a ∈ as, a ≠ union []) :
    (∀ t : Ty, (join as).fits t ↔ ∀ a ∈ as, a.fits t) ∧
      (∀ s : Ty, (∃ a ∈ as, s.fits a) → s.fits (join as)) ∧
      ∀ s : Ty, (∀ ks, s ≠ union ks) → s.fits (join as) → ∃ a ∈ as, s.fits a := by
  have h := flatMap_members_ne_nil hne hempty
  refine ⟨fun t => join_fits_iff h, ?_, fun s hs => exists_fits_of_fits_join h hs⟩
  rintro s ⟨a, ha, hs⟩
  exact fits_join_of_mem ha hs

/-- The join of a union, of one of its members and of lists: it fits where texts may be absent only
if all of them do, and of anything but a union it takes what one of them takes. -/
theorem absentTextOrList_join :
    let as : List Ty := [union [none, str], str, union [union [list unknown]]]
    as ≠ [] ∧ (∀ a ∈ as, a ≠ union []) ∧ ¬ (join as).fits (maybe str) ∧
      (join as).fits (maybe (union [str, emptyList])) ∧ (list int).fits (join as) ∧
      ¬ int.fits (join as) := by
  intro as
  have hne : as ≠ [] := by decide
  have hempty : ∀ a ∈ as, a ≠ union [] := by decide
  obtain ⟨hleast, hupper, hone⟩ := join_least_upper_bound hne hempty
  refine ⟨hne, hempty, ?_, ?_, ?_, ?_⟩
  · rw [hleast]
    decide +kernel
  · rw [hleast]
    decide +kernel
  · exact hupper _ ⟨union [union [list unknown]], by simp [as], by decide +kernel⟩
  · intro h
    obtain ⟨a, ha, hfits⟩ := hone int (by simp [int]) h
    revert a
    decide +kernel

end Least

end Gradual.Ty
