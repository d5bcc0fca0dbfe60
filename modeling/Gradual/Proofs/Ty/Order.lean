import Gradual.Ty.Basic

/-!
# Types are ordered

The comparison of types is that of a linear order: it is antisymmetric and transitive, and only
equal types compare as equal. So a union or an overload, kept as a sorted list, has one list of
members.

* `Chains`: three comparisons in a row behave like those of three members of an order;
* `Ty.cmp_swap`, `Signature.cmp_swap`: comparing the other way round;
* **`Ty.cmp_chains`**, **`Signature.cmp_chains`**: transitivity.
-/

namespace Gradual

/-! ## Comparisons in a row -/

/-- What an order gives if `o` compares `a` with `b`, `p` compares `b` with `c` and `q` compares `a`
with `c`. -/
structure Chains (o p q : Ordering) : Prop where
  lt_lt : o = .lt → p = .lt → q = .lt
  eq_left : o = .eq → q = p
  eq_right : p = .eq → q = o

theorem chains_compare {α : Type} [Ord α] [Std.TransOrd α] (a b c : α) :
    Chains (compare a b) (compare b c) (compare a c) :=
  ⟨Std.TransCmp.lt_trans, Std.TransCmp.congr_left, fun h => (Std.TransCmp.congr_right h).symm⟩

/-- The second comparisons decide only where the first ones are equal. -/
theorem Chains.lex {o p q o' p' q' : Ordering} (h : Chains o p q) (h' : Chains o' p' q') :
    Chains (o.then o') (p.then p') (q.then q') := by
  obtain ⟨hlt, hleft, hright⟩ := h
  obtain ⟨hlt', hleft', hright'⟩ := h'
  constructor <;> cases o <;> cases p <;> simp_all

/-! ## Types of different forms -/

namespace Ty

variable {a b c : Ty}

theorem cmp_of_rank_ne (h : a.rank ≠ b.rank) : a.cmp b = compare a.rank b.rank := by
  unfold cmp
  split
  case h_8 => rfl
  all_goals exact absurd rfl h

theorem rank_le_of_cmp_lt (h : a.cmp b = .lt) : a.rank ≤ b.rank := by
  by_cases hab : a.rank = b.rank
  · exact Nat.le_of_eq hab
  · rw [cmp_of_rank_ne hab] at h
    exact Nat.le_of_lt (Nat.compare_eq_lt.1 h)

theorem swap_of_rank_ne (h : a.rank ≠ b.rank) : (a.cmp b).swap = b.cmp a := by
  rw [cmp_of_rank_ne h, cmp_of_rank_ne h.symm, Nat.compare_swap]

theorem chains_of_rank_ne (h : a.rank ≠ b.rank ∨ b.rank ≠ c.rank) :
    Chains (a.cmp b) (b.cmp c) (a.cmp c) where
  lt_lt hab hbc := by
    have hle := rank_le_of_cmp_lt hab
    have hle' := rank_le_of_cmp_lt hbc
    have hlt : a.rank < c.rank := by omega
    rw [cmp_of_rank_ne (Nat.ne_of_lt hlt), Nat.compare_eq_lt]
    exact hlt
  eq_left hab := by rw [eq_of_cmp a b hab]
  eq_right hbc := by rw [eq_of_cmp b c hbc]

end Ty

/-! ## The other way round -/

mutual

theorem Ty.cmp_swap : ∀ a b : Ty, (a.cmp b).swap = b.cmp a
  | .primitive m, b => by
    cases b with
    | primitive n =>
      rw [Ty.cmp, Ty.cmp]
      exact Std.OrientedCmp.eq_swap.symm
    | _ => exact Ty.swap_of_rank_ne (by simp [Ty.rank])
  | .func f, b => by
    cases b with
    | func g => rw [Ty.cmp, Ty.cmp, Signature.cmp_swap f g]
    | _ => exact Ty.swap_of_rank_ne (by simp [Ty.rank])
  | .overload fs, b => by
    cases b with
    | overload gs => rw [Ty.cmp, Ty.cmp, cmpSignatures_swap fs gs]
    | _ => exact Ty.swap_of_rank_ne (by simp [Ty.rank])
  | .list a, b => by
    cases b with
    | list b => rw [Ty.cmp, Ty.cmp, Ty.cmp_swap a b]
    | _ => exact Ty.swap_of_rank_ne (by simp [Ty.rank])
  | .dict k v, b => by
    cases b with
    | dict l w => rw [Ty.cmp, Ty.cmp, Ordering.swap_then, Ty.cmp_swap k l, Ty.cmp_swap v w]
    | _ => exact Ty.swap_of_rank_ne (by simp [Ty.rank])
  | .maybe a, b => by
    cases b with
    | maybe b => rw [Ty.cmp, Ty.cmp, Ty.cmp_swap a b]
    | _ => exact Ty.swap_of_rank_ne (by simp [Ty.rank])
  | .union as, b => by
    cases b with
    | union bs => rw [Ty.cmp, Ty.cmp, cmpTys_swap as bs]
    | _ => exact Ty.swap_of_rank_ne (by simp [Ty.rank])
  | .unknown, b => by
    cases b with
    | unknown => rw [Ty.cmp_self, Ordering.swap_eq]
    | _ => exact Ty.swap_of_rank_ne (by simp [Ty.rank])
  | .emptyList, b => by
    cases b with
    | emptyList => rw [Ty.cmp_self, Ordering.swap_eq]
    | _ => exact Ty.swap_of_rank_ne (by simp [Ty.rank])
  | .emptyDict, b => by
    cases b with
    | emptyDict => rw [Ty.cmp_self, Ordering.swap_eq]
    | _ => exact Ty.swap_of_rank_ne (by simp [Ty.rank])

theorem Signature.cmp_swap : ∀ f g : Signature, (f.cmp g).swap = g.cmp f
  | ⟨ps, ns, r, ks⟩, ⟨qs, ms, s, ls⟩ => by
    have hnames : (compare ns ms).swap = compare ms ns := Std.OrientedCmp.eq_swap.symm
    rw [Signature.cmp, Signature.cmp, Ordering.swap_then, Ordering.swap_then, Ordering.swap_then,
      cmpTys_swap ps qs, hnames, Ty.cmp_swap r s, cmpKwargs_swap ks ls]

theorem cmpTys_swap : ∀ as bs : List Ty, (cmpTys as bs).swap = cmpTys bs as
  | [], [] => rfl
  | [], _ :: _ => rfl
  | _ :: _, [] => rfl
  | a :: as, b :: bs => by
    rw [cmpTys, cmpTys, Ordering.swap_then, Ty.cmp_swap a b, cmpTys_swap as bs]

theorem cmpSignatures_swap : ∀ fs gs : List Signature,
    (cmpSignatures fs gs).swap = cmpSignatures gs fs
  | [], [] => rfl
  | [], _ :: _ => rfl
  | _ :: _, [] => rfl
  | f :: fs, g :: gs => by
    rw [cmpSignatures, cmpSignatures, Ordering.swap_then, Signature.cmp_swap f g,
      cmpSignatures_swap fs gs]

theorem cmpKwargs_swap : ∀ ks ls : List (String × Ty), (cmpKwargs ks ls).swap = cmpKwargs ls ks
  | [], [] => rfl
  | [], _ :: _ => rfl
  | _ :: _, [] => rfl
  | (m, a) :: ks, (n, b) :: ls => by
    have hname : (compare m n).swap = compare n m := Std.OrientedCmp.eq_swap.symm
    rw [cmpKwargs, cmpKwargs, Ordering.swap_then, Ordering.swap_then, hname, Ty.cmp_swap a b,
      cmpKwargs_swap ks ls]

end

/-! ## Transitivity -/

mutual

/-- **Transitivity of the comparison of types.** -/
theorem Ty.cmp_chains : ∀ a b c : Ty, Chains (a.cmp b) (b.cmp c) (a.cmp c)
  | .primitive m, b, c => by
    cases b with
    | primitive n =>
      cases c with
      | primitive p =>
        simp only [Ty.cmp]
        exact chains_compare m n p
      | _ => exact Ty.chains_of_rank_ne (.inr (by simp [Ty.rank]))
    | _ => exact Ty.chains_of_rank_ne (.inl (by simp [Ty.rank]))
  | .func f, b, c => by
    cases b with
    | func g =>
      cases c with
      | func h =>
        simp only [Ty.cmp]
        exact Signature.cmp_chains f g h
      | _ => exact Ty.chains_of_rank_ne (.inr (by simp [Ty.rank]))
    | _ => exact Ty.chains_of_rank_ne (.inl (by simp [Ty.rank]))
  | .overload fs, b, c => by
    cases b with
    | overload gs =>
      cases c with
      | overload hs =>
        simp only [Ty.cmp]
        exact cmpSignatures_chains fs gs hs
      | _ => exact Ty.chains_of_rank_ne (.inr (by simp [Ty.rank]))
    | _ => exact Ty.chains_of_rank_ne (.inl (by simp [Ty.rank]))
  | .list a, b, c => by
    cases b with
    | list b =>
      cases c with
      | list c =>
        simp only [Ty.cmp]
        exact Ty.cmp_chains a b c
      | _ => exact Ty.chains_of_rank_ne (.inr (by simp [Ty.rank]))
    | _ => exact Ty.chains_of_rank_ne (.inl (by simp [Ty.rank]))
  | .dict k v, b, c => by
    cases b with
    | dict l w =>
      cases c with
      | dict m x =>
        simp only [Ty.cmp]
        exact (Ty.cmp_chains k l m).lex (Ty.cmp_chains v w x)
      | _ => exact Ty.chains_of_rank_ne (.inr (by simp [Ty.rank]))
    | _ => exact Ty.chains_of_rank_ne (.inl (by simp [Ty.rank]))
  | .maybe a, b, c => by
    cases b with
    | maybe b =>
      cases c with
      | maybe c =>
        simp only [Ty.cmp]
        exact Ty.cmp_chains a b c
      | _ => exact Ty.chains_of_rank_ne (.inr (by simp [Ty.rank]))
    | _ => exact Ty.chains_of_rank_ne (.inl (by simp [Ty.rank]))
  | .union as, b, c => by
    cases b with
    | union bs =>
      cases c with
      | union cs =>
        simp only [Ty.cmp]
        exact cmpTys_chains as bs cs
      | _ => exact Ty.chains_of_rank_ne (.inr (by simp [Ty.rank]))
    | _ => exact Ty.chains_of_rank_ne (.inl (by simp [Ty.rank]))
  | .unknown, b, c => by
    cases b with
    | unknown =>
      cases c with
      | unknown =>
        simp only [Ty.cmp]
        exact chains_compare _ _ _
      | _ => exact Ty.chains_of_rank_ne (.inr (by simp [Ty.rank]))
    | _ => exact Ty.chains_of_rank_ne (.inl (by simp [Ty.rank]))
  | .emptyList, b, c => by
    cases b with
    | emptyList =>
      cases c with
      | emptyList =>
        simp only [Ty.cmp]
        exact chains_compare _ _ _
      | _ => exact Ty.chains_of_rank_ne (.inr (by simp [Ty.rank]))
    | _ => exact Ty.chains_of_rank_ne (.inl (by simp [Ty.rank]))
  | .emptyDict, b, c => by
    cases b with
    | emptyDict =>
      cases c with
      | emptyDict =>
        simp only [Ty.cmp]
        exact chains_compare _ _ _
      | _ => exact Ty.chains_of_rank_ne (.inr (by simp [Ty.rank]))
    | _ => exact Ty.chains_of_rank_ne (.inl (by simp [Ty.rank]))

/-- **Transitivity of the comparison of signatures.** -/
theorem Signature.cmp_chains : ∀ f g h : Signature, Chains (f.cmp g) (g.cmp h) (f.cmp h)
  | ⟨ps, ns, r, ks⟩, ⟨qs, ms, s, ls⟩, ⟨us, os, t, js⟩ => by
    simp only [Signature.cmp]
    exact (cmpTys_chains ps qs us).lex <| (chains_compare ns ms os).lex <|
      (Ty.cmp_chains r s t).lex (cmpKwargs_chains ks ls js)

theorem cmpTys_chains : ∀ as bs cs : List Ty,
    Chains (cmpTys as bs) (cmpTys bs cs) (cmpTys as cs)
  | [], bs, cs => by cases bs <;> cases cs <;> constructor <;> simp [cmpTys]
  | _ :: _, [], cs => by cases cs <;> constructor <;> simp [cmpTys]
  | _ :: _, _ :: _, [] => by constructor <;> simp [cmpTys]
  | a :: as, b :: bs, c :: cs => by
    simp only [cmpTys]
    exact (Ty.cmp_chains a b c).lex (cmpTys_chains as bs cs)

theorem cmpSignatures_chains : ∀ fs gs hs : List Signature,
    Chains (cmpSignatures fs gs) (cmpSignatures gs hs) (cmpSignatures fs hs)
  | [], gs, hs => by cases gs <;> cases hs <;> constructor <;> simp [cmpSignatures]
  | _ :: _, [], hs => by cases hs <;> constructor <;> simp [cmpSignatures]
  | _ :: _, _ :: _, [] => by constructor <;> simp [cmpSignatures]
  | f :: fs, g :: gs, h :: hs => by
    simp only [cmpSignatures]
    exact (Signature.cmp_chains f g h).lex (cmpSignatures_chains fs gs hs)

theorem cmpKwargs_chains : ∀ ks ls ms : List (String × Ty),
    Chains (cmpKwargs ks ls) (cmpKwargs ls ms) (cmpKwargs ks ms)
  | [], ls, ms => by cases ls <;> cases ms <;> constructor <;> simp [cmpKwargs]
  | _ :: _, [], ms => by cases ms <;> constructor <;> simp [cmpKwargs]
  | _ :: _, _ :: _, [] => by constructor <;> simp [cmpKwargs]
  | (m, a) :: ks, (n, b) :: ls, (o, c) :: ms => by
    simp only [cmpKwargs]
    exact (chains_compare m n o).lex <| (Ty.cmp_chains a b c).lex (cmpKwargs_chains ks ls ms)

end

/-- A comparison that chains is transitive. -/
theorem transCmp_of_chains {α : Type} {cmp : α → α → Ordering}
    (swap : ∀ a b, (cmp a b).swap = cmp b a)
    (chains : ∀ a b c, Chains (cmp a b) (cmp b c) (cmp a c)) : Std.TransCmp cmp where
  eq_swap {a b} := (swap b a).symm
  isLE_trans {a b c} hab hbc := by
    obtain ⟨hlt, hleft, hright⟩ := chains a b c
    cases h : cmp a b <;> cases k : cmp b c <;> simp_all

instance : Std.TransCmp Ty.cmp := transCmp_of_chains Ty.cmp_swap Ty.cmp_chains

instance : Std.TransCmp Signature.cmp :=
  transCmp_of_chains Signature.cmp_swap Signature.cmp_chains

instance : Std.LawfulEqCmp Ty.cmp where
  compare_self := Ty.cmp_self _
  eq_of_compare := Ty.eq_of_cmp _ _

instance : Std.LawfulEqCmp Signature.cmp where
  compare_self := Signature.cmp_self _
  eq_of_compare := Signature.eq_of_cmp _ _

end Gradual
