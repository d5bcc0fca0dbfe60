import Gradual.Ty.Basic

/-!
# Compatibility of types

A value of type `a` may be used where type `b` is expected if `a` fits `b`. The relation is neither
symmetric nor transitive: the unknown type takes every value and fits only where it is expected.

* `Ty.fits`, **`Ty.fits_eq`**: the relation and its rules;
* `Ty.fits_self`, `Ty.fits_unknown`: each type fits itself and the unknown type;
* `Ty.fits_primitive_iff`, `Ty.fits_func_iff`, `Ty.fits_overload_iff`, `Ty.fits_list_iff`,
  `Ty.fits_dict_iff`, `Ty.fits_maybe_iff`: the rules by the form of the type that is expected, for
  anything but a union.
-/

namespace Gradual.Ty

theorem sizeOf_zip_lt {as bs : List Ty} {p : Ty × Ty} (h : p ∈ as.zip bs) :
    sizeOf p.1 + sizeOf p.2 < sizeOf as + sizeOf bs := by
  obtain ⟨h₁, h₂⟩ := List.of_mem_zip h
  have := List.sizeOf_lt_of_mem h₁
  have := List.sizeOf_lt_of_mem h₂
  omega

/-- Whether a value of type `a` may be used where type `b` is expected. Each member of a union has
to fit; a function has to have as many parameters, and they and the result have to fit one by one.
An empty list or dictionary fits every other one, and every other one fits it. -/
def fits (a b : Ty) : Bool :=
  if a = b then true
  else
    match a, b with
    | _, unknown => true
    | union ms, b => ms.attach.all fun ⟨m, _⟩ => m.fits b
    | func ⟨ps, _, r, _⟩, func ⟨qs, _, s, _⟩ =>
      ps.length == qs.length && r.fits s && (ps.zip qs).attach.all fun ⟨p, _⟩ => p.1.fits p.2
    | a, overload gs => gs.attach.any fun ⟨g, _⟩ => a.fits (func g)
    | emptyList, list _ | list _, emptyList => true
    | list s, list t => s.fits t
    | emptyDict, dict _ _ | dict _ _, emptyDict => true
    | dict k v, dict l w => k.fits l && v.fits w
    | a, maybe t => a.isNone || a.fits t
    | a, union ms => ms.attach.any fun ⟨m, _⟩ => a.fits m
    | _, _ => false
termination_by sizeOf a + sizeOf b
decreasing_by
  all_goals simp only [union.sizeOf_spec, func.sizeOf_spec, overload.sizeOf_spec, list.sizeOf_spec,
    dict.sizeOf_spec, maybe.sizeOf_spec, Signature.mk.sizeOf_spec]
  all_goals first
    | omega
    | (have h := sizeOf_zip_lt ‹_›; omega)
    | (have h := List.sizeOf_lt_of_mem ‹_›; omega)

theorem all_attach {α : Type} (l : List α) (p : α → Bool) :
    (l.attach.all fun x => p x.1) = l.all p := by
  rw [Bool.eq_iff_iff]
  simp [List.all_eq_true]

theorem any_attach {α : Type} (l : List α) (p : α → Bool) :
    (l.attach.any fun x => p x.1) = l.any p := by
  rw [Bool.eq_iff_iff]
  simp [List.any_eq_true]

/-- **The rules of compatibility**, the first that applies being decisive. -/
theorem fits_eq (a b : Ty) : a.fits b =
    if a = b then true
    else
      match a, b with
      | _, unknown => true
      | union ms, b => ms.all fun m => m.fits b
      | func ⟨ps, _, r, _⟩, func ⟨qs, _, s, _⟩ =>
        ps.length == qs.length && r.fits s && (ps.zip qs).all fun p => p.1.fits p.2
      | a, overload gs => gs.any fun g => a.fits (func g)
      | emptyList, list _ | list _, emptyList => true
      | list s, list t => s.fits t
      | emptyDict, dict _ _ | dict _ _, emptyDict => true
      | dict k v, dict l w => k.fits l && v.fits w
      | a, maybe t => a.isNone || a.fits t
      | a, union ms => ms.any fun m => a.fits m
      | _, _ => false := by
  rw [fits.eq_def]
  split
  · rfl
  · split
    · rfl
    · exact all_attach _ fun m : Ty => m.fits _
    · exact congrArg _ (all_attach _ fun p : Ty × Ty => p.1.fits p.2)
    · exact any_attach _ fun g : Signature => fits _ (func g)
    all_goals first | rfl | exact any_attach _ fun m : Ty => fits _ m

/-- Each type fits itself. -/
theorem fits_self (a : Ty) : a.fits a = true := by
  unfold fits
  simp

/-- Each type fits the unknown type. -/
theorem fits_unknown (a : Ty) : a.fits unknown = true := by
  unfold fits
  split <;> rfl

/-! ## Rules by what is expected -/

section Expected

variable {a k t : Ty}

theorem fits_primitive_iff (ha : ∀ ms, a ≠ union ms) {n : String} :
    a.fits (primitive n) ↔ a = primitive n := by
  rw [fits_eq]
  by_cases h : a = primitive n
  · simp [h]
  · rw [if_neg h]
    cases a with
    | union ms => exact absurd rfl (ha ms)
    | func f => simp
    | _ => simp [h]

theorem fits_func_iff (ha : ∀ ms, a ≠ union ms) {g : Signature} :
    a.fits (func g) ↔ ∃ f, a = func f ∧ f.params.length = g.params.length ∧ f.ret.fits g.ret ∧
      ∀ p ∈ f.params.zip g.params, p.1.fits p.2 := by
  obtain ⟨qs, names, s, kwargs⟩ := g
  rw [fits_eq]
  by_cases h : a = func ⟨qs, names, s, kwargs⟩
  · simp only [h, if_true, true_iff]
    refine ⟨_, rfl, rfl, fits_self s, fun p hp => ?_⟩
    obtain ⟨i, hi, rfl⟩ := List.mem_iff_getElem.1 hp
    simp [fits_self]
  · rw [if_neg h]
    cases a with
    | union ms => exact absurd rfl (ha ms)
    | func f =>
      obtain ⟨ps, _, r, _⟩ := f
      simp [and_assoc]
    | _ => simp

theorem fits_overload_iff (ha : ∀ ms, a ≠ union ms) {gs : List Signature} :
    a.fits (overload gs) ↔ a = overload gs ∨ ∃ g ∈ gs, a.fits (func g) := by
  rw [fits_eq]
  by_cases h : a = overload gs
  · simp [h]
  · rw [if_neg h]
    cases a with
    | union ms => exact absurd rfl (ha ms)
    | func f =>
      obtain ⟨ps, _, r, _⟩ := f
      simp
    | _ => simp_all

theorem fits_emptyList_iff (ha : ∀ ms, a ≠ union ms) :
    a.fits emptyList ↔ a = emptyList ∨ ∃ s, a = list s := by
  rw [fits_eq]
  cases a with
  | union ms => exact absurd rfl (ha ms)
  | func f => simp
  | _ => simp

theorem fits_list_iff (ha : ∀ ms, a ≠ union ms) :
    a.fits (list t) ↔ a = emptyList ∨ ∃ s, a = list s ∧ s.fits t := by
  rw [fits_eq]
  by_cases h : a = list t
  · simp [h, fits_self]
  · rw [if_neg h]
    cases a with
    | union ms => exact absurd rfl (ha ms)
    | func f => simp
    | _ => simp

theorem fits_emptyDict_iff (ha : ∀ ms, a ≠ union ms) :
    a.fits emptyDict ↔ a = emptyDict ∨ ∃ l w, a = dict l w := by
  rw [fits_eq]
  cases a with
  | union ms => exact absurd rfl (ha ms)
  | func f => simp
  | _ => simp

theorem fits_dict_iff (ha : ∀ ms, a ≠ union ms) :
    a.fits (dict k t) ↔ a = emptyDict ∨ ∃ l w, a = dict l w ∧ l.fits k ∧ w.fits t := by
  rw [fits_eq]
  by_cases h : a = dict k t
  · simp [h, fits_self, and_assoc]
  · rw [if_neg h]
    cases a with
    | union ms => exact absurd rfl (ha ms)
    | func f => simp
    | _ => simp [and_assoc]

theorem isNone_iff : a.isNone ↔ a = primitive noneName := by
  cases a <;> simp [isNone]

theorem fits_maybe_iff (ha : ∀ ms, a ≠ union ms) :
    a.fits (maybe t) ↔ a = maybe t ∨ a.isNone ∨ a.fits t := by
  rw [fits_eq]
  by_cases h : a = maybe t
  · simp [h]
  · rw [if_neg h]
    cases a with
    | union ms => exact absurd rfl (ha ms)
    | func f => simp
    | _ => simp_all

end Expected

end Gradual.Ty
