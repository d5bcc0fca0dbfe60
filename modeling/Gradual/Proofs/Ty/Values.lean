import Gradual.Proofs.Ty.Join

/-!
# Values of types

A type of data stands for a set of values. The unknown type stands for all values, a type that may
be absent also for the absent value, and a union for the values of its members. A type that fits
another one has no values that the other one lacks, unless the other one speaks of lists or
dictionaries of which no element was seen.

* `Value`, `Value.Of`: values, and the values of a type;
* `Ty.Definite`: types of data without such lists and dictionaries;
* **`Value.Of.of_fits`**: compatibility is sound for values;
* `Ty.Concrete`, `Ty.sample`, `Ty.fits_of_sample`: types of which one value tells what they fit;
* **`Ty.values_of_fits`**: what fits has no other values; for concrete types the converse holds.
-/

namespace Gradual

/-- A value: the absent one, one of a primitive type, a list or a dictionary. -/
inductive Value where
  | absent
  | atom (type : String) (label : Nat)
  | list (elements : List Value)
  | dict (entries : List (Value × Value))

/-- The values of a type of data. Functions are no data, and their types have no values here. -/
inductive Value.Of : Value → Ty → Prop
  | absent : Of .absent (.primitive Ty.noneName)
  | atom {type : String} (h : type ≠ Ty.noneName) (label : Nat) :
      Of (.atom type label) (.primitive type)
  | unknown (v : Value) : Of v .unknown
  | emptyList : Of (.list []) .emptyList
  | list {elements : List Value} {t : Ty} (h : ∀ v ∈ elements, Of v t) :
      Of (.list elements) (.list t)
  | emptyDict : Of (.dict []) .emptyDict
  | dict {entries : List (Value × Value)} {k t : Ty} (hk : ∀ e ∈ entries, Of e.1 k)
      (ht : ∀ e ∈ entries, Of e.2 t) : Of (.dict entries) (.dict k t)
  | missing (t : Ty) : Of .absent (.maybe t)
  | present {v : Value} {t : Ty} (h : Of v t) : Of v (.maybe t)
  | member {v : Value} {m : Ty} {ms : List Ty} (hm : m ∈ ms) (h : Of v m) : Of v (.union ms)

namespace Ty

/-- A type of data in which no empty list or dictionary is marked. -/
inductive Definite : Ty → Prop
  | primitive (name : String) : Definite (.primitive name)
  | unknown : Definite .unknown
  | list {t : Ty} (h : Definite t) : Definite (.list t)
  | dict {k t : Ty} (hk : Definite k) (ht : Definite t) : Definite (.dict k t)
  | maybe {t : Ty} (h : Definite t) : Definite (.maybe t)
  | union {ms : List Ty} (h : ∀ m ∈ ms, Definite m) : Definite (.union ms)

/-- A type that leaves nothing open: a primitive one, or that of a list or a dictionary of such
types, which may be marked as empty. -/
inductive Concrete : Ty → Prop
  | primitive (name : String) : Concrete (.primitive name)
  | emptyList : Concrete .emptyList
  | list {t : Ty} (h : Concrete t) : Concrete (.list t)
  | emptyDict : Concrete .emptyDict
  | dict {k t : Ty} (hk : Concrete k) (ht : Concrete t) : Concrete (.dict k t)

end Ty

variable {a b : Ty} {v : Value}

/-! ## Soundness -/

/-- What holds of types other than unions holds of unions as well, member by member. -/
theorem Value.Of.of_fits_plain
    (plain : ∀ a : Ty, (∀ ms, a ≠ .union ms) → a.fits b → ∀ v : Value, v.Of a → v.Of b)
    (h : a.fits b) (hv : v.Of a) : v.Of b := by
  induction a using Ty.union_induction with
  | plain a ha => exact plain a ha h v hv
  | union ms ih =>
    rcases Ty.union_fits_iff.1 h with rfl | hall
    · exact hv
    · cases hv with
      | member hm hv => exact ih _ hm (hall _ hm) hv

/-- **Compatibility is sound for values.** -/
theorem Value.Of.of_fits (hb : b.Definite) (h : a.fits b) (hv : v.Of a) : v.Of b := by
  -- The induction is on what is expected; unions that are given are taken apart in each case.
  induction hb generalizing a v with
  | primitive name =>
    refine of_fits_plain (fun a ha h v hv => ?_) h hv
    rwa [← (Ty.fits_primitive_iff ha).1 h]
  | unknown => exact .unknown v
  | list _ ih =>
    refine of_fits_plain (fun a ha h v hv => ?_) h hv
    rcases (Ty.fits_list_iff ha).1 h with rfl | ⟨s, rfl, hs⟩
    · cases hv
      exact .list (by simp)
    · cases hv with
      | list hall => exact .list fun x hx => ih hs (hall x hx)
  | dict _ _ ihk iht =>
    refine of_fits_plain (fun a ha h v hv => ?_) h hv
    rcases (Ty.fits_dict_iff ha).1 h with rfl | ⟨l, w, rfl, hl, hw⟩
    · cases hv
      exact .dict (by simp) (by simp)
    · cases hv with
      | dict hkeys hvalues =>
        exact .dict (fun e he => ihk hl (hkeys e he)) fun e he => iht hw (hvalues e he)
  | maybe _ ih =>
    refine of_fits_plain (fun a ha h v hv => ?_) h hv
    rcases (Ty.fits_maybe_iff ha).1 h with rfl | hnone | ht
    · exact hv
    · rw [Ty.isNone_iff.1 hnone] at hv
      cases hv with
      | absent => exact .missing _
      | atom hne => exact absurd rfl hne
    · exact .present (ih ht hv)
  | union _ ih =>
    refine of_fits_plain (fun a ha h v hv => ?_) h hv
    obtain ⟨m, hm, hfits⟩ := (Ty.fits_union_iff ha).1 h
    exact .member hm (ih m hm hfits hv)

/-! ## Exactness -/

namespace Ty

/-- A value of a concrete type that tells all about the type. -/
def sample : Ty → Value
  | primitive name => if name = noneName then .absent else .atom name 0
  | list t => .list [t.sample]
  | dict k t => .dict [(k.sample, t.sample)]
  | emptyDict => .dict []
  | _ => .list []

theorem Concrete.sample_of (ha : a.Concrete) : a.sample.Of a := by
  induction ha with
  | primitive name =>
    rw [sample]
    split
    next h => exact h ▸ .absent
    next h => exact .atom h 0
  | emptyList => exact .emptyList
  | list _ ih => exact .list (by simpa [sample] using ih)
  | emptyDict => exact .emptyDict
  | dict _ _ ihk iht => exact .dict (by simpa using ihk) (by simpa using iht)

theorem Concrete.ne_union (ha : a.Concrete) (ms : List Ty) : a ≠ union ms := by
  cases ha <;> simp

theorem sample_primitive_ne_list (name : String) (elements : List Value) :
    (primitive name).sample ≠ .list elements := by
  rw [sample]
  split <;> simp

theorem sample_primitive_ne_dict (name : String) (entries : List (Value × Value)) :
    (primitive name).sample ≠ .dict entries := by
  rw [sample]
  split <;> simp

theorem Concrete.eq_none_of_sample (ha : a.Concrete) (h : a.sample = .absent) :
    a = .primitive noneName := by
  cases ha with
  | primitive name => simpa [sample] using h
  | _ => simp [sample] at h

/-- A concrete type fits each type that its sample is a value of. -/
theorem fits_of_sample (ha : a.Concrete) (h : a.sample.Of b) : a.fits b := by
  generalize hv : a.sample = v at h
  induction h generalizing a with
  | absent =>
    rw [ha.eq_none_of_sample hv]
    exact fits_self _
  | atom hne label =>
    cases ha with
    | primitive name =>
      rw [sample] at hv
      split at hv
      · cases hv
      · cases hv
        exact fits_self _
    | _ => simp [sample] at hv
  | unknown => exact fits_unknown a
  | emptyList =>
    cases ha with
    | emptyList => exact fits_self _
    | primitive name => exact absurd hv (sample_primitive_ne_list name _)
    | _ => simp [sample] at hv
  | list _ ih =>
    apply (fits_list_iff ha.ne_union).2
    cases ha with
    | emptyList => exact .inl rfl
    | list hs =>
      cases hv
      exact .inr ⟨_, rfl, ih _ List.mem_cons_self hs rfl⟩
    | primitive name => exact absurd hv (sample_primitive_ne_list name _)
    | _ => simp [sample] at hv
  | emptyDict =>
    cases ha with
    | emptyDict => exact fits_self _
    | primitive name => exact absurd hv (sample_primitive_ne_dict name _)
    | _ => simp [sample] at hv
  | dict _ _ ihk iht =>
    apply (fits_dict_iff ha.ne_union).2
    cases ha with
    | emptyDict => exact .inl rfl
    | dict hk hs =>
      cases hv
      exact .inr ⟨_, _, rfl, ihk _ List.mem_cons_self hk rfl, iht _ List.mem_cons_self hs rfl⟩
    | primitive name => exact absurd hv (sample_primitive_ne_dict name _)
    | _ => simp [sample] at hv
  | missing t =>
    rw [ha.eq_none_of_sample hv]
    exact (fits_maybe_iff (by simp)).2 (.inr (.inl (isNone_iff.2 rfl)))
  | present _ ih => exact (fits_maybe_iff ha.ne_union).2 (.inr (.inr (ih ha hv)))
  | member hm _ ih => exact fits_union_of_mem hm (ih ha hv)

end Ty

/-- **Compatibility and values**: each value of a type is one of the types of data that it fits, and
for concrete types the converse holds. -/
theorem Ty.values_of_fits (hb : b.Definite) :
    (a.fits b → ∀ v : Value, v.Of a → v.Of b) ∧
    (a.Concrete → (∀ v : Value, v.Of a → v.Of b) → a.fits b) :=
  ⟨fun h _ hv => hv.of_fits hb h, fun ha h => fits_of_sample ha (h _ ha.sample_of)⟩

/-- What is a list of numbers or of absent values is a list of numbers that may be absent. -/
theorem absentNumbers_values :
    let a : Ty := .list (.union [.none, .int])
    let b : Ty := .list (.maybe .int)
    let v : Value := .list [.absent, .atom "int" 7]
    b.Definite ∧ a.fits b ∧ v.Of a ∧ v.Of b := by
  intro a b v
  have hb : b.Definite := .list (.maybe (.primitive _))
  have hfits : a.fits b := by decide +kernel
  have hv : v.Of a := by
    refine .list fun x hx => ?_
    rcases List.mem_cons.1 hx with rfl | hx
    · exact .member List.mem_cons_self .absent
    · rw [List.mem_singleton.1 hx]
      exact .member (List.mem_cons_of_mem _ List.mem_cons_self) (.atom (by decide) 7)
  exact ⟨hb, hfits, hv, (Ty.values_of_fits hb).1 hfits v hv⟩

/-- Where an empty list is marked, a list of numbers fits, and not all of its values are of this
type. -/
example : (Ty.list .int).fits .emptyList ∧ (Value.list [.atom "int" 7]).Of (.list .int) ∧
    ¬ (Value.list [.atom "int" 7]).Of .emptyList := by
  refine ⟨by decide +kernel, .list fun x hx => ?_, ?_⟩
  · rw [List.mem_singleton.1 hx]
    exact .atom (by decide) 7
  · intro h
    cases h

end Gradual
