import Gradual.Proofs.Effect
import Gradual.Proofs.Ty.Join
import Gradual.Ty.Call

/-!
# Well-formed types

The forms that types are kept in: a union has at least two members and none of them is a union, what
may be absent is neither the absent value nor marked twice, and the members of unions and overloads
increase strictly. All operations on types keep to these forms.

* `Ty.WellFormed`, `Signature.WellFormed`: types in this form, with all their parts;
* **`Ty.wellFormed_join`**, `Ty.wellFormed_optional`: unions, and what may be absent;
* `gives_resolve`, `gives_callResult`: types of calls.
-/

namespace Gradual

open Effect

mutual

/-- A type in the form that types are kept in. -/
inductive Ty.WellFormed : Ty → Prop
  | primitive (name : String) : Ty.WellFormed (.primitive name)
  | unknown : Ty.WellFormed .unknown
  | func {f : Signature} (h : f.WellFormed) : Ty.WellFormed (.func f)
  | overload {fs : List Signature} (sorted : Sorted.IsSorted Signature.cmp fs)
      (members : ∀ f ∈ fs, f.WellFormed) : Ty.WellFormed (.overload fs)
  | emptyList : Ty.WellFormed .emptyList
  | list {a : Ty} (h : a.WellFormed) : Ty.WellFormed (.list a)
  | emptyDict : Ty.WellFormed .emptyDict
  | dict {k v : Ty} (hk : k.WellFormed) (hv : v.WellFormed) : Ty.WellFormed (.dict k v)
  | maybe {a : Ty} (present : a ≠ .none) (once : ∀ b, a ≠ .maybe b) (h : a.WellFormed) :
      Ty.WellFormed (.maybe a)
  | union {ms : List Ty} (several : 2 ≤ ms.length) (flat : ∀ m ∈ ms, ∀ ks, m ≠ .union ks)
      (sorted : Sorted.IsSorted Ty.cmp ms) (members : ∀ m ∈ ms, m.WellFormed) :
      Ty.WellFormed (.union ms)

/-- A signature of types in the form that types are kept in. -/
inductive Signature.WellFormed : Signature → Prop
  | mk {f : Signature} (params : ∀ a ∈ f.params, a.WellFormed) (ret : f.ret.WellFormed)
      (kwargs : ∀ p ∈ f.kwargs, p.2.WellFormed) : Signature.WellFormed f

end

/-! ## Operations on types -/

namespace Ty

variable {a b : Ty} {as : List Ty}

theorem isSorted_setOf (as : List Ty) : Sorted.IsSorted cmp (setOf as) :=
  Sorted.isSorted_ofList as

/-- What a well-formed type stands for in a union is well formed, and no union. -/
theorem WellFormed.members (h : a.WellFormed) :
    ∀ m ∈ a.members, m.WellFormed ∧ ∀ ks, m ≠ .union ks := by
  intro m hm
  cases h with
  | union several flat sorted members => exact ⟨members m hm, flat m hm⟩
  | _ =>
    cases List.mem_singleton.1 hm
    exact ⟨by constructor <;> assumption, nofun⟩

/-- **The union of well-formed types is well formed.** -/
theorem wellFormed_join (h : ∀ a ∈ as, a.WellFormed) : (join as).WellFormed := by
  have hset : ∀ m ∈ setOf (as.flatMap Ty.members), m.WellFormed ∧ ∀ ks, m ≠ .union ks := by
    intro m hm
    obtain ⟨a, ha, hma⟩ := List.mem_flatMap.1 (mem_setOf.1 hm)
    exact (h a ha).members m hma
  have hsorted := isSorted_setOf (as.flatMap Ty.members)
  rw [join]
  generalize setOf (as.flatMap Ty.members) = ms at hset hsorted ⊢
  cases ms with
  | nil => exact .unknown
  | cons m rest =>
    cases rest with
    | nil => exact (hset m (List.mem_singleton_self m)).1
    | cons =>
      exact .union (Nat.le_add_left 2 _) (fun m hm => (hset m hm).2) hsorted
        fun m hm => (hset m hm).1

theorem WellFormed.merge (ha : a.WellFormed) (hb : b.WellFormed) : (a.merge b).WellFormed := by
  apply wellFormed_join
  intro c hc
  rcases List.mem_cons.1 hc with rfl | hc
  · exact ha
  · rwa [List.mem_singleton.1 hc]

theorem wellFormed_optional (h : a.WellFormed) (hb : a.optional = .ok b) : b.WellFormed := by
  unfold optional at hb
  split at hb
  · cases hb
  next hnone =>
    have hpresent : a ≠ .none := by
      rintro rfl
      exact hnone (by decide)
    split at hb
    next => cases hb; exact h
    next honce =>
      cases hb
      exact .maybe hpresent honce h

end Ty

theorem Signature.WellFormed.withReturn {f : Signature} (h : f.WellFormed) {ty : Ty}
    (hty : ty.WellFormed) : (f.withReturn ty).WellFormed := by
  obtain ⟨params, ret, kwargs⟩ := h
  exact ⟨params, hty, kwargs⟩

theorem Signature.WellFormed.ret {f : Signature} (h : f.WellFormed) : f.ret.WellFormed := by
  obtain ⟨-, ret, -⟩ := h
  exact ret

/-! ## Types of calls -/

theorem gives_resolve {fs : List Signature} (h : ∀ f ∈ fs, f.WellFormed) (arguments : List Ty) :
    Gives Ty.WellFormed (resolve fs arguments) := by
  unfold resolve
  split
  · exact gives_error _
  · apply gives_ok
    apply Ty.wellFormed_join
    intro ret hret
    obtain ⟨f, hf, rfl⟩ := List.mem_map.1 hret
    exact (h f (List.mem_filter.1 hf).1).ret

theorem gives_callResult {callee : Ty} (h : callee.WellFormed) (arguments : List Ty) :
    Gives Ty.WellFormed (callee.callResult arguments) := by
  cases h with
  | func hf => exact gives_resolve (by simpa using hf) arguments
  | overload _ members => exact gives_resolve members arguments
  | _ => exact gives_error _

end Gradual
