import Gradual.Builtins
import Gradual.Proofs.Ty.WellFormed

/-!
# Well-formed built-in types

* `Builtins.WellFormed`: tables of well-formed types;
* `Builtins.WellFormed.registerOperator`, `Builtins.WellFormed.registerGlobal`: what is added;
* **`Builtins.wellFormed_standard`**: the standard table is well formed.
-/

namespace Gradual

/-- All types of names are well formed. -/
def NamesWellFormed (names : String → Option Ty) : Prop :=
  ∀ name ty, names name = some ty → ty.WellFormed

/-- All built-in types are well formed. -/
structure Builtins.WellFormed (builtins : Builtins) : Prop where
  operators : ∀ type, NamesWellFormed (builtins.operator? type)
  globals : NamesWellFormed fun name => builtins.globals[name]?

theorem Signature.wellFormed_plain {params : List Ty} {ret : Ty}
    (hp : ∀ a ∈ params, a.WellFormed) (hr : ret.WellFormed) : (plain params ret).WellFormed :=
  ⟨hp, hr, nofun⟩

theorem Ty.wellFormed_overload {fs : List Signature} (h : ∀ f ∈ fs, f.WellFormed) :
    (Ty.overload (Signature.setOf fs)).WellFormed := by
  refine .overload (Sorted.isSorted_ofList fs) fun f hf => h f ?_
  exact Sorted.mem_ofList.1 hf

namespace Builtins

variable {b : Builtins}

theorem wellFormed_empty : empty.WellFormed where
  operators type method ty h := by simp [operator?, empty] at h
  globals name ty h := by simp [empty] at h

theorem operator?_registerOperator (b : Builtins) (type method : String) (ty : Ty) (t m : String) :
    (b.registerOperator type method ty).operator? t m =
      if type = t ∧ method = m then some ty else b.operator? t m := by
  simp only [operator?, Builtins.registerOperator, Std.ExtTreeMap.getElem?_insert,
    Std.LawfulEqOrd.compare_eq_iff_eq]
  by_cases ht : type = t
  · subst ht
    by_cases hm : method = m
    · simp [hm]
    · cases h : b.operators[type]? <;>
        simp [hm, h, Std.ExtTreeMap.getElem?_insert, Std.ExtTreeMap.getD_eq_getD_getElem?]
  · simp [ht]

theorem WellFormed.registerOperator (h : b.WellFormed) (type method : String) {ty : Ty}
    (hty : ty.WellFormed) : (b.registerOperator type method ty).WellFormed where
  operators t m u hu := by
    rw [operator?_registerOperator] at hu
    split at hu
    · cases hu
      exact hty
    · exact h.operators t m u hu
  globals := h.globals

theorem WellFormed.registerGlobal (h : b.WellFormed) (name : String) {ty : Ty}
    (hty : ty.WellFormed) : (b.registerGlobal name ty).WellFormed where
  operators := h.operators
  globals n u hu := by
    simp only [Builtins.registerGlobal, Std.ExtTreeMap.getElem?_insert] at hu
    split at hu
    · cases hu
      exact hty
    · exact h.globals n u hu

theorem wellFormed_constructor {ty : Ty} (h : ty.WellFormed) : (constructor ty).WellFormed := by
  apply Ty.wellFormed_overload
  simp [Signature.wellFormed_plain, h, Ty.WellFormed.unknown]

theorem wellFormed_standardOperators : ∀ o ∈ standardOperators, o.2.2.WellFormed := by
  simp [standardOperators, intArithmetic, floatArithmetic, complexArithmetic,
    Ty.wellFormed_overload, Signature.wellFormed_plain, Ty.WellFormed.func, Ty.WellFormed.primitive,
    Ty.int, Ty.float, Ty.complex, Ty.str]

theorem wellFormed_standardGlobals : ∀ g ∈ standardGlobals, g.2.WellFormed := by
  simp [standardGlobals, wellFormed_constructor, Ty.wellFormed_overload,
    Signature.wellFormed_plain, Ty.WellFormed.func, Ty.WellFormed.primitive, Ty.WellFormed.unknown,
    Ty.WellFormed.emptyList, Ty.WellFormed.emptyDict, Ty.int, Ty.float, Ty.str, Ty.bool, Ty.none]

/-- **The standard table is well formed.** -/
theorem wellFormed_standard : standard.WellFormed := by
  have hoperators : (standardOperators.foldl
      (fun b o => b.registerOperator o.1 o.2.1 o.2.2) empty).WellFormed :=
    List.foldlRecOn _ _ wellFormed_empty fun b hb o ho =>
      hb.registerOperator o.1 o.2.1 (wellFormed_standardOperators o ho)
  exact List.foldlRecOn _ _ hoperators fun b hb g hg =>
    hb.registerGlobal g.1 (wellFormed_standardGlobals g hg)

end Builtins

end Gradual
