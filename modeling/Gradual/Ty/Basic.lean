/-!
# Types

The types that expressions can have. Types are gradual: an unknown type takes part in every check
and never fails one that asks for it. Members of overloads and unions are kept as strictly
increasing lists, in the order `Ty.cmp`.

* `Ty`, `Signature`: types and the signatures of functions;
* `Ty.cmp`, `Signature.cmp`: the order, first by the form of the type and then by its parts;
* `Ty.cmp_eq_iff`: only equal types compare as equal, which decides equality.
-/

namespace Gradual

mutual

/-- A type. An empty list or dictionary has an element type only once one is seen. -/
inductive Ty where
  | primitive (name : String)
  | unknown
  | func (signature : Signature)
  | overload (members : List Signature)
  | emptyList
  | list (element : Ty)
  | emptyDict
  | dict (key value : Ty)
  | maybe (inner : Ty)
  | union (members : List Ty)

/-- The signature of a function: the types of the parameters that have to be given, their names
(none for a built-in function), the type of the result, and the parameters that have a default
value. -/
structure Signature where
  params : List Ty
  names : List String
  ret : Ty
  kwargs : List (String × Ty)

end

instance : Inhabited Ty := ⟨.unknown⟩

instance : Inhabited Signature := ⟨⟨[], [], .unknown, []⟩⟩

namespace Ty

/-- The name of the type of the absent value. -/
def noneName : String := "None"

/-- The type of the absent value. -/
def none : Ty := primitive noneName

/-- Whole numbers. -/
def int : Ty := primitive "int"

/-- Floating point numbers. -/
def float : Ty := primitive "float"

/-- Complex numbers. -/
def complex : Ty := primitive "complex"

/-- Texts. -/
def str : Ty := primitive "str"

/-- Byte strings. -/
def bytes : Ty := primitive "bytes"

/-- Truth values. -/
def bool : Ty := primitive "bool"

/-- Whether this is the type of the absent value. -/
def isNone : Ty → Bool
  | primitive n => n == noneName
  | _ => false

/-- Whether a value of this type is known to be a function. -/
def isCallable : Ty → Bool
  | func _ | overload _ => true
  | _ => false

/-- The signature of a function that is not overloaded. -/
def signature? : Ty → Option Signature
  | func s => some s
  | _ => .none

/-- The name of a primitive type. -/
def primitiveName? : Ty → Option String
  | primitive n => some n
  | _ => .none

/-- The place of a type's form in the order of types. -/
def rank : Ty → Nat
  | primitive _ => 0
  | unknown => 1
  | func _ => 2
  | overload _ => 3
  | emptyList => 4
  | list _ => 5
  | emptyDict => 6
  | dict _ _ => 7
  | maybe _ => 8
  | union _ => 9

end Ty

/-! ## The order of types -/

mutual

/-- Types are ordered by their form and then by their parts. -/
def Ty.cmp : Ty → Ty → Ordering
  | .primitive m, .primitive n => compare m n
  | .func f, .func g => f.cmp g
  | .overload fs, .overload gs => cmpSignatures fs gs
  | .list a, .list b => a.cmp b
  | .dict k v, .dict l w => (k.cmp l).then (v.cmp w)
  | .maybe a, .maybe b => a.cmp b
  | .union as, .union bs => cmpTys as bs
  | a, b => compare a.rank b.rank
termination_by structural a => a

/-- Signatures are ordered by parameters, their names, result and defaults, in this order. -/
def Signature.cmp : Signature → Signature → Ordering
  | ⟨ps, ns, r, ks⟩, ⟨qs, ms, s, ls⟩ =>
    (cmpTys ps qs).then <| (compare ns ms).then <| (r.cmp s).then (cmpKwargs ks ls)
termination_by structural a => a

/-- Lists of types are ordered by their first difference; a beginning comes before the whole. -/
def cmpTys : List Ty → List Ty → Ordering
  | [], [] => .eq
  | [], _ :: _ => .lt
  | _ :: _, [] => .gt
  | a :: as, b :: bs => (a.cmp b).then (cmpTys as bs)
termination_by structural a => a

/-- Lists of signatures are ordered by their first difference. -/
def cmpSignatures : List Signature → List Signature → Ordering
  | [], [] => .eq
  | [], _ :: _ => .lt
  | _ :: _, [] => .gt
  | f :: fs, g :: gs => (f.cmp g).then (cmpSignatures fs gs)
termination_by structural a => a

/-- Lists of named types are ordered by their first difference, a name before its type. -/
def cmpKwargs : List (String × Ty) → List (String × Ty) → Ordering
  | [], [] => .eq
  | [], _ :: _ => .lt
  | _ :: _, [] => .gt
  | (m, a) :: ks, (n, b) :: ls => (compare m n).then <| (a.cmp b).then (cmpKwargs ks ls)
termination_by structural a => a

end

mutual

theorem Ty.eq_of_cmp : ∀ (a b : Ty), a.cmp b = .eq → a = b
  | .primitive m, b, h => by
    cases b <;> simp_all [Ty.cmp, Ty.rank]
  | .unknown, b, h => by
    cases b <;> simp_all [Ty.cmp, Ty.rank]
  | .func f, b, h => by
    cases b with
    | func g => rw [Signature.eq_of_cmp f g (by simpa [Ty.cmp] using h)]
    | _ => simp_all [Ty.cmp, Ty.rank]
  | .overload fs, b, h => by
    cases b with
    | overload gs => rw [eq_of_cmpSignatures fs gs (by simpa [Ty.cmp] using h)]
    | _ => simp_all [Ty.cmp, Ty.rank]
  | .emptyList, b, h => by
    cases b <;> simp_all [Ty.cmp, Ty.rank]
  | .list a, b, h => by
    cases b with
    | list b => rw [Ty.eq_of_cmp a b (by simpa [Ty.cmp] using h)]
    | _ => simp_all [Ty.cmp, Ty.rank]
  | .emptyDict, b, h => by
    cases b <;> simp_all [Ty.cmp, Ty.rank]
  | .dict k v, b, h => by
    cases b with
    | dict l w =>
      rw [Ty.cmp, Ordering.then_eq_eq] at h
      rw [Ty.eq_of_cmp k l h.1, Ty.eq_of_cmp v w h.2]
    | _ => simp_all [Ty.cmp, Ty.rank]
  | .maybe a, b, h => by
    cases b with
    | maybe b => rw [Ty.eq_of_cmp a b (by simpa [Ty.cmp] using h)]
    | _ => simp_all [Ty.cmp, Ty.rank]
  | .union as, b, h => by
    cases b with
    | union bs => rw [eq_of_cmpTys as bs (by simpa [Ty.cmp] using h)]
    | _ => simp_all [Ty.cmp, Ty.rank]

theorem Signature.eq_of_cmp : ∀ (f g : Signature), f.cmp g = .eq → f = g
  | ⟨ps, ns, r, ks⟩, ⟨qs, ms, s, ls⟩, h => by
    simp only [Signature.cmp, Ordering.then_eq_eq] at h
    rw [eq_of_cmpTys ps qs h.1, Std.LawfulEqOrd.eq_of_compare h.2.1, Ty.eq_of_cmp r s h.2.2.1,
      eq_of_cmpKwargs ks ls h.2.2.2]

theorem eq_of_cmpTys : ∀ (as bs : List Ty), cmpTys as bs = .eq → as = bs
  | [], [], _ => rfl
  | [], _ :: _, h => by simp [cmpTys] at h
  | _ :: _, [], h => by simp [cmpTys] at h
  | a :: as, b :: bs, h => by
    simp only [cmpTys, Ordering.then_eq_eq] at h
    rw [Ty.eq_of_cmp a b h.1, eq_of_cmpTys as bs h.2]

theorem eq_of_cmpSignatures : ∀ (fs gs : List Signature), cmpSignatures fs gs = .eq → fs = gs
  | [], [], _ => rfl
  | [], _ :: _, h => by simp [cmpSignatures] at h
  | _ :: _, [], h => by simp [cmpSignatures] at h
  | f :: fs, g :: gs, h => by
    simp only [cmpSignatures, Ordering.then_eq_eq] at h
    rw [Signature.eq_of_cmp f g h.1, eq_of_cmpSignatures fs gs h.2]

theorem eq_of_cmpKwargs : ∀ (ks ls : List (String × Ty)), cmpKwargs ks ls = .eq → ks = ls
  | [], [], _ => rfl
  | [], _ :: _, h => by simp [cmpKwargs] at h
  | _ :: _, [], h => by simp [cmpKwargs] at h
  | (m, a) :: ks, (n, b) :: ls, h => by
    simp only [cmpKwargs, Ordering.then_eq_eq] at h
    rw [Std.LawfulEqOrd.eq_of_compare h.1, Ty.eq_of_cmp a b h.2.1, eq_of_cmpKwargs ks ls h.2.2]

end

mutual

theorem Ty.cmp_self : ∀ a : Ty, a.cmp a = .eq
  | .primitive m => by simp [Ty.cmp]
  | .unknown => by simp [Ty.cmp]
  | .func f => by rw [Ty.cmp, Signature.cmp_self f]
  | .overload fs => by rw [Ty.cmp, cmpSignatures_self fs]
  | .emptyList => by simp [Ty.cmp]
  | .list a => by rw [Ty.cmp, Ty.cmp_self a]
  | .emptyDict => by simp [Ty.cmp]
  | .dict k v => by rw [Ty.cmp, Ty.cmp_self k, Ty.cmp_self v]; rfl
  | .maybe a => by rw [Ty.cmp, Ty.cmp_self a]
  | .union as => by rw [Ty.cmp, cmpTys_self as]

theorem Signature.cmp_self : ∀ f : Signature, f.cmp f = .eq
  | ⟨ps, ns, r, ks⟩ => by
    simp [Signature.cmp, cmpTys_self ps, Ty.cmp_self r, cmpKwargs_self ks]

theorem cmpTys_self : ∀ as : List Ty, cmpTys as as = .eq
  | [] => by simp [cmpTys]
  | a :: as => by simp [cmpTys, Ty.cmp_self a, cmpTys_self as]

theorem cmpSignatures_self : ∀ fs : List Signature, cmpSignatures fs fs = .eq
  | [] => by simp [cmpSignatures]
  | f :: fs => by simp [cmpSignatures, Signature.cmp_self f, cmpSignatures_self fs]

theorem cmpKwargs_self : ∀ ks : List (String × Ty), cmpKwargs ks ks = .eq
  | [] => by simp [cmpKwargs]
  | (m, a) :: ks => by simp [cmpKwargs, Ty.cmp_self a, cmpKwargs_self ks]

end

/-- **Only equal types compare as equal.** -/
theorem Ty.cmp_eq_iff {a b : Ty} : a.cmp b = .eq ↔ a = b :=
  ⟨Ty.eq_of_cmp a b, fun h => h ▸ Ty.cmp_self a⟩

/-- **Only equal signatures compare as equal.** -/
theorem Signature.cmp_eq_iff {f g : Signature} : f.cmp g = .eq ↔ f = g :=
  ⟨Signature.eq_of_cmp f g, fun h => h ▸ Signature.cmp_self f⟩

instance : DecidableEq Ty := fun a b => decidable_of_iff (a.cmp b = .eq) Ty.cmp_eq_iff

instance : DecidableEq Signature := fun f g =>
  decidable_of_iff (f.cmp g = .eq) Signature.cmp_eq_iff

end Gradual
