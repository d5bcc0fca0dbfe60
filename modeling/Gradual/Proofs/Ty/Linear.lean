import Mathlib.Data.List.Perm.Basic
import Gradual.Proofs.Ty.Merge
import Gradual.Proofs.Ty.Order

/-!
# The linear order of types and their sets

The comparison of types is lexicographic: the form decides first, then the parts in turn, and lists
of parts are compared element by element. It is that of a linear order, so the members of a union or
an overload have one strictly increasing list, in whatever order they were put in.

* `cmpTys_eq_compareLex`, `cmpSignatures_eq_compareLex`, `cmpKwargs_eq_compareLex`: lists of parts;
* `Ty.Lexicographic`, `Ty.lexicographic`: what decides a comparison;
* `Linear`, `linear_of_lawful`: the laws of a linear order;
* `Sorted.insertAll`, `OneList`, **`oneList_of_lawful`**: sets in a linear order;
* **`Ty.cmp_linear`**: both for types and for signatures.
-/

namespace Gradual

/-! ## Lists of parts -/

theorem cmpTys_eq_compareLex (as bs : List Ty) : cmpTys as bs = as.compareLex Ty.cmp bs :=
  eq_compareLex rfl (fun _ _ => rfl) (fun _ _ => rfl) (fun _ _ _ _ => rfl) as bs

theorem cmpSignatures_eq_compareLex (fs gs : List Signature) :
    cmpSignatures fs gs = fs.compareLex Signature.cmp gs :=
  eq_compareLex rfl (fun _ _ => rfl) (fun _ _ => rfl) (fun _ _ _ _ => rfl) fs gs

/-- Named types are ordered by their names and then by their types. -/
def cmpKwarg (k l : String × Ty) : Ordering := (compare k.1 l.1).then (k.2.cmp l.2)

theorem cmpKwargs_eq_compareLex (ks ls : List (String × Ty)) :
    cmpKwargs ks ls = ks.compareLex cmpKwarg ls := by
  refine eq_compareLex rfl (fun _ _ => rfl) (fun _ _ => rfl) (fun k ks l ls => ?_) ks ls
  rw [cmpKwargs, cmpKwarg, Ordering.then_assoc]

/-- Signatures are compared by parameters, names, result and defaults. -/
theorem Signature.cmp_eq_then (f g : Signature) :
    f.cmp g = (f.params.compareLex Ty.cmp g.params).then ((compare f.names g.names).then
      ((f.ret.cmp g.ret).then (f.kwargs.compareLex cmpKwarg g.kwargs))) := by
  obtain ⟨ps, ns, r, ks⟩ := f
  obtain ⟨qs, ms, s, ls⟩ := g
  rw [Signature.cmp, cmpTys_eq_compareLex, cmpKwargs_eq_compareLex]

/-- Types are compared by the ranks of their forms and then by their parts in turn, signatures by
their fields in turn, and lists of parts element by element. -/
structure Ty.Lexicographic : Prop where
  form : ∀ a b : Ty, a.rank < b.rank → a.cmp b = .lt
  name : ∀ m n, (primitive m).cmp (primitive n) = compare m n
  signature : ∀ f g : Signature, (func f).cmp (func g) = f.cmp g
  members : ∀ fs gs, (overload fs).cmp (overload gs) = fs.compareLex Signature.cmp gs
  element : ∀ a b : Ty, (list a).cmp (list b) = a.cmp b
  entry : ∀ a b a' b' : Ty, (dict a b).cmp (dict a' b') = (a.cmp a').then (b.cmp b')
  inner : ∀ a b : Ty, (maybe a).cmp (maybe b) = a.cmp b
  alternatives : ∀ as bs, (union as).cmp (union bs) = as.compareLex Ty.cmp bs
  fields : ∀ f g : Signature, f.cmp g =
    (f.params.compareLex Ty.cmp g.params).then ((compare f.names g.names).then
      ((f.ret.cmp g.ret).then (f.kwargs.compareLex cmpKwarg g.kwargs)))

theorem Ty.lexicographic : Ty.Lexicographic where
  form a b h := by
    rw [cmp_of_rank_ne (Nat.ne_of_lt h)]
    exact Nat.compare_eq_lt.2 h
  name _ _ := by rw [Ty.cmp]
  signature _ _ := by rw [Ty.cmp]
  members _ _ := by rw [Ty.cmp, cmpSignatures_eq_compareLex]
  element _ _ := by rw [Ty.cmp]
  entry _ _ _ _ := by rw [Ty.cmp]
  inner _ _ := by rw [Ty.cmp]
  alternatives _ _ := by rw [Ty.cmp, cmpTys_eq_compareLex]
  fields := Signature.cmp_eq_then

/-! ## Linear orders -/

section Linear

variable {α : Type}

/-- The comparison is that of a linear order, in which only equal elements compare as equal. -/
structure Linear (cmp : α → α → Ordering) : Prop where
  eq_iff : ∀ a b, cmp a b = .eq ↔ a = b
  swap : ∀ a b, cmp b a = (cmp a b).swap
  antisymm : ∀ a b, (cmp a b).isLE → (cmp b a).isLE → a = b
  trans : ∀ a b c, (cmp a b).isLE → (cmp b c).isLE → (cmp a c).isLE
  total : ∀ a b, (cmp a b).isLE ∨ (cmp b a).isLE

/-- The set with all elements of a list as further members, put in one after the other. -/
def Sorted.insertAll (cmp : α → α → Ordering) (s l : List α) : List α :=
  l.foldl (fun s a => insert cmp a s) s

/-- Sets in the order of the comparison have one strictly increasing list of members: those of the
set and those put in, each of them once, in whatever order they come. -/
structure OneList (cmp : α → α → Ordering) : Prop where
  sorted : ∀ s l, Sorted.IsSorted cmp s → Sorted.IsSorted cmp (Sorted.insertAll cmp s l)
  nodup : ∀ s l, Sorted.IsSorted cmp s → (Sorted.insertAll cmp s l).Nodup
  mem_iff : ∀ s l a, a ∈ Sorted.insertAll cmp s l ↔ a ∈ s ∨ a ∈ l
  order_free : ∀ s k l, k.Perm l → Sorted.insertAll cmp s k = Sorted.insertAll cmp s l

variable (cmp : α → α → Ordering) [Std.TransCmp cmp] [Std.LawfulEqCmp cmp]

theorem linear_of_lawful : Linear cmp where
  eq_iff _ _ := Std.LawfulEqCmp.compare_eq_iff_eq
  swap _ _ := Std.OrientedCmp.eq_swap
  antisymm _ _ hab hba := Std.LawfulEqCmp.eq_of_compare (Std.OrientedCmp.isLE_antisymm hab hba)
  trans _ _ _ := Std.TransCmp.isLE_trans
  total a b := by
    have hswap : cmp b a = (cmp a b).swap := Std.OrientedCmp.eq_swap
    rw [hswap]
    cases cmp a b <;> simp

/-- **In a linear order, a set has one list of members.** -/
theorem oneList_of_lawful : OneList cmp where
  sorted _ l hs := Sorted.isSorted_foldl_insert hs l
  nodup s l hs := by
    refine (Sorted.isSorted_foldl_insert hs l).imp fun {a b} hab heq => ?_
    have hself : cmp a a = .eq := Std.ReflCmp.compare_self
    rw [← heq, hself] at hab
    cases hab
  mem_iff _ _ _ := Sorted.mem_foldl_insert.trans or_comm
  order_free s k l h := by
    have : RightCommutative fun (s : List α) a => Sorted.insert cmp a s :=
      ⟨fun s a b => Sorted.insert_comm b a s⟩
    exact h.foldl_eq s

end Linear

/-- **Types and signatures are linearly ordered**, by their forms and then by their parts, and the
members of unions and overloads have one list. -/
theorem Ty.cmp_linear :
    Ty.Lexicographic ∧ (Linear Ty.cmp ∧ Linear Signature.cmp) ∧
      (OneList Ty.cmp ∧ OneList Signature.cmp) ∧
      (∀ as bs : List Ty, as.Perm bs → join as = join bs) ∧
      ∀ fs gs : List Signature, fs.Perm gs →
        overload (Signature.setOf fs) = overload (Signature.setOf gs) := by
  refine ⟨Ty.lexicographic, ⟨linear_of_lawful _, linear_of_lawful _⟩,
    ⟨oneList_of_lawful _, oneList_of_lawful _⟩, fun as bs h => join_congr fun _ => h.mem_iff,
    fun fs gs h => ?_⟩
  exact congrArg overload ((oneList_of_lawful Signature.cmp).order_free [] fs gs h)

/-- The alternatives of a union, put together in another order. -/
theorem Ty.cmp_linear_alternatives :
    [str, list int, int].Perm [int, str, list int] ∧
      join [str, list int, int] = join [int, str, list int] := by
  have hperm : ([str, list int] ++ [int]).Perm ([int] ++ [str, list int]) := List.perm_append_comm
  exact ⟨hperm, Ty.cmp_linear.2.2.2.1 _ _ hperm⟩

end Gradual
