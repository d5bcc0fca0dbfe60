import Gradual.Proofs.Call.Binding
import Gradual.Proofs.Ty.Merge

/-!
# Calls that are resolved

A call of a function with one signature is checked slot by slot. An operator, and a call of a
function with several signatures, is resolved: of the signatures that accept the arguments the
results are joined. For one signature both come to the same, and for several the type is the least
one that has room for the results of all that accept.

* `checkArguments_positional_eq_ok_iff`: calls without named arguments;
* `acceptedResults`, `resolve_eq_ok_iff`, `resolve_eq_error_iff`: what is resolved;
* **`Signature.call_agrees_with_operator`**: one signature, in a call and through an operator;
* **`resolve_least_cover`**: several signatures.
-/

namespace Gradual

open Source Effect

variable {f : Signature} {fs gs : List Signature} {args : List Ty} {t : Ty}

/-! ## Arguments given by position -/

theorem Signature.accepts_iff : f.accepts args ↔
    f.params.length ≤ args.length ∧ args.length ≤ f.maxPositional ∧
      ∀ p ∈ args.zip f.slots, p.1.fits p.2 := by
  simp [accepts, and_assoc]

theorem zipIdx_fit_iff (tys : List Ty) :
    (∀ p ∈ args.zipIdx, ∀ e, tys[p.2]? = some e → p.1.fits e) ↔
      ∀ p ∈ args.zip tys, p.1.fits p.2 := by
  constructor
  · rintro h ⟨a, e⟩ hp
    obtain ⟨i, hi⟩ := List.mem_iff_getElem?.1 hp
    obtain ⟨ha, he⟩ := List.getElem?_zip_eq_some.1 hi
    exact h (a, i) (List.mk_mem_zipIdx_iff_getElem?.2 ha) e he
  · rintro h ⟨a, i⟩ hp e he
    have ha := List.mk_mem_zipIdx_iff_getElem?.1 hp
    exact h (a, e) (List.mem_of_getElem? (List.getElem?_zip_eq_some.2 ⟨ha, he⟩))

/-- **A call without named arguments** is accepted exactly if its signature accepts the arguments,
whatever names the parameters have. -/
theorem checkArguments_positional_eq_ok_iff (name : String) (span : Span) :
    checkArguments name f args [] span = .ok t ↔ f.accepts args ∧ f.ret = t := by
  have hold := Slots.hold_positionalSlots f args
  have hgiven : (∀ i < f.params.length, i ∈ args.zipIdx.map (·.2)) ↔
      f.params.length ≤ args.length := by
    simp only [List.zipIdx_map_snd, List.mem_range'_1, Nat.zero_le, Nat.zero_add, true_and]
    exact ⟨fun h => Nat.le_of_not_lt fun hlt => Nat.lt_irrefl _ (h _ hlt),
      fun h i hi => Nat.lt_of_lt_of_le hi h⟩
  rw [checkArguments_eq_ok, Signature.accepts_iff, and_left_comm, and_assoc]
  refine and_congr_right fun hfew => ?_
  have hlen : f.params.length ≤ (positionalSlots f args).length := by
    rw [Slots.length_positionalSlots hfew]
    exact Nat.le_add_right _ _
  -- Without named arguments the slots stay as the positional ones fill them.
  simp only [List.foldlM_nil, pure, Except.pure, Except.ok.injEq, exists_eq_left', and_assoc]
  rw [hold.complete_iff hlen, hgiven, checkSlots_eq_ok_iff, hold.fit_iff, zipIdx_fit_iff]

/-! ## Results of the signatures that accept -/

/-- The results of the signatures that accept the arguments. -/
def acceptedResults (fs : List Signature) (args : List Ty) : List Ty :=
  (fs.filter (·.accepts args)).map (·.ret)

theorem mem_acceptedResults :
    t ∈ acceptedResults fs args ↔ ∃ f ∈ fs, f.accepts args ∧ f.ret = t := by
  simp [acceptedResults, and_assoc]

theorem acceptedResults_eq_nil_iff :
    acceptedResults fs args = [] ↔ ∀ f ∈ fs, ¬ f.accepts args := by
  simp [acceptedResults]

theorem resolve_eq (fs : List Signature) (args : List Ty) : resolve fs args =
    if acceptedResults fs args = [] then .error (.noMatchingOverload args)
    else .ok (Ty.join (acceptedResults fs args)) := by
  unfold resolve
  rw [← acceptedResults]
  cases acceptedResults fs args <;> rfl

theorem resolve_eq_error_iff {e : TypeFault} : resolve fs args = .error e ↔
    acceptedResults fs args = [] ∧ .noMatchingOverload args = e := by
  rw [resolve_eq]
  split <;> simp_all

theorem resolve_eq_ok_iff : resolve fs args = .ok t ↔
    acceptedResults fs args ≠ [] ∧ Ty.join (acceptedResults fs args) = t := by
  rw [resolve_eq]
  split <;> simp_all

/-- What is resolved depends on the set of signatures. -/
theorem resolve_congr (h : ∀ f, f ∈ gs ↔ f ∈ fs) (args : List Ty) :
    resolve gs args = resolve fs args := by
  have hnil : acceptedResults gs args = [] ↔ acceptedResults fs args = [] := by
    simp only [acceptedResults_eq_nil_iff, h]
  have hjoin : Ty.join (acceptedResults gs args) = Ty.join (acceptedResults fs args) :=
    Ty.join_congr fun t => by simp only [mem_acceptedResults, h]
  rw [resolve_eq, resolve_eq, hjoin]
  simp only [hnil]

theorem resolve_singleton_eq_ok_iff (hret : f.ret.Proper) :
    resolve [f] args = .ok t ↔ f.accepts args ∧ f.ret = t := by
  rw [resolve_eq_ok_iff, acceptedResults]
  by_cases h : f.accepts args
  · simp [h, Ty.join_singleton hret]
  · simp [h]

/-! ## One signature -/

theorem Builtins.knowsType_of_operator? {builtins : Builtins} {type method : String} {ty : Ty}
    (h : builtins.operator? type method = some ty) : builtins.knowsType type := by
  obtain ⟨methods, hmethods, -⟩ := Option.bind_eq_some_iff.1 h
  rw [Builtins.knowsType, Std.ExtTreeMap.contains_iff_mem, Std.ExtTreeMap.mem_iff_isSome_getElem?,
    hmethods]
  rfl

/-- An operation on two operands is a call of the method of the left one. -/
theorem binaryType_eq_ok_iff {builtins : Builtins} {op : BinaryOp} {method type : String}
    {left right callee : Ty} (hop : op.method? = some method)
    (hleft : left.primitiveName? = some type)
    (hcallee : builtins.operator? type method = some callee) (span : Span) (log : Log) :
    (exec (binaryType builtins span op left right) log).1 = .ok t ↔
      callee.callResult [left, right] = .ok t := by
  have hknown : left.primitiveName?.filter builtins.knowsType = some type := by
    rw [hleft, Option.filter_some, if_pos (Builtins.knowsType_of_operator? hcallee)]
  simp only [binaryType, hop, hknown, hcallee]
  cases callee.callResult [left, right] with
  | ok ty => simp
  | error e => simp

/-- **One signature, in a call and through an operator**: with arguments by position both accept the
same, and with the same type. -/
theorem Signature.call_agrees_with_operator (hret : f.ret.Proper) (name : String) (span : Span) :
    (∀ args t, checkArguments name f args [] span = .ok t ↔
      (Ty.func f).callResult args = .ok t) ∧
    ∀ (builtins : Builtins) (op : BinaryOp) (method type : String) (left right : Ty) (log : Log) t,
      op.method? = some method → left.primitiveName? = some type →
      builtins.operator? type method = some (.func f) →
      ((exec (binaryType builtins span op left right) log).1 = .ok t ↔
        callType span name (.func f) [⟨none, left⟩, ⟨none, right⟩] = .ok t) := by
  have hagree args t : checkArguments name f args [] span = .ok t ↔
      (Ty.func f).callResult args = .ok t := by
    rw [checkArguments_positional_eq_ok_iff]
    exact (resolve_singleton_eq_ok_iff hret).symm
  refine ⟨hagree, ?_⟩
  intro builtins op method type left right log t hop hleft hf
  rw [binaryType_eq_ok_iff hop hleft hf, ← hagree]
  rfl

/-- A function of a number, and of a text by default, is called with the number alone; a text times
a number is a text. -/
theorem numberWithDefault_agreement :
    let f : Signature := ⟨[.int], ["a"], .union [.none, .int, .str], [("b", .str)]⟩
    let product : Signature := .plain [.str, .int] .str
    f.ret.Proper ∧
      (∀ t, checkArguments "f" f [.int] [] (.point 1 1) = .ok t ↔
        (Ty.func f).callResult [.int] = .ok t) ∧
      (Ty.func f).callResult [.int] = .ok (.union [.none, .int, .str]) ∧
      (∀ t, checkArguments "f" f [.str] [] (.point 1 1) ≠ .ok t) ∧
      product.ret.Proper ∧
      callType (.point 1 1) "g" (.func product) [⟨none, .str⟩, ⟨none, .int⟩] = .ok .str ∧
      (exec (binaryType .standard (.point 1 1) .multiply .str .int) (.start (some 0))).1 =
        .ok .str := by
  intro f product
  have hret : f.ret.Proper := by
    refine ⟨?_, ?_⟩
    · rintro _ ⟨⟩
      decide
    · rintro _ ⟨⟩
      unfold Sorted.IsSorted
      decide +kernel
  have hproduct : product.ret.Proper := (Ty.flat_of_ne (a := .str) nofun).toProper
  have hcall : callType (.point 1 1) "g" (.func product) [⟨none, .str⟩, ⟨none, .int⟩] =
      .ok .str := by
    decide +kernel
  obtain ⟨hagree, -⟩ := Signature.call_agrees_with_operator hret "f" (.point 1 1)
  obtain ⟨-, hoperator⟩ := Signature.call_agrees_with_operator hproduct "g" (.point 1 1)
  refine ⟨hret, hagree [.int], by decide +kernel, fun t => ?_, hproduct, hcall, ?_⟩
  · rw [ne_eq, hagree]
    have herror : (Ty.func f).callResult [.str] = .error (.noMatchingOverload [.str]) := by
      decide +kernel
    rw [herror]
    exact nofun
  · exact (hoperator .standard .multiply "__mul__" "str" .str .int (.start (some 0)) .str rfl rfl
      (by decide +kernel)).2 hcall

/-! ## Several signatures -/

/-- What has room for all results that are joined. -/
theorem join_acceptedResults_fits_iff (hret : ∀ f ∈ fs, f.ret ≠ .union [])
    (hne : acceptedResults fs args ≠ []) (u : Ty) :
    (Ty.join (acceptedResults fs args)).fits u ↔ ∀ f ∈ fs, f.accepts args → f.ret.fits u := by
  have hempty : ∀ r ∈ acceptedResults fs args, r ≠ .union [] := by
    intro r hr
    obtain ⟨f, hf, -, rfl⟩ := mem_acceptedResults.1 hr
    exact hret f hf
  rw [Ty.join_fits_iff (Ty.flatMap_members_ne_nil hne hempty)]
  constructor
  · intro h f hf hacc
    exact h _ (mem_acceptedResults.2 ⟨f, hf, hacc, rfl⟩)
  · intro h r hr
    obtain ⟨f, hf, hacc, rfl⟩ := mem_acceptedResults.1 hr
    exact h f hf hacc

theorem acceptedResults_subset (h : fs ⊆ gs) (args : List Ty) :
    acceptedResults fs args ⊆ acceptedResults gs args := by
  intro r hr
  obtain ⟨f, hf, hacc, hr⟩ := mem_acceptedResults.1 hr
  exact mem_acceptedResults.2 ⟨f, h hf, hacc, hr⟩

/-- **The least type that covers what may be called**: resolution fails if no signature accepts the
arguments, and else gives the least type that covers their results. -/
theorem resolve_least_cover (hret : ∀ f ∈ fs, f.ret ≠ .union []) (args : List Ty) :
    ((∃ e, resolve fs args = .error e) ↔ ∀ f ∈ fs, ¬ f.accepts args) ∧
    (∀ t, resolve fs args = .ok t →
      (∀ f ∈ fs, f.accepts args → f.ret.fits t) ∧
      ∀ u : Ty, t.fits u ↔ ∀ f ∈ fs, f.accepts args → f.ret.fits u) ∧
    (∀ gs t, fs ⊆ gs → resolve fs args = .ok t → ∃ u, resolve gs args = .ok u ∧ t.fits u) ∧
    ∀ gs, (∀ f, f ∈ gs ↔ f ∈ fs) → resolve gs args = resolve fs args := by
  refine ⟨?_, ?_, ?_, fun gs h => resolve_congr h args⟩
  · simp only [resolve_eq_error_iff, exists_and_left, exists_eq', and_true,
      acceptedResults_eq_nil_iff]
  · intro t ht
    obtain ⟨hne, rfl⟩ := resolve_eq_ok_iff.1 ht
    have hcovers := join_acceptedResults_fits_iff hret hne
    exact ⟨(hcovers _).1 (Ty.fits_self _), hcovers⟩
  · intro gs t hsub ht
    obtain ⟨hne, rfl⟩ := resolve_eq_ok_iff.1 ht
    have hresults := acceptedResults_subset hsub args
    refine ⟨_, resolve_eq_ok_iff.2 ⟨fun hnil => hne ?_, rfl⟩, ?_⟩
    · rw [hnil] at hresults
      exact List.subset_nil.1 hresults
    · rw [join_acceptedResults_fits_iff hret hne]
      intro f hf hacc
      have hmem := hresults (mem_acceptedResults.2 ⟨f, hf, hacc, rfl⟩)
      exact Ty.fits_join_of_mem hmem (Ty.fits_self f.ret)

/-- Of three signatures two accept a number, and a further one makes room for its result. -/
theorem threeSignatures_cover :
    let fs : List Signature := [.plain [.int] (.union [.none, .int]), .plain [.str] .bytes,
      .plain [.unknown] .str]
    let t : Ty := .union [.none, .int, .str]
    (∀ f ∈ fs, f.ret ≠ .union []) ∧ resolve fs [.int] = .ok t ∧
      t.fits (.maybe (.union [.int, .str])) ∧ ¬ t.fits (.union [.int, .str]) ∧
      (∃ u, resolve (fs ++ [.plain [.int] .bool]) [.int] = .ok u ∧ t.fits u) ∧
      ∃ e, resolve fs [] = .error e := by
  intro fs t
  have hret : ∀ f ∈ fs, f.ret ≠ .union [] := by decide
  have ht : resolve fs [.int] = .ok t := by decide +kernel
  obtain ⟨-, hcover, hmore, -⟩ := resolve_least_cover hret [.int]
  obtain ⟨-, hleast⟩ := hcover t ht
  refine ⟨hret, ht, ?_, ?_, hmore _ t (List.subset_append_left _ _) ht, ?_⟩
  · rw [hleast]
    decide +kernel
  · rw [hleast]
    decide +kernel
  · rw [(resolve_least_cover hret []).1]
    decide +kernel

end Gradual
