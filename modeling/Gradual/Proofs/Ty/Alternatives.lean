import Mathlib.Data.List.Forall2
import Gradual.Proofs.Ty.Join
import Gradual.Ty.Call

/-!
# Compatibility by alternatives

A type leaves alternatives: what may be absent leaves those of what is present, a union those of its
members, an overloaded function its signatures. Anything but a union fits exactly if it meets one of
the alternatives, and to meet one is a matter of the two outermost forms. From this it follows when
compatibility is transitive and what the constructors of types make of it.

* `Ty.Offers`, `Ty.Meets`: the alternatives of a type, and what meets one;
* **`Ty.fits_iff_offers`**: the rules of compatibility by alternatives;
* `Ty.Settled`, **`Ty.fits_trans_of_settled`**: only marked empty lists and dictionaries stand in
  the way of transitivity;
* `Ty.Rigid`, `Ty.fits_trans_of_rigid`: the types that leave nothing open are settled;
* **`Ty.maybe_fits_iff`**, `Ty.constructors_monotone`: what may be absent is passed on as a whole;
  lists, dictionaries and functions are monotone.
-/

namespace Gradual.Ty

variable {a b c t u : Ty}

/-! ## Alternatives -/

/-- The alternatives that a type leaves. Each type is one of its own. -/
inductive Offers : Ty → Ty → Prop
  | refl (t : Ty) : Offers t t
  | present {t u : Ty} (h : Offers t u) : Offers (maybe t) u
  | member {m u : Ty} {ms : List Ty} (hm : m ∈ ms) (h : Offers m u) : Offers (union ms) u
  | signature {g : Signature} {gs : List Signature} (hg : g ∈ gs) : Offers (overload gs) (func g)

theorem fits_maybe_of_fits (h : a.fits t) : a.fits (maybe t) :=
  fits_of_plain (fun _ ha h => (fits_maybe_iff ha).2 (.inr (.inr h))) h

theorem fits_overload_of_mem {g : Signature} {gs : List Signature} (hg : g ∈ gs)
    (h : a.fits (func g)) : a.fits (overload gs) :=
  fits_of_plain (fun _ ha h => (fits_overload_iff ha).2 (.inr ⟨g, hg, h⟩)) h

/-- What fits an alternative of a type fits the type. -/
theorem Offers.fits (h : t.Offers u) (ha : a.fits u) : a.fits t := by
  induction h with
  | refl => exact ha
  | present _ ih => exact fits_maybe_of_fits (ih ha)
  | member hm _ ih => exact fits_union_of_mem hm (ih ha)
  | signature hg => exact fits_overload_of_mem hg ha

/-- What meets an alternative: the rules of compatibility that look into neither a union nor an
overloaded function, nor what may be absent. -/
inductive Meets : Ty → Ty → Prop
  | refl (a : Ty) : Meets a a
  | unknown (a : Ty) : Meets a unknown
  | absent (t : Ty) : Meets none (maybe t)
  | func {f g : Signature} (params : List.Forall₂ (fun p q : Ty => p.fits q) f.params g.params)
      (ret : f.ret.fits g.ret) : Meets (func f) (func g)
  | emptyList (t : Ty) : Meets emptyList (list t)
  | anyList (s : Ty) : Meets (list s) emptyList
  | list {s t : Ty} (h : s.fits t) : Meets (list s) (list t)
  | emptyDict (k t : Ty) : Meets emptyDict (dict k t)
  | anyDict (k t : Ty) : Meets (dict k t) emptyDict
  | dict {k l s t : Ty} (hk : k.fits l) (ht : s.fits t) : Meets (dict k s) (dict l t)

theorem Meets.fits (h : a.Meets u) : a.fits u := by
  cases h with
  | refl => exact fits_self a
  | unknown => exact fits_unknown a
  | absent t => exact (fits_maybe_iff (by simp [none])).2 (.inr (.inl (isNone_iff.2 rfl)))
  | func params ret =>
    obtain ⟨hlen, hzip⟩ := List.forall₂_iff_zip.1 params
    exact (fits_func_iff (by simp)).2 ⟨_, rfl, hlen, ret, fun p hp => hzip hp⟩
  | emptyList t => exact (fits_list_iff (by simp)).2 (.inl rfl)
  | anyList s => exact (fits_emptyList_iff (by simp)).2 (.inr ⟨s, rfl⟩)
  | list h => exact (fits_list_iff (by simp)).2 (.inr ⟨_, rfl, h⟩)
  | emptyDict k t => exact (fits_dict_iff (by simp)).2 (.inl rfl)
  | anyDict k t => exact (fits_emptyDict_iff (by simp)).2 (.inr ⟨k, t, rfl⟩)
  | dict hk ht => exact (fits_dict_iff (by simp)).2 (.inr ⟨_, _, rfl, hk, ht⟩)

theorem meets_func (ha : ∀ ms, a ≠ union ms) {g : Signature} (h : a.fits (func g)) :
    a.Meets (func g) := by
  obtain ⟨f, rfl, hlen, hret, hzip⟩ := (fits_func_iff ha).1 h
  exact .func (List.forall₂_iff_zip.2 ⟨hlen, fun hp => hzip _ hp⟩) hret

/-- Induction on what may be absent and on unions. -/
theorem choice_induction {P : Ty → Prop}
    (plain : ∀ t, (∀ s, t ≠ maybe s) → (∀ ms, t ≠ union ms) → P t)
    (maybe : ∀ s, P s → P (maybe s)) (union : ∀ ms, (∀ m ∈ ms, P m) → P (union ms)) (t : Ty) :
    P t := by
  cases t with
  | maybe s => exact maybe s (choice_induction plain maybe union s)
  | union ms =>
    refine union ms fun m hm => ?_
    have hlt := List.sizeOf_lt_of_mem hm
    exact choice_induction plain maybe union m
  | _ => exact plain _ (by simp) (by simp)
termination_by sizeOf t
decreasing_by
  · rw [Ty.maybe.sizeOf_spec]
    omega
  · rw [Ty.union.sizeOf_spec]
    omega

theorem exists_offers (ha : ∀ ms, a ≠ union ms) (h : a.fits t) :
    ∃ u, t.Offers u ∧ a.Meets u := by
  induction t using choice_induction with
  | maybe s ih =>
    rcases (fits_maybe_iff ha).1 h with rfl | hnone | hs
    · exact ⟨_, .refl _, .refl _⟩
    · rw [isNone_iff.1 hnone]
      exact ⟨_, .refl _, .absent s⟩
    · obtain ⟨u, hu, hmeets⟩ := ih hs
      exact ⟨u, .present hu, hmeets⟩
  | union ms ih =>
    obtain ⟨m, hm, hfits⟩ := (fits_union_iff ha).1 h
    obtain ⟨u, hu, hmeets⟩ := ih m hm hfits
    exact ⟨u, .member hm hu, hmeets⟩
  | plain t hmaybe hunion =>
    cases t with
    | primitive n => exact ⟨_, .refl _, (fits_primitive_iff ha).1 h ▸ .refl a⟩
    | unknown => exact ⟨_, .refl _, .unknown a⟩
    | func g => exact ⟨_, .refl _, meets_func ha h⟩
    | overload gs =>
      rcases (fits_overload_iff ha).1 h with rfl | ⟨g, hg, hfits⟩
      · exact ⟨_, .refl _, .refl _⟩
      · exact ⟨_, .signature hg, meets_func ha hfits⟩
    | emptyList =>
      rcases (fits_emptyList_iff ha).1 h with rfl | ⟨s, rfl⟩
      · exact ⟨_, .refl _, .refl _⟩
      · exact ⟨_, .refl _, .anyList s⟩
    | list t =>
      rcases (fits_list_iff ha).1 h with rfl | ⟨s, rfl, hs⟩
      · exact ⟨_, .refl _, .emptyList t⟩
      · exact ⟨_, .refl _, .list hs⟩
    | emptyDict =>
      rcases (fits_emptyDict_iff ha).1 h with rfl | ⟨k, s, rfl⟩
      · exact ⟨_, .refl _, .refl _⟩
      · exact ⟨_, .refl _, .anyDict k s⟩
    | dict l t =>
      rcases (fits_dict_iff ha).1 h with rfl | ⟨k, s, rfl, hk, hs⟩
      · exact ⟨_, .refl _, .emptyDict l t⟩
      · exact ⟨_, .refl _, .dict hk hs⟩
    | maybe s => exact absurd rfl (hmaybe s)
    | union ms => exact absurd rfl (hunion ms)

/-- **The rules of compatibility by alternatives**: anything but a union fits where it meets one. -/
theorem fits_iff_offers (ha : ∀ ms, a ≠ union ms) :
    a.fits t ↔ ∃ u, t.Offers u ∧ a.Meets u :=
  ⟨exists_offers ha, fun ⟨_, hu, hmeets⟩ => hu.fits hmeets.fits⟩

/-! ## Transitivity -/

/-- A type in which no empty list or dictionary is marked. Overloaded functions and what may be
absent are passed on as a whole, so that it does not matter what is inside them. -/
inductive Settled : Ty → Prop
  | primitive (name : String) : Settled (primitive name)
  | unknown : Settled unknown
  | func {f : Signature} (params : ∀ p ∈ f.params, Settled p) (ret : Settled f.ret) :
      Settled (func f)
  | overload (fs : List Signature) : Settled (overload fs)
  | list {t : Ty} (h : Settled t) : Settled (list t)
  | dict {k t : Ty} (hk : Settled k) (ht : Settled t) : Settled (dict k t)
  | maybe (t : Ty) : Settled (maybe t)
  | union {ms : List Ty} (h : ∀ m ∈ ms, Settled m) : Settled (union ms)

/-- A type in which nothing is unknown and no empty list or dictionary is marked. -/
inductive Rigid : Ty → Prop
  | primitive (name : String) : Rigid (primitive name)
  | func {f : Signature} (params : ∀ p ∈ f.params, Rigid p) (ret : Rigid f.ret) : Rigid (func f)
  | overload {fs : List Signature} (h : ∀ f ∈ fs, Rigid (func f)) : Rigid (overload fs)
  | list {t : Ty} (h : Rigid t) : Rigid (list t)
  | dict {k t : Ty} (hk : Rigid k) (ht : Rigid t) : Rigid (dict k t)
  | maybe {t : Ty} (h : Rigid t) : Rigid (maybe t)
  | union {ms : List Ty} (h : ∀ m ∈ ms, Rigid m) : Rigid (union ms)

theorem Rigid.settled (h : t.Rigid) : t.Settled := by
  induction h with
  | primitive name => exact .primitive name
  | func _ _ ihp ihr => exact .func ihp ihr
  | overload => exact .overload _
  | list _ ih => exact .list ih
  | dict _ _ ihk iht => exact .dict ihk iht
  | maybe => exact .maybe _
  | union _ ih => exact .union ih

theorem forall₂_fits_trans {ps qs rs : List Ty}
    (step : ∀ q ∈ qs, ∀ p r : Ty, p.fits q → q.fits r → p.fits r)
    (hpq : List.Forall₂ (fun p q : Ty => p.fits q) ps qs)
    (hqr : List.Forall₂ (fun q r : Ty => q.fits r) qs rs) :
    List.Forall₂ (fun p r : Ty => p.fits r) ps rs := by
  induction hpq generalizing rs with
  | nil =>
    cases hqr
    exact .nil
  | cons hp _ ih =>
    cases hqr with
    | cons hq hqr =>
      refine .cons (step _ List.mem_cons_self _ _ hp hq) (ih (fun q hq => ?_) hqr)
      exact step q (List.mem_cons_of_mem _ hq)

/-- What fits all that `b` meets fits wherever `b` does. -/
theorem fits_of_forall_meets (hb : ∀ ms, b ≠ union ms) (step : ∀ u, b.Meets u → a.fits u)
    (hbc : b.fits c) : a.fits c := by
  obtain ⟨u, hu, hmeets⟩ := exists_offers hb hbc
  exact hu.fits (step u hmeets)

/-- **Compatibility is transitive through settled types.** -/
theorem fits_trans_of_settled (hb : b.Settled) (hab : a.fits b) (hbc : b.fits c) : a.fits c := by
  -- The induction is on the type in the middle. What it meets has its form, so that the parts of
  -- the three types are compared in turn; a union on the left is taken apart in each case.
  induction hb generalizing a c with
  | primitive name =>
    refine fits_of_plain (fun a ha hab => ?_) hab
    rwa [(fits_primitive_iff ha).1 hab]
  | unknown =>
    refine fits_of_forall_meets (by simp) (fun u hu => ?_) hbc
    cases hu with
    | refl | unknown => exact fits_unknown a
  | func _ _ ihp ihr =>
    refine fits_of_forall_meets (by simp) (fun u hu => ?_) hbc
    cases hu with
    | refl => exact hab
    | unknown => exact fits_unknown a
    | func params ret =>
      refine fits_of_plain (fun a ha hab => ?_) hab
      cases meets_func ha hab with
      | refl => exact (Meets.func params ret).fits
      | func params' ret' =>
        have hparams := forall₂_fits_trans (fun q hq _ _ => ihp q hq) params' params
        exact (Meets.func hparams (ihr ret' ret)).fits
  | overload fs =>
    refine fits_of_forall_meets (by simp) (fun u hu => ?_) hbc
    cases hu with
    | refl => exact hab
    | unknown => exact fits_unknown a
  | list _ ih =>
    refine fits_of_forall_meets (by simp) (fun u hu => ?_) hbc
    refine fits_of_plain (fun a ha hab => ?_) hab
    have hlist := (fits_list_iff ha).1 hab
    cases hu with
    | refl => exact hab
    | unknown => exact fits_unknown a
    | anyList =>
      rcases hlist with rfl | ⟨s, rfl, -⟩
      · exact fits_self _
      · exact (Meets.anyList s).fits
    | list ht =>
      rcases hlist with rfl | ⟨s, rfl, hs⟩
      · exact (Meets.emptyList _).fits
      · exact (Meets.list (ih hs ht)).fits
  | dict _ _ ihk iht =>
    refine fits_of_forall_meets (by simp) (fun u hu => ?_) hbc
    refine fits_of_plain (fun a ha hab => ?_) hab
    have hdict := (fits_dict_iff ha).1 hab
    cases hu with
    | refl => exact hab
    | unknown => exact fits_unknown a
    | anyDict =>
      rcases hdict with rfl | ⟨l, w, rfl, -, -⟩
      · exact fits_self _
      · exact (Meets.anyDict l w).fits
    | dict hk ht =>
      rcases hdict with rfl | ⟨l, w, rfl, hl, hw⟩
      · exact (Meets.emptyDict _ _).fits
      · exact (Meets.dict (ihk hl hk) (iht hw ht)).fits
  | maybe t =>
    refine fits_of_forall_meets (by simp) (fun u hu => ?_) hbc
    cases hu with
    | refl => exact hab
    | unknown => exact fits_unknown a
  | union _ ih =>
    refine fits_of_plain (fun a ha hab => ?_) hab
    obtain ⟨m, hm, ham⟩ := (fits_union_iff ha).1 hab
    exact ih m hm ham (union_fits_iff_forall.1 hbc m hm)

/-- **Compatibility is transitive through rigid types**, of whatever form the other two are. -/
theorem fits_trans_of_rigid (hb : b.Rigid) (hab : a.fits b) (hbc : b.fits c) : a.fits c :=
  fits_trans_of_settled hb.settled hab hbc

/-- A function that takes numbers or nothing and gives a list of numbers, used as one of two that an
overloaded function has, which may itself be absent. -/
theorem numbersFunction_trans :
    let a : Ty := func (.plain [union [none, int]] (list int))
    let b : Ty := func (.plain [maybe int] (list (union [int, str])))
    let c : Ty := maybe (overload
      [.plain [] int, .plain [unknown] (list (maybe (union [int, str])))])
    b.Rigid ∧ a.fits b ∧ b.fits c ∧ a.fits c := by
  intro a b c
  have hb : b.Rigid := by
    refine .func (fun p hp => ?_) (.list (.union fun m hm => ?_))
    · rw [List.mem_singleton.1 hp]
      exact .maybe (.primitive _)
    · rcases List.mem_cons.1 hm with rfl | hm
      · exact .primitive _
      · rw [List.mem_singleton.1 hm]
        exact .primitive _
  have hab : a.fits b := by decide +kernel
  have hbc : b.fits c := by decide +kernel
  exact ⟨hb, hab, hbc, fits_trans_of_rigid hb hab hbc⟩

/-- A marked empty list takes all lists and fits all of them, which is not transitive. -/
example : (list int).fits emptyList ∧ emptyList.fits (list str) ∧ ¬ (list int).fits (list str) := by
  decide +kernel

/-! ## Constructors -/

/-- **What may be absent is passed on as a whole**: it fits where it is itself an alternative, or
where anything is. -/
theorem maybe_fits_iff : (maybe a).fits t ↔ t.Offers (maybe a) ∨ t.Offers unknown := by
  rw [fits_iff_offers (by simp)]
  constructor
  · rintro ⟨u, hu, hmeets⟩
    cases hmeets with
    | refl => exact .inl hu
    | unknown => exact .inr hu
  · rintro (h | h)
    · exact ⟨_, h, .refl _⟩
    · exact ⟨_, h, .unknown _⟩

theorem optional_eq_ok {p : Ty} (h : a.optional = .ok p) :
    ∃ s, p = maybe s ∧ (a = s ∨ a = maybe s) := by
  unfold optional at h
  split at h
  · cases h
  · split at h
    next =>
      cases h
      exact ⟨_, rfl, .inr rfl⟩
    next =>
      cases h
      exact ⟨a, rfl, .inl rfl⟩

theorem fits_optional {q : Ty} (hq : b.optional = .ok q) (h : a.fits b) : a.fits q := by
  obtain ⟨s, rfl, rfl | rfl⟩ := optional_eq_ok hq
  · exact fits_maybe_of_fits h
  · exact h

theorem none_fits_optional {q : Ty} (hq : b.optional = .ok q) : none.fits q := by
  obtain ⟨s, rfl, -⟩ := optional_eq_ok hq
  exact (Meets.absent s).fits

/-- **Constructors and compatibility**: lists, dictionaries and functions of what fits fit, and what
may be absent fits where it is itself an alternative. -/
theorem constructors_monotone {k l : Ty} (hab : a.fits b) (hkl : k.fits l) :
    (list a).fits (list b) ∧ (dict k a).fits (dict l b) ∧
      (func (.plain [k] a)).fits (func (.plain [l] b)) ∧
      ∀ p q : Ty, a.optional = .ok p → b.optional = .ok q →
        (p.fits q ↔ q.Offers p ∨ q.Offers unknown) ∧ ((∃ s, a = maybe s) → p.fits q) ∧
          none.fits q ∧ a.fits q ∧ (none.merge a).fits q := by
  have hparams : List.Forall₂ (fun p q : Ty => p.fits q) [k] [l] := .cons hkl .nil
  have hfunc : Meets (func (.plain [k] a)) (func (.plain [l] b)) := .func hparams hab
  refine ⟨(Meets.list hab).fits, (Meets.dict hkl hab).fits, hfunc.fits, fun p q hp hq => ?_⟩
  have ha := fits_optional hq hab
  have hnone := none_fits_optional hq
  refine ⟨?_, ?_, hnone, ha, ?_⟩
  · obtain ⟨s, rfl, -⟩ := optional_eq_ok hp
    exact maybe_fits_iff
  · rintro ⟨s, rfl⟩
    cases hp
    exact ha
  · refine (join_fits_iff (by simp [members, none])).2 fun c hc => ?_
    rcases List.mem_cons.1 hc with rfl | hc
    · exact hnone
    · rwa [List.mem_singleton.1 hc]

/-- A list of numbers that may be absent, where nothing is asked of a list, or of anything. -/
theorem absentList_monotone :
    let a : Ty := list int
    let b : Ty := union [emptyList, unknown]
    a.fits b ∧ none.fits b ∧ (dict none a).fits (dict b b) ∧
      a.optional = .ok (maybe a) ∧ b.optional = .ok (maybe b) ∧ (maybe a).fits (maybe b) := by
  intro a b
  have hab : a.fits b := by decide +kernel
  have hkl : none.fits b := by decide +kernel
  obtain ⟨-, hdict, -, hmaybe⟩ := constructors_monotone hab hkl
  obtain ⟨hiff, -⟩ := hmaybe (maybe a) (maybe b) rfl rfl
  exact ⟨hab, hkl, hdict, rfl, rfl, hiff.2 (.inr (.present (.member (by simp) (.refl _))))⟩

/-- What may be absent is not monotone: numbers fit where numbers or texts are expected, and lists
of numbers where any list is, but not so if both may be absent. -/
theorem maybe_not_monotone :
    (int.fits (union [int, str]) ∧ int.optional = .ok (maybe int) ∧
      (union [int, str]).optional = .ok (maybe (union [int, str])) ∧
      ¬ (maybe int).fits (maybe (union [int, str]))) ∧
    ((list int).fits (list unknown) ∧ (list int).optional = .ok (maybe (list int)) ∧
      (list unknown).optional = .ok (maybe (list unknown)) ∧
      ¬ (maybe (list int)).fits (maybe (list unknown))) := by
  refine ⟨⟨?_, rfl, rfl, ?_⟩, ?_, rfl, rfl, ?_⟩ <;> decide +kernel

end Gradual.Ty
