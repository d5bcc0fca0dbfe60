import Mathlib.Data.List.Nodup
import Mathlib.Data.List.Perm.Basic
import Gradual.Proofs.Rules

/-!
# Binding of arguments

The check of a call puts the arguments into slots one after the other and stops at the first that
has none or finds its slot taken. What it accepts can be said at once, without slots that are filled
in turn: each argument has a slot of its own, no parameter that has to be given is left out, and the
types fit. So the order of the named arguments does not matter, nor whether the last argument given
by position is named instead.

* `Signature.placed`, `Signature.Binds`: the arguments with their slots, and when they are bound;
* `Slots.Hold`: the slots hold some arguments, each in its own;
* `Slots.Hold.step`, **`Slots.Hold.fill`**: what one named argument does to the slots, and what all
  of them do;
* **`checkArguments_eq_ok_iff`**: a call is accepted exactly if its arguments are bound;
* `Signature.Binds.perm`, `Signature.binds_last_iff`: the same arguments given in another way;
* **`Signature.binding_exact`**: all of this about one signature.
-/

namespace Gradual

open Source Effect

/-! ## Slots of a signature -/

namespace Signature

/-- All parameters that have to be given have names, or none of them has. -/
def Aligned (f : Signature) : Prop := f.names = [] ∨ f.names.length = f.params.length

/-- The names of the slots. -/
def slotNames (f : Signature) : List String := f.names ++ f.kwargs.map (·.1)

/-- The named arguments with their slots, without those that have none. -/
def keywordSlots (f : Signature) (ks : List (String × Ty)) : List (Ty × Nat) :=
  ks.filterMap fun k => (f.keywordSlot? k.1).map fun i => (k.2, i)

/-- The arguments of a call with their slots: positional ones take the first slots, named ones those
that their names refer to. -/
def placed (f : Signature) (ps : List Ty) (ks : List (String × Ty)) : List (Ty × Nat) :=
  ps.zipIdx ++ f.keywordSlots ks

/-- The arguments of a call are bound to the parameters: there are not too many positional ones,
each name refers to a slot, no slot is taken twice, those that have to be filled are, and each
argument fits the type of its slot. -/
structure Binds (f : Signature) (ps : List Ty) (ks : List (String × Ty)) : Prop where
  few : ps.length ≤ f.maxPositional
  known : ∀ k ∈ ks, ∃ i, f.keywordSlot? k.1 = some i
  distinct : ((f.placed ps ks).map (·.2)).Nodup
  complete : ∀ i < f.params.length, i ∈ (f.placed ps ks).map (·.2)
  fit : ∀ p ∈ f.placed ps ks, ∃ t, f.positional? p.2 = some t ∧ p.1.fits t

variable {f : Signature}

theorem length_slots (f : Signature) : f.slots.length = f.maxPositional := by
  simp [slots, maxPositional]

/-- A name refers to one of the slots. -/
theorem Aligned.keywordSlot?_lt (hf : f.Aligned) {n : String} {i : Nat}
    (h : f.keywordSlot? n = some i) : i < f.maxPositional := by
  unfold keywordSlot? at h
  unfold maxPositional
  split at h
  next j hj =>
    cases h
    obtain ⟨hlt, -⟩ := List.findIdx?_eq_some_iff_getElem.1 hj
    rcases hf with hnil | hlen
    · simp [hnil] at hlt
    · omega
  next =>
    obtain ⟨j, hj, rfl⟩ := Option.map_eq_some_iff.1 h
    obtain ⟨hlt, -⟩ := List.findIdx?_eq_some_iff_getElem.1 hj
    omega

theorem keywordSlot?_eq_findIdx? (hlen : f.names.length = f.params.length) (n : String) :
    f.keywordSlot? n = f.slotNames.findIdx? (· == n) := by
  rw [keywordSlot?, slotNames, List.findIdx?_append, List.findIdx?_map, hlen]
  cases f.names.findIdx? (· == n) with
  | none => rfl
  | some i => rfl

/-- Where no name is given twice, the name of a slot refers to it. -/
theorem keywordSlot?_slotNames (hlen : f.names.length = f.params.length) (hd : f.slotNames.Nodup)
    {n : String} {i : Nat} (h : f.slotNames[i]? = some n) : f.keywordSlot? n = some i := by
  rw [keywordSlot?_eq_findIdx? hlen, List.findIdx?_eq_some_iff_getElem]
  obtain ⟨hi, rfl⟩ := List.getElem?_eq_some_iff.1 h
  refine ⟨hi, by simp, fun j hj => ?_⟩
  simp [hd.getElem_inj_iff, Nat.ne_of_lt hj]

theorem keywordSlots_cons {k : String × Ty} {i : Nat} (hi : f.keywordSlot? k.1 = some i)
    (ks : List (String × Ty)) : f.keywordSlots (k :: ks) = (k.2, i) :: f.keywordSlots ks := by
  simp [keywordSlots, hi]

theorem keywordSlots_append (ks ls : List (String × Ty)) :
    f.keywordSlots (ks ++ ls) = f.keywordSlots ks ++ f.keywordSlots ls :=
  List.filterMap_append

end Signature

/-! ## Slots and what they hold -/

namespace Slots

variable {slots : Slots} {placed : List (Ty × Nat)} {i : Nat} {t : Ty}

/-- The type of the argument in a slot. -/
def type? (slots : Slots) (i : Nat) : Option Ty := slots[i]?.join.map (·.2)

theorem type?_eq_some_iff :
    type? slots i = some t ↔ ∃ label, slots[i]? = some (some (label, t)) := by
  simp [type?, Option.join_eq_some_iff]

theorem type?_set {label : String} (hi : i < slots.length) (j : Nat) :
    type? (slots.set i (some (label, t))) j = if j = i then some t else type? slots j := by
  unfold type?
  by_cases hji : j = i
  · subst hji
    simp [hi]
  · rw [if_neg hji, List.getElem?_set_ne (Ne.symm hji)]

/-- The slots hold the arguments of a list, each in a slot of its own, and nothing else. -/
structure Hold (slots : Slots) (placed : List (Ty × Nat)) : Prop where
  distinct : (placed.map (·.2)).Nodup
  type?_iff : ∀ i t, type? slots i = some t ↔ (t, i) ∈ placed

theorem Hold.isSome_iff (h : slots.Hold placed) (i : Nat) :
    (slots[i]?.join).isSome ↔ i ∈ placed.map (·.2) := by
  have htype : (slots[i]?.join).isSome = (type? slots i).isSome := by simp [type?]
  rw [htype, Option.isSome_iff_exists, List.mem_map]
  constructor
  · rintro ⟨t, ht⟩
    exact ⟨(t, i), (h.type?_iff i t).1 ht, rfl⟩
  · rintro ⟨⟨t, j⟩, hmem, rfl⟩
    exact ⟨t, (h.type?_iff j t).2 hmem⟩

theorem Hold.lt_length (h : slots.Hold placed) {p : Ty × Nat} (hp : p ∈ placed) :
    p.2 < slots.length := by
  obtain ⟨label, hlabel⟩ := type?_eq_some_iff.1 ((h.type?_iff p.2 p.1).2 hp)
  exact (List.getElem?_eq_some_iff.1 hlabel).1

/-- An argument that is put into a free slot is held as well. -/
theorem Hold.set (h : slots.Hold placed) (hi : i < slots.length) (hfree : i ∉ placed.map (·.2))
    (label : String) (t : Ty) :
    Hold (slots.set i (some (label, t))) (placed ++ [(t, i)]) where
  distinct := by
    rw [List.map_append, List.nodup_append]
    refine ⟨h.distinct, List.nodup_singleton i, ?_⟩
    rintro j hj k hk rfl
    rw [List.map_singleton, List.mem_singleton] at hk
    cases hk
    exact hfree hj
  type?_iff j s := by
    rw [type?_set hi, List.mem_append, List.mem_singleton, Prod.mk.injEq]
    by_cases hji : j = i
    · subst hji
      have hnot : (s, j) ∉ placed := fun hmem => hfree (List.mem_map.2 ⟨_, hmem, rfl⟩)
      simp [hnot, eq_comm]
    · simp [hji, h.type?_iff]

theorem length_positionalSlots {f : Signature} {ps : List Ty} (h : ps.length ≤ f.maxPositional) :
    (positionalSlots f ps).length = f.maxPositional := by
  rw [positionalSlots, List.length_append, List.length_mapIdx, List.length_replicate]
  omega

theorem hold_positionalSlots (f : Signature) (ps : List Ty) :
    Hold (positionalSlots f ps) ps.zipIdx where
  distinct := by
    rw [List.zipIdx_map_snd]
    exact List.nodup_range'
  type?_iff i t := by
    rw [List.mk_mem_zipIdx_iff_getElem?, type?, positionalSlots]
    by_cases hi : i < ps.length
    · rw [List.getElem?_append_left (by simpa using hi)]
      simp [hi]
    · rw [List.getElem?_append_right (by simpa using hi),
        List.getElem?_eq_none (Nat.le_of_not_lt hi), List.getElem?_replicate]
      split <;> simp

end Slots

/-! ## Filling the slots -/

section Fill

open Slots

variable {name : String} {f : Signature} {span : Span} {slots slots' : Slots}
  {placed : List (Ty × Nat)} {k : String × Ty} {ks : List (String × Ty)}

theorem fillKeyword_eq_ok_iff (h : slots.Hold placed) :
    fillKeyword name f span slots k = .ok slots' ↔
      ∃ i, f.keywordSlot? k.1 = some i ∧ i ∉ placed.map (·.2) ∧
        slots' = slots.set i (some (s!"'{k.1}'", k.2)) := by
  unfold fillKeyword
  cases f.keywordSlot? k.1 with
  | none => simp
  | some i =>
    dsimp only
    split
    next htaken =>
      rw [h.isSome_iff] at htaken
      simp only [reduceCtorEq, false_iff]
      rintro ⟨j, hj, hfree, -⟩
      cases hj
      exact hfree htaken
    next hfree =>
      rw [h.isSome_iff] at hfree
      simp only [Except.ok.injEq]
      constructor
      · rintro rfl
        exact ⟨i, rfl, hfree, rfl⟩
      · rintro ⟨j, hj, -, rfl⟩
        cases hj
        rfl

/-- **One named argument**: if it can be put into a slot, that slot is held in addition. -/
theorem Slots.Hold.step (hf : f.Aligned) (hlen : slots.length = f.maxPositional)
    (h : slots.Hold placed) (hstep : fillKeyword name f span slots k = .ok slots') :
    slots'.length = f.maxPositional ∧
      ∃ i, f.keywordSlot? k.1 = some i ∧ slots'.Hold (placed ++ [(k.2, i)]) := by
  obtain ⟨i, hi, hfree, rfl⟩ := (fillKeyword_eq_ok_iff h).1 hstep
  have hlt : i < slots.length := hlen ▸ hf.keywordSlot?_lt hi
  exact ⟨by rw [List.length_set, hlen], i, hi, h.set hlt hfree _ _⟩

/-- **All named arguments**: if they can be put into slots, their slots are held in addition. -/
theorem Slots.Hold.fill (hf : f.Aligned) (hlen : slots.length = f.maxPositional)
    (h : slots.Hold placed) (hfill : ks.foldlM (fillKeyword name f span) slots = .ok slots') :
    slots'.length = f.maxPositional ∧ (∀ k ∈ ks, ∃ i, f.keywordSlot? k.1 = some i) ∧
      slots'.Hold (placed ++ f.keywordSlots ks) := by
  -- `placed` grows with each step, so that it is general in the induction, as the slots are.
  induction ks generalizing slots placed with
  | nil =>
    cases hfill
    exact ⟨hlen, by simp, by simpa [Signature.keywordSlots] using h⟩
  | cons k ks ih =>
    rw [List.foldlM_cons, except_bind_eq_ok] at hfill
    obtain ⟨next, hnext, hrest⟩ := hfill
    obtain ⟨hlen, i, hi, hold⟩ := h.step hf hlen hnext
    obtain ⟨hlen, hknown, hall⟩ := ih hlen hold hrest
    refine ⟨hlen, List.forall_mem_cons.2 ⟨⟨i, hi⟩, hknown⟩, ?_⟩
    rwa [Signature.keywordSlots_cons hi, List.append_cons]

/-- Named arguments whose slots are all different, and not taken, can be put into them. -/
theorem exists_fill (hf : f.Aligned) (hlen : slots.length = f.maxPositional)
    (h : slots.Hold placed) (known : ∀ k ∈ ks, ∃ i, f.keywordSlot? k.1 = some i)
    (distinct : ((placed ++ f.keywordSlots ks).map (·.2)).Nodup) :
    ∃ slots', ks.foldlM (fillKeyword name f span) slots = .ok slots' := by
  induction ks generalizing slots placed with
  | nil => exact ⟨slots, rfl⟩
  | cons k ks ih =>
    obtain ⟨⟨i, hi⟩, known⟩ := List.forall_mem_cons.1 known
    rw [Signature.keywordSlots_cons hi] at distinct
    have hfree : i ∉ placed.map (·.2) := by
      rw [List.map_append, List.nodup_append] at distinct
      intro hmem
      exact distinct.2.2 i hmem i (by simp) rfl
    obtain ⟨next, hnext⟩ : ∃ next, fillKeyword name f span slots k = .ok next :=
      ⟨_, (fillKeyword_eq_ok_iff h).2 ⟨i, hi, hfree, rfl⟩⟩
    obtain ⟨hlen, j, hj, hold⟩ := h.step hf hlen hnext
    cases hi.symm.trans hj
    rw [List.append_cons] at distinct
    obtain ⟨slots', hrest⟩ := ih hlen hold known distinct
    refine ⟨slots', ?_⟩
    rw [List.foldlM_cons, except_bind_eq_ok]
    exact ⟨next, hnext, hrest⟩

/-! ## Looking at the slots -/

theorem checkSlots_eq_ok_iff (slots : Slots) (tys : List Ty) :
    checkSlots name span slots tys = .ok () ↔
      ∀ p ∈ slots.zip tys, ∀ a, p.1 = some a → a.2.fits p.2 := by
  fun_induction checkSlots name span slots tys with
  | case1 label actual slots expected tys hfits ih =>
    rw [ih, List.zip_cons_cons, List.forall_mem_cons]
    simp [hfits]
  | case2 label actual slots expected tys hfits =>
    rw [List.zip_cons_cons, List.forall_mem_cons]
    simp [hfits]
  | case3 slots expected tys ih =>
    rw [ih, List.zip_cons_cons, List.forall_mem_cons]
    simp
  | case4 slots tys hsome hnone =>
    -- The default case: neither of the two patterns applies, so one of the lists is at its end.
    have hzip : slots.zip tys = [] := by
      cases slots with
      | nil => rfl
      | cons s slots =>
        cases tys with
        | nil => simp
        | cons expected tys =>
          cases s with
          | none => exact absurd rfl (hnone slots expected tys rfl)
          | some a => exact absurd rfl (hsome a.1 a.2 slots expected tys rfl)
    simp [hzip]

theorem Slots.Hold.fit_iff (h : slots.Hold placed) (tys : List Ty) :
    (∀ p ∈ slots.zip tys, ∀ a, p.1 = some a → a.2.fits p.2) ↔
      ∀ p ∈ placed, ∀ e, tys[p.2]? = some e → p.1.fits e := by
  constructor
  · rintro hall ⟨t, i⟩ hmem e he
    obtain ⟨label, hlabel⟩ := type?_eq_some_iff.1 ((h.type?_iff i t).2 hmem)
    have hzip : (slots.zip tys)[i]? = some (some (label, t), e) :=
      List.getElem?_zip_eq_some.2 ⟨hlabel, he⟩
    exact hall _ (List.mem_of_getElem? hzip) (label, t) rfl
  · rintro hall ⟨s, e⟩ hzip ⟨label, t⟩ rfl
    obtain ⟨i, hi⟩ := List.mem_iff_getElem?.1 hzip
    obtain ⟨hlabel, he⟩ := List.getElem?_zip_eq_some.1 hi
    exact hall (t, i) ((h.type?_iff i t).1 (type?_eq_some_iff.2 ⟨label, hlabel⟩)) e he

theorem Slots.Hold.complete_iff (h : slots.Hold placed) {n : Nat} (hn : n ≤ slots.length) :
    (slots.take n).any Option.isNone = false ↔ ∀ i < n, i ∈ placed.map (·.2) := by
  have hget {i : Nat} (hi : i < n) {s : Option (String × Ty)} (hs : slots[i]? = some s) :
      ¬ s.isNone ↔ i ∈ placed.map (·.2) := by
    rw [← h.isSome_iff, hs]
    cases s <;> simp
  rw [List.any_eq_false]
  constructor
  · intro hall i hi
    obtain ⟨s, hs⟩ : ∃ s, slots[i]? = some s := ⟨slots[i], List.getElem?_eq_getElem _⟩
    have hmem := List.mem_of_getElem? ((List.getElem?_take_of_lt hi).trans hs)
    exact (hget hi hs).1 (hall s hmem)
  · intro hall s hmem
    obtain ⟨i, hs⟩ := List.mem_iff_getElem?.1 hmem
    have hi : i < n := by
      have hlt := (List.getElem?_eq_some_iff.1 hs).1
      rw [List.length_take] at hlt
      omega
    rw [List.getElem?_take_of_lt hi] at hs
    exact (hget hi hs).2 (hall i hi)

end Fill

/-! ## Accepted calls -/

variable {f : Signature} {ps qs : List Ty} {ks ls : List (String × Ty)}

/-- The stages of the check of a call. -/
theorem checkArguments_eq_ok (name : String) (span : Span) (t : Ty) :
    checkArguments name f ps ks span = .ok t ↔
      ps.length ≤ f.maxPositional ∧
        ∃ slots, ks.foldlM (fillKeyword name f span) (positionalSlots f ps) = .ok slots ∧
          (slots.take f.params.length).any Option.isNone = false ∧
          checkSlots name span slots f.slots = .ok () ∧ f.ret = t := by
  unfold checkArguments
  dsimp only
  split
  next hmany => simp [Nat.not_le.2 hmany]
  next hfew =>
    rw [except_bind_eq_ok]
    simp only [Nat.not_lt.1 hfew, true_and]
    refine exists_congr fun slots => and_congr_right fun _ => ?_
    split
    next hnone => simp [hnone]
    next hsome =>
      rw [except_bind_eq_ok]
      simp only [Bool.not_eq_true] at hsome
      constructor
      · rintro ⟨⟨⟩, hfit, ⟨⟩⟩
        exact ⟨hsome, hfit, rfl⟩
      · rintro ⟨-, hfit, rfl⟩
        exact ⟨(), hfit, rfl⟩

/-- **A call is accepted exactly if its arguments are bound**, and then has the type of the result.
-/
theorem checkArguments_eq_ok_iff (hf : f.Aligned) (name : String) (span : Span) (t : Ty) :
    checkArguments name f ps ks span = .ok t ↔ t = f.ret ∧ f.Binds ps ks := by
  have hold := Slots.hold_positionalSlots f ps
  have hle : f.params.length ≤ f.maxPositional := Nat.le_add_right _ _
  rw [checkArguments_eq_ok]
  constructor
  · rintro ⟨hfew, slots, hfill, hcomplete, hfit, rfl⟩
    obtain ⟨hlen, hknown, hold⟩ := hold.fill hf (Slots.length_positionalSlots hfew) hfill
    rw [hold.complete_iff (hlen ▸ hle)] at hcomplete
    rw [checkSlots_eq_ok_iff, hold.fit_iff] at hfit
    refine ⟨rfl, hfew, hknown, hold.distinct, hcomplete, fun p hp => ?_⟩
    have hlt : p.2 < f.slots.length := by
      rw [f.length_slots, ← hlen]
      exact hold.lt_length hp
    exact ⟨_, List.getElem?_eq_getElem hlt, hfit p hp _ (List.getElem?_eq_getElem hlt)⟩
  · rintro ⟨rfl, hbinds⟩
    have hlen := Slots.length_positionalSlots hbinds.few
    obtain ⟨slots, hfill⟩ := exists_fill hf hlen hold hbinds.known hbinds.distinct
    obtain ⟨hlen, -, hold⟩ := hold.fill hf hlen hfill
    refine ⟨hbinds.few, slots, hfill, (hold.complete_iff (hlen ▸ hle)).2 hbinds.complete, ?_, rfl⟩
    rw [checkSlots_eq_ok_iff, hold.fit_iff]
    intro p hp e he
    obtain ⟨t, ht, hfits⟩ := hbinds.fit p hp
    cases ht.symm.trans he
    exact hfits

theorem exists_complaint (hf : f.Aligned) (name : String) (span : Span) (h : ¬ f.Binds ps ks) :
    ∃ c : Complaint, checkArguments name f ps ks span = .error (c.heresy span) := by
  cases hr : checkArguments name f ps ks span with
  | ok t => exact absurd ((checkArguments_eq_ok_iff hf name span t).1 hr).2 h
  | error e =>
    obtain ⟨c, -, rfl⟩ := refuses_checkArguments name f ps ks span e hr
    exact ⟨c, rfl⟩

/-- All slots that are looked at or filled while named arguments are put into theirs exist. -/
theorem slots_in_range (hf : f.Aligned) {name : String} {span : Span} {slots : Slots}
    (hfew : ps.length ≤ f.maxPositional)
    (hfill : ks.foldlM (fillKeyword name f span) (positionalSlots f ps) = .ok slots) :
    ps.length ≤ slots.length ∧ f.params.length ≤ slots.length ∧
      ∀ n i, f.keywordSlot? n = some i → i < slots.length := by
  have hlen := Slots.length_positionalSlots hfew
  obtain ⟨hlen, -, -⟩ := (Slots.hold_positionalSlots f ps).fill hf hlen hfill
  rw [hlen]
  exact ⟨hfew, Nat.le_add_right _ _, fun n i h => hf.keywordSlot?_lt h⟩

/-! ## The same arguments given in another way -/

namespace Signature

theorem Binds.of_perm (h : f.Binds ps ks) (hperm : (f.placed ps ks).Perm (f.placed qs ls))
    (few : qs.length ≤ f.maxPositional) (known : ∀ k ∈ ls, ∃ i, f.keywordSlot? k.1 = some i) :
    f.Binds qs ls := by
  have hslots := hperm.map (·.2)
  exact ⟨few, known, hslots.nodup_iff.1 h.distinct,
    fun i hi => hslots.mem_iff.1 (h.complete i hi), fun p hp => h.fit p (hperm.mem_iff.2 hp)⟩

theorem Binds.perm (hperm : ks.Perm ls) (h : f.Binds ps ks) : f.Binds ps ls :=
  h.of_perm ((hperm.filterMap _).append_left _) h.few fun k hk => h.known k (hperm.mem_iff.2 hk)

/-- The last positional argument may as well be named, at any place among the named ones. -/
theorem binds_last_iff (hlen : f.names.length = f.params.length) (hd : f.slotNames.Nodup) {t : Ty}
    {n : String} (hn : f.slotNames[qs.length]? = some n) :
    f.Binds (qs ++ [t]) (ks ++ ls) ↔ f.Binds qs (ks ++ (n, t) :: ls) := by
  have hslot := keywordSlot?_slotNames hlen hd hn
  have hlt : qs.length < f.maxPositional := Aligned.keywordSlot?_lt (.inr hlen) hslot
  -- The slot of the argument stays the same; only its place in the list of placed ones changes.
  have hperm : (f.placed (qs ++ [t]) (ks ++ ls)).Perm (f.placed qs (ks ++ (n, t) :: ls)) := by
    have hlast : (qs ++ [t]).zipIdx = qs.zipIdx ++ [(t, qs.length)] := by
      simp [List.zipIdx_append]
    rw [placed, placed, hlast, keywordSlots_append, keywordSlots_append, keywordSlots_cons hslot,
      List.append_assoc, List.singleton_append]
    exact List.perm_middle.symm.append_left _
  constructor
  · intro h
    refine h.of_perm hperm (Nat.le_of_lt hlt) fun k hk => ?_
    rcases List.mem_append.1 hk with hk | hk
    · exact h.known k (List.mem_append_left _ hk)
    · rcases List.mem_cons.1 hk with rfl | hk
      · exact ⟨_, hslot⟩
      · exact h.known k (List.mem_append_right _ hk)
  · intro h
    have hfew : (qs ++ [t]).length ≤ f.maxPositional := by
      rw [List.length_append]
      exact hlt
    refine h.of_perm hperm.symm hfew fun k hk => h.known k ?_
    rw [List.mem_append, List.mem_cons]
    exact (List.mem_append.1 hk).imp_right .inr

end Signature

/-- The verdict and the type depend only on whether the arguments are bound. -/
theorem toOption_checkArguments_congr (hf : f.Aligned) (name : String) (span : Span)
    (h : f.Binds ps ks ↔ f.Binds qs ls) :
    (checkArguments name f ps ks span).toOption = (checkArguments name f qs ls span).toOption := by
  have hok (ps : List Ty) (ks : List (String × Ty)) (t : Ty) :
      (checkArguments name f ps ks span).toOption = some t ↔ t = f.ret ∧ f.Binds ps ks := by
    rw [← checkArguments_eq_ok_iff hf name span]
    cases checkArguments name f ps ks span <;> simp [Except.toOption]
  ext t
  rw [hok, hok, h]

/-- **Binding is exact**: a call is accepted if and only if its arguments are bound to the
parameters, in whichever order the named ones stand. -/
theorem Signature.binding_exact (hf : f.Aligned) (name : String) (span : Span) (ps : List Ty)
    (ks : List (String × Ty)) :
    (∀ (first : List (String × Ty)) (slots : Slots), first <+: ks → ps.length ≤ f.maxPositional →
      first.foldlM (fillKeyword name f span) (positionalSlots f ps) = .ok slots →
        ps.length ≤ slots.length ∧ f.params.length ≤ slots.length ∧
          ∀ n i, f.keywordSlot? n = some i → i < slots.length) ∧
    (∀ t, checkArguments name f ps ks span = .ok t ↔ t = f.ret ∧ f.Binds ps ks) ∧
    (¬ f.Binds ps ks →
      ∃ c : Complaint, checkArguments name f ps ks span = .error (c.heresy span)) ∧
    (∀ ls, ks.Perm ls → (checkArguments name f ps ks span).toOption =
      (checkArguments name f ps ls span).toOption) ∧
    (f.names.length = f.params.length → f.slotNames.Nodup →
      ∀ qs t n, ps = qs ++ [t] → f.slotNames[qs.length]? = some n →
        ∀ first last, ks = first ++ last → (checkArguments name f ps ks span).toOption =
          (checkArguments name f qs (first ++ (n, t) :: last) span).toOption) := by
  refine ⟨fun first slots _ hfew hfill => slots_in_range hf hfew hfill,
    checkArguments_eq_ok_iff hf name span, exists_complaint hf name span, fun ls hperm => ?_, ?_⟩
  · exact toOption_checkArguments_congr hf name span ⟨.perm hperm, .perm hperm.symm⟩
  · rintro hlen hd qs t n rfl hn first last rfl
    exact toOption_checkArguments_congr hf name span (binds_last_iff hlen hd hn)

/-- A function of a number and a text, with a further number by default. Its second argument may be
given by position or by name, and may not be left out. -/
theorem numberAndText_binding :
    let f : Signature := ⟨[.int, .str], ["a", "b"], .bool, [("c", .int)]⟩
    let span : Span := .point 1 1
    f.Aligned ∧ f.slotNames.Nodup ∧
      checkArguments "f" f [.int, .str] [("c", .int)] span = .ok .bool ∧
      f.Binds [.int, .str] [("c", .int)] ∧
      (checkArguments "f" f [.int] [("c", .int), ("b", .str)] span).toOption = some .bool ∧
      ¬ f.Binds [.int] [("c", .int)] := by
  intro f span
  have hf : f.Aligned := .inr rfl
  have hd : f.slotNames.Nodup := by decide
  have hok : checkArguments "f" f [.int, .str] [("c", .int)] span = .ok .bool := by decide +kernel
  obtain ⟨-, hiff, -, -, hlast⟩ :=
    Signature.binding_exact hf "f" span [.int, .str] [("c", .int)]
  have hnamed := hlast rfl hd [.int] .str "b" rfl rfl [("c", .int)] [] rfl
  refine ⟨hf, hd, hok, ((hiff _).1 hok).2, ?_, fun hb => ?_⟩
  · exact hnamed.symm.trans (congrArg Except.toOption hok)
  · obtain ⟨-, hiff, -⟩ := Signature.binding_exact hf "f" span [.int] [("c", .int)]
    have hmissing := (hiff f.ret).2 ⟨rfl, hb⟩
    revert hmissing
    decide +kernel

end Gradual
