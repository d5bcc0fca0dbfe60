import Gradual.Proofs.Scopes

/-!
# Looking up names

A name is looked up in a scope and then in those around it. What is found stays to be found while
names are bound and scopes are opened.

* `Scopes.lookup_add_self`, `Scopes.lookup_add_of_ne`: looking up names after one more binding;
* `Scopes.Grows`, **`Scopes.Grows.lookup_isSome`**: more scopes with more names in them;
* `Scopes.Within`, **`Scopes.Within.lookup_isSome`**: a scope sees the names bound around it.
-/

namespace Gradual.Scopes

variable {s t u : Scopes} {scope outer inner : ScopeId} {name : String}

/-! ## One scope after another -/

theorem lookupWithin_succ (s : Scopes) (name : String) (steps : Nat) (scope : ScopeId) :
    s.lookupWithin name (steps + 1) scope = s.frames[scope.index]?.bind fun f =>
      f.bound[name]?.or (f.parent.bind (s.lookupWithin name steps)) := by
  rw [lookupWithin]
  cases s.frames[scope.index]? with
  | none => rfl
  | some f => cases h : f.bound[name]? <;> simp [h]

theorem lookup_of_lookupLocal {ty : Ty} (h : s.lookupLocal scope name = some ty) :
    s.lookup scope name = some ty := by
  obtain ⟨steps, hsteps⟩ := Nat.exists_eq_add_one_of_ne_zero (Nat.ne_of_gt s.nonempty)
  obtain ⟨f, hf, hty⟩ := Option.bind_eq_some_iff.1 h
  rw [lookup, hsteps, lookupWithin_succ, hf, Option.bind_some, hty]
  rfl

theorem lookup_add_self (h : s.Open scope) (name : String) (ty : Ty) :
    (s.add scope name ty).lookup scope name = some ty :=
  lookup_of_lookupLocal (lookupLocal_add_self h name ty)

theorem lookup_add_of_ne {n : String} (h : name ≠ n) (s : Scopes) (scope : ScopeId) (ty : Ty)
    (inner : ScopeId) : (s.add scope name ty).lookup inner n = s.lookup inner n := by
  have key : ∀ steps place,
      (s.add scope name ty).lookupWithin n steps place = s.lookupWithin n steps place := by
    intro steps
    induction steps with
    | zero => exact fun _ => rfl
    | succ steps ih =>
      intro place
      rw [lookupWithin_succ, lookupWithin_succ, getElem?_add, funext ih]
      split
      · cases s.frames[place.index]? with
        | none => rfl
        | some f => simp [Std.ExtTreeMap.getElem?_insert, h]
      · rfl
  rw [lookup, lookup, key, (onlyBinds_add s scope name ty).size_eq]

/-! ## More scopes and names -/

/-- Each scope of `s` is one of `t`, inside the same scope, and binds no fewer names there. -/
def Grows (s t : Scopes) : Prop :=
  ∀ (i : Nat) (f : Frame), s.frames[i]? = some f → ∃ g, t.frames[i]? = some g ∧
    g.parent = f.parent ∧ ∀ name : String, f.bound[name]?.isSome → g.bound[name]?.isSome

theorem Grows.refl (s : Scopes) : s.Grows s := fun _ f hf => ⟨f, hf, rfl, fun _ h => h⟩

theorem Grows.size_le (h : s.Grows t) : s.frames.size ≤ t.frames.size := by
  refine Nat.le_of_not_lt fun hlt => ?_
  obtain ⟨g, hg, -⟩ := h t.frames.size _ (Array.getElem?_eq_getElem hlt)
  simp at hg

theorem OnlyBinds.grows (h : OnlyBinds scope s t) : s.Grows t := by
  intro i f hf
  have hparent := h.parent_eq i
  rw [hf] at hparent
  obtain ⟨g, hg, hgp⟩ := Option.map_eq_some_iff.1 hparent
  refine ⟨g, hg, hgp, fun name hname => ?_⟩
  by_cases hi : i = scope.index
  · subst hi
    have hkept := h.keeps_name name
    rw [lookupLocal, lookupLocal, hf, hg] at hkept
    exact hkept hname
  · rw [h.frame_eq i hi, hf] at hg
    cases hg
    exact hname

theorem grows_extend (s : Scopes) (parent : ScopeId) : s.Grows (s.extend parent).1 := by
  intro i f hf
  have hi : i ≠ s.frames.size := by
    rintro rfl
    simp at hf
  exact ⟨f, by rw [getElem?_extend, if_neg hi, hf], rfl, fun _ h => h⟩

theorem Grows.lookupWithin_isSome (h : s.Grows t) {m n : Nat} (hmn : m ≤ n)
    (hs : (s.lookupWithin name m scope).isSome) : (t.lookupWithin name n scope).isSome := by
  induction m generalizing n scope with
  | zero => cases hs
  | succ m ih =>
    obtain ⟨k, rfl⟩ := Nat.exists_eq_add_one_of_ne_zero (show n ≠ 0 by omega)
    rw [lookupWithin_succ] at hs ⊢
    cases hf : s.frames[scope.index]? with
    | none => simp [hf] at hs
    | some f =>
      obtain ⟨g, hg, hp, hnames⟩ := h _ f hf
      rw [hf, Option.bind_some, Option.isSome_or, Bool.or_eq_true] at hs
      rw [hg, Option.bind_some, Option.isSome_or, Bool.or_eq_true, hp]
      refine hs.imp (hnames name) fun hs => ?_
      cases hfp : f.parent with
      | none => simp [hfp] at hs
      | some parent =>
        rw [hfp] at hs
        exact ih (by omega) hs

/-- **What is found stays to be found** while names are bound and scopes are opened. -/
theorem Grows.lookup_isSome (h : s.Grows t) (hs : (s.lookup scope name).isSome) :
    (t.lookup scope name).isSome :=
  h.lookupWithin_isSome h.size_le hs

/-- A scope that is opened sees all that the scope around it sees. -/
theorem lookup_extend_isSome {parent : ScopeId} (h : (s.lookup parent name).isSome) :
    ((s.extend parent).1.lookup (s.extend parent).2 name).isSome := by
  have hsize : (s.extend parent).1.frames.size = s.frames.size + 1 := by simp [extend]
  rw [lookup, hsize, lookupWithin_succ, extend_snd_index, getElem?_extend, if_pos rfl]
  simpa using (s.grows_extend parent).lookupWithin_isSome (Nat.le_refl _) h

/-! ## Scopes inside a scope -/

/-- The scope is `outer`, or lies inside it at some depth. -/
inductive Within (s : Scopes) (outer : ScopeId) : ScopeId → Prop
  | self : Within s outer outer
  | child {inner parent : ScopeId} {f : Frame} (hf : s.frames[inner.index]? = some f)
      (hp : f.parent = some parent) (h : Within s outer parent) : Within s outer inner

/-- A chain of scopes that lie inside each other has no more scopes than the place of the first one
in the arena says. -/
theorem Within.lookupWithin_isSome (hs : s.Nested) (h : s.Within outer inner)
    (hn : (s.lookupLocal outer name).isSome) :
    (s.lookupWithin name (inner.index + 1) inner).isSome := by
  induction h with
  | self =>
    rw [lookupLocal] at hn
    rw [lookupWithin_succ]
    cases hf : s.frames[outer.index]? with
    | none => simp [hf] at hn
    | some f =>
      rw [hf, Option.bind_some] at hn
      rw [Option.bind_some, Option.isSome_or, hn, Bool.true_or]
  | @child inner parent f hf hp _ ih =>
    -- The scope around is older, so the steps that are left suffice for it.
    have hlt : parent.index < inner.index := hs _ f parent hf hp
    rw [lookupWithin_succ, hf, Option.bind_some, hp, Option.bind_some, Option.isSome_or,
      (Grows.refl s).lookupWithin_isSome hlt ih, Bool.or_true]

/-- **A scope sees the names bound around it**, at whatever depth it lies. -/
theorem Within.lookup_isSome (hs : s.Nested) (h : s.Within outer inner)
    (hn : (s.lookupLocal outer name).isSome) : (s.lookup inner name).isSome := by
  have hfound := h.lookupWithin_isSome hs hn
  have hopen : inner.index < s.frames.size := by
    refine Nat.lt_of_not_le fun hle => ?_
    rw [lookupWithin_succ, Array.getElem?_eq_none hle] at hfound
    cases hfound
  exact (Grows.refl s).lookupWithin_isSome hopen hfound

end Gradual.Scopes
