import Gradual.Scope

/-!
# What operations on scopes keep

Binding a name touches one scope. A scope that is opened, bound in and closed again leaves no trace.

* `Scopes.OnlyBinds`: the same scopes, up to bindings in one of them;
* **`Scopes.discard_of_onlyBinds`**: closing a scope after binding in it undoes its opening;
* `Scopes.Nested`: each scope lies inside an older one.
-/

namespace Gradual.Scopes

variable {s t u : Scopes} {scope : ScopeId}

/-! ## Bindings in one scope -/

/-- The same scopes, up to new or replaced bindings in the scope `scope`. -/
structure OnlyBinds (scope : ScopeId) (s t : Scopes) : Prop where
  size_eq : t.frames.size = s.frames.size
  parent_eq : ∀ i : Nat, t.frames[i]?.map Frame.parent = s.frames[i]?.map Frame.parent
  frame_eq : ∀ i : Nat, i ≠ scope.index → t.frames[i]? = s.frames[i]?
  keeps_name : ∀ name, (s.lookupLocal scope name).isSome → (t.lookupLocal scope name).isSome

theorem OnlyBinds.refl (scope : ScopeId) (s : Scopes) : OnlyBinds scope s s :=
  ⟨rfl, fun _ => rfl, fun _ _ => rfl, fun _ h => h⟩

theorem OnlyBinds.trans (h : OnlyBinds scope s t) (k : OnlyBinds scope t u) :
    OnlyBinds scope s u where
  size_eq := k.size_eq.trans h.size_eq
  parent_eq i := (k.parent_eq i).trans (h.parent_eq i)
  frame_eq i hi := (k.frame_eq i hi).trans (h.frame_eq i hi)
  keeps_name name hn := k.keeps_name name (h.keeps_name name hn)

theorem getElem?_add (s : Scopes) (scope : ScopeId) (name : String) (ty : Ty) (i : Nat) :
    (s.add scope name ty).frames[i]? =
      if scope.index = i then s.frames[i]?.map fun f => { f with bound := f.bound.insert name ty }
      else s.frames[i]? := by
  simp [add, Array.getElem?_modify]

theorem lookupLocal_add (s : Scopes) (scope : ScopeId) (name : String) (ty : Ty) (n : String) :
    (s.add scope name ty).lookupLocal scope n =
      if name = n then s.frames[scope.index]?.map fun _ => ty else s.lookupLocal scope n := by
  rw [lookupLocal, getElem?_add, if_pos rfl, lookupLocal]
  cases s.frames[scope.index]? with
  | none => simp
  | some f =>
    by_cases h : name = n
    · simp [h]
    · simp [h, Std.ExtTreeMap.getElem?_insert]

theorem lookupLocal_add_of_ne {name n : String} (h : name ≠ n) (s : Scopes) (scope : ScopeId)
    (ty : Ty) (inner : ScopeId) :
    (s.add scope name ty).lookupLocal inner n = s.lookupLocal inner n := by
  rw [lookupLocal, getElem?_add, lookupLocal]
  split
  · cases s.frames[inner.index]? with
    | none => rfl
    | some f => simp [Std.ExtTreeMap.getElem?_insert, h]
  · rfl

theorem lookupLocal_add_of_scope_ne {inner : ScopeId} (h : inner ≠ scope) (s : Scopes)
    (name : String) (ty : Ty) (n : String) :
    (s.add scope name ty).lookupLocal inner n = s.lookupLocal inner n := by
  have hindex : scope.index ≠ inner.index := fun hi => h (congrArg ScopeId.mk hi.symm)
  rw [lookupLocal, getElem?_add, if_neg hindex, lookupLocal]

theorem onlyBinds_add (s : Scopes) (scope : ScopeId) (name : String) (ty : Ty) :
    OnlyBinds scope s (s.add scope name ty) where
  size_eq := by simp [add]
  parent_eq i := by
    rw [getElem?_add]
    split
    · rw [Option.map_map]
      rfl
    · rfl
  frame_eq i hi := by rw [getElem?_add, if_neg (Ne.symm hi)]
  keeps_name n hn := by
    rw [lookupLocal_add]
    split
    · rw [lookupLocal] at hn
      cases h : s.frames[scope.index]? with
      | none => simp [h] at hn
      | some f => rfl
    · exact hn

/-! ## Opening and closing -/

@[simp]
theorem extend_snd_index (s : Scopes) (parent : ScopeId) :
    (s.extend parent).2.index = s.frames.size := rfl

theorem getElem?_extend (s : Scopes) (parent : ScopeId) (i : Nat) :
    (s.extend parent).1.frames[i]? =
      if i = s.frames.size then some ⟨∅, some parent⟩ else s.frames[i]? := by
  simp [extend, Array.getElem?_push]

/-- A scope that is opened binds nothing. -/
theorem lookupLocal_extend (s : Scopes) (parent inner : ScopeId) (n : String) :
    (s.extend parent).1.lookupLocal inner n = s.lookupLocal inner n := by
  rw [lookupLocal, getElem?_extend, lookupLocal]
  split
  next hi => simp [hi]
  next => rfl

theorem frames_discard (s : Scopes) (h : 0 < scope.index) :
    (s.discard scope).frames = s.frames.take scope.index := by
  rw [discard, dif_pos h]

theorem getElem?_discard (s : Scopes) (h : 0 < scope.index) (i : Nat) :
    (s.discard scope).frames[i]? = if i < scope.index then s.frames[i]? else none := by
  rw [frames_discard s h, Array.take_eq_extract, Array.getElem?_extract]
  split
  next hi => rw [if_pos (by omega), Nat.zero_add]
  next hi =>
    split
    · rw [Array.getElem?_eq_none (by omega)]
    · rfl

/-- **Closing a scope undoes its opening**, whatever was bound in it. -/
theorem discard_of_onlyBinds {parent : ScopeId}
    (h : OnlyBinds (s.extend parent).2 (s.extend parent).1 t) :
    t.discard (s.extend parent).2 = s := by
  have hpos : 0 < (s.extend parent).2.index := s.nonempty
  apply Scopes.ext
  apply Array.ext_getElem?
  intro i
  rw [getElem?_discard t hpos, extend_snd_index]
  by_cases hi : i < s.frames.size
  · have hne : i ≠ s.frames.size := by omega
    rw [if_pos hi, h.frame_eq i hne, getElem?_extend, if_neg hne]
  · rw [if_neg hi, Array.getElem?_eq_none (by omega)]

/-! ## Nesting -/

/-- A scope that is open. -/
def Open (s : Scopes) (scope : ScopeId) : Prop := scope.index < s.frames.size

instance (s : Scopes) (scope : ScopeId) : Decidable (s.Open scope) :=
  inferInstanceAs (Decidable (_ < _))

theorem lookupLocal_add_self (h : s.Open scope) (name : String) (ty : Ty) :
    (s.add scope name ty).lookupLocal scope name = some ty := by
  rw [lookupLocal_add, if_pos rfl, Array.getElem?_eq_getElem h, Option.map_some]

/-- Each scope lies inside an older one. -/
def Nested (s : Scopes) : Prop :=
  ∀ (i : Nat) (f : Frame) (parent : ScopeId), s.frames[i]? = some f → f.parent = some parent →
    parent.index < i

theorem OnlyBinds.open_iff (h : OnlyBinds scope s t) (inner : ScopeId) :
    t.Open inner ↔ s.Open inner := by
  rw [Open, Open, h.size_eq]

theorem OnlyBinds.nested (h : OnlyBinds scope s t) (hs : s.Nested) : t.Nested := by
  intro i f parent hf hp
  have hi := h.parent_eq i
  rw [hf] at hi
  obtain ⟨g, hg, hgp⟩ := Option.map_eq_some_iff.1 hi.symm
  exact hs i g parent hg (hgp.trans hp)

theorem nested_empty : empty.Nested := by
  intro i f parent hf hp
  obtain ⟨hi, rfl⟩ := Array.getElem?_eq_some_iff.1 hf
  simp [empty] at hp

theorem nested_extend (hs : s.Nested) {parent : ScopeId} (hp : s.Open parent) :
    (s.extend parent).1.Nested := by
  intro i f q hf hq
  rw [getElem?_extend] at hf
  split at hf
  · cases hf
    cases hq
    subst i
    exact hp
  · exact hs i f q hf hq

theorem open_extend (s : Scopes) (parent : ScopeId) :
    (s.extend parent).1.Open (s.extend parent).2 := by
  simp [Open, extend]

end Gradual.Scopes
