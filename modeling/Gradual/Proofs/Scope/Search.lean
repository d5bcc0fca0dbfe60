import Mathlib.Data.Fintype.Card
import Gradual.Proofs.Lookup

/-!
# The search for a name

A name is searched in a scope, then in the scope around it, and so on. The search ends in every
arena in which each scope lies inside an older one. It need not end in others: a handle of a closed
scope may come to mean a scope that is opened inside itself.

* `Finds`: the search, with the number of open scopes that it visits;
* `Finds.unique`, **`Finds.lookup_eq`**: `lookup` answers each search that ends;
* `Nested.scope_induction`, `Nested.exists_finds`: searches among nested scopes end;
* `Op`, `run`, `Obeys`: operations on scopes one after another, under a rule;
* **`nested_iff_obeys`**: scopes lie inside older ones as long as they are opened in open ones;
* **`parents_older_iff_opened_in_open`**: when all searches end.
-/

namespace Gradual.Scopes

variable {s t : Scopes} {scope parent : ScopeId} {name : String} {steps : Nat} {r : Option Ty}

/-! ## The search -/

/-- The search for a name from a scope ends with `r` after it has visited `steps` open scopes. -/
inductive Finds (s : Scopes) (name : String) : Nat → ScopeId → Option Ty → Prop
  | closed {scope : ScopeId} (h : s.frames[scope.index]? = none) : Finds s name 0 scope none
  | bound {scope : ScopeId} {f : Frame} {ty : Ty} (hf : s.frames[scope.index]? = some f)
      (hb : f.bound[name]? = some ty) : Finds s name 1 scope (some ty)
  | outermost {scope : ScopeId} {f : Frame} (hf : s.frames[scope.index]? = some f)
      (hb : f.bound[name]? = none) (hp : f.parent = none) : Finds s name 1 scope none
  | around {scope parent : ScopeId} {f : Frame} {steps : Nat} {r : Option Ty}
      (hf : s.frames[scope.index]? = some f) (hb : f.bound[name]? = none)
      (hp : f.parent = some parent) (h : Finds s name steps parent r) :
      Finds s name (steps + 1) scope r

/-- **A search has one course**: where it ends, and with what, follows from where it starts. -/
theorem Finds.unique (h : s.Finds name steps scope r) :
    ∀ {steps' : Nat} {r' : Option Ty}, s.Finds name steps' scope r' → steps = steps' ∧ r = r' := by
  induction h with
  | closed h =>
    intro _ _ h'
    cases h' <;> simp_all
  | bound hf hb =>
    intro _ _ h'
    cases h' <;> simp_all
  | outermost hf hb hp =>
    intro _ _ h'
    cases h' <;> simp_all
  | around hf hb hp _ ih =>
    intro _ _ h'
    cases h' with
    | around hf' _ hp' h' =>
      cases hf.symm.trans hf'
      cases hp.symm.trans hp'
      obtain ⟨rfl, rfl⟩ := ih h'
      exact ⟨rfl, rfl⟩
    | _ => simp_all

/-- Enough steps lead to the end of a search that ends. -/
theorem Finds.lookupWithin_eq (h : s.Finds name steps scope r) {n : Nat} (hn : steps ≤ n) :
    s.lookupWithin name n scope = r := by
  induction h generalizing n with
  | closed h =>
    cases n with
    | zero => rfl
    | succ n => rw [lookupWithin_succ, h, Option.bind_none]
  | bound hf hb =>
    obtain ⟨k, rfl⟩ := Nat.exists_eq_add_of_le' hn
    rw [lookupWithin_succ, hf, Option.bind_some, hb, Option.some_or]
  | outermost hf hb hp =>
    obtain ⟨k, rfl⟩ := Nat.exists_eq_add_of_le' hn
    rw [lookupWithin_succ, hf, Option.bind_some, hb, Option.none_or, hp, Option.bind_none]
  | around hf hb hp _ ih =>
    obtain ⟨k, rfl⟩ := Nat.exists_eq_add_of_le' hn
    rw [← Nat.add_assoc, lookupWithin_succ, hf, Option.bind_some, hb, Option.none_or, hp,
      Option.bind_some, ih (Nat.le_add_left _ _)]

/-- A search comes through scopes from which each smaller number of steps is left. -/
theorem Finds.visits (h : s.Finds name steps scope r) {k : Nat} (hk : k < steps) :
    ∃ i, i < s.frames.size ∧ ∃ r', s.Finds name (k + 1) ⟨i⟩ r' := by
  have hopen {scope : ScopeId} {f : Frame} (hf : s.frames[scope.index]? = some f) :
      scope.index < s.frames.size := (Array.getElem?_eq_some_iff.1 hf).1
  induction h with
  | closed h => omega
  | bound hf hb =>
    obtain rfl : k = 0 := by omega
    exact ⟨_, hopen hf, _, .bound hf hb⟩
  | outermost hf hb hp =>
    obtain rfl : k = 0 := by omega
    exact ⟨_, hopen hf, _, .outermost hf hb hp⟩
  | @around scope _ _ steps r hf hb hp h ih =>
    by_cases hlast : k = steps
    · subst hlast
      exact ⟨_, hopen hf, r, .around hf hb hp h⟩
    · exact ih (by omega)

/-- A search that ends visits no scope twice, so it visits no more scopes than there are. -/
theorem Finds.steps_le (h : s.Finds name steps scope r) : steps ≤ s.frames.size := by
  choose f hf hfinds using fun k : Fin steps => h.visits k.isLt
  have hinjective : Function.Injective fun k => (⟨f k, hf k⟩ : Fin s.frames.size) := by
    intro k l hkl
    have hfl : f k = f l := congrArg Fin.val hkl
    obtain ⟨_, hk⟩ := hfinds k
    obtain ⟨_, hl⟩ := hfinds l
    rw [hfl] at hk
    exact Fin.ext (Nat.succ.inj (hk.unique hl).1)
  simpa using Fintype.card_le_of_injective _ hinjective

/-- **`lookup` answers each search that ends.** -/
theorem Finds.lookup_eq (h : s.Finds name steps scope r) : s.lookup scope name = r :=
  h.lookupWithin_eq h.steps_le

/-- **Induction along the scopes around a scope**, if each scope lies inside an older one. -/
theorem Nested.scope_induction (hs : s.Nested) {P : ScopeId → Prop}
    (closed : ∀ scope : ScopeId, s.frames[scope.index]? = none → P scope)
    (outermost : ∀ (scope : ScopeId) (f : Frame), s.frames[scope.index]? = some f →
      f.parent = none → P scope)
    (inside : ∀ (scope parent : ScopeId) (f : Frame), s.frames[scope.index]? = some f →
      f.parent = some parent → P parent → P scope) (scope : ScopeId) : P scope := by
  obtain ⟨i⟩ := scope
  induction i using Nat.strongRecOn with
  | ind i ih =>
    cases hf : s.frames[i]? with
    | none => exact closed ⟨i⟩ hf
    | some f =>
      cases hp : f.parent with
      | none => exact outermost ⟨i⟩ f hf hp
      | some parent => exact inside ⟨i⟩ parent f hf hp (ih parent.index (hs i f parent hf hp))

/-- **Every search ends** if each scope lies inside an older one. -/
theorem Nested.exists_finds (hs : s.Nested) (name : String) (scope : ScopeId) :
    ∃ steps r, s.Finds name steps scope r := by
  induction scope using hs.scope_induction with
  | closed scope hf => exact ⟨0, none, .closed hf⟩
  | outermost scope f hf hp =>
    cases hb : f.bound[name]? with
    | some ty => exact ⟨1, some ty, .bound hf hb⟩
    | none => exact ⟨1, none, .outermost hf hb hp⟩
  | inside scope parent f hf hp ih =>
    cases hb : f.bound[name]? with
    | some ty => exact ⟨1, some ty, .bound hf hb⟩
    | none =>
      obtain ⟨steps, r, h⟩ := ih
      exact ⟨steps + 1, r, .around hf hb hp h⟩

/-- The search from a scope that lies inside itself goes round for ever. -/
theorem not_finds_of_self_parent {f : Frame} (hf : s.frames[scope.index]? = some f)
    (hb : f.bound[name]? = none) (hp : f.parent = some scope) : ¬ s.Finds name steps scope r := by
  intro h
  cases h with
  | closed h => simp_all
  | bound hf' hb' => simp_all
  | outermost hf' _ hp' => simp_all
  | around hf' _ hp' h' =>
    cases hf.symm.trans hf'
    cases hp.symm.trans hp'
    have hsteps := (h'.unique (.around hf hb hp h')).1
    omega

/-! ## Operations in a row -/

/-- An operation on scopes. -/
inductive Op where
  | extend (parent : ScopeId)
  | discard (scope : ScopeId)
  | add (scope : ScopeId) (name : String) (ty : Ty)

/-- The scopes after an operation. -/
def apply (s : Scopes) : Op → Scopes
  | .extend parent => (s.extend parent).1
  | .discard scope => s.discard scope
  | .add scope name ty => s.add scope name ty

/-- The scopes after some operations. -/
def run (s : Scopes) (ops : List Op) : Scopes := ops.foldl apply s

/-- Each of some operations obeys a rule in the scopes that it is applied to. -/
def Obeys (rule : Scopes → Op → Prop) (s : Scopes) : List Op → Prop
  | [] => True
  | op :: ops => rule s op ∧ Obeys rule (s.apply op) ops

instance decidableObeys (rule : Scopes → Op → Prop) [∀ s op, Decidable (rule s op)] (s : Scopes) :
    ∀ ops, Decidable (s.Obeys rule ops)
  | [] => .isTrue trivial
  | op :: ops =>
    have := decidableObeys rule (s.apply op) ops
    inferInstanceAs (Decidable (_ ∧ _))

/-- What each operation under a rule keeps, all of them keep. -/
theorem Obeys.invariant {rule : Scopes → Op → Prop} {I : Scopes → Prop}
    (step : ∀ s op, I s → rule s op → I (s.apply op)) {ops : List Op} (h : s.Obeys rule ops)
    (hs : I s) : I (s.run ops) := by
  induction ops generalizing s with
  | nil => exact hs
  | cons op ops ih => exact ih h.2 (step s op hs h.1)

theorem Obeys.mono {rule rule' : Scopes → Op → Prop} (hrule : ∀ s op, rule s op → rule' s op)
    {ops : List Op} (h : s.Obeys rule ops) : s.Obeys rule' ops := by
  induction ops generalizing s with
  | nil => trivial
  | cons op ops ih => exact ⟨hrule s op h.1, ih h.2⟩

theorem Obeys.of_prefix {rule : Scopes → Op → Prop} {first ops : List Op} (hp : first <+: ops)
    (h : s.Obeys rule ops) : s.Obeys rule first := by
  induction first generalizing s ops with
  | nil => trivial
  | cons op first ih =>
    obtain ⟨rest, rfl⟩ := hp
    exact ⟨h.1, ih (List.prefix_append first rest) h.2⟩

/-! ## Scopes inside older ones -/

/-- A scope is opened in an open one. Names may be bound, and scopes closed, by any handle. -/
def OpensInOpen (s : Scopes) : Op → Prop
  | .extend parent => s.Open parent
  | .discard _ | .add _ _ _ => True

instance (s : Scopes) : ∀ op, Decidable (s.OpensInOpen op)
  | .extend parent => inferInstanceAs (Decidable (s.Open parent))
  | .discard _ | .add _ _ _ => .isTrue trivial

theorem nested_extend_iff : (s.extend parent).1.Nested ↔ s.Nested ∧ s.Open parent := by
  refine ⟨fun h => ⟨fun i f p hf hp => ?_, ?_⟩, fun h => nested_extend h.1 h.2⟩
  · obtain ⟨g, hg, hgp, -⟩ := grows_extend s parent i f hf
    exact h i g p hg (hgp.trans hp)
  · exact h s.frames.size ⟨∅, some parent⟩ parent (by rw [getElem?_extend, if_pos rfl]) rfl

theorem Nested.discard (hs : s.Nested) (scope : ScopeId) : (s.discard scope).Nested := by
  by_cases hpos : 0 < scope.index
  · intro i f p hf hp
    rw [getElem?_discard s hpos] at hf
    split at hf
    · exact hs i f p hf hp
    · cases hf
  · rwa [Scopes.discard, dif_neg hpos]

theorem Nested.apply {op : Op} (hs : s.Nested) (h : s.OpensInOpen op) : (s.apply op).Nested := by
  cases op with
  | extend parent => exact nested_extend hs h
  | discard scope => exact hs.discard scope
  | add scope name ty => exact (onlyBinds_add s scope name ty).nested hs

/-- **Scopes lie inside older ones as long as they are opened in open ones**, and no longer. -/
theorem nested_iff_obeys (hs : s.Nested) (ops : List Op) :
    (∀ first, first <+: ops → (s.run first).Nested) ↔ s.Obeys OpensInOpen ops := by
  constructor
  · intro h
    induction ops generalizing s with
    | nil => trivial
    | cons op ops ih =>
      have hop : (s.apply op).Nested := h [op] (by simp)
      refine ⟨?_, ih hop fun first hfirst => h (op :: first) (by simpa using hfirst)⟩
      cases op with
      | extend parent => exact (nested_extend_iff.1 hop).2
      | _ => trivial
  · intro h first hfirst
    exact (h.of_prefix hfirst).invariant (fun _ _ => Nested.apply) hs

/-- **When searches end**: all along, each scope lies inside an older one if and only if no scope is
opened in a closed one, and then every search ends. -/
theorem parents_older_iff_opened_in_open (ops : List Op) :
    ((∀ first, first <+: ops → (empty.run first).Nested) ↔ empty.Obeys OpensInOpen ops) ∧
    (empty.Obeys OpensInOpen ops → ∀ first, first <+: ops → ∀ scope name, ∃ steps r,
      (empty.run first).Finds name steps scope r ∧ (empty.run first).lookup scope name = r ∧
      (empty.run first).contains scope name = r.isSome) := by
  have hiff := nested_iff_obeys nested_empty ops
  refine ⟨hiff, fun h first hfirst scope name => ?_⟩
  obtain ⟨steps, r, hr⟩ := (hiff.2 h first hfirst).exists_finds name scope
  exact ⟨steps, r, hr, hr.lookup_eq, by rw [contains, hr.lookup_eq]⟩

/-- The place of a closed scope is taken by another one, and the search by the old handle ends. -/
theorem reusedPlace_search :
    let ops : List Op := [.extend root, .extend ⟨1⟩, .discard ⟨1⟩, .extend root, .add ⟨2⟩ "x" .int]
    empty.Obeys OpensInOpen ops ∧
    ∃ steps, (empty.run ops).Finds "x" steps ⟨1⟩ none := by
  intro ops
  have hops : empty.Obeys OpensInOpen ops := by decide +kernel
  obtain ⟨steps, r, hr, hlookup, -⟩ :=
    (parents_older_iff_opened_in_open ops).2 hops ops List.prefix_rfl ⟨1⟩ "x"
  have hnone : (empty.run ops).lookup ⟨1⟩ "x" = none := by decide +kernel
  rw [hnone] at hlookup
  exact ⟨hops, steps, hlookup ▸ hr⟩

/-- A scope that is opened by the handle of a closed one may come to lie inside itself, so that
searches do not end, or inside a newer one, whose names it sees. -/
theorem closedHandle_parent :
    (let a := empty.extend root
      let b := (a.1.discard a.2).extend a.2
      b.2 = a.2 ∧ ¬ b.1.Nested ∧ ∀ name steps r, ¬ b.1.Finds name steps b.2 r) ∧
    let a := empty.extend root
    let b := a.1.extend a.2
    let c := (b.1.discard a.2).extend b.2
    let d := c.1.extend root
    let s := d.1.add d.2 "x" .int
    c.2.index < d.2.index ∧ ¬ s.Nested ∧
      s.lookup c.2 "x" = some .int ∧ s.lookup root "x" = none := by
  refine ⟨⟨rfl, ?_, ?_⟩, by decide, ?_, by decide +kernel, by decide +kernel⟩
  · intro h
    exact Nat.lt_irrefl 1 (nested_extend_iff.1 h).2
  · intro name steps r
    exact not_finds_of_self_parent (f := ⟨∅, some ⟨1⟩⟩) rfl (by simp) rfl
  · intro h
    have hlt : 2 < 1 := h 1 ⟨∅, some ⟨2⟩⟩ ⟨2⟩ rfl rfl
    omega

end Gradual.Scopes
