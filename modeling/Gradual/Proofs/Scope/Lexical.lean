import Gradual.Proofs.Scope.Search

/-!
# Lexical environments

As long as scopes are opened and names are bound in open scopes only, the arena is a tree of
environments. A scope sees what the scopes of its chain bind: itself, the scope around it, and so on
to the outermost one. Of several bindings of a name it sees the innermost one.

* `Chain`: the scopes that a scope sees, from the inside;
* **`Chain.lookup_eq`**: what is found is the innermost binding;
* `Exposed`, `Chain.lookup_add`: what one more binding changes;
* `lookup_eq_of_agree`: only scopes that are not newer matter for a scope;
* **`lexical_environments`**: the laws of opening, binding and closing.
-/

namespace Gradual.Scopes

variable {s t : Scopes} {scope parent inner : ScopeId} {name : String} {chain : List ScopeId}

/-! ## Chains -/

/-- The chain of a scope: itself, the scope around it, and so on to the outermost one. A closed
scope has an empty chain. -/
inductive Chain (s : Scopes) : ScopeId → List ScopeId → Prop
  | closed {scope : ScopeId} (h : s.frames[scope.index]? = none) : Chain s scope []
  | outermost {scope : ScopeId} {f : Frame} (hf : s.frames[scope.index]? = some f)
      (hp : f.parent = none) : Chain s scope [scope]
  | inside {scope parent : ScopeId} {f : Frame} {chain : List ScopeId}
      (hf : s.frames[scope.index]? = some f) (hp : f.parent = some parent)
      (h : Chain s parent chain) : Chain s scope (scope :: chain)

theorem Chain.unique {chain' : List ScopeId} (h : s.Chain scope chain)
    (h' : s.Chain scope chain') : chain = chain' := by
  induction h generalizing chain' with
  | closed h => cases h' <;> simp_all
  | outermost hf hp => cases h' <;> simp_all
  | inside hf hp _ ih =>
    cases h' with
    | inside hf' hp' h' =>
      cases hf.symm.trans hf'
      cases hp.symm.trans hp'
      rw [ih h']
    | _ => simp_all

theorem Nested.exists_chain (hs : s.Nested) (scope : ScopeId) : ∃ chain, s.Chain scope chain := by
  induction scope using hs.scope_induction with
  | closed scope hf => exact ⟨[], .closed hf⟩
  | outermost scope f hf hp => exact ⟨[scope], .outermost hf hp⟩
  | inside scope parent f hf hp ih =>
    obtain ⟨chain, h⟩ := ih
    exact ⟨scope :: chain, .inside hf hp h⟩

theorem lookupLocal_of_frame {f : Frame} (hf : s.frames[scope.index]? = some f) (name : String) :
    s.lookupLocal scope name = f.bound[name]? := by
  rw [lookupLocal, hf, Option.bind_some]

/-- The search for a name goes along the chain to the first scope that binds it. -/
theorem Chain.finds (h : s.Chain scope chain) (name : String) :
    ∃ steps, s.Finds name steps scope (chain.findSome? (s.lookupLocal · name)) := by
  induction h with
  | closed h => exact ⟨0, .closed h⟩
  | @outermost scope f hf hp =>
    rw [List.findSome?_singleton, lookupLocal_of_frame hf]
    cases hb : f.bound[name]? with
    | none => exact ⟨1, .outermost hf hb hp⟩
    | some ty => exact ⟨1, .bound hf hb⟩
  | @inside scope parent f chain hf hp h ih =>
    rw [List.findSome?_cons, lookupLocal_of_frame hf]
    cases hb : f.bound[name]? with
    | none =>
      obtain ⟨steps, hsteps⟩ := ih
      exact ⟨steps + 1, .around hf hb hp hsteps⟩
    | some ty => exact ⟨1, .bound hf hb⟩

/-- **What is found is the innermost binding** along the chain. -/
theorem Chain.lookup_eq (h : s.Chain scope chain) (name : String) :
    s.lookup scope name = chain.findSome? (s.lookupLocal · name) := by
  obtain ⟨steps, hsteps⟩ := h.finds name
  exact hsteps.lookup_eq

/-- A chain depends on which scope lies inside which only. -/
theorem Chain.of_parent_eq (h : s.Chain scope chain)
    (hp : ∀ i : Nat, t.frames[i]?.map Frame.parent = s.frames[i]?.map Frame.parent) :
    t.Chain scope chain := by
  have hframe {i : Nat} {f : Frame} (hf : s.frames[i]? = some f) :
      ∃ g, t.frames[i]? = some g ∧ g.parent = f.parent := by
    apply Option.map_eq_some_iff.1
    rw [hp, hf, Option.map_some]
  induction h with
  | @closed scope h =>
    have hnone := hp scope.index
    rw [h, Option.map_none] at hnone
    exact .closed (Option.map_eq_none_iff.1 hnone)
  | outermost hf hparent =>
    obtain ⟨g, hg, hgp⟩ := hframe hf
    exact .outermost hg (hgp.trans hparent)
  | inside hf hparent _ ih =>
    obtain ⟨g, hg, hgp⟩ := hframe hf
    exact .inside hg (hgp.trans hparent) ih

/-! ## Binding -/

/-- The scope is on the chain, and the scopes before it do not bind the name. -/
def Exposed (s : Scopes) (name : String) (scope : ScopeId) (chain : List ScopeId) : Prop :=
  ∃ near far, chain = near ++ scope :: far ∧ ∀ u ∈ near, s.lookupLocal u name = none

/-- A binding in an exposed scope is the first one along the chain. -/
theorem Exposed.findSome?_add (hc : s.Exposed name scope chain) (h : s.Open scope) (ty : Ty) :
    chain.findSome? ((s.add scope name ty).lookupLocal · name) = some ty := by
  obtain ⟨near, far, rfl, hnear⟩ := hc
  induction near with
  | nil => rw [List.nil_append, List.findSome?_cons, lookupLocal_add_self h]
  | cons u near ih =>
    rw [List.cons_append, List.findSome?_cons]
    by_cases hu : u = scope
    · rw [hu, lookupLocal_add_self h]
    · rw [lookupLocal_add_of_scope_ne hu, hnear u List.mem_cons_self]
      exact ih fun v hv => hnear v (List.mem_cons_of_mem u hv)

/-- A binding in a scope that is not exposed is not the first one along the chain. -/
theorem findSome?_add_of_not_exposed (hc : ¬ s.Exposed name scope chain) (ty : Ty) :
    chain.findSome? ((s.add scope name ty).lookupLocal · name) =
      chain.findSome? (s.lookupLocal · name) := by
  induction chain with
  | nil => rfl
  | cons u chain ih =>
    have hu : u ≠ scope := by
      rintro rfl
      exact hc ⟨[], chain, rfl, by simp⟩
    rw [List.findSome?_cons, List.findSome?_cons, lookupLocal_add_of_scope_ne hu]
    cases hb : s.lookupLocal u name with
    | some ty' => rfl
    | none =>
      apply ih
      rintro ⟨near, far, rfl, hnear⟩
      refine hc ⟨u :: near, far, rfl, fun v hv => ?_⟩
      rcases List.mem_cons.1 hv with rfl | hv
      · exact hb
      · exact hnear v hv

/-- **What one more binding changes**: the name itself, seen from scopes to which the scope of the
binding is exposed. -/
theorem Chain.lookup_add (h : s.Chain inner chain) (hopen : s.Open scope) (name : String)
    (ty : Ty) :
    (s.Exposed name scope chain → (s.add scope name ty).lookup inner name = some ty) ∧
    ∀ n, ¬ (n = name ∧ s.Exposed name scope chain) →
      (s.add scope name ty).lookup inner n = s.lookup inner n := by
  have h' := h.of_parent_eq (onlyBinds_add s scope name ty).parent_eq
  constructor
  · intro hc
    rw [h'.lookup_eq, hc.findSome?_add hopen]
  · intro n hn
    by_cases hname : name = n
    · subst hname
      have hc : ¬ s.Exposed name scope chain := fun hc => hn ⟨rfl, hc⟩
      rw [h'.lookup_eq, findSome?_add_of_not_exposed hc, h.lookup_eq]
    · exact lookup_add_of_ne hname s scope ty inner

/-! ## Opening and closing -/

theorem Finds.of_agree {steps : Nat} {r : Option Ty} (hs : s.Nested)
    (h : s.Finds name steps scope r) (ht : ∀ i ≤ scope.index, t.frames[i]? = s.frames[i]?) :
    t.Finds name steps scope r := by
  induction h with
  | closed h => exact .closed ((ht _ (Nat.le_refl _)).trans h)
  | bound hf hb => exact .bound ((ht _ (Nat.le_refl _)).trans hf) hb
  | outermost hf hb hp => exact .outermost ((ht _ (Nat.le_refl _)).trans hf) hb hp
  | @around scope parent f steps r hf hb hp _ ih =>
    have hlt := hs scope.index f parent hf hp
    exact .around ((ht _ (Nat.le_refl _)).trans hf) hb hp (ih fun i hi => ht i (by omega))

/-- **Only scopes that are not newer matter** for what a scope sees. -/
theorem lookup_eq_of_agree (hs : s.Nested) (ht : ∀ i ≤ scope.index, t.frames[i]? = s.frames[i]?)
    (name : String) : t.lookup scope name = s.lookup scope name := by
  obtain ⟨steps, r, h⟩ := hs.exists_finds name scope
  rw [(h.of_agree hs ht).lookup_eq, h.lookup_eq]

theorem lookup_extend (hs : s.Nested) (h : s.Open inner) (parent : ScopeId) (name : String) :
    (s.extend parent).1.lookup inner name = s.lookup inner name := by
  apply lookup_eq_of_agree hs
  intro i hi
  have hlt : i < s.frames.size := Nat.lt_of_le_of_lt hi h
  rw [getElem?_extend, if_neg (Nat.ne_of_lt hlt)]

/-- A scope that is opened sees what the scope around it sees. -/
theorem lookup_extend_self (hs : s.Nested) (h : s.Open parent) (name : String) :
    (s.extend parent).1.lookup (s.extend parent).2 name = s.lookup parent name := by
  obtain ⟨steps, r, hr⟩ := (nested_extend hs h).exists_finds name parent
  have hframe : (s.extend parent).1.frames[(s.extend parent).2.index]? = some ⟨∅, some parent⟩ := by
    rw [getElem?_extend, extend_snd_index, if_pos rfl]
  have hnew := Finds.around hframe (by simp) rfl hr
  rw [hnew.lookup_eq, ← hr.lookup_eq, lookup_extend hs h]

theorem getElem?_discard_of_lt (h : inner.index < scope.index) {i : Nat} (hi : i ≤ inner.index) :
    (s.discard scope).frames[i]? = s.frames[i]? := by
  rw [getElem?_discard s (by omega), if_pos (by omega)]

theorem lookup_of_not_open (h : ¬ s.Open scope) (name : String) : s.lookup scope name = none := by
  have hnone : s.frames[scope.index]? = none := Array.getElem?_eq_none (Nat.le_of_not_lt h)
  exact (Finds.closed hnone).lookup_eq

/-- The place of a scope is not taken by a scope that is opened. -/
def LeavesPlace (scope : ScopeId) (s : Scopes) : Op → Prop
  | .extend parent => (s.extend parent).2 ≠ scope
  | .discard _ | .add _ _ _ => True

instance (scope : ScopeId) (s : Scopes) : ∀ op, Decidable (LeavesPlace scope s op)
  | .extend parent => inferInstanceAs (Decidable ((s.extend parent).2 ≠ scope))
  | .discard _ | .add _ _ _ => .isTrue trivial

/-- A closed scope stays closed until its place is taken. -/
theorem not_open_apply {op : Op} (hs : ¬ s.Open scope) (h : LeavesPlace scope s op) :
    ¬ (s.apply op).Open scope := by
  have hle : s.frames.size ≤ scope.index := Nat.le_of_not_lt hs
  cases op with
  | extend parent =>
    have hne : s.frames.size ≠ scope.index := fun hi => h (congrArg ScopeId.mk hi)
    simp only [Open, apply, extend, Array.size_push]
    omega
  | discard closed =>
    by_cases hpos : 0 < closed.index
    · simp only [Open, apply, frames_discard s hpos, Array.take_eq_extract, Array.size_extract]
      omega
    · rwa [apply, discard, dif_neg hpos]
  | add other name ty =>
    rwa [apply, (onlyBinds_add s other name ty).open_iff]

/-! ## Operations in a row -/

/-- Scopes are opened in open ones, and names are bound in open ones. -/
def UsesOpen (s : Scopes) : Op → Prop
  | .extend scope | .add scope _ _ => s.Open scope
  | .discard _ => True

instance (s : Scopes) : ∀ op, Decidable (s.UsesOpen op)
  | .extend scope | .add scope _ _ => inferInstanceAs (Decidable (s.Open scope))
  | .discard _ => .isTrue trivial

theorem UsesOpen.opensInOpen {op : Op} (h : s.UsesOpen op) : s.OpensInOpen op := by
  cases op with
  | extend parent => exact h
  | _ => trivial

/-- **The arena is a tree of environments**, as long as open scopes are used: `lookup` gives the
innermost binding along the chain of a scope. -/
theorem lexical_environments {ops : List Op} (hops : empty.Obeys UsesOpen ops) :
    let s := empty.run ops
    (∀ t, ∃ chain, s.Chain t chain ∧ (∀ chain', s.Chain t chain' → chain' = chain) ∧
      (∀ m, s.lookup t m = chain.findSome? (s.lookupLocal · m)) ∧
      ∀ scope n ty, s.Open scope →
        (s.Exposed n scope chain → (s.add scope n ty).lookup t n = some ty) ∧
        ∀ m, ¬ (m = n ∧ s.Exposed n scope chain) →
          (s.add scope n ty).lookup t m = s.lookup t m) ∧
    (∀ p, s.Open p →
      (∀ t m, s.Open t → (s.extend p).1.lookup t m = s.lookup t m) ∧
      ∀ m, (s.extend p).1.lookup (s.extend p).2 m = s.lookup p m) ∧
    ∀ scope, s.Open scope → scope ≠ root →
      (∀ t, t.index < scope.index → (∀ m, (s.discard scope).lookup t m = s.lookup t m) ∧
        (∀ m, (s.discard scope).lookupLocal t m = s.lookupLocal t m) ∧
        (s.discard scope).bindings t = s.bindings t) ∧
      ∀ t, scope.index ≤ t.index → ∀ later, (s.discard scope).Obeys (LeavesPlace t) later →
        ∀ m, ((s.discard scope).run later).lookup t m = none := by
  intro s
  have hs : s.Nested :=
    (hops.mono fun _ _ => UsesOpen.opensInOpen).invariant (fun _ _ => Nested.apply) nested_empty
  refine ⟨fun t => ?_,
    fun p hp => ⟨fun t m ht => lookup_extend hs ht p m, lookup_extend_self hs hp⟩,
    fun scope hopen hroot => ⟨fun t ht => ⟨?_, fun m => ?_, ?_⟩, fun t ht later hlater m => ?_⟩⟩
  · obtain ⟨chain, h⟩ := hs.exists_chain t
    exact ⟨chain, h, fun _ h' => h'.unique h, h.lookup_eq,
      fun scope n ty hopen => h.lookup_add hopen n ty⟩
  · exact lookup_eq_of_agree hs fun i hi => getElem?_discard_of_lt ht hi
  · rw [lookupLocal, getElem?_discard_of_lt ht (Nat.le_refl _), lookupLocal]
  · rw [bindings, getElem?_discard_of_lt ht (Nat.le_refl _), bindings]
  · have hpos : 0 < scope.index := Nat.pos_of_ne_zero fun hi => hroot (congrArg ScopeId.mk hi)
    have hclosed : ¬ (s.discard scope).Open t := by
      simp only [Open, frames_discard s hpos, Array.take_eq_extract, Array.size_extract]
      omega
    exact lookup_of_not_open (hlater.invariant (fun _ _ => not_open_apply) hclosed) m

/-- Inside a scope that shadows a name of the outermost one, the name is seen as that scope binds
it; closing a scope closes the newer ones. -/
theorem shadowedName_seen :
    let ops : List Op :=
      [.add root "x" .int, .extend root, .add ⟨1⟩ "x" .str, .extend ⟨1⟩, .extend root]
    let s := empty.run ops
    empty.Obeys UsesOpen ops ∧
    (s.extend ⟨1⟩).1.lookup (s.extend ⟨1⟩).2 "x" = some .str ∧
    ((s.discard ⟨2⟩).run [.extend root]).lookup ⟨3⟩ "x" = none := by
  intro ops s
  have hops : empty.Obeys UsesOpen ops := by decide +kernel
  obtain ⟨-, hextend, hdiscard⟩ := lexical_environments hops
  refine ⟨hops, ?_, ?_⟩
  · rw [(hextend ⟨1⟩ (by decide +kernel)).2 "x"]
    decide +kernel
  · refine (hdiscard ⟨2⟩ (by decide +kernel) (by decide)).2 ⟨3⟩ (by decide) [.extend root] ?_ "x"
    decide +kernel

end Gradual.Scopes
