import Gradual.Proofs.Module.Declared
import Gradual.Proofs.Module.Findings
import Gradual.Proofs.Module.WellFormed
import Gradual.Proofs.Walk.Binders
import Gradual.Proofs.Walk.Returns

/-!
# Names of constants

`None`, `True` and `False` are constants, and an assignment to one of them is refused. The header of
a function is not: the name of a function, and those of its parameters, are bound whatever they are.

* `Scopes.Unbound`: no scope binds a name;
* `leavesUnbound_walkStatement`: a statement that declares no function of that name binds no
  constant;
* `headerNamesOf`: the names that headers in a block bind, at any depth;
* `Call.During.unbound`: what a call goes through without such a header;
* **`Checker.constants_unbound_iff`**: when a constant is bound, after modules and during one.
-/

namespace Gradual

open Effect

/-! ## Names that no scope binds -/

namespace Scopes

variable {s t : Scopes} {scope : ScopeId} {n : String}

/-- No scope binds the name `n`. -/
def Unbound (s : Scopes) (n : String) : Prop := ∀ scope, s.lookupLocal scope n = none

theorem unbound_empty (n : String) : empty.Unbound n := by
  rintro ⟨i⟩
  rw [lookupLocal]
  cases h : empty.frames[i]? with
  | none => rfl
  | some f =>
    obtain ⟨hi, rfl⟩ := Array.getElem?_eq_some_iff.1 h
    simp [empty]

theorem Unbound.add {name : String} (h : s.Unbound n) (hne : name ≠ n) (scope : ScopeId)
    (ty : Ty) : (s.add scope name ty).Unbound n := by
  intro inner
  rw [lookupLocal_add_of_ne hne, h inner]

theorem Unbound.extend (h : s.Unbound n) (parent : ScopeId) : (s.extend parent).1.Unbound n := by
  intro inner
  rw [lookupLocal_extend, h inner]

theorem Unbound.declared {d : Statement} (h : s.Unbound n) (hd : d.declaredAs n = none)
    (scope : ScopeId) : (s.declared scope d).Unbound n := by
  rcases declared_cases scope s d with ⟨hs, -⟩ | ⟨name, signature, hs, hdecl⟩
  · rwa [hs]
  · have hne : name ≠ n := by
      intro hname
      rw [hdecl, if_pos hname] at hd
      cases hd
    rw [hs]
    exact h.add hne scope _

/-- Bindings only add names. -/
theorem OnlyBinds.unbound (h : OnlyBinds scope s t) (ht : t.Unbound n) : s.Unbound n := by
  intro inner
  by_cases hi : inner.index = scope.index
  · have hown : inner = scope := congrArg ScopeId.mk hi
    rw [hown, ← Option.not_isSome_iff_eq_none]
    intro hs
    have hsome := h.keeps_name n hs
    rw [ht scope] at hsome
    cases hsome
  · have hinner := ht inner
    rwa [lookupLocal, h.frame_eq inner.index hi] at hinner

end Scopes

/-! ## Statements -/

variable {env : Env} {scope : ScopeId} {n : String} {σ τ : WalkState}

/-- A name that no scope binds before is bound by none after. -/
def LeavesUnbound (n : String) (σ τ : WalkState) : Prop :=
  σ.scopes.Unbound n → τ.scopes.Unbound n

instance : Std.Refl (LeavesUnbound n) := ⟨fun _ h => h⟩

instance : Trans (LeavesUnbound n) (LeavesUnbound n) (LeavesUnbound n) :=
  ⟨fun h k hσ => k (h hσ)⟩

theorem SameScopes.leavesUnbound (h : SameScopes σ τ) : LeavesUnbound n σ τ := by
  intro hσ
  rwa [h]

theorem MayBind.leavesUnbound {names : List String} (h : MayBind scope names σ τ)
    (hn : n ∉ names) : LeavesUnbound n σ τ := by
  rcases h with h | ⟨m, hm, ty, h⟩
  · exact h.leavesUnbound
  · intro hσ
    rw [h]
    exact hσ.add (fun hmn => hn (hmn ▸ hm)) scope ty

theorem leavesUnbound_tolerate {α : Type} {skipped : α} {x : Walk α}
    (h : Keeps (LeavesUnbound n) x) : Keeps (LeavesUnbound n) (Walk.tolerate skipped x) := by
  intro σ
  rw [LeavesUnbound, scopes_tolerate]
  exact h σ

/-- **An assignment binds no constant.** -/
theorem leavesUnbound_checkAssignment (hn : (constantType? n).isSome) (env : Env)
    (scope : ScopeId) (defined : List String) (a : Assignment) :
    Keeps (LeavesUnbound n) (checkAssignment env scope defined a) := by
  by_cases ha : n ∈ targetNamesOf a.targets
  · -- The one target that is bound is a name, so it is `n` itself, which is refused first.
    unfold checkAssignment
    split
    next place id htargets =>
      rw [htargets] at ha
      have hid : n = id.name := by simpa [targetNamesOf, Expr.targetNames] using ha
      have hrefused : (constantType? id.name).isNone = false := by
        rw [← hid, ← Option.not_isSome, hn]
        rfl
      intro σ
      rw [exec_bind, exec_require, hrefused]
      exact fun h => h
    · exact keeps_throw _
    · exact keeps_throw _
  · exact (mayBind_checkAssignment env scope defined a).mono fun _ _ h => h.leavesUnbound ha

/-- A function whose header is refused binds nothing. -/
theorem leavesUnbound_function {head : FunctionHead} {body : List Statement}
    (hs : (Statement.function head body).declaredAs n = none) (env : Env) (scope : ScopeId) :
    Keeps (LeavesUnbound n) (walkFunction env scope head body) := by
  by_cases hname : head.name.name = n
  · rw [Statement.declaredAs, if_pos hname] at hs
    cases hsig : declaredSignature head with
    | ok signature =>
      rw [hsig] at hs
      cases hs
    | error e =>
      intro σ
      rw [walkFunction_of_refused hsig]
      exact fun h => h
  · refine (mayBind_walkFunction env scope head body).mono fun _ _ h => h.leavesUnbound ?_
    rw [List.mem_singleton]
    exact Ne.symm hname

/-- **A statement binds no constant**, unless it declares a function of that name. -/
theorem leavesUnbound_walkStatement (hn : (constantType? n).isSome) {s : Statement}
    (hs : s.declaredAs n = none) (env : Env) (scope : ScopeId) (goal : Option Goal)
    (defined : List String) :
    Keeps (LeavesUnbound n) (walkStatement env scope goal defined s) := by
  cases s with
  | function head body =>
    rw [walkStatement_function]
    exact keeps_bind (leavesUnbound_function hs env scope) fun _ => keeps_pure _
  | assignment a =>
    rw [walkStatement_assignment]
    exact keeps_bind (leavesUnbound_checkAssignment hn env scope defined a) fun _ => keeps_pure _
  | _ =>
    exact (mayBind_walkStatement env scope goal defined _).mono fun _ _ h =>
      h.leavesUnbound List.not_mem_nil

/-! ## Blocks -/

theorem leavesUnbound_declareAll {block : List Statement}
    (hb : ∀ d ∈ block, d.declaredAs n = none) (scope : ScopeId) :
    Keeps (LeavesUnbound n) (declareAll scope block) := by
  refine keeps_forM block fun d hd σ hσ => ?_
  rw [scopes_tolerate_declare]
  exact hσ.declared (hb d hd) scope

theorem leavesUnbound_walkStatements (hn : (constantType? n).isSome) {block : List Statement}
    (hb : ∀ d ∈ block, d.declaredAs n = none) (env : Env) (scope : ScopeId) (goal : Option Goal)
    (defined : List String) (before : Outcome) :
    Keeps (LeavesUnbound n) (walkStatements env scope goal defined before block) := by
  induction block generalizing defined before with
  | nil =>
    rw [walkStatements_nil]
    exact keeps_pure _
  | cons s rest ih =>
    obtain ⟨hs, hrest⟩ := List.forall_mem_cons.1 hb
    rw [walkStatements_cons]
    exact keeps_bind (leavesUnbound_tolerate (leavesUnbound_walkStatement hn hs env scope goal
      defined)) fun outcome => ih hrest _ _

/-! ## Headers -/

mutual

/-- The names that the headers in a statement bind: those of functions and of parameters. -/
def Statement.headerNames : Statement → List String
  | .function head body => head.name.name :: head.parameters.map (·.name) ++ headerNamesOf body
  | .conditional _ body otherwise => headerNamesOf body ++ headerNamesOfOtherwise otherwise
  | _ => []
termination_by structural s => s

/-- The names that the headers in the alternative of a conditional bind. -/
def headerNamesOfOtherwise : Option (List Statement) → List String
  | none => []
  | some block => headerNamesOf block
termination_by structural o => o

/-- The names that the headers in a block bind. -/
def headerNamesOf : List Statement → List String
  | [] => []
  | s :: rest => s.headerNames ++ headerNamesOf rest
termination_by structural ss => ss

end

theorem mem_headerNamesOf {block : List Statement} :
    n ∈ headerNamesOf block ↔ ∃ s ∈ block, n ∈ s.headerNames := by
  induction block with
  | nil => simp [headerNamesOf]
  | cons s rest ih => simp [headerNamesOf, ih]

theorem Statement.declaredAs_of_not_mem_headerNames {s : Statement}
    (h : n ∉ s.headerNames) : s.declaredAs n = none := by
  cases s with
  | function head body =>
    have hne : head.name.name ≠ n := by
      rintro rfl
      exact h (by simp [headerNames])
    rw [declaredAs, if_neg hne]
  | _ => rfl

theorem declaredAs_of_not_mem_headerNamesOf {block : List Statement}
    (h : n ∉ headerNamesOf block) : ∀ d ∈ block, d.declaredAs n = none :=
  fun d hd => d.declaredAs_of_not_mem_headerNames fun hmem => h (mem_headerNamesOf.2 ⟨d, hd, hmem⟩)

theorem gives_declaredParameters_of (ps : List Parameter) :
    Gives (fun typed => ∀ p ∈ typed, p.1 ∈ ps) (declaredParameters ps) := by
  induction ps with
  | nil => exact gives_ok (by simp)
  | cons p ps ih =>
    rw [declaredParameters]
    split
    · refine gives_bind (gives_any _) fun ty _ => gives_bind ih fun typed h => gives_ok ?_
      refine List.forall_mem_cons.2 ⟨List.mem_cons_self, fun q hq => ?_⟩
      exact List.mem_cons_of_mem p (h q hq)
    · exact gives_error _

/-- A declared signature has the parameters of the header. -/
theorem gives_declaredSignature_of (head : FunctionHead) :
    Gives (fun f => ∀ p ∈ f.names.zip f.params ++ f.kwargs, p.1 ∈ head.parameters.map (·.name))
      (declaredSignature head) := by
  refine gives_bind (gives_declaredParameters_of _) fun typed h =>
    gives_bind (gives_any _) fun ret _ => gives_ok fun p hp => ?_
  have hname (q : Parameter × Ty) (hq : q ∈ typed) : q.1.name ∈ head.parameters.map (·.name) :=
    List.mem_map_of_mem (h q hq)
  rcases List.mem_append.1 hp with hp | hp
  · obtain ⟨q, hq, heq⟩ := List.mem_map.1 (List.of_mem_zip hp).1
    rw [← heq]
    exact hname q (List.mem_filter.1 hq).1
  · obtain ⟨q, hq, heq⟩ := List.mem_map.1 hp
    rw [← heq]
    exact hname q (List.mem_filter.1 hq).1

theorem leavesUnbound_bindNames {ps : List (String × Ty)} (h : ∀ p ∈ ps, p.1 ≠ n)
    (scope : ScopeId) :
    Keeps (LeavesUnbound n) (ps.forM fun p => Walk.bindName scope p.1 p.2) :=
  keeps_forM ps fun p hp _ hσ => hσ.add (h p hp) scope p.2

/-! ## Calls -/

namespace Call

variable {c d : Call}

/-- The names that the headers in a call bind. -/
def headerNames : Call → List String
  | .block _ _ statements | .branch _ _ statements => headerNamesOf statements
  | .statement _ _ _ s => s.headerNames
  | .function _ head body => (Statement.function head body).headerNames

/-- The parameters that a header accepted in a call declares, beside the names in its headers. -/
theorem parameters_ne {head : FunctionHead} {body : List Statement} {declared : Signature}
    {ρ : WalkState} (hc : n ∉ (Call.function scope head body).headerNames)
    (h : exec (checkHeader env scope head) σ = (.ok declared, ρ)) :
    ∀ p ∈ declared.names.zip declared.params ++ declared.kwargs, p.1 ≠ n := by
  intro p hp hpn
  have hsig := checkHeader_ok (σ := σ) (by rw [h])
  have hmem := gives_declaredSignature_of head declared hsig p hp
  rw [hpn] at hmem
  exact hc (by simp [headerNames, Statement.headerNames, hmem])

theorem Makes.headerNames_subset (h : Makes env c σ d τ) : d.headerNames ⊆ c.headerNames := by
  cases h with
  | definition => exact List.Subset.refl _
  | body h => exact List.subset_append_right _ _
  | consequent h => exact List.subset_append_left _ _
  | alternative h hb => exact List.subset_append_right _ _
  | inside => exact List.Subset.refl _
  | next h =>
    intro n hn
    exact mem_headerNamesOf.2 ⟨_, List.mem_append_right _ List.mem_cons_self, hn⟩

/-- A call binds no constant before it makes another one, if no header in it does. -/
theorem Makes.unbound (hn : (constantType? n).isSome) (h : Makes env c σ d τ)
    (hc : n ∉ c.headerNames) : LeavesUnbound n σ τ := by
  cases h with
  | definition => exact fun hσ => hσ
  | body h =>
    intro hσ
    have hρ := ((scopeLaw.reads_checkHeader env _ _).of_exec h).leavesUnbound hσ
    exact leavesUnbound_bindNames (parameters_ne hc h) _ _ (hρ.extend _)
  | consequent h => exact fun hσ => hσ
  | alternative h hb =>
    exact fun hσ => (((scopeLaw.onBlock env _).walkBranch _ _).of_exec hb).leavesUnbound hσ
  | inside => exact fun hσ => hσ.extend _
  | @next scope goal first rest s _ _ _ h =>
    have hall := declaredAs_of_not_mem_headerNamesOf hc
    have hfirst : ∀ d ∈ first, d.declaredAs n = none := fun d hd =>
      hall d (List.mem_append_left _ hd)
    exact (keeps_bind (leavesUnbound_declareAll hall scope) fun _ =>
      leavesUnbound_walkStatements hn hfirst env scope goal [] .proceeds).of_exec h

/-- **A call goes through states without a binding of a constant**, if no header in it binds one. -/
theorem During.unbound (hn : (constantType? n).isSome) (h : During env c σ τ)
    (hc : n ∉ c.headerNames) : LeavesUnbound n σ τ := by
  induction h with
  | start => exact fun hσ => hσ
  | @declaring scope _ first rest _ =>
    have hall := declaredAs_of_not_mem_headerNamesOf hc
    exact leavesUnbound_declareAll (fun d hd => hall d (List.mem_append_left _ hd)) scope _
  | walked =>
    have hall := declaredAs_of_not_mem_headerNamesOf hc
    exact keeps_bind (leavesUnbound_declareAll hall _) (fun _ =>
      leavesUnbound_walkStatements hn hall env _ _ [] .proceeds) _
  | entering h hp =>
    intro hσ
    have hρ := ((scopeLaw.reads_checkHeader env _ _).of_exec h).leavesUnbound hσ
    have hfirst := parameters_ne hc h
    rw [hp] at hfirst
    exact leavesUnbound_bindNames (fun p hmem => hfirst p (List.mem_append_left _ hmem)) _ _
      (hρ.extend _)
  | @leaving scope head body declared σ ρ h =>
    intro hσ
    have hρ := ((scopeLaw.reads_checkHeader env _ _).of_exec h).leavesUnbound hσ
    exact ((scopeLaw.onBlock env body).walkBody scope head declared (ρ.logged _)).leavesUnbound hρ
  | closed => exact ((scopeLaw.onBlock env _).walkBranch _ _ _).leavesUnbound
  | inner hm _ ih =>
    exact fun hσ => ih (fun hmem => hc (hm.headerNames_subset hmem)) (hm.unbound hn hc hσ)

end Call

/-! ## Modules -/

namespace Checker

variable {c : Checker} {module : List Statement}

theorem unbound_new {builtins : Builtins} (hb : builtins.globals[n]? = none)
    (verbosity : Option Nat) : (new builtins verbosity).state.scopes.Unbound n := by
  have hglobals := List.foldlRecOn (motive := fun s => Scopes.Unbound s n) builtins.globals.toList
    (fun s g => s.add Scopes.root g.1 g.2) (Scopes.unbound_empty n) fun s hs g hg => by
      have hbound := Std.ExtTreeMap.mem_toList_iff_getElem?_eq_some.1 hg
      refine hs.add (fun hgn => ?_) Scopes.root g.2
      rw [hgn, hb] at hbound
      cases hbound
  exact hglobals.extend Scopes.root

theorem unbound_declareModule (hc : c.state.scopes.Unbound n)
    (hm : ∀ d ∈ module, d.declaredAs n = none) :
    (c.declareModule module).state.scopes.Unbound n := by
  rw [scopes_declareModule]
  exact List.foldlRecOn (motive := fun s => Scopes.Unbound s n) module _ hc fun _ hs d hd =>
    hs.declared (hm d hd) moduleScope

theorem unbound_checkStatements (hn : (constantType? n).isSome) (hc : c.state.scopes.Unbound n)
    (hm : ∀ d ∈ module, d.declaredAs n = none) (defined : List String) :
    (c.checkStatements defined module).state.scopes.Unbound n := by
  induction module generalizing c defined with
  | nil => exact hc
  | cons s rest ih =>
    obtain ⟨hs, hrest⟩ := List.forall_mem_cons.1 hm
    rw [checkStatements]
    refine ih ?_ hrest _
    rw [checkStatement, settle_state]
    exact leavesUnbound_tolerate (leavesUnbound_walkStatement hn hs _ _ _ _) _ hc

theorem unbound_upTo (hn : (constantType? n).isSome) (hc : c.state.scopes.Unbound n)
    {first rest : List Statement} (hm : ∀ d ∈ first ++ rest, d.declaredAs n = none) :
    ((c.declareModule (first ++ rest)).checkStatements [] first).state.scopes.Unbound n :=
  unbound_checkStatements hn (unbound_declareModule hc hm)
    (fun d hd => hm d (List.mem_append_left rest hd)) []

/-- **A module binds a constant** in some scope for good exactly if it declares a function of that
name. -/
theorem unbound_checkModule_iff (hn : (constantType? n).isSome)
    (hopen : c.state.scopes.Open moduleScope) (module : List Statement) :
    (c.checkModule module).state.scopes.Unbound n ↔
      c.state.scopes.Unbound n ∧ ∀ d ∈ module, d.declaredAs n = none := by
  constructor
  · intro h
    refine ⟨(onlyBinds_checkModule c module).unbound h, ?_⟩
    rw [checkModule_scopes] at h
    have hdeclared := (onlyBinds_checkStatements _ [] module).unbound h moduleScope
    rw [scopes_declareModule, Scopes.lookupLocal_declared hopen, Option.or_eq_none_iff,
      Option.map_eq_none_iff, ← Option.not_isSome_iff_eq_none, lastDeclared_isSome] at hdeclared
    intro d hd
    rw [← Option.not_isSome_iff_eq_none]
    exact fun hsome => hdeclared.1 ⟨d, hd, hsome⟩
  · rintro ⟨hc, hm⟩
    rw [checkModule_scopes]
    exact unbound_checkStatements hn (unbound_declareModule hc hm) hm []

/-- The checker after some modules, each with the types in its comments. -/
def checkModules (c : Checker) (runs : List (Hints × List Statement)) : Checker :=
  runs.foldl (fun c run => (c.withHints run.1).checkModule run.2) c

theorem unbound_checkModules_iff (hn : (constantType? n).isSome)
    (hopen : c.state.scopes.Open moduleScope) (runs : List (Hints × List Statement)) :
    (c.checkModules runs).state.scopes.Unbound n ↔
      c.state.scopes.Unbound n ∧ ∀ run ∈ runs, ∀ d ∈ run.2, d.declaredAs n = none := by
  induction runs generalizing c with
  | nil => simp [checkModules]
  | cons run runs ih =>
    have hbinds := onlyBinds_checkModule (c.withHints run.1) run.2
    have hopen' := (hbinds.open_iff moduleScope).2 hopen
    have hrun : c.checkModules (run :: runs) =
        ((c.withHints run.1).checkModule run.2).checkModules runs := rfl
    rw [hrun, ih hopen', unbound_checkModule_iff (c := c.withHints run.1) hn hopen,
      List.forall_mem_cons, and_assoc]
    rfl

theorem Calls.unbound (hn : (constantType? n).isSome) (hc : c.state.scopes.Unbound n)
    (hm : n ∉ headerNamesOf module) {call : Call} {σ : WalkState} (h : c.Calls module call σ) :
    σ.scopes.Unbound n ∧ n ∉ call.headerNames := by
  induction h with
  | @top first rest s h =>
    subst h
    refine ⟨unbound_upTo hn hc (declaredAs_of_not_mem_headerNamesOf hm), fun hs => ?_⟩
    exact hm (mem_headerNamesOf.2 ⟨s, List.mem_append_right _ List.mem_cons_self, hs⟩)
  | inner _ hmakes ih =>
    obtain ⟨hσ, hcall⟩ := ih
    exact ⟨hmakes.unbound hn hcall hσ, fun hmem => hcall (hmakes.headerNames_subset hmem)⟩

theorem Passes.unbound (hn : (constantType? n).isSome) (hc : c.state.scopes.Unbound n)
    (hm : n ∉ headerNamesOf module) {σ : WalkState} (h : c.Passes module σ) :
    σ.scopes.Unbound n := by
  have hall := declaredAs_of_not_mem_headerNamesOf hm
  cases h with
  | declaring h =>
    subst h
    exact unbound_declareModule hc fun d hd => hall d (List.mem_append_left _ hd)
  | checking h =>
    subst h
    exact unbound_upTo hn hc hall
  | during h hd =>
    obtain ⟨hσ, hcall⟩ := h.unbound hn hc hm
    exact hd.unbound hn hcall hσ

/-- **Only headers bind constants**: no scope binds a constant, unless the header of a function
gives its name to the function or to a parameter. -/
theorem constants_unbound_iff (hn : (constantType? n).isSome) (builtins : Builtins)
    (hb : builtins.globals[n]? = none) (verbosity : Option Nat)
    (runs : List (Hints × List Statement)) :
    let c := (new builtins verbosity).checkModules runs
    (c.state.scopes.Unbound n ↔ ∀ run ∈ runs, ∀ d ∈ run.2, d.declaredAs n = none) ∧
    (c.state.scopes.Unbound n → ∀ hints module σ, n ∉ headerNamesOf module →
      (c.withHints hints).Passes module σ → σ.scopes.Unbound n) := by
  intro c
  constructor
  · rw [unbound_checkModules_iff hn (sound_new builtins verbosity).isOpen]
    exact and_iff_right (unbound_new hb verbosity)
  · intro hc hints module σ hm hσ
    have hhints : (c.withHints hints).state.scopes.Unbound n := hc
    exact hσ.unbound hn hhints hm

/-- A function that does nothing, with parameters of unknown types. -/
def emptyFunction (name : String) (parameters : List String) : Statement :=
  .function ⟨⟨name, .none⟩, .none, parameters.map (⟨·, .none, .positional, none, none⟩), none⟩
    [.pass .none]

/-- After `None = 1` and `def f(None): pass` no scope binds `None`, and none does while `None = 1`
is checked once more. -/
theorem assignedNone_unbound :
    let assign : Statement :=
      .assignment ⟨.none, [.name .none ⟨"None", .none⟩], none, some (.literal .none (.integer 1))⟩
    let c := (new .standard).checkModules [(∅, [assign, emptyFunction "f" ["None"]])]
    c.state.scopes.Unbound "None" ∧
      ∀ σ, (c.withHints ∅).Passes [assign] σ → σ.scopes.Unbound "None" := by
  intro assign c
  obtain ⟨hiff, hduring⟩ := constants_unbound_iff (n := "None") (by decide) .standard
    (by decide +kernel) (some 0) [(∅, [assign, emptyFunction "f" ["None"]])]
  have hc : c.state.scopes.Unbound "None" := hiff.2 (by
    simp [assign, emptyFunction, Statement.declaredAs])
  exact ⟨hc, fun σ => hduring hc ∅ [assign] σ (by decide)⟩

/-- `def None(): pass` binds `None` in the scope of modules, and nothing is reported. While
`def f(None): pass` is checked, the scope of its body binds `None`. -/
theorem declaredNone_bound :
    let c := (new .standard).checkModule [emptyFunction "None" []]
    c.bindings = [("None", .func ⟨[], [], .none, []⟩)] ∧ c.diagnostics.size = 0 ∧
    ∃ σ, (new .standard).Passes [emptyFunction "f" ["None"]] σ ∧
      σ.scopes.lookupLocal ⟨2⟩ "None" = some .unknown := by
  intro c
  refine ⟨by decide +kernel, by decide +kernel, ?_⟩
  have honly : [emptyFunction "f" ["None"]] = [] ++ emptyFunction "f" ["None"] :: [] := rfl
  have hcall : (new .standard).Calls [emptyFunction "f" ["None"]] _ _ :=
    .inner (.top honly) .definition
  let declared : Signature := ⟨[.unknown], ["None"], .unknown, []⟩
  have hparameters : declared.names.zip declared.params ++ declared.kwargs =
      [("None", .unknown)] ++ [] := rfl
  refine ⟨_, .during hcall (.entering (Prod.ext rfl rfl) hparameters), ?_⟩
  decide +kernel

end Checker

end Gradual
