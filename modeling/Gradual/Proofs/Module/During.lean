import Gradual.Proofs.Module.Calls

/-!
# States during a call

A call opens scopes and binds names in them while it goes on. All other scopes stay as they are
until it ends; only the call for a block binds in its own scope from the start.

* `Call.During`: the states that a call goes through, up to the log;
* `Call.Spares`: the scopes in which a call does not bind before it ends;
* `Call.Makes.sameFrame`, **`Call.During.sameFrame`**: these scopes stay as they are;
* **`Call.During.nested`**: scopes lie inside each other in each of these states.
-/

namespace Gradual

open Effect

variable {env : Env} {k : ScopeId} {σ ρ τ : WalkState}

/-! ## One scope -/

/-- The scope `k` is the same. -/
def SameFrame (k : ScopeId) (σ τ : WalkState) : Prop :=
  τ.scopes.frames[k.index]? = σ.scopes.frames[k.index]?

theorem SameFrame.trans (h : SameFrame k σ ρ) (h' : SameFrame k ρ τ) : SameFrame k σ τ :=
  Eq.trans h' h

theorem SameFrame.lookupLocal_eq (h : SameFrame k σ τ) (n : String) :
    τ.scopes.lookupLocal k n = σ.scopes.lookupLocal k n := by
  rw [Scopes.lookupLocal, h, Scopes.lookupLocal]

theorem SameFrame.isOpen (h : SameFrame k σ τ) (hk : σ.scopes.Open k) : τ.scopes.Open k := by
  rw [SameFrame, Array.getElem?_eq_getElem hk] at h
  exact (Array.getElem?_eq_some_iff.1 h).1

theorem SameFrame.of_logged {event : Event} (h : SameFrame k (σ.logged event) τ) :
    SameFrame k σ τ := h

theorem SameScopes.sameFrame (h : SameScopes σ τ) : SameFrame k σ τ := by
  rw [SameFrame, h]

theorem sameFrame_of_bindsIn {own : ScopeId} (h : BindsIn own σ τ) (hk : k ≠ own) :
    SameFrame k σ τ :=
  h.frame_eq k.index fun hi => hk (congrArg ScopeId.mk hi)

theorem ne_fresh (hk : σ.scopes.Open k) : k ≠ σ.fresh := by
  rintro rfl
  exact Nat.lt_irrefl _ hk

theorem sameFrame_opened (hk : σ.scopes.Open k) (scope : ScopeId) :
    SameFrame k σ (σ.opened scope) := by
  have hi : k.index ≠ σ.scopes.frames.size := Nat.ne_of_lt hk
  rw [SameFrame, WalkState.opened, Scopes.getElem?_extend, if_neg hi]

/-- The scopes around the body of a function, while names are bound in the scope of the body. -/
theorem sameFrame_entered {scope : ScopeId} {event : Event} (hk : ρ.scopes.Open k)
    (h : BindsIn ρ.fresh ((ρ.logged event).opened scope) τ) : SameFrame k ρ τ := by
  have hopened : SameFrame k (ρ.logged event) ((ρ.logged event).opened scope) :=
    sameFrame_opened hk scope
  exact .of_logged (hopened.trans (sameFrame_of_bindsIn h (ne_fresh hk)))

namespace Call

/-! ## States -/

/-- The states during a call, up to the log: at its start, while a block declares its functions,
when all its statements are walked, while the parameters of a function are bound in the scope of its
body, when this scope is closed again, when the scope of a branch is closed again, and those during
the calls that it makes. -/
inductive During (env : Env) : Call → WalkState → WalkState → Prop
  | start {c : Call} {σ : WalkState} : During env c σ σ
  | declaring {scope : ScopeId} {goal : Option Goal} {first rest : List Statement}
      {σ : WalkState} :
      During env (.block scope goal (first ++ rest)) σ (exec (declareAll scope first) σ).2
  | walked {scope : ScopeId} {goal : Option Goal} {block : List Statement} {σ : WalkState} :
      During env (.block scope goal block) σ (exec (walkBlock env scope goal block) σ).2
  | entering {scope : ScopeId} {head : FunctionHead} {body : List Statement}
      {declared : Signature} {first rest : List (String × Ty)} {σ ρ : WalkState}
      (h : exec (checkHeader env scope head) σ = (.ok declared, ρ))
      (hp : declared.names.zip declared.params ++ declared.kwargs = first ++ rest) :
      During env (.function scope head body) σ
        (exec (first.forM fun p => Walk.bindName ρ.fresh p.1 p.2)
          ((ρ.logged (.entering head.name.name head.span.line)).opened scope)).2
  | leaving {scope : ScopeId} {head : FunctionHead} {body : List Statement}
      {declared : Signature} {σ ρ : WalkState}
      (h : exec (checkHeader env scope head) σ = (.ok declared, ρ)) :
      During env (.function scope head body) σ
        (exec (walkBody env scope head declared body)
          (ρ.logged (.entering head.name.name head.span.line))).2
  | closed {scope : ScopeId} {goal : Option Goal} {block : List Statement} {σ : WalkState} :
      During env (.branch scope goal block) σ (exec (walkBranch env scope goal block) σ).2
  | inner {c d : Call} {σ ρ τ : WalkState} (hm : Makes env c σ d ρ) (h : During env d ρ τ) :
      During env c σ τ

/-- A call does not bind in the scope `k` before it ends. -/
def Spares : Call → ScopeId → Prop
  | .block own _ _, k => k ≠ own
  | _, _ => True

/-! ## Scopes that stay as they are -/

theorem bindsIn_bindNames (scope : ScopeId) (ps : List (String × Ty)) :
    Keeps (BindsIn scope) (ps.forM fun p => Walk.bindName scope p.1 p.2) :=
  scopeLaw.binds_forM ps fun p _ => scopeLaw.binds_bindName scope p.1 p.2

theorem bindsIn_inBody (scope : ScopeId) (head : FunctionHead) (declared : Signature) :
    BindsIn ρ.fresh ((ρ.logged (.entering head.name.name head.span.line)).opened scope)
      (ρ.inBody scope head declared) :=
  scopeLaw.binds_bindParameters ρ.fresh declared _

/-- The scopes that a call spares are the same when it makes another one, which spares them too. -/
theorem Makes.sameFrame {c d : Call} (h : Makes env c σ d τ) (hk : σ.scopes.Open k)
    (hc : c.Spares k) : SameFrame k σ τ ∧ d.Spares k := by
  cases h with
  | definition => exact ⟨rfl, trivial⟩
  | @body scope head _ declared _ ρ h =>
    have hρ : SameFrame k σ ρ := ((scopeLaw.reads_checkHeader env _ _).of_exec h).sameFrame
    have hopen := hρ.isOpen hk
    exact ⟨hρ.trans (sameFrame_entered hopen (bindsIn_inBody scope head declared)), ne_fresh hopen⟩
  | consequent h => exact ⟨rfl, trivial⟩
  | alternative h hb =>
    exact ⟨(((scopeLaw.onBlock env _).walkBranch _ _).of_exec hb).sameFrame, trivial⟩
  | inside => exact ⟨sameFrame_opened hk _, ne_fresh hk⟩
  | next h =>
    have hb := (keeps_bind (scopeLaw.binds_declareAll _ _) fun _ =>
      scopeLaw.onBlock env _ _ _ _ _).of_exec h
    exact ⟨sameFrame_of_bindsIn hb hc, trivial⟩

/-- **The scopes that a call spares stay as they are** until it ends. -/
theorem During.sameFrame {c : Call} (h : During env c σ τ) (hk : σ.scopes.Open k)
    (hc : c.Spares k) : SameFrame k σ τ := by
  induction h with
  | start => rfl
  | declaring => exact sameFrame_of_bindsIn (scopeLaw.binds_declareAll _ _ _) hc
  | walked => exact sameFrame_of_bindsIn ((scopeLaw.onBlock env _).walkBlock _ _ _) hc
  | @entering scope head _ _ first _ σ ρ h _ =>
    have hρ : SameFrame k σ ρ := ((scopeLaw.reads_checkHeader env _ _).of_exec h).sameFrame
    exact hρ.trans (sameFrame_entered (hρ.isOpen hk) (bindsIn_bindNames ρ.fresh first _))
  | @leaving scope head body declared σ ρ h =>
    have hρ : SameFrame k σ ρ := ((scopeLaw.reads_checkHeader env _ _).of_exec h).sameFrame
    have hbody := (scopeLaw.onBlock env body).walkBody scope head declared
    exact hρ.trans (.of_logged (hbody (ρ.logged _)).sameFrame)
  | closed => exact ((scopeLaw.onBlock env _).walkBranch _ _ _).sameFrame
  | inner hm _ ih =>
    -- The inner call has a newer scope of its own, or none, so that it spares `k` as well.
    obtain ⟨hρ, hd⟩ := hm.sameFrame hk hc
    exact hρ.trans (ih (hρ.isOpen hk) hd)

/-- **Scopes lie inside each other** in all states during a call that starts with such scopes. -/
theorem During.nested {c : Call} (h : During env c σ τ) (hc : Sound c.scope σ) :
    τ.scopes.Nested := by
  induction h with
  | start => exact hc.nested
  | declaring => exact (hc.of_bindsIn (scopeLaw.binds_declareAll _ _ _)).nested
  | walked => exact (hc.of_bindsIn ((scopeLaw.onBlock env _).walkBlock _ _ _)).nested
  | @entering _ _ _ _ first _ _ ρ h _ =>
    have hρ := hc.of_sameScopes ((scopeLaw.reads_checkHeader env _ _).of_exec h)
    exact ((hρ.logged _).opened.of_bindsIn (bindsIn_bindNames ρ.fresh first _)).nested
  | leaving h =>
    have hρ := hc.of_sameScopes ((scopeLaw.reads_checkHeader env _ _).of_exec h)
    exact ((hρ.logged _).of_sameScopes ((scopeLaw.onBlock env _).walkBody _ _ _ _)).nested
  | closed => exact (hc.of_sameScopes ((scopeLaw.onBlock env _).walkBranch _ _ _)).nested
  | inner hm _ ih => exact ih (hm.sound hc)

end Call

end Gradual
