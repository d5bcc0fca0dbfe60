import Gradual.Check.Declared
import Gradual.Check.Infer
import Gradual.Scope

/-!
# Checking blocks of statements

A block is walked twice. The first walk binds the functions that it defines to their declared
signatures, so that they can be used before their definitions. The second checks its statements in
order. The first violation ends the walk of a block; what is outside the check is noted and passed
over.

* `Walk`: a result or an error, with the scopes and the log, which survive an error;
* `Outcome`: what a block may return, whether it always returns, and whether something was passed
  over;
* `Outcome.apparent`: the type that a function with such a body appears to return;
* `walkStatement`, `walkStatements`: the second walk.
-/

namespace Gradual

open Source

/-! ## State and effects -/

/-- What a walk only reads: the built-in operators and the types stated in comments. -/
structure Env where
  builtins : Builtins
  hints : Hints

/-- What a walk changes: the open scopes and the log. -/
structure WalkState where
  scopes : Scopes
  log : Log

/-- A result or an error, with the scopes and the log. -/
abbrev Walk := ExceptT CheckError (StateM WalkState)

namespace Walk

/-- Adds an event to the log. -/
def record (event : Event) : Walk Unit := modify fun s => { s with log := s.log.record event }

/-- Binds a name in a scope. -/
def bindName (scope : ScopeId) (name : String) (ty : Ty) : Walk Unit :=
  modify fun s => { s with scopes := s.scopes.add scope name ty }

/-- Goes on if `holds`, and fails with `e` otherwise. -/
def require (holds : Bool) (e : CheckError) : Walk Unit := if holds then return else throw e

/-- Runs `body` in a new scope inside `scope`, which is closed again even after an error. -/
def inChild {α : Type} (scope : ScopeId) (body : ScopeId → Walk α) : Walk α := do
  let inner ← modifyGet fun s =>
    let (scopes, inner) := s.scopes.extend scope
    (inner, { s with scopes })
  let result ← ExceptT.lift (body inner).run
  modify fun s => { s with scopes := s.scopes.discard inner }
  liftExcept result

/-- Passes over what is outside the check, with a note, and goes on with `skipped`. -/
def tolerate {α : Type} (skipped : α) (body : Walk α) : Walk α :=
  tryCatch body fun
    | .unsupported construct span => do
      record (.unsupported construct span.line)
      return skipped
    | e => throw e

/-- The type of an expression in a scope. -/
def typeOf (env : Env) (scope : ScopeId) (e : Expr) : Walk Ty :=
  ExceptT.mk fun ⟨scopes, log⟩ =>
    let (result, log) := (infer env.builtins (scopes.lookup scope) e).run log
    (result, ⟨scopes, log⟩)

end Walk

/-! ## Outcomes -/

/-- What a block may return, whether all ways through it return, and whether something in it was
passed over, so that the returns may be incomplete. -/
structure Outcome where
  returns : Option Ty
  alwaysReturns : Bool
  escaped : Bool
  deriving DecidableEq

namespace Outcome

/-- A statement that goes on to the next one. -/
def proceeds : Outcome := ⟨none, false, false⟩

/-- A statement that returns a value of type `ty`. -/
def returning (ty : Ty) : Outcome := ⟨some ty, true, false⟩

/-- A statement that was passed over. -/
def passedOver : Outcome := ⟨none, false, true⟩

/-- The type of what one of two blocks returns. -/
def mergeReturns : Option Ty → Option Ty → Option Ty
  | some a, some b => some (a.merge b)
  | some a, none => some a
  | none, b => b

/-- One after the other. -/
def andThen (a b : Outcome) : Outcome :=
  ⟨mergeReturns a.returns b.returns, a.alwaysReturns || b.alwaysReturns, a.escaped || b.escaped⟩

/-- One or the other. -/
def orElse (a b : Outcome) : Outcome :=
  ⟨mergeReturns a.returns b.returns, a.alwaysReturns && b.alwaysReturns, a.escaped || b.escaped⟩

/-- The type that a function with such a body appears to return. The declared type is trusted when
part of the body was passed over and the rest does not always return; a body that may end without a
return may return nothing. -/
def apparent (o : Outcome) (declared : Ty) : Ty :=
  if o.escaped && !o.alwaysReturns then declared
  else
    match o.returns with
    | none => .none
    | some ty => if o.alwaysReturns then ty else ty.merge .none

end Outcome

/-! ## Single statements -/

/-- What a `return` statement has to agree with: the function around it and its declared result. -/
structure Goal where
  function : String
  expected : Ty

/-- Binds a function to its declared signature. -/
def declare (scope : ScopeId) : Statement → Walk Unit
  | .function head _ => do
    let signature ← liftExcept (declaredSignature head)
    Walk.bindName scope head.name.name (.func signature)
  | _ => return

/-- Binds the functions that a block defines to their declared signatures. -/
def declareAll (scope : ScopeId) (block : List Statement) : Walk Unit :=
  block.forM fun s => Walk.tolerate () (declare scope s)

/-- The parameters with default values, with these values and the declared types. -/
def defaults (head : FunctionHead) (declared : Signature) : List (String × Expr × Ty) :=
  (head.parameters.filterMap fun p => p.initial.map (p.name, ·)).zipWith
    (fun p k => (p.1, p.2, k.2)) declared.kwargs

/-- Checks that a default value fits its parameter. -/
def checkDefault (env : Env) (scope : ScopeId) (function : String) (default : String × Expr × Ty) :
    Walk Unit := do
  let (parameter, value, expected) := default
  let actual ← Walk.typeOf env scope value
  Walk.require (actual.fits expected)
    ((Complaint.defaultMismatch parameter function actual expected).heresy value.span)

/-- The declared signature of a function whose default values fit. They are evaluated where the
definition stands. -/
def checkHeader (env : Env) (scope : ScopeId) (head : FunctionHead) : Walk Signature := do
  let declared ← liftExcept (declaredSignature head)
  (defaults head declared).forM (checkDefault env scope head.name.name)
  return declared

/-- Binds the parameters of a function inside its body. -/
def bindParameters (scope : ScopeId) (signature : Signature) : Walk Unit :=
  (signature.names.zip signature.params ++ signature.kwargs).forM fun (name, ty) =>
    Walk.bindName scope name ty

/-- Checks that a function returns what it declares, and binds it. -/
def concludeFunction (scope : ScopeId) (head : FunctionHead) (declared : Signature)
    (outcome : Outcome) : Walk Unit := do
  let function := head.name.name
  let apparent := outcome.apparent declared.ret
  Walk.record (.leaving function apparent head.span.line)
  Walk.require (apparent.fits declared.ret)
    ((Complaint.apparentReturn function declared.ret apparent).heresy head.span)
  Walk.bindName scope function (.func (declared.withReturn apparent))

/-- The type that a comment states for an assignment on the line `line`. -/
def hintedType (env : Env) (line : Nat) : Walk (Option Ty) :=
  match env.hints[line]? with
  | none => return none
  | some e =>
    match declaredType e with
    | .ok ty => return some ty
    | .error (.unsupported construct _) => do
      Walk.record (.unsupportedHint construct line)
      return none
    | .error e => throw e

/-- The type that is stated for an assignment, beside its target or in a comment. -/
def statedType (env : Env) (a : Assignment) : Walk (Option Ty) :=
  match a.declared with
  | some e => return some (← liftExcept (declaredType e))
  | none => hintedType env a.span.line

/-- The type that an assignment binds its target to. -/
def boundType (name : String) (span : Span) : Option Ty → Option Ty → Except CheckError (Option Ty)
  | some declared, some value =>
    if value.fits declared then .ok (some declared)
    else .error ((Complaint.declaredMismatch name declared value).heresy span)
  | some declared, none => .ok (some declared)
  | none, value => .ok value

/-- Binds the target of an assignment. It is suspicious if that replaces a function which was
defined earlier in the block by something that is none. -/
def rebind (scope : ScopeId) (defined : List String) (name : String) (span : Span) (ty : Ty) :
    Walk Unit := do
  let previous := (← get).scopes.lookupLocal scope name
  Walk.bindName scope name ty
  Walk.require (!(defined.contains name && previous.any Ty.isCallable && !ty.isCallable))
    (.suspicion (Complaint.reboundFunction name ty).message span)

/-- Checks an assignment after the definitions of the functions `defined`. -/
def checkAssignment (env : Env) (scope : ScopeId) (defined : List String) (a : Assignment) :
    Walk Unit :=
  match a.targets with
  | [.name _ id] => do
    Walk.require (constantType? id.name).isNone
      ((Complaint.reservedConstant id.name).heresy a.span)
    let declared ← statedType env a
    let value ← a.value.mapM (Walk.typeOf env scope)
    match ← liftExcept (boundType id.name a.span declared value) with
    | some ty => rebind scope defined id.name a.span ty
    | none => return
  | [target] => throw ((Escape.target target).error target.span)
  | _ => throw (Escape.multipleTargets.error a.span)

/-- Checks a `return` statement, and gives the type of what it returns. -/
def checkReturn (env : Env) (scope : ScopeId) (goal : Option Goal) (span : Span)
    (value : Option Expr) : Walk Ty :=
  match goal with
  | none => throw (Complaint.returnOutside.heresy span)
  | some goal => do
    let ty ← match value with
      | some e => Walk.typeOf env scope e
      | none => pure .none
    Walk.record (.returning ty goal.expected span.line)
    Walk.require (ty.fits goal.expected)
      ((Complaint.returnMismatch goal.function ty goal.expected).heresy span)
    return ty

/-- The functions defined up to and including a statement. -/
def definedAfter (defined : List String) : Statement → List String
  | .function head _ => head.name.name :: defined
  | _ => defined

/-! ## Blocks -/

mutual

/-- Checks a statement after the definitions of the functions `defined`. -/
def walkStatement (env : Env) (scope : ScopeId) (goal : Option Goal) (defined : List String) :
    Statement → Walk Outcome
  | .function head body => do
    let declared ← checkHeader env scope head
    Walk.record (.entering head.name.name head.span.line)
    let outcome ← Walk.inChild scope fun inner => do
      bindParameters inner declared
      declareAll inner body
      walkStatements env inner (some ⟨head.name.name, declared.ret⟩) [] .proceeds body
    concludeFunction scope head declared outcome
    return .proceeds
  | .assignment a => do
    checkAssignment env scope defined a
    return .proceeds
  | .returns span value => return .returning (← checkReturn env scope goal span value)
  | .conditional head body otherwise => do
    Walk.require (!hasElif otherwise) (Escape.elifChain.error head.span)
    Walk.record (.exploring (goal.map (·.expected)) head.span.line)
    let consequent ← Walk.inChild scope fun inner => do
      declareAll inner body
      walkStatements env inner goal [] .proceeds body
    let alternative ← walkOtherwise env scope goal otherwise
    return consequent.orElse alternative
  | .expression e => do
    let _ ← Walk.typeOf env scope e
    return .proceeds
  | .pass _ => return .proceeds
  | .unsupported span construct => throw ((Escape.construct construct).error span)
termination_by structural s => s

/-- Checks the alternative of a conditional. -/
def walkOtherwise (env : Env) (scope : ScopeId) (goal : Option Goal) :
    Option (List Statement) → Walk Outcome
  | none => return .proceeds
  | some block => Walk.inChild scope fun inner => do
    declareAll inner block
    walkStatements env inner goal [] .proceeds block
termination_by structural o => o

/-- Checks statements in order, after others with the outcome `before`. -/
def walkStatements (env : Env) (scope : ScopeId) (goal : Option Goal) (defined : List String)
    (before : Outcome) : List Statement → Walk Outcome
  | [] => return before
  | s :: rest => do
    let outcome ← Walk.tolerate .passedOver (walkStatement env scope goal defined s)
    walkStatements env scope goal (definedAfter defined s) (before.andThen outcome) rest
termination_by structural ss => ss

end

end Gradual
