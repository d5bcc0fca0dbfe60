import Gradual.Check.Walk
import Gradual.Proofs.Effect

/-!
# Errors of rules

That a name is not defined is said by the rule for names alone. All other rules have messages of
their own.

* `Complaint.eq_of_message`: the message of an undefined name tells which name it is;
* `CheckError.FindsUndefined`, `CheckError.OfRule`: errors about an undefined name, and all others;
* `Ruled`: results that are never errors about undefined names;
* `CheckError.OfCall`: errors about the arguments of a call.
-/

namespace Gradual

open Source Effect

/-! ## Messages -/

namespace Complaint

/-- Whether the complaint is that a name is not defined. -/
def isUndefinedName : Complaint → Bool
  | undefinedName _ => true
  | _ => false

theorem message_undefinedName (name : String) :
    (undefinedName name).message = "name '" ++ name ++ "' is used but not defined" := rfl

theorem take_message_typeFault (fault : TypeFault) :
    fault.message.toList.take 2 ≠ ['n', 'a'] := by
  delta TypeFault.message
  cases fault <;> simp

/-- No other message begins like that of an undefined name. -/
theorem take_message {c : Complaint} (h : c.isUndefinedName = false) :
    c.message.toList.take 2 ≠ ['n', 'a'] := by
  cases c with
  | undefinedName name => cases h
  | typeFault fault => exact take_message_typeFault fault
  | _ =>
    delta message
    simp [toString]

/-- **The message of an undefined name tells which name it is**, and is the message of nothing
else. -/
theorem eq_of_message {c : Complaint} {name : String}
    (h : c.message = (undefinedName name).message) : c = undefinedName name := by
  cases hc : c.isUndefinedName with
  | true =>
    obtain ⟨n, rfl⟩ : ∃ n, c = undefinedName n := by
      cases c with
      | undefinedName n => exact ⟨n, rfl⟩
      | _ => cases hc
    rw [message_undefinedName, message_undefinedName] at h
    have hchars := congrArg String.toList h
    rw [String.toList_append, String.toList_append, String.toList_append,
      String.toList_append] at hchars
    rw [String.toList_inj.1 (List.append_cancel_left (List.append_cancel_right hchars))]
  | false =>
    have hother := take_message hc
    rw [h, message_undefinedName] at hother
    simp at hother

end Complaint

/-! ## Errors -/

namespace CheckError

/-- What is reported about the error is that a name is not defined. -/
def FindsUndefined (name : String) (e : CheckError) : Prop :=
  ∃ d, e.diagnostic? = some d ∧ d.message = (Complaint.undefinedName name).message

/-- What is reported about the error is not that a name is not defined. -/
def OfRule (e : CheckError) : Prop := ∀ name, ¬ e.FindsUndefined name

end CheckError

theorem Complaint.eq_of_findsUndefined {c : Complaint} {span : Span} {name : String}
    (h : (c.heresy span).FindsUndefined name) : c = undefinedName name := by
  obtain ⟨d, hd, hmessage⟩ := h
  cases hd
  exact eq_of_message hmessage

theorem Complaint.ofRule_heresy {c : Complaint} (h : c.isUndefinedName = false) (span : Span) :
    (c.heresy span).OfRule := by
  intro name hc
  rw [eq_of_findsUndefined hc] at h
  cases h

theorem Complaint.ofRule_suspicion {c : Complaint} (h : c.isUndefinedName = false) (span : Span) :
    (CheckError.suspicion c.message span).OfRule := by
  rintro name ⟨d, hd, hmessage⟩
  cases hd
  rw [eq_of_message hmessage] at h
  cases h

theorem Escape.ofRule_error (x : Escape) (span : Span) : (x.error span).OfRule := by
  rintro name ⟨d, hd, -⟩
  cases hd

/-! ## Results -/

/-- A result that is no error about an undefined name. -/
def Ruled {α : Type} (r : Except CheckError α) : Prop := ∀ e, r = .error e → e.OfRule

section Ruled

variable {α β : Type}

theorem ruled_ok (a : α) : Ruled (.ok a) := refuses_ok a

theorem ruled_error {e : CheckError} (h : e.OfRule) : Ruled (.error e : Except CheckError α) :=
  refuses_error h

theorem ruled_heresy {c : Complaint} (h : c.isUndefinedName = false) (span : Span) :
    Ruled (.error (c.heresy span) : Except CheckError α) :=
  ruled_error (Complaint.ofRule_heresy h span)

theorem ruled_escape (x : Escape) (span : Span) :
    Ruled (.error (x.error span) : Except CheckError α) :=
  ruled_error (x.ofRule_error span)

theorem ruled_bind {r : Except CheckError α} {f : α → Except CheckError β} (hr : Ruled r)
    (hf : ∀ a, Ruled (f a)) : Ruled (r >>= f) :=
  refuses_bind hr hf

end Ruled

/-! ## Rules -/

theorem ruled_declaredType (e : Expr) : Ruled (declaredType e) := by
  fun_induction declaredType e with
  | case1 => exact ruled_ok _
  | case2 | case4 | case5 | case7 => exact ruled_heresy rfl _
  | case3 _ _ ih => exact ruled_bind ih fun _ => ruled_ok _
  | case6 _ _ _ ihk ihv => exact ruled_bind ihk fun _ => ruled_bind ihv fun _ => ruled_ok _
  | case8 _ _ _ _ _ ih =>
    refine ruled_bind ih fun ty => ?_
    split
    · exact ruled_ok _
    · exact ruled_heresy rfl _
  | case9 | case10 | case11 => exact ruled_escape _ _

theorem ruled_declaredOrUnknown (e : Option Expr) : Ruled (declaredOrUnknown e) := by
  cases e with
  | none => exact ruled_ok _
  | some e => exact ruled_declaredType e

theorem ruled_declaredParameters (ps : List Parameter) : Ruled (declaredParameters ps) := by
  induction ps with
  | nil => exact ruled_ok _
  | cons p ps ih =>
    rw [declaredParameters]
    split
    · exact ruled_bind (ruled_declaredOrUnknown _) fun _ => ruled_bind ih fun _ => ruled_ok _
    · exact ruled_escape _ _

theorem ruled_declaredSignature (head : FunctionHead) : Ruled (declaredSignature head) :=
  ruled_bind (ruled_declaredParameters _) fun _ =>
    ruled_bind (ruled_declaredOrUnknown _) fun _ => ruled_ok _

theorem ruled_unaryType (span : Span) (op : UnaryOp) (operand : Ty) :
    Ruled (unaryType span op operand) := by
  unfold unaryType
  split
  · exact ruled_ok _
  all_goals
    split
    · exact ruled_ok _
    · exact ruled_escape _ _

/-- The error is a violation of a rule for arguments, reported at the call. -/
def CheckError.OfCall (span : Span) (e : CheckError) : Prop :=
  ∃ c : Complaint, c.isUndefinedName = false ∧ e = c.heresy span

theorem refuses_fillKeyword (name : String) (f : Signature) (span : Span) (slots : Slots)
    (argument : String × Ty) :
    Refuses (CheckError.OfCall span) (fillKeyword name f span slots argument) := by
  unfold fillKeyword
  split
  · exact refuses_error ⟨_, rfl, rfl⟩
  · split
    · exact refuses_error ⟨_, rfl, rfl⟩
    · exact refuses_ok _

theorem refuses_checkSlots (name : String) (span : Span) (slots : Slots) (tys : List Ty) :
    Refuses (CheckError.OfCall span) (checkSlots name span slots tys) := by
  fun_induction checkSlots name span slots tys with
  | case1 _ _ _ _ _ _ ih => exact ih
  | case2 => exact refuses_error ⟨_, rfl, rfl⟩
  | case3 _ _ _ ih => exact ih
  | case4 => exact refuses_ok _

theorem refuses_checkArguments (name : String) (f : Signature) (positional : List Ty)
    (keywords : List (String × Ty)) (span : Span) :
    Refuses (CheckError.OfCall span) (checkArguments name f positional keywords span) := by
  unfold checkArguments
  dsimp only
  split
  · exact refuses_error ⟨_, rfl, rfl⟩
  · refine refuses_bind (refuses_foldlM (refuses_fillKeyword name f span) _ _) fun slots => ?_
    split
    · exact refuses_error ⟨_, rfl, rfl⟩
    · exact refuses_bind (refuses_checkSlots name span slots _) fun _ => refuses_ok _

theorem ruled_checkArguments (name : String) (f : Signature) (positional : List Ty)
    (keywords : List (String × Ty)) (span : Span) :
    Ruled (checkArguments name f positional keywords span) := by
  refine (refuses_checkArguments name f positional keywords span).mono ?_
  rintro _ ⟨c, hc, rfl⟩
  exact Complaint.ofRule_heresy hc span

theorem ruled_callType (span : Span) (name : String) (callee : Ty)
    (arguments : List (Argument Ty)) : Ruled (callType span name callee arguments) := by
  unfold callType
  dsimp only
  split
  · exact ruled_checkArguments _ _ _ _ _
  · split
    · split
      · exact ruled_ok _
      · exact ruled_heresy rfl _
    · exact ruled_escape _ _
  · exact ruled_heresy rfl _

theorem ruled_boundType (name : String) (span : Span) (declared value : Option Ty) :
    Ruled (boundType name span declared value) := by
  unfold boundType
  split
  · split
    · exact ruled_ok _
    · exact ruled_heresy rfl _
  · exact ruled_ok _
  · exact ruled_ok _

end Gradual
