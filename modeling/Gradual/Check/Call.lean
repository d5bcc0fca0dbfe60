import Gradual.Check.Error

/-!
# Arguments of a call

The arguments of a call fill the slots of a signature: positional ones from the left, named ones
where their names say.

* `Slots`: for each slot, how the argument in it is named in messages, and its type;
* `fillKeyword`: puts a named argument into its slot;
* `checkArguments`: the type of the call, if the slots are filled and the arguments fit.
-/

namespace Gradual

open Source

/-- The arguments by slot. -/
abbrev Slots := List (Option (String × Ty))

/-- The slots after the positional arguments. -/
def positionalSlots (f : Signature) (positional : List Ty) : Slots :=
  positional.mapIdx (fun i ty => some (toString (i + 1), ty)) ++
    List.replicate (f.maxPositional - positional.length) none

/-- Puts a named argument into its slot. -/
def fillKeyword (name : String) (f : Signature) (span : Span) (slots : Slots)
    (argument : String × Ty) : Except CheckError Slots :=
  match f.keywordSlot? argument.1 with
  | none => .error ((Complaint.unexpectedKeyword name argument.1).heresy span)
  | some i =>
    if (slots[i]?.join).isSome then
      .error ((Complaint.repeatedArgument name argument.1).heresy span)
    else .ok (slots.set i (some (s!"'{argument.1}'", argument.2)))

/-- Checks that each argument fits its slot, from the left. -/
def checkSlots (name : String) (span : Span) : Slots → List Ty → Except CheckError Unit
  | some (label, actual) :: slots, expected :: tys =>
    if actual.fits expected then checkSlots name span slots tys
    else .error ((Complaint.argumentMismatch label name expected actual).heresy span)
  | none :: slots, _ :: tys => checkSlots name span slots tys
  | _, _ => .ok ()

/-- The type of a call of the function `name` with the signature `f`. -/
def checkArguments (name : String) (f : Signature) (positional : List Ty)
    (keywords : List (String × Ty)) (span : Span) : Except CheckError Ty := do
  let wrongCount :=
    (Complaint.argumentCount name f (positional.length + keywords.length)).heresy span
  if f.maxPositional < positional.length then .error wrongCount
  else
    let slots ← keywords.foldlM (fillKeyword name f span) (positionalSlots f positional)
    if (slots.take f.params.length).any Option.isNone then .error wrongCount
    else
      checkSlots name span slots f.slots
      return f.ret

end Gradual
