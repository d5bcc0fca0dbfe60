import Gradual.Ty.Basic

/-!
# How types are written

* `Ty.text`, `Signature.text`: the text of a type in messages;
* `Ty.listText`: several types, with commas between them.
-/

namespace Gradual

mutual

/-- The text of a type. -/
def Ty.text : Ty → String
  | .primitive n => n
  | .unknown => "?"
  | .func f => f.text
  | .overload fs => "overload[" ++ ", ".intercalate (signatureTexts fs) ++ "]"
  | .emptyList => "[]"
  | .list a => "[" ++ a.text ++ "]"
  | .emptyDict => "\x7b\x7d"
  | .dict k v => "\x7b" ++ k.text ++ ": " ++ v.text ++ "\x7d"
  | .maybe a => "Maybe(" ++ a.text ++ ")"
  | .union as => " | ".intercalate (tyTexts as)
termination_by structural a => a

/-- The text of a signature; a parameter with a default value is written with its name. -/
def Signature.text : Signature → String
  | ⟨ps, _, r, ks⟩ => "(" ++ ", ".intercalate (tyTexts ps ++ kwargTexts ks) ++ ") -> " ++ r.text
termination_by structural f => f

/-- The texts of some types. -/
def tyTexts : List Ty → List String
  | [] => []
  | a :: as => a.text :: tyTexts as
termination_by structural as => as

/-- The texts of some signatures. -/
def signatureTexts : List Signature → List String
  | [] => []
  | f :: fs => f.text :: signatureTexts fs
termination_by structural fs => fs

/-- The texts of some parameters with default values. -/
def kwargTexts : List (String × Ty) → List String
  | [] => []
  | (n, a) :: ks => (n ++ "=" ++ a.text) :: kwargTexts ks
termination_by structural ks => ks

end

/-- Several types, with commas between them. -/
def Ty.listText (as : List Ty) : String := ", ".intercalate (tyTexts as)

end Gradual
