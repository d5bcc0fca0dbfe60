/-!
# Sorted lists as sets

A finite set of values with a comparison is kept as its strictly increasing list of members.

* `Sorted.insert`, `Sorted.ofList`;
* `Sorted.IsSorted`: the members increase strictly.
-/

namespace Gradual.Sorted

variable {α : Type}

/-- The members increase strictly. -/
def IsSorted (cmp : α → α → Ordering) (s : List α) : Prop := s.Pairwise fun a b => cmp a b = .lt

/-- The set with `a` as a further member. -/
def insert (cmp : α → α → Ordering) (a : α) : List α → List α
  | [] => [a]
  | b :: s =>
    match cmp a b with
    | .lt => a :: b :: s
    | .eq => b :: s
    | .gt => b :: insert cmp a s

/-- The set of the elements of a list. -/
def ofList (cmp : α → α → Ordering) (l : List α) : List α :=
  l.foldl (fun s a => insert cmp a s) []

end Gradual.Sorted
