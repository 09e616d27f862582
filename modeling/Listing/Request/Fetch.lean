/-
# Related rows

Which relations of the listed resource a request wants loaded with each row.
-/
import Listing.Text.Blank

namespace Listing

/-- The relations to load: none, some by name in sorted order, or all. -/
inductive Fetch
  | none
  | named (names : List String)
  | all
  deriving DecidableEq, Repr, Inhabited

namespace Fetch

/-- The name that stands for all relations. -/
def allName : String := "_all"

/-- Insert a name into a sorted list without repetitions. -/
def insertSorted (name : String) : List String → List String
  | [] => [name]
  | n :: names =>
    if name < n then name :: n :: names
    else if name = n then n :: names
    else n :: insertSorted name names

/-- The distinct names of a list in ascending order. -/
def sortedNames (names : List String) : List String :=
  names.foldl (fun acc name => insertSorted name acc) []

/-- The relations that the values of the parameter name. -/
def read (values : List String) : Fetch :=
  let names := values.flatMap Text.commaItems
  if names.contains allName then .all
  else if names.isEmpty then .none
  else .named (sortedNames names)

end Fetch
end Listing
