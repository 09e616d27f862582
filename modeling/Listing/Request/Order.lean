/-
# Order

The order that a request asks for, most significant attribute first. It is given as a list
separated by commas or as a JSON array of texts; a minus sign in front of a path makes it
descending, a plus sign changes nothing.
-/
import Listing.Error
import Listing.Json.Reader
import Listing.Params

namespace Listing

inductive Direction
  | ascending | descending
  deriving DecidableEq, Repr

/-- One attribute to sort by. -/
structure OrderItem where
  path : Path
  direction : Direction
  deriving DecidableEq, Repr

/-- The order of a request; empty when it names none. -/
abbrev Order := List OrderItem

namespace Order

/-- A sign in front of a path, and the text after it. -/
def splitSign (name : String) : Direction × String :=
  match name.toList with
  | '-' :: cs => (.descending, String.ofList cs)
  | '+' :: cs => (.ascending, String.ofList cs)
  | _ => (.ascending, name)

/-- Read one item. -/
def readItem (name : String) : Result OrderItem :=
  let (direction, text) := splitSign name
  if text.isEmpty then .error (.malformedParameter Param.order (.orderName name))
  else match Path.read? text with
    | some path => .ok ⟨path, direction⟩
    | none => .error (.malformedParameter Param.order .emptySegment)

/-- The names that one parameter value lists. -/
def readNames (value : String) : Result (List String) :=
  let value := Text.trim value
  if value.toList.head? = some '[' then
    match (Json.read? value).bind Json.asArray? |>.bind (·.mapM Json.asString?) with
    | some names => .ok names
    | none => .error (.malformedParameter Param.order .orderList)
  else .ok (Text.commaItems value)

/-- The items that one parameter value lists. -/
def readValue (value : String) : Result Order := do
  (← readNames value).mapM fun name => readItem (Text.trim name)

/-- The order that all values of the parameter give, one after the other. -/
def read (values : List String) : Result Order := do
  return (← values.mapM readValue).flatten

end Order
end Listing
