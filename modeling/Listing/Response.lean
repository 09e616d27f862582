/-
# Responses

What a client is sent: the rows of a page with their totals, or an error. The number of rows is
also in the headers, so that it can be had without reading the body. What went wrong inside of a
database is not told to the client.
-/
import Listing.Error
import Listing.Totals

namespace Listing

/-- Why a compiled request could not be answered. -/
inductive DatabaseError
  /-- The database refused a statement, in its own words. -/
  | refused (reason : String)
  /-- A column of an answer is missing, or of another type than the statement gives it. -/
  | unreadable (column : String)
  /-- The database gave no answer. -/
  | noAnswer
  deriving DecidableEq, Repr

/-- The message of an error, for the log of the service. -/
def DatabaseError.message (e : DatabaseError) : String :=
  "Database error: " ++ match e with
    | .refused reason => "Custom Error: " ++ reason
    | .unreadable column => "cannot read column " ++ inQuotes column
    | .noAnswer => "no answer"

/-- A response to a client. -/
structure Response where
  status : Nat
  headers : List (String × String)
  body : Json
  deriving Repr

namespace Response

/-- The header that says what a body is, and the value it has for JSON. -/
def contentType : String := "content-type"
def jsonType : String := "application/json"

/-- The headers with the number of rows of the filter, where they were counted, and of rows
returned. -/
def totalHeader : String := "x-api-total"
def returnedHeader : String := "x-api-returned"

/-- A response with a JSON body. -/
def ofJson (status : Nat) (headers : List (String × String)) (body : Json) : Response :=
  { status, headers := headers ++ [(contentType, jsonType)], body }

end Response

/-- The answer to a list request. -/
structure ListResponse where
  results : List Json
  /-- The number of rows of the filter, where it is known. -/
  total : Option Nat := none
  totals : Row := []
  deriving Repr

namespace ListResponse

/-- The number of rows returned. -/
def returned (r : ListResponse) : Nat := r.results.length

/-- Change every row. -/
def map (f : Json → Json) (r : ListResponse) : ListResponse :=
  { r with results := r.results.map f }

/-- The headers of an answer; a total that is not known is empty. -/
def headers (total : Option Nat) (returned : Nat) : List (String × String) :=
  [(Response.totalHeader, (total.map fun n => Number.integerText n).getD ""),
   (Response.returnedHeader, Number.integerText returned)]

/-- The body of an answer: the totals stand beside the rows. -/
def body (r : ListResponse) : Json :=
  .ofEntries ([("results", .array r.results)] ++
    (r.total.map fun n => ("total", Json.int n)).toList ++
    [("returned", .int r.returned)] ++ r.totals)

/-- The response that carries an answer. -/
def toResponse (r : ListResponse) : Response :=
  .ofJson 200 (headers r.total r.returned) r.body

end ListResponse

/-- The response to a request that is rejected. -/
def QueryError.toResponse (e : QueryError) : Response :=
  .ofJson 400 [] (.object [("error", .string e.code), ("message", .string e.message),
    ("param", .string e.param)])

/-- The response to a request that could not be answered. -/
def DatabaseError.toResponse (_ : DatabaseError) : Response :=
  .ofJson 500 [] (.object [("error", .string "internal_error"),
    ("message", .string "A database error occurred")])

end Listing
