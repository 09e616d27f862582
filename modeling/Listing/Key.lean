/-
# Parameter keys

The key of a filter parameter: a path with an optional operator, a chain of functions in between,
or the full-text key `q`. The last segment is the operator if it names one and is not the only
segment; a segment `func` or `sfunc` after the first begins a chain of functions, which may itself
end in an operator.
-/
import Listing.Error
import Listing.Text.Blank

namespace Listing

/-- The functions of a chain, applied to the attribute in order, and the comparison after them.
Without one, the last function is a predicate on what the others compute. -/
structure FunctionChain where
  names : List String
  compare : Option Operator
  deriving DecidableEq, Repr

namespace FunctionChain

/-- The functions applied to the attribute before it is compared or tested. -/
def transforms (f : FunctionChain) : List String :=
  match f.compare with
  | some _ => f.names
  | none => f.names.dropLast

/-- The predicate of a chain that ends in none of the operators. -/
def predicate? (f : FunctionChain) : Option String :=
  match f.compare with
  | some _ => none
  | none => f.names.getLast?

end FunctionChain

/-- A full-text key: the attributes it names, and whether it asks for every word. -/
structure FullTextKey where
  attributes : List String := []
  requireAll : Option Bool := none
  deriving DecidableEq, Repr

/-- What the key of a filter parameter says. -/
inductive Key
  | comparison (path : Path) (operator : Operator) (function : Option FunctionChain)
  | fullText (key : FullTextKey)
  deriving DecidableEq, Repr

/-- The operator that decides the shape of the operand: the one after a chain of functions, if
there is one. -/
def valueOperator (operator : Operator) (function : Option FunctionChain) : Operator :=
  (function.bind (·.compare)).getD operator

namespace Key

/-- The key of a full-text search over the default attributes. -/
def textQuery : String := "q"

/-- The word that asks for every word, and the one that asks for any. -/
def requireAllWord : String := "and"
def requireAnyWord : String := "or"

/-- The mode that a segment of a full-text key names. -/
def mode? (segment : String) : Option Bool :=
  if segment = requireAllWord then some true
  else if segment = requireAnyWord then some false
  else none

/-- The attributes that a segment of a full-text key lists. -/
def textAttributes (segment : String) : Except ParameterFault (List String) :=
  let names := (Text.splitOnChar ',' segment).map Text.trim
  if names.any String.isEmpty then .error .fullTextEmptyName else .ok names

/-- Read the segments after `q`: a list of attributes, a mode, or one after the other. -/
def readFullText : List String → Except ParameterFault FullTextKey
  | [] => .ok {}
  | [segment] => match mode? segment with
    | some mode => .ok { requireAll := some mode }
    | none => do return { attributes := ← textAttributes segment }
  | [attributes, segment] => match mode? segment with
    | some mode => do return { attributes := ← textAttributes attributes, requireAll := some mode }
    | none => .error .fullTextKey
  | _ => .error .fullTextKey

/-- Whether a segment begins a chain of functions. -/
def beginsChain (segment : String) : Bool :=
  segment == Operator.function.name || segment == Operator.predicate.name

/-- Cut the segments after the first into those before a chain of functions, the segment that
begins it, and the chain. -/
def splitChain : List String → Option (List String × String × List String)
  | [] => none
  | segment :: rest =>
    if beginsChain segment then some ([], segment, rest)
    else (splitChain rest).map fun (before, mark, chain) => (segment :: before, mark, chain)

/-- The functions of a chain and the operator at its end. The only segment of a chain is always a
function. -/
def readChain (chain : List String) : FunctionChain :=
  match chain.dropLast, chain.getLast?.bind Operator.ofName? with
  | _ :: _, some op => if op.arity = .function then ⟨chain, none⟩ else ⟨chain.dropLast, some op⟩
  | _, _ => ⟨chain, none⟩

/-- The path of the given segments. -/
def readPath (segments : List String) : Except ParameterFault Path :=
  match Path.ofSegments? segments with
  | some path => .ok path
  | none => .error .emptySegment

/-- Read a path, a mark that begins a chain, and the chain. -/
def readFunction (segments : List String) (mark : String) (chain : List String) :
    Except ParameterFault Key := do
  let path ← readPath segments
  let operator := if mark = Operator.predicate.name then Operator.predicate else .function
  let function := readChain chain
  if function.names.isEmpty || function.names.any String.isEmpty then .error .noFunction
  else if operator = .predicate && function.compare.isSome then .error .comparedPredicate
  else .ok (.comparison path operator (some function))

/-- Read a path with an optional operator at its end. -/
def readPlain (segments : List String) : Except ParameterFault Key :=
  match segments.dropLast, segments.getLast?.bind Operator.ofName? with
  | s :: rest, some op => do return .comparison (← readPath (s :: rest)) op none
  | _, _ => do return .comparison (← readPath segments) .exact none

/-- Read the segments of a key. -/
def ofSegments : List String → Except ParameterFault Key
  | [] => .error .emptySegment
  | first :: rest =>
    if first = textQuery then do return .fullText (← readFullText rest)
    else match splitChain rest with
      | some (before, mark, chain) => readFunction (first :: before) mark chain
      | none => readPlain (first :: rest)

/-- Read a key. -/
def read (key : String) : Except ParameterFault Key := ofSegments (Path.splitText key)

/-- The operator that decides the shape of the operand of a comparison. -/
def valueOperator? : Key → Option Operator
  | .comparison _ operator function => some (valueOperator operator function)
  | .fullText _ => none

/-- The operand that the values of a simple parameter give: nothing for an operator without one, a
list for lists and ranges, whose values are cut at the separator, and otherwise the single value. A
function takes any number of values. -/
def readOperand (operator : Operator) (values : List String) (separator : Char) :
    Except ParameterFault Json :=
  match operator.arity, values with
  | .unary, _ => .ok .null
  | .list, _ | .range, _ =>
    .ok (.strings ((values.flatMap (Text.splitOnChar separator)).filter (! ·.isEmpty)))
  | .function, [value] | .binary, [value] => .ok (.string value)
  | .function, _ => .ok (.strings values)
  | .binary, _ => .error (.manyValues operator)

end Key
end Listing
