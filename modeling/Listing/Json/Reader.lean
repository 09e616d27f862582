/-
# Reading JSON

The grammar of JSON over its tokens, as a machine with a stack of the containers that are open. A
text is one value with nothing after it. Containers may be nested 127 deep.
-/
import Listing.Json.Token

namespace Listing.Json

/-- A container that is open, with what it holds so far, last item first for an array. -/
inductive Frame
  | array (items : List Json)
  | object (entries : List (String × Json))
  /-- An object whose entry under `key` is being read. -/
  | entry (entries : List (String × Json)) (key : String)

/-- What the next token must be. -/
inductive Wanted
  | value
  /-- A value, or the end of the array just opened. -/
  | valueOrClose
  | key
  /-- A key, or the end of the object just opened. -/
  | keyOrClose
  | colon (key : String)
  | commaOrClose
  /-- The text is complete. -/
  | nothing (result : Json)

/-- The state of the machine: the open containers, innermost first, and what must follow. -/
structure Reading where
  stack : List Frame
  wanted : Wanted

/-- The deepest nesting of containers. -/
def maxDepth : Nat := 127

/-- Put a complete value where it belongs. -/
def Reading.complete (value : Json) : List Frame → Option Reading
  | [] => some ⟨[], .nothing value⟩
  | .array items :: stack => some ⟨.array (value :: items) :: stack, .commaOrClose⟩
  | .entry entries key :: stack =>
    some ⟨.object (insertEntry key value entries) :: stack, .commaOrClose⟩
  | .object _ :: _ => none

/-- Open a container. -/
def Reading.push (frame : Frame) (wanted : Wanted) (stack : List Frame) : Option Reading :=
  if stack.length < maxDepth then some ⟨frame :: stack, wanted⟩ else none

/-- Read the first token of a value. -/
def Reading.beginValue (stack : List Frame) : Token → Option Reading
  | .atom value => complete value stack
  | .text s => complete (.string s) stack
  | .openArray => push (.array []) .valueOrClose stack
  | .openObject => push (.object []) .keyOrClose stack
  | _ => none

/-- Read one token. -/
def Reading.step (reading : Reading) (token : Token) : Option Reading :=
  match reading.wanted, token, reading.stack with
  | .value, _, stack => beginValue stack token
  | .valueOrClose, .closeArray, .array items :: stack => complete (.array items.reverse) stack
  | .valueOrClose, _, stack => beginValue stack token
  | .keyOrClose, .closeObject, .object entries :: stack => complete (.object entries) stack
  | .keyOrClose, .text key, stack => some ⟨stack, .colon key⟩
  | .key, .text key, stack => some ⟨stack, .colon key⟩
  | .colon key, .colon, .object entries :: stack => some ⟨.entry entries key :: stack, .value⟩
  | .commaOrClose, .comma, .array items :: stack => some ⟨.array items :: stack, .value⟩
  | .commaOrClose, .comma, .object entries :: stack => some ⟨.object entries :: stack, .key⟩
  | .commaOrClose, .closeArray, .array items :: stack => complete (.array items.reverse) stack
  | .commaOrClose, .closeObject, .object entries :: stack => complete (.object entries) stack
  | _, _, _ => none

/-- Read tokens up to the end of the text. -/
def Reading.run (reading : Reading) : List Token → Option Json
  | [] => match reading.wanted with
    | .nothing result => some result
    | _ => none
  | token :: tokens => match reading.step token with
    | some next => next.run tokens
    | none => none

/-- The value that a text holds; none where the text is not JSON. -/
def read? (s : String) : Option Json :=
  (tokens? s).bind (Reading.run ⟨[], .value⟩)

end Listing.Json
