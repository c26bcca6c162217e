import ThreeAddress.Json.Token

set_option autoImplicit false

/-! # Reading JSON

A JSON text is read token by token with a stack of the arrays and objects that are still open, so
that texts of any depth can be read. Containers nested deeper than `maxDepth` are checked for their
form but become `Json.unreadable`. -/

namespace ThreeAddress.Json

/-- How many arrays and objects may be nested in one another for the innermost to be readable. -/
def maxDepth : Nat := 127

/-- A container that is still open, with what it holds so far, the latest first. An object is
    `readable` while all its keys are; `key` is the one whose value is being read. -/
inductive Frame where
  | array (items : List Json)
  | object (members : List (String × Json)) (readable : Bool) (key : String)

/-- What may come next. -/
inductive Expected where
  | value
  | firstItem
  | firstKey
  | key
  | colon
  | separator
  | nothing (result : Json)

/-- A text that has been read in part: the open containers, the innermost first, their number, and
    what may come next. -/
structure Reader where
  frames : List Frame
  depth : Nat
  expected : Expected

namespace Reader

/-- Nothing has been read yet. -/
def start : Reader := ⟨[], 0, .value⟩

/-- A value is complete: it goes into the innermost container, or is the result. -/
def deliver (v : Json) (frames : List Frame) (depth : Nat) : Reader :=
  match frames with
  | [] => ⟨[], depth, .nothing v⟩
  | .array items :: rest => ⟨.array (v :: items) :: rest, depth, .separator⟩
  | .object members readable key :: rest =>
    ⟨.object ((key, v) :: members) readable key :: rest, depth, .separator⟩

/-- A value begins where one is allowed. -/
def beginValue (r : Reader) : Token → Option Reader
  | .openArray => some ⟨.array [] :: r.frames, r.depth + 1, .firstItem⟩
  | .openObject => some ⟨.object [] true "" :: r.frames, r.depth + 1, .firstKey⟩
  | .text (some s) => some (deliver (.string s) r.frames r.depth)
  | .text none => some (deliver .unreadable r.frames r.depth)
  | .scalar v => some (deliver v r.frames r.depth)
  | _ => none

/-- A key begins where one is allowed. -/
def beginKey (r : Reader) : Token → Option Reader
  | .text name =>
    match r.frames with
    | .object members readable _ :: rest =>
      some ⟨.object members (readable && name.isSome) (name.getD "") :: rest, r.depth, .colon⟩
    | _ => none
  | _ => none

/-- The innermost container ends. -/
def endContainer (r : Reader) (token : Token) : Option Reader :=
  match token, r.frames with
  | .closeArray, .array items :: rest =>
    let v := if r.depth ≤ maxDepth then Json.array items.reverse else .unreadable
    some (deliver v rest (r.depth - 1))
  | .closeObject, .object members readable _ :: rest =>
    let v := if readable && r.depth ≤ maxDepth then Json.object members.reverse else .unreadable
    some (deliver v rest (r.depth - 1))
  | _, _ => none

/-- Behind a value inside a container: another one follows, or the container ends. -/
def separate (r : Reader) (token : Token) : Option Reader :=
  match token, r.frames with
  | .comma, .array _ :: _ => some { r with expected := .value }
  | .comma, .object _ _ _ :: _ => some { r with expected := .key }
  | _, _ => r.endContainer token

/-- Take in one token. -/
def accept (r : Reader) (token : Token) : Option Reader :=
  match r.expected with
  | .value => r.beginValue token
  | .firstItem =>
    match token with
    | .closeArray => r.endContainer token
    | _ => r.beginValue token
  | .firstKey =>
    match token with
    | .closeObject => r.endContainer token
    | _ => r.beginKey token
  | .key => r.beginKey token
  | .colon =>
    match token with
    | .colon => some { r with expected := .value }
    | _ => none
  | .separator => r.separate token
  | .nothing _ => none

/-- The value of a text that has been read to its end. -/
def result? (r : Reader) : Option Json :=
  match r.expected with
  | .nothing v => some v
  | _ => none

end Reader

/-- The tree of a JSON text, `none` if the text is not JSON. -/
def parse? (text : String) : Option Json := do
  let tokens ← tokens? text
  let reader ← tokens.foldlM Reader.accept Reader.start
  reader.result?

end ThreeAddress.Json
