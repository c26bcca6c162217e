set_option autoImplicit false

/-! # JSON trees

The tree between a JSON text and the data it describes. Numbers are already classified: a numeral
without fraction and exponent that fits 64 bits is an integer, every other one a float.

`Json.unreadable` stands for a part of a text that is well formed but that no decoder accepts: a
number beyond the range of floats, a string with half of a surrogate pair, an object with such a
key, an array or object nested too deeply. It may only be skipped. -/

namespace ThreeAddress

/-- A JSON value. The members of an object keep their order and may repeat a key. -/
inductive Json where
  | null
  | bool (value : Bool)
  | int (value : Int)
  | float (value : Float)
  | string (value : String)
  | array (items : List Json)
  | object (members : List (String × Json))
  | unreadable
deriving Inhabited

namespace Json

mutual

/-- How many values are nested in one another, at most. -/
def height : Json → Nat
  | .array items => heightItems items + 1
  | .object members => heightMembers members + 1
  | _ => 1

/-- The height of the tallest item. -/
def heightItems : List Json → Nat
  | [] => 0
  | v :: rest => max (height v) (heightItems rest)

/-- The height of the tallest member. -/
def heightMembers : List (String × Json) → Nat
  | [] => 0
  | (_, v) :: rest => max (height v) (heightMembers rest)

end

end Json

end ThreeAddress
