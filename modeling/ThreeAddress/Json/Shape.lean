import ThreeAddress.Json.Reader

set_option autoImplicit false

/-! # The shapes data takes in JSON

Records, variants and options are written to JSON in fixed shapes, and the functions here take them
apart again.

* A record is an object of its fields, in any order and with any other members beside them, or an
  array of its fields in their declared order, of which the last ones may be missing.
* A variant with data is an object with the variant's name as its only key.
* A variant without data is its name, or an object that maps the name to `null`.
* An optional field that is missing or `null` is absent. -/

namespace ThreeAddress.Json

/-- The declared fields that a record has, by name. No field may occur twice. -/
def record? (names : List String) : Json → Option (List (String × Json))
  | .array items => if items.length ≤ names.length then some (names.zip items) else none
  | .object members =>
    let known := members.filter (fun m => names.contains m.1)
    if (known.map Prod.fst).Nodup then some known else none
  | _ => none

/-- The name and the data of a variant with data. -/
def variant? : Json → Option (String × Json)
  | .object [member] => some member
  | _ => none

/-- The name of a variant without data. -/
def tag? : Json → Option String
  | .string name => some name
  | .object [(name, .null)] => some name
  | _ => none

/-- The items of an array. -/
def items? : Json → Option (List Json)
  | .array items => some items
  | _ => none

/-- The text of a string. -/
def text? : Json → Option String
  | .string s => some s
  | _ => none

/-- The value of a truth value. -/
def bool? : Json → Option Bool
  | .bool b => some b
  | _ => none

/-- An integer of 64 bits with a sign. -/
def int64? : Json → Option Int64
  | .int n =>
    if Int64.minValue.toInt ≤ n ∧ n ≤ Int64.maxValue.toInt then some (Int64.ofInt n) else none
  | _ => none

/-- An integer of 64 bits without a sign. -/
def uint64? : Json → Option UInt64
  | .int n => if 0 ≤ n ∧ n.toNat < UInt64.size then some (UInt64.ofNat n.toNat) else none
  | _ => none

/-- A float; an integer is rounded to the nearest one. -/
def float? : Json → Option Float
  | .float x => some x
  | .int n => some (if n < 0 then (Int64.ofInt n).toFloat else (UInt64.ofNat n.toNat).toFloat)
  | _ => none

/-- Decode a field that may be missing or `null`. -/
def optional? {α : Type} (decode : Json → Option α) : Option Json → Option (Option α)
  | none => some none
  | some .null => some none
  | some v => (decode v).map some

/-- Decode a field that has the value `default` when it is missing. -/
def orDefault? {α : Type} (decode : Json → Option α) (default : α) : Option Json → Option α
  | none => some default
  | some v => decode v

/-- Write an optional field. -/
def ofOption {α : Type} (encode : α → Json) : Option α → Json
  | none => .null
  | some a => encode a

/-- The value that `decode` finds in a JSON text, `none` if it is not JSON or of another shape. -/
def read? {α : Type} (decode : Json → Option α) (text : String) : Option α :=
  (parse? text).bind decode

end ThreeAddress.Json
