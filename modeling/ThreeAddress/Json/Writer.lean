import ThreeAddress.Decimal.FloatStyle
import ThreeAddress.Json.Basic

set_option autoImplicit false

/-! # Writing JSON

Two layouts of a JSON tree: `Json.compact` without any blanks, and `Json.indented` with one item or
member per line and two blanks per level. -/

namespace ThreeAddress.Json

/-- Floats from `10 ^ (-5)` up to `10 ^ 16` are written out with at least one fractional digit, the
    others with a power of ten. JSON has no word for what is not finite. -/
def floatStyle : Decimal.FloatStyle where
  tie := .even
  positional := fun point => decide (-4 ≤ point ∧ point ≤ 16)
  pointZero := fun _ => true
  nan := "null"
  infinity := fun _ => "null"

/-- How a character is written in a string literal. -/
def escaped (c : Char) : String :=
  match c with
  | '"' => "\\\""
  | '\\' => "\\\\"
  | '\x08' => "\\b"
  | '\x0c' => "\\f"
  | '\n' => "\\n"
  | '\r' => "\\r"
  | '\t' => "\\t"
  | c =>
    if c.toNat < 0x10 then "\\u000" ++ String.ofList (Nat.toDigits 16 c.toNat)
    else if c.toNat < 0x20 then "\\u00" ++ String.ofList (Nat.toDigits 16 c.toNat)
    else c.toString

/-- The string literal of a text. -/
def literal (s : String) : String := "\"" ++ String.join (s.toList.map escaped) ++ "\""

mutual

/-- The text of a tree, without blanks. -/
def compact : Json → String
  | .null => "null"
  | .bool v => if v then "true" else "false"
  | .int v => toString v
  | .float v => floatStyle.render v
  | .string v => literal v
  | .array items => "[" ++ ",".intercalate (compactItems items) ++ "]"
  | .object members => "\x7b" ++ ",".intercalate (compactMembers members) ++ "\x7d"
  | .unreadable => "null"

/-- The texts of the items of an array. -/
def compactItems : List Json → List String
  | [] => []
  | v :: rest => compact v :: compactItems rest

/-- The texts of the members of an object. -/
def compactMembers : List (String × Json) → List String
  | [] => []
  | (key, v) :: rest => (literal key ++ ":" ++ compact v) :: compactMembers rest

end

/-- A container with its parts on lines of their own, indented one level more than itself. -/
def spread (opening closing : String) (level : Nat) (parts : List String) : String :=
  if parts.isEmpty then opening ++ closing
  else
    let margin := String.ofList (List.replicate (2 * level) ' ')
    let inner := "\n  " ++ margin
    opening ++ inner ++ ("," ++ inner).intercalate parts ++ "\n" ++ margin ++ closing

mutual

/-- The text of a tree at the given level of indentation. -/
def indentedAt (level : Nat) : Json → String
  | .array items => spread "[" "]" level (indentedItems (level + 1) items)
  | .object members => spread "\x7b" "\x7d" level (indentedMembers (level + 1) members)
  | v => compact v

/-- The texts of the items of an array. -/
def indentedItems (level : Nat) : List Json → List String
  | [] => []
  | v :: rest => indentedAt level v :: indentedItems level rest

/-- The texts of the members of an object. -/
def indentedMembers (level : Nat) : List (String × Json) → List String
  | [] => []
  | (key, v) :: rest => (literal key ++ ": " ++ indentedAt level v) :: indentedMembers level rest

end

/-- The text of a tree, one item or member per line. -/
def indented (v : Json) : String := indentedAt 0 v

end ThreeAddress.Json
