import ThreeAddress.Decimal.FloatStyle
import ThreeAddress.Text.Quoted

set_option autoImplicit false

/-! # Scalar types and constants

The language has four scalar types. A `Constant` is a value of one of them: what a literal of the
source tree holds, what a `literal_T` instruction carries, and what a scalar cell of the store
contains.

A constant has two text forms. `Constant.print` is what a running program prints; `Constant.render`
is what a listing shows, and differs in that strings are quoted. -/

namespace ThreeAddress

/-- A scalar type. -/
inductive ScalarType where
  | int
  | float
  | string
  | bool
deriving DecidableEq, Repr, Inhabited

namespace ScalarType

/-- Every scalar type. -/
def all : List ScalarType := [int, float, string, bool]

/-- The name of a type in opcodes, in names of temporaries and in messages. -/
def name : ScalarType → String
  | int => "int"
  | float => "float"
  | string => "string"
  | bool => "bool"

/-- The type with the given name. -/
def ofName? (s : String) : Option ScalarType := all.find? (fun t => t.name == s)

end ScalarType

/-- A value of a scalar type. Integers are 64 bits wide and wrap; floats have double precision.
    The Boolean comparison `==` treats floats as numbers, so that a NaN differs from itself;
    propositional equality tells floats apart by their bits. -/
inductive Constant where
  | int (value : Int64)
  | float (value : Float)
  | string (value : String)
  | bool (value : Bool)
deriving DecidableEq, BEq, Repr

namespace Constant

/-- The type of a constant. -/
def type : Constant → ScalarType
  | int _ => .int
  | float _ => .float
  | string _ => .string
  | bool _ => .bool

/-- The value that a freshly allocated variable holds. -/
def zero : ScalarType → Constant
  | .int => int 0
  | .float => float 0
  | .string => string ""
  | .bool => bool false

@[simp] theorem type_zero (t : ScalarType) : (zero t).type = t := by
  cases t <;> rfl

/-- Floats are printed in full, never with an exponent, and whole numbers below `10 ^ 16` keep one
    fractional digit. -/
def floatStyle : Decimal.FloatStyle where
  tie := .up
  positional := fun _ => true
  pointZero := fun point => decide (point ≤ 16)
  nan := "NaN"
  infinity := fun negative => if negative then "-inf" else "inf"

/-- The text that printing the constant writes. -/
def print : Constant → String
  | int v => toString v.toInt
  | float v => floatStyle.render v
  | string v => v
  | bool v => if v then "true" else "false"

/-- The text of the constant in a listing. -/
def render : Constant → String
  | string v => Text.quoted v
  | c => c.print

/-- The numeric value as a float; integers are rounded to the nearest one. -/
def toFloat? : Constant → Option Float
  | int v => some v.toFloat
  | float v => some v
  | _ => none

/-- The value as an element of another type. Only the two numeric types convert into each other:
    an integer to the nearest float, a float to an integer by dropping its fraction, the nearest
    bound standing in for what is out of range and zero for NaN. -/
def convert? : Constant → ScalarType → Option Constant
  | int v, .float => some (float v.toFloat)
  | float v, .int => some (int v.toInt64)
  | c, t => if c.type = t then some c else none

/-- A converted constant has the type that it is converted to. -/
theorem type_of_convert? {c c' : Constant} {type : ScalarType} (h : c.convert? type = some c') :
    c'.type = type := by
  cases c <;> cases type <;> cases h <;> rfl

end Constant

end ThreeAddress
