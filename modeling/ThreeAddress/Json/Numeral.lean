import ThreeAddress.Json.Basic

set_option autoImplicit false

/-! # Numerals

The value of a JSON numeral. A float is read as the leading digits that fit 64 bits, rounded to a
float and then multiplied or divided by one power of ten; digits beyond those only shift the
exponent, or are dropped when they stand behind the point. -/

namespace ThreeAddress.Json

/-- A numeral as it is written: `whole` and `fraction` are decimal digits. -/
structure Numeral where
  negative : Bool
  whole : List Char
  fraction : Option (List Char)
  exponent : Option Int
deriving DecidableEq, Repr

/-- A significand below `2 ^ 64` and the power of ten it is scaled by. -/
structure Scaled where
  significand : Nat
  power : Int
deriving DecidableEq, Repr

namespace Scaled

/-- Append a digit if the significand still fits 64 bits. -/
def push? (s : Scaled) (digit : Char) : Option Scaled :=
  let significand := Nat.ofDigitChars 10 [digit] s.significand
  if significand < UInt64.size then some { s with significand } else none

/-- Take in the digits before the point; those that no longer fit count as a power of ten each. -/
def pushWhole (s : Scaled) : List Char → Scaled
  | [] => s
  | c :: rest =>
    match s.push? c with
    | some s' => pushWhole s' rest
    | none => { s with power := s.power + (rest.length + 1) }

/-- Take in the digits behind the point, up to the first that no longer fits. -/
def pushFraction (s : Scaled) : List Char → Scaled
  | [] => s
  | c :: rest =>
    match s.push? c with
    | some s' => pushFraction { s' with power := s'.power - 1 } rest
    | none => s

/-- The float `10 ^ n`. -/
def powerOfTen (n : Nat) : Float := Float.ofScientific 1 false n

/-- Divide by `10 ^ n`, in steps that stay within the range of floats. -/
def divide (x : Float) (n : Nat) : Float :=
  if n ≤ 308 then x / powerOfTen n
  else if x == 0 then x
  else divide (x / powerOfTen 308) (n - 308)
termination_by n

/-- The float that a scaled significand is read as; `none` beyond the range of floats. -/
def toFloat? (s : Scaled) : Option Float :=
  let x := s.significand.toUInt64.toFloat
  if s.power < 0 then
    some (divide x s.power.natAbs)
  else if s.power ≤ 308 then
    let y := x * powerOfTen s.power.toNat
    if y.isInf then none else some y
  else if s.significand = 0 then some x
  else none

end Scaled

namespace Numeral

/-- The significand and power of ten of a numeral, without its sign. -/
def scaled (n : Numeral) : Scaled :=
  let s := (Scaled.pushWhole ⟨0, 0⟩ n.whole).pushFraction (n.fraction.getD [])
  { s with power := s.power + n.exponent.getD 0 }

/-- The float that a numeral is read as. -/
def toFloat? (n : Numeral) : Option Float :=
  n.scaled.toFloat?.map (fun x => if n.negative then -x else x)

/-- The integer that a numeral denotes, if it has neither fraction nor exponent and lies in
    `[-2 ^ 63, 2 ^ 64)`. Minus zero is not an integer. -/
def toInt? (n : Numeral) : Option Int :=
  if n.fraction.isSome || n.exponent.isSome then none
  else
    let value := Nat.ofDigitChars 10 n.whole 0
    if n.negative then
      if 0 < value ∧ Int64.minValue.toInt ≤ -(value : Int) then some (-(value : Int)) else none
    else if value < UInt64.size then some value else none

/-- The tree of a numeral. -/
def toJson (n : Numeral) : Json :=
  match n.toInt? with
  | some i => .int i
  | none =>
    match n.toFloat? with
    | some x => .float x
    | none => .unreadable

end Numeral

end ThreeAddress.Json
