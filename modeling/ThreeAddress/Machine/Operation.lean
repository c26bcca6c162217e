import ThreeAddress.Machine.Fault

set_option autoImplicit false

/-! # Operations on constants

What the arithmetic, unary and comparison instructions compute. Integers wrap at 64 bits and their
division rounds toward negative infinity; floats follow IEEE 754, so that a comparison with a NaN
holds only for `ne`; strings can be joined with `add` and compared by code points. -/

namespace ThreeAddress

/-! ## Arithmetic -/

/-- The quotient of two integers, rounded toward negative infinity. Only the quotient of the least
    integer and minus one does not fit and wraps around. -/
def floorDiv (a b : Int64) : Except Fault Int64 :=
  if b = 0 then .error .divisionByZero
  else
    let quotient := a / b
    if a % b ≠ 0 ∧ (decide (a < 0) ≠ decide (b < 0)) then .ok (quotient - 1) else .ok quotient

namespace ArithOp

/-- Combine two integers. -/
def onInt : ArithOp → Int64 → Int64 → Except Fault Int64
  | add, a, b => .ok (a + b)
  | sub, a, b => .ok (a - b)
  | mul, a, b => .ok (a * b)
  | div, a, b => floorDiv a b

/-- Combine two floats. -/
def onFloat : ArithOp → Float → Float → Float
  | add, a, b => a + b
  | sub, a, b => a - b
  | mul, a, b => a * b
  | div, a, b => a / b

/-- Combine two constants in an instruction of the given type. -/
def apply (op : ArithOp) (type : ScalarType) (left right : Constant) : Except Fault Constant :=
  match op, left, right with
  | op, .int a, .int b => (op.onInt a b).map .int
  | op, .float a, .float b => .ok (.float (op.onFloat a b))
  | .add, .string a, .string b => .ok (.string (a ++ b))
  | op, _, _ => .error (.unsupported (op.name ++ "_" ++ type.name) [left.type, right.type])

end ArithOp

/-! ## Signs and negation -/

/-- Apply a unary operator to a constant in an instruction of the given type. -/
def UnaryOp.apply (op : UnaryOp) (type : ScalarType) (source : Constant) :
    Except Fault Constant :=
  match op, source with
  | uadd, .int a => .ok (.int a)
  | uadd, .float a => .ok (.float a)
  | usub, .int a => .ok (.int (-a))
  | usub, .float a => .ok (.float (-a))
  | lnot, .bool a => .ok (.bool (!a))
  | op, _ => .error (.unsupported (op.name ++ "_" ++ type.name) [source.type])

/-! ## Comparison -/

/-- The order of two floats; there is none if one of them is a NaN. -/
def floatOrder? (a b : Float) : Option Ordering :=
  if a < b then some .lt
  else if a == b then some .eq
  else if b < a then some .gt
  else none

/-- The order of two constants of one type. The outer `none` is for constants of different types,
    the inner one for floats without an order. -/
def Constant.order? : Constant → Constant → Option (Option Ordering)
  | int a, int b => some (some (compare a b))
  | float a, float b => some (floatOrder? a b)
  | string a, string b => some (some (compare a b))
  | bool a, bool b => some (some (compare a b))
  | _, _ => none

namespace CompareOp

/-- Whether a comparison holds of operands in the given order. -/
def holds : CompareOp → Option Ordering → Bool
  | lt, o => o == some .lt
  | le, o => o == some .lt || o == some .eq
  | gt, o => o == some .gt
  | ge, o => o == some .gt || o == some .eq
  | eq, o => o == some .eq
  | _, o => o != some .eq

/-- Compare two constants in an instruction of the given type. The connectives take truth values
    only, the comparisons any two constants of one type. -/
def apply (op : CompareOp) (type : ScalarType) (left right : Constant) : Except Fault Bool :=
  let unsupported : Except Fault Bool :=
    .error (.unsupported ("cmp_" ++ type.name ++ " " ++ op.name) [left.type, right.type])
  match op with
  | land =>
    match left, right with
    | .bool a, .bool b => .ok (a && b)
    | _, _ => unsupported
  | lor =>
    match left, right with
    | .bool a, .bool b => .ok (a || b)
    | _, _ => unsupported
  | op =>
    match left.order? right with
    | some order => .ok (op.holds order)
    | none => unsupported

end CompareOp

/-! ## Conversion -/

/-- The constant that a value becomes where one of the given type is wanted: only the two numeric
    types convert into each other. The name is that of the cell, for the message. -/
def coerce (name : String) (v : Value) (type : ScalarType) : Except Fault Constant :=
  match v with
  | .function _ => .error (.typeMismatch name type .function)
  | .scalar c =>
    match c.convert? type with
    | some c => .ok c
    | none => .error (.typeMismatch name type (.scalar c.type))

end ThreeAddress
