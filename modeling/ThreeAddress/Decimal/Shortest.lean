set_option autoImplicit false

/-! # Shortest decimals of floating-point numbers

Every text form of a float starts from the same decimal: of all decimals that read back as the
float, one with the fewest digits, and among those one nearest to it. A positive float is
`mantissa * 2 ^ exponent`, and the reals that round to it form an interval around it whose ends
belong to it iff the mantissa is even. The search runs over decimal grids, from one digit up to
seventeen, and takes the first grid on which a neighbour of the float lies in the interval; all
comparisons are exact, in natural numbers.

When both neighbours are equally near, the caller's `Tie` decides. -/

namespace ThreeAddress.Decimal

/-- Which of two equally near decimals to take. -/
inductive Tie where
  | up
  | even
deriving DecidableEq, Repr

/-- The positive number `coefficient * 10 ^ exponent`. -/
structure Scientific where
  coefficient : Nat
  exponent : Int
deriving DecidableEq, Repr

namespace Scientific

/-- The decimal digits of the coefficient. -/
def digits (s : Scientific) : List Char := Nat.toDigits 10 s.coefficient

/-- The position of the decimal point, counted from the left of the digits: the number lies in
    `[10 ^ (point - 1), 10 ^ point)`. -/
def point (s : Scientific) : Int := s.digits.length + s.exponent

/-- Drop up to `n` trailing zeros of the coefficient. -/
def trim : Nat → Scientific → Scientific
  | 0, s => s
  | n + 1, s =>
    if s.coefficient % 10 = 0 then trim n ⟨s.coefficient / 10, s.exponent + 1⟩ else s

end Scientific

/-! ## Floats as binary fractions -/

/-- The positive number `mantissa * 2 ^ exponent` as a float holds it. Just below a power of two
    floats lie twice as dense, which `belowDense` records. -/
structure Binary where
  mantissa : Nat
  exponent : Int
  belowDense : Bool
deriving DecidableEq, Repr

/-- A float taken apart into sign and magnitude. -/
inductive Parts where
  | nan
  | infinite (negative : Bool)
  | zero (negative : Bool)
  | finite (negative : Bool) (magnitude : Binary)
deriving DecidableEq, Repr

/-- Take a float apart by its bits: sign, eleven bits of exponent, fifty-two bits of fraction. -/
def Parts.ofFloat (x : Float) : Parts :=
  let bits : Nat := x.toBits.toNat
  let fraction : Nat := bits % Nat.pow 2 52
  let field : Nat := bits / Nat.pow 2 52 % Nat.pow 2 11
  let negative := decide (Nat.pow 2 63 ≤ bits)
  if field = 2047 then
    if fraction = 0 then .infinite negative else .nan
  else if field = 0 then
    if fraction = 0 then .zero negative else .finite negative ⟨fraction, -1074, false⟩
  else
    .finite negative
      ⟨fraction + Nat.pow 2 52, (field : Int) - 1075, decide (fraction = 0 ∧ 1 < field)⟩

/-! ## The interval of a float -/

/-- A float and the ends of its rounding interval, as fractions over one denominator. -/
structure Interval where
  lower : Nat
  centre : Nat
  upper : Nat
  denominator : Nat
  closed : Bool
deriving DecidableEq, Repr

namespace Interval

/-- The reals that round to `b`. -/
def ofBinary (b : Binary) : Interval :=
  let scale := Nat.pow 2 b.exponent.toNat
  { lower := (4 * b.mantissa - if b.belowDense then 1 else 2) * scale
    centre := 4 * b.mantissa * scale
    upper := (4 * b.mantissa + 2) * scale
    denominator := 4 * Nat.pow 2 (-b.exponent).toNat
    closed := b.mantissa % 2 = 0 }

/-- Measure the interval in units of `10 ^ place`. -/
def rescale (i : Interval) (place : Int) : Interval :=
  let shrink := Nat.pow 10 (-place).toNat
  { i with
    lower := i.lower * shrink
    centre := i.centre * shrink
    upper := i.upper * shrink
    denominator := i.denominator * Nat.pow 10 place.toNat }

/-- Whether the whole number `n` lies in the interval. -/
def holds (i : Interval) (n : Nat) : Bool :=
  let x := n * i.denominator
  if i.closed then decide (i.lower ≤ x ∧ x ≤ i.upper) else decide (i.lower < x ∧ x < i.upper)

/-- The whole number next to the centre that lies in the interval, the nearer one if both do. -/
def nearest? (i : Interval) (tie : Tie) : Option Nat :=
  let below := i.centre / i.denominator
  match i.holds below, i.holds (below + 1) with
  | true, false => some below
  | false, true => some (below + 1)
  | false, false => none
  | true, true =>
    match compare (2 * (i.centre % i.denominator)) i.denominator with
    | .lt => some below
    | .gt => some (below + 1)
    | .eq =>
      match tie with
      | .up => some (below + 1)
      | .even => some (if below % 2 = 0 then below else below + 1)

/-- The `p` with `10 ^ (p - 1) ≤ centre < 10 ^ p`. No float is below `10 ^ (-324)`. -/
def magnitude (i : Interval) : Int :=
  if i.denominator ≤ i.centre then
    (Nat.toDigits 10 (i.centre / i.denominator)).length
  else
    (Nat.toDigits 10 (i.centre * Nat.pow 10 324 / i.denominator)).length - 324

/-- The first grid with a hit, trying `digits` digits and then one more at a time. Seventeen digits
    always suffice, so the truncated centre is never the answer. -/
def search (i : Interval) (tie : Tie) (magnitude : Int) : Nat → Nat → Scientific
  | 0, digits =>
    let grid := i.rescale (magnitude - digits)
    ⟨grid.centre / grid.denominator, magnitude - digits⟩
  | fuel + 1, digits =>
    match (i.rescale (magnitude - digits)).nearest? tie with
    | some n => ⟨n, magnitude - digits⟩
    | none => search i tie magnitude fuel (digits + 1)

end Interval

/-- The shortest decimal that reads back as `b`, without trailing zeros. -/
def shortest (tie : Tie) (b : Binary) : Scientific :=
  let i := Interval.ofBinary b
  (i.search tie i.magnitude 17 1).trim 17

end ThreeAddress.Decimal
