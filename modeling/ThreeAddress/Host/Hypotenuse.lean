import ThreeAddress.Decimal.Shortest

set_option autoImplicit false

/-! # The length of a hypotenuse

`hypotenuse x y` is the float nearest to `sqrt (x ^ 2 + y ^ 2)`. The sum of squares is formed
exactly as a natural number times a power of two, so that neither overflow nor cancellation can
spoil it, and the root is taken with one rounding. -/

namespace ThreeAddress.Host

/-- The largest `s` below `2 ^ bits`, on top of `s`, with `s ^ 2 ≤ n`. -/
def rootFrom (n : Nat) : Nat → Nat → Nat
  | 0, s => s
  | bits + 1, s =>
    let s' := s + Nat.pow 2 bits
    rootFrom n bits (if s' * s' ≤ n then s' else s)

/-- The natural number nearest to `sqrt (n / 4 ^ k)`, if that is below `2 ^ 60`. A tie goes to the
    even neighbour. -/
def nearestRoot (n k : Nat) : Nat :=
  let s := rootFrom (n / Nat.pow 4 k) 60 0
  -- the exact root is compared with `s + 1 / 2`, both sides squared and scaled by `4 ^ (k + 1)`
  match compare (4 * n) ((2 * s + 1) * (2 * s + 1) * Nat.pow 4 k) with
  | .lt => s
  | .gt => s + 1
  | .eq => if s % 2 = 0 then s else s + 1

/-- The float nearest to `sqrt (n * 4 ^ e)` for a positive `n`. The root keeps 53 bits, or fewer
    where the floats end. -/
def rootToFloat (n : Nat) (e : Int) : Float :=
  let place := max (-1074) (e + ((n.log2 / 2 : Nat) : Int) - 52)
  let shift := place - e
  let root := nearestRoot (n * Nat.pow 4 (-shift).toNat) shift.toNat
  (root.toUInt64.toFloat).scaleB place

/-- The sum of the squares of two magnitudes, as a multiple of a power of four. -/
def sumOfSquares (a b : Decimal.Binary) : Nat × Int :=
  let e := min a.exponent b.exponent
  let m := a.mantissa * Nat.pow 2 (a.exponent - e).toNat
  let n := b.mantissa * Nat.pow 2 (b.exponent - e).toNat
  (m * m + n * n, e)

/-- The float nearest to the length of the hypotenuse over `x` and `y`. It is infinite as soon as
    one of them is. -/
def hypotenuse (x y : Float) : Float :=
  match Decimal.Parts.ofFloat x, Decimal.Parts.ofFloat y with
  | .infinite _, _ => x.abs
  | _, .infinite _ => y.abs
  | .nan, _ => x
  | _, .nan => y
  | .zero _, _ => y.abs
  | _, .zero _ => x.abs
  | .finite _ a, .finite _ b =>
    let (n, e) := sumOfSquares a b
    rootToFloat n e

end ThreeAddress.Host
