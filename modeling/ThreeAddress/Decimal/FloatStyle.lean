import ThreeAddress.Decimal.Shortest

set_option autoImplicit false

/-! # Text forms of floats

A `FloatStyle` lists what distinguishes one text form of floats from another: up to which magnitude
numbers are written out positionally, which whole numbers keep a `.0`, how ties between shortest
decimals fall, and the words for what is not finite. Zero is `0.0` or `-0.0` in every style. -/

namespace ThreeAddress.Decimal

/-- The decisions of one text form. Magnitudes are positions of the decimal point, so that a number
    in `[1, 10)` has magnitude 1. -/
structure FloatStyle where
  /-- Which of two equally near shortest decimals is written. -/
  tie : Tie
  /-- Whether a number of this magnitude is written without an exponent. -/
  positional : Int → Bool
  /-- Whether a whole number of this magnitude, written positionally, ends in `.0`. -/
  pointZero : Int → Bool
  /-- The word for what is not a number. -/
  nan : String
  /-- The word for an infinity, given whether it is negative. -/
  infinity : Bool → String

/-- Digits with the point put in place: zeros stand in for what the coefficient does not reach, and
    a whole number ends in `.0` if `pointZero` asks for it. -/
def Scientific.writeOut (s : Scientific) (pointZero : Bool) : String :=
  let digits := s.digits
  if 0 ≤ s.exponent then
    let whole := String.ofList (digits ++ List.replicate s.exponent.toNat '0')
    if pointZero then whole ++ ".0" else whole
  else if 0 < s.point then
    let split := s.point.toNat
    String.ofList (digits.take split) ++ "." ++ String.ofList (digits.drop split)
  else
    "0." ++ String.ofList (List.replicate (-s.point).toNat '0' ++ digits)

/-- One digit, the others behind a point, and the power of ten with its sign. -/
def Scientific.writePower (s : Scientific) : String :=
  let power := s.point - 1
  let mark := if power < 0 then "e-" else "e+"
  let lead := String.ofList (s.digits.take 1)
  let rest := s.digits.drop 1
  let mantissa := if rest.isEmpty then lead else lead ++ "." ++ String.ofList rest
  mantissa ++ mark ++ toString power.natAbs

/-- The text of a positive number in the given style. -/
def FloatStyle.renderMagnitude (style : FloatStyle) (b : Binary) : String :=
  let s := shortest style.tie b
  if style.positional s.point then s.writeOut (style.pointZero s.point) else s.writePower

/-- The text of a float in the given style. -/
def FloatStyle.render (style : FloatStyle) (x : Float) : String :=
  match Parts.ofFloat x with
  | .nan => style.nan
  | .infinite negative => style.infinity negative
  | .zero negative => if negative then "-0.0" else "0.0"
  | .finite negative b =>
    if negative then "-" ++ style.renderMagnitude b else style.renderMagnitude b

end ThreeAddress.Decimal
