import Mathlib.Data.Rat.Floor
import ThreeAddress.Machine.Operation

set_option autoImplicit false

/-! # Division rounds toward negative infinity

`floorDiv` starts from the quotient that words have, which is rounded toward zero, and takes one off
where that lies above the exact quotient. The main statement `floorDiv_rounds_down` says that the
outcome is the floor of the exact quotient for all operands, that taking one off never overflows,
and that only the least integer divided by minus one has a floor that is no word.

The argument goes through the integers: there the corrected quotient is `Int.fdiv`
(`fdiv_eq_tdiv_sub`), which is the floor (`floor_div_eq_fdiv`). Division and subtraction commute
with the reduction to words, so that no bounds are needed until the question is whether the floor
fits (`toInt_ofInt_exactFloor_ne_iff`). -/

namespace ThreeAddress

/-! ## Rounding down among the integers -/

theorem floor_div_eq_fdiv_of_nonneg (a : Int) {b : Int} (hb : 0 ≤ b) :
    ⌊(a : ℚ) / b⌋ = a.fdiv b := by
  rw [Int.floor_div_cast_of_nonneg hb, Int.floor_intCast, Int.fdiv_eq_ediv_of_nonneg a hb]

theorem floor_div_eq_fdiv (a b : Int) : ⌊(a : ℚ) / b⌋ = a.fdiv b := by
  rcases Int.le_total 0 b with hb | hb
  · exact floor_div_eq_fdiv_of_nonneg a hb
  · calc ⌊(a : ℚ) / b⌋ = ⌊((-a : Int) : ℚ) / (-b : Int)⌋ := by
          rw [Int.cast_neg, Int.cast_neg, neg_div_neg_eq]
      _ = (-a).fdiv (-b) := floor_div_eq_fdiv_of_nonneg (-a) (Int.neg_nonneg_of_nonpos hb)
      _ = a.fdiv b := Int.neg_fdiv_neg a b

/-- The quotient rounded down is one below the truncated one just if the division leaves a remainder
    and the operands differ in sign. -/
theorem fdiv_eq_tdiv_sub {a b : Int} (hb : b ≠ 0) :
    a.fdiv b = a.tdiv b - if a.tmod b ≠ 0 ∧ ¬(a < 0 ↔ b < 0) then 1 else 0 := by
  rw [Int.fdiv_eq_tdiv]
  simp only [Int.dvd_iff_tmod_eq_zero]
  rcases Int.lt_or_gt_of_ne hb with hneg | hpos
  · rw [Int.sign_eq_neg_one_of_neg hneg]
    grind
  · rw [Int.sign_eq_one_of_pos hpos]
    grind

/-- `a` divided by `b` is `q` and leaves `r`, where the remainder takes the sign of the divisor. -/
structure LeavesRemainder (a b q r : Int) : Prop where
  eq : a = b * q + r
  sign : r = 0 ∨ r.sign = b.sign
  lt : |r| < |b|

theorem LeavesRemainder.neg {a b q r : Int} (h : LeavesRemainder a b q r) :
    LeavesRemainder (-a) (-b) q (-r) where
  eq := by rw [h.eq, Int.neg_mul, Int.neg_add]
  sign := by simpa using h.sign
  lt := by simpa using h.lt

theorem leavesRemainder_fdiv_of_pos (a : Int) {b : Int} (hb : 0 < b) :
    LeavesRemainder a b (a.fdiv b) (a.fmod b) := by
  have hle : 0 ≤ a.fmod b := Int.fmod_nonneg_of_pos a hb
  refine ⟨(Int.mul_fdiv_add_fmod a b).symm, ?_, ?_⟩
  · rcases Int.lt_or_eq_of_le hle with hr | hr
    · exact .inr (by rw [Int.sign_eq_one_of_pos hr, Int.sign_eq_one_of_pos hb])
    · exact .inl hr.symm
  · rw [abs_of_nonneg hle, abs_of_pos hb]
    exact Int.fmod_lt_of_pos a hb

theorem leavesRemainder_fdiv (a : Int) {b : Int} (hb : b ≠ 0) :
    LeavesRemainder a b (a.fdiv b) (a.fmod b) := by
  rcases Int.lt_or_gt_of_ne hb with hneg | hpos
  · have h := (leavesRemainder_fdiv_of_pos (-a) (Int.neg_pos_of_neg hneg)).neg
    rwa [Int.neg_fdiv_neg, Int.neg_fmod_neg, Int.neg_neg, Int.neg_neg, Int.neg_neg] at h
  · exact leavesRemainder_fdiv_of_pos a hpos

/-! ## Where one is taken off -/

/-- The truncated quotient lies above the exact one: the division leaves a remainder, and the
    operands differ in sign. -/
def RoundsDown (a b : Int64) : Prop := a % b ≠ 0 ∧ decide (a < 0) ≠ decide (b < 0)

instance (a b : Int64) : Decidable (RoundsDown a b) := inferInstanceAs (Decidable (_ ∧ _))

theorem floorDiv_of_ne_zero (a : Int64) {b : Int64} (hb : b ≠ 0) :
    floorDiv a b = .ok (if RoundsDown a b then a / b - 1 else a / b) := by
  rw [floorDiv, if_neg hb]
  exact (apply_ite Except.ok (RoundsDown a b) (a / b - 1) (a / b)).symm

theorem floorDiv_eq_error_iff (a b : Int64) :
    floorDiv a b = .error .divisionByZero ↔ b = 0 := by
  constructor
  · intro h
    by_contra hb
    rw [floorDiv_of_ne_zero a hb] at h
    cases h
  · rintro rfl
    rfl

theorem toInt_ne_zero {b : Int64} (hb : b ≠ 0) : b.toInt ≠ 0 := by
  rwa [← Int64.toInt_zero, Ne, Int64.toInt_inj]

theorem roundsDown_iff (a b : Int64) :
    RoundsDown a b ↔ a.toInt.tmod b.toInt ≠ 0 ∧ ¬(a.toInt < 0 ↔ b.toInt < 0) := by
  rw [RoundsDown, Ne, ← Int64.toInt_inj, Int64.toInt_mod, Int64.toInt_zero, Ne, decide_eq_decide,
    Int64.lt_iff_toInt_lt, Int64.lt_iff_toInt_lt, Int64.toInt_zero]

/-- A division that leaves a remainder has a divisor of magnitude two or more, so the quotient has
    at most half the magnitude of the dividend. -/
theorem natAbs_tdiv_le_of_roundsDown {a b : Int64} (hb : b ≠ 0) (h : RoundsDown a b) :
    (a.toInt.tdiv b.toInt).natAbs ≤ a.toInt.natAbs / 2 := by
  obtain ⟨hmod, -⟩ := (roundsDown_iff a b).mp h
  have hzero := toInt_ne_zero hb
  have hone : b.toInt ≠ 1 := by
    intro h1
    exact hmod (by rw [h1, Int.tmod_one])
  have hnegOne : b.toInt ≠ -1 := by
    intro h1
    exact hmod (by rw [h1, Int.tmod_neg, Int.tmod_one])
  rw [Int.natAbs_tdiv]
  exact Nat.div_le_div_left (by omega) (by decide)

theorem not_ssubOverflow_of_roundsDown {a b : Int64} (hb : b ≠ 0) (h : RoundsDown a b) :
    (a / b).toBitVec.ssubOverflow 1 = false := by
  have hhalf := natAbs_tdiv_le_of_roundsDown hb h
  have hlow := Int64.le_toInt a
  have hhigh := Int64.toInt_lt a
  have hquot : (a / b).toBitVec.toInt = a.toInt.tdiv b.toInt := by
    rw [Int64.toInt_toBitVec, Int64.toInt_div]
    exact Int.bmod_eq_of_le (by omega) (by omega)
  have hone : (1 : BitVec 64).toInt = 1 := rfl
  rw [BitVec.ssubOverflow, hquot, hone, Bool.or_eq_false_iff, decide_eq_false_iff_not,
    decide_eq_false_iff_not]
  constructor <;> omega

/-! ## The floor of the exact quotient -/

/-- The floor of the exact quotient of two words. -/
def exactFloor (a b : Int64) : Int := ⌊(a.toInt : ℚ) / b.toInt⌋

theorem exactFloor_eq_fdiv (a b : Int64) : exactFloor a b = a.toInt.fdiv b.toInt :=
  floor_div_eq_fdiv a.toInt b.toInt

theorem ofInt_tdiv_toInt (a b : Int64) : Int64.ofInt (a.toInt.tdiv b.toInt) = a / b := by
  rw [← Int64.toInt_inj, Int64.toInt_ofInt, Int64.toInt_div]

theorem ofInt_exactFloor (a : Int64) {b : Int64} (hb : b ≠ 0) :
    Int64.ofInt (exactFloor a b) = if RoundsDown a b then a / b - 1 else a / b := by
  rw [exactFloor_eq_fdiv, fdiv_eq_tdiv_sub (toInt_ne_zero hb)]
  simp only [← roundsDown_iff]
  split
  · rw [Int64.ofInt_sub, ofInt_tdiv_toInt]
    rfl
  · rw [Int.sub_zero, ofInt_tdiv_toInt]

theorem floorDiv_eq_floor (a : Int64) {b : Int64} (hb : b ≠ 0) :
    floorDiv a b = .ok (Int64.ofInt (exactFloor a b)) := by
  rw [floorDiv_of_ne_zero a hb, ofInt_exactFloor a hb]

example : floorDiv (-7) 2 = .ok (-4) ∧ exactFloor (-7) 2 = -4 := by decide +kernel

theorem exactFloor_leavesRemainder (a : Int64) {b : Int64} (hb : b ≠ 0) :
    ∃ r, LeavesRemainder a.toInt b.toInt (exactFloor a b) r := by
  rw [exactFloor_eq_fdiv]
  exact ⟨_, leavesRemainder_fdiv a.toInt (toInt_ne_zero hb)⟩

theorem exactFloor_bounds (a b : Int64) : -2 ^ 63 ≤ exactFloor a b ∧ exactFloor a b ≤ 2 ^ 63 := by
  have hle : (exactFloor a b).natAbs ≤ a.toInt.natAbs := by
    rw [exactFloor_eq_fdiv]
    exact Int.natAbs_fdiv_le_natAbs a.toInt b.toInt
  have hlow := Int64.le_toInt a
  have hhigh := Int64.toInt_lt a
  constructor <;> omega

theorem exactFloor_minValue_neg_one : exactFloor Int64.minValue (-1) = 2 ^ 63 := by
  rw [exactFloor_eq_fdiv]
  rfl

theorem exactFloor_eq_iff (a : Int64) {b : Int64} (hb : b ≠ 0) :
    exactFloor a b = 2 ^ 63 ↔ a = Int64.minValue ∧ b = -1 := by
  constructor
  · intro hfloor
    obtain ⟨r, hr⟩ := exactFloor_leavesRemainder a hb
    -- `b * 2 ^ 63 + r` is a word, and no `r` below `b` makes up for a divisor other than `-1`.
    have heq : a.toInt = b.toInt * 2 ^ 63 + r := hfloor ▸ hr.eq
    have hlt := hr.lt
    rw [Int.abs_eq_natAbs, Int.abs_eq_natAbs] at hlt
    have hlow := Int64.le_toInt a
    have hhigh := Int64.toInt_lt a
    have hnegOne : (-1 : Int64).toInt = -1 := rfl
    rw [← Int64.toInt_inj, ← Int64.toInt_inj, Int64.toInt_minValue, hnegOne]
    omega
  · rintro ⟨rfl, rfl⟩
    exact exactFloor_minValue_neg_one

/-- Only the least integer divided by minus one leaves the range of words. -/
theorem toInt_ofInt_exactFloor_ne_iff (a : Int64) {b : Int64} (hb : b ≠ 0) :
    (Int64.ofInt (exactFloor a b)).toInt ≠ exactFloor a b ↔ a = Int64.minValue ∧ b = -1 := by
  rw [← exactFloor_eq_iff a hb]
  obtain ⟨hlow, hhigh⟩ := exactFloor_bounds a b
  constructor
  · intro hne
    by_contra hlt
    exact hne (Int64.toInt_ofInt_of_le hlow (by omega))
  · intro hfloor
    rw [hfloor]
    decide

/-! ## Division of words -/

/-- Division fails just for the divisor zero. Otherwise one is taken off the truncated quotient
    where it is above the exact one, and this does not overflow. The outcome is the floor of the
    exact quotient, reduced to a word; the reduction matters for the least integer and minus one
    only, whose quotient is the least integer again. For all other operands the division leaves a
    remainder that takes the sign of the divisor. -/
theorem floorDiv_rounds_down (a b : Int64) :
    (floorDiv a b = .error .divisionByZero ↔ b = 0) ∧
    (b ≠ 0 →
      (RoundsDown a b →
        floorDiv a b = .ok (a / b - 1) ∧ (a / b).toBitVec.ssubOverflow 1 = false) ∧
      (¬RoundsDown a b → floorDiv a b = .ok (a / b)) ∧
      ∃ q, floorDiv a b = .ok q ∧ q = Int64.ofInt (exactFloor a b) ∧
        (q.toInt ≠ exactFloor a b ↔ a = Int64.minValue ∧ b = -1) ∧
        (a = Int64.minValue ∧ b = -1 → q = Int64.minValue) ∧
        (¬(a = Int64.minValue ∧ b = -1) → ∃ r, LeavesRemainder a.toInt b.toInt q.toInt r)) := by
  refine ⟨floorDiv_eq_error_iff a b, fun hb => ⟨?_, ?_, _, floorDiv_eq_floor a hb, rfl, ?_, ?_, ?_⟩⟩
  · intro h
    exact ⟨by rw [floorDiv_of_ne_zero a hb, if_pos h], not_ssubOverflow_of_roundsDown hb h⟩
  · intro h
    rw [floorDiv_of_ne_zero a hb, if_neg h]
  · exact toInt_ofInt_exactFloor_ne_iff a hb
  · rintro ⟨rfl, rfl⟩
    rw [exactFloor_minValue_neg_one]
    rfl
  · intro h
    rw [not_ne_iff.mp (mt (toInt_ofInt_exactFloor_ne_iff a hb).mp h)]
    exact exactFloor_leavesRemainder a hb

/-- The least integer divided by three: one is taken off without an overflow. -/
theorem floorDiv_rounds_down_least :
    (3 : Int64) ≠ 0 ∧ RoundsDown Int64.minValue 3 ∧
    ¬(Int64.minValue = Int64.minValue ∧ (3 : Int64) = -1) ∧
    floorDiv Int64.minValue 3 = .ok (Int64.minValue / 3 - 1) ∧
    (Int64.minValue / 3).toBitVec.ssubOverflow 1 = false ∧
    ∃ q r, floorDiv Int64.minValue 3 = .ok q ∧
      LeavesRemainder Int64.minValue.toInt 3 q.toInt r := by
  have hzero : (3 : Int64) ≠ 0 := by decide
  have hround : RoundsDown Int64.minValue 3 := by decide
  have hother : ¬(Int64.minValue = Int64.minValue ∧ (3 : Int64) = -1) := by decide
  obtain ⟨hdown, -, q, hq, -, -, -, hrem⟩ := (floorDiv_rounds_down Int64.minValue 3).2 hzero
  obtain ⟨r, hr⟩ := hrem hother
  exact ⟨hzero, hround, hother, (hdown hround).1, (hdown hround).2, q, r, hq, hr⟩

end ThreeAddress
