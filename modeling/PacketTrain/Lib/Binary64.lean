import Mathlib.Data.Int.Log
import PacketTrain.Lib.Rounding

/-!
# Doubles

The double nearest to a rational, as a reader of numerals and a multiplication give it: a multiple of the
unit in the last of 53 binary places, ties to even. It is off by at most one part in `2 ^ 53`
(`abs_toDouble_sub_le`), so a number of some decimals is found again by rounding to as many
(`roundTo_toDouble`).

There is no largest double here: from `2 ^ 1024` on a reader says infinity, which is no rational.
-/

namespace PacketTrain.Binary64

/-- The exponent of the unit in the last place, the least one for the subnormal values. -/
def unitExponent (q : ℚ) : ℤ := max (Int.log 2 |q| - 52) (-1074)

/-- The nearest double. -/
def toDouble (q : ℚ) : ℚ := halfEven (q / 2 ^ unitExponent q) * 2 ^ unitExponent q

@[simp] theorem toDouble_zero : toDouble 0 = 0 := by
  rw [toDouble, zero_div, ← Int.cast_zero, halfEven_intCast, Int.cast_zero, zero_mul]

/-- The error is half a unit. -/
theorem abs_toDouble_sub_le_unit (q : ℚ) : |toDouble q - q| ≤ 2 ^ unitExponent q / 2 := by
  have hpos : (0 : ℚ) < 2 ^ unitExponent q := zpow_pos (by norm_num) _
  have herr := abs_halfEven_sub_le (q / 2 ^ unitExponent q)
  have hscale : toDouble q - q =
      (halfEven (q / 2 ^ unitExponent q) - q / 2 ^ unitExponent q) * 2 ^ unitExponent q := by
    rw [toDouble, sub_mul, div_mul_cancel₀ q hpos.ne']
  rw [hscale, abs_mul, abs_of_pos hpos]
  linarith [mul_le_mul_of_nonneg_right herr hpos.le]

/-- Above the subnormal values the error is one part in `2 ^ 53`. -/
theorem abs_toDouble_sub_le {q : ℚ} (h : 2 ^ (-1022 : ℤ) ≤ |q|) : |toDouble q - q| ≤ |q| / 2 ^ 53 := by
  have hpos : 0 < |q| := lt_of_lt_of_le (zpow_pos (by norm_num) _) h
  have hlog : (-1022 : ℤ) ≤ Int.log 2 |q| := by
    apply (Int.zpow_le_iff_le_log (by norm_num) hpos).mp
    exact_mod_cast h
  have hunit : unitExponent q = Int.log 2 |q| - 52 := max_eq_left (by omega)
  have hself : (2 : ℚ) ^ Int.log 2 |q| ≤ |q| := by
    exact_mod_cast Int.zpow_log_le_self (by norm_num) hpos
  refine (abs_toDouble_sub_le_unit q).trans ?_
  rw [hunit, zpow_sub₀ (by norm_num), div_div]
  have htwo : (2 : ℚ) ^ (52 : ℤ) * 2 = 2 ^ 53 := by norm_num
  rw [htwo]
  gcongr

/-- A number of some decimals is the double's rounding to as many, as long as they are in its reach. -/
theorem roundTo_toDouble {digits : ℕ} {q : ℚ} {n : ℤ} (hq : q = n / 10 ^ digits)
    (h : 2 ^ (-1022 : ℤ) ≤ |q|) (hreach : |q| * (2 * 10 ^ digits) < 2 ^ 53) :
    roundTo digits (toDouble q) = q := by
  refine roundTo_of_near hq ((abs_toDouble_sub_le h).trans_lt ?_)
  rw [div_lt_iff₀ (by positivity), div_div, div_mul_eq_mul_div, one_mul, lt_div_iff₀ (by positivity)]
  exact hreach

end PacketTrain.Binary64
