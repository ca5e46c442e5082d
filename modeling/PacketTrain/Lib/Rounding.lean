import Mathlib.Algebra.Order.Field.Rat
import Mathlib.Data.Nat.Sqrt
import Mathlib.Data.Rat.Floor
import Mathlib.Tactic.Linarith
import Mathlib.Tactic.NormNum
import Mathlib.Tactic.Ring

/-!
# Rounding, ties to even

`round` and the formats of numbers, on exact rationals. `halfEven` is the nearest integer, the even
one of two; `roundTo` rounds to a number of decimals, `sqrtTo` rounds the square root of a rational,
`fixed2`, `fixed1` and `fixed0` print two decimals, one and none, `grouped` groups the digits of a number
by thousands.
-/

namespace PacketTrain

/-- The nearest integer, and the even one of two that are equally near. -/
def halfEven (x : ℚ) : ℤ :=
  if x - ⌊x⌋ < 1 / 2 ∨ x - ⌊x⌋ = 1 / 2 ∧ ⌊x⌋ % 2 = 0 then ⌊x⌋ else ⌊x⌋ + 1

/-- `round(x, digits)`. -/
def roundTo (digits : ℕ) (x : ℚ) : ℚ := halfEven (x * 10 ^ digits) / 10 ^ digits

/-- The nearest integer to the root of a natural number over one of a square. -/
def halfEvenSqrt (x : ℚ) : ℤ :=
  let s := Nat.sqrt ⌊x⌋.toNat
  -- the root lies in `[s, s + 1)`, and the middle of that squared is `s * s + s + 1 / 4`
  if x < s * s + s + 1 / 4 ∨ x = s * s + s + 1 / 4 ∧ s % 2 = 0 then s else s + 1

/-- `round(x ** 0.5, digits)` for a nonnegative rational. -/
def sqrtTo (digits : ℕ) (x : ℚ) : ℚ := halfEvenSqrt (x * 100 ^ digits) / 10 ^ digits

/-- `f"{x:.1f}"`. -/
def fixed1 (x : ℚ) : String :=
  let tenths := (halfEven (|x| * 10)).toNat
  (if x < 0 then "-" else "") ++ toString (tenths / 10) ++ "." ++ toString (tenths % 10)

/-- `f"{x:.0f}"`. -/
def fixed0 (x : ℚ) : String :=
  (if x < 0 then "-" else "") ++ toString (halfEven |x|).toNat

/-- `f"{x:.2f}"`, of a number that is not negative and has no further decimals. -/
def fixed2 (x : ℚ) : String :=
  let hundredths := (halfEven (x * 100)).toNat
  toString (hundredths / 100) ++ "." ++ toString (hundredths / 10 % 10) ++ toString (hundredths % 10)

/-- `f"{x:.0%}"`. -/
def percent0 (x : ℚ) : String := fixed0 (x * 100) ++ "%"

/-- The digits of a number from the last on, a comma after every third that another follows. -/
def groupDigits : List Char → List Char
  | a :: b :: c :: d :: rest => a :: b :: c :: ',' :: groupDigits (d :: rest)
  | digits => digits

/-- `f"{n:,}"`. -/
def grouped (n : ℕ) : String := String.ofList (groupDigits (toString n).toList.reverse).reverse

/-! ## The nearest integer -/

@[simp] theorem halfEven_intCast (n : ℤ) : halfEven n = n := by
  rw [halfEven, Int.floor_intCast, if_pos]
  left
  rw [sub_self]
  norm_num

/-- The error is at most one half. -/
theorem abs_halfEven_sub_le (x : ℚ) : |(halfEven x : ℚ) - x| ≤ 1 / 2 := by
  have hlo := Int.floor_le x
  have hhi := Int.lt_floor_add_one x
  rw [halfEven, abs_le]
  split
  · next h =>
    have hhalf : x - ⌊x⌋ ≤ 1 / 2 := by
      rcases h with h | h
      · exact h.le
      · exact h.1.le
    constructor <;> linarith
  · next h =>
    have hhalf : 1 / 2 ≤ x - ⌊x⌋ := by
      by_contra hlt
      exact h (.inl (lt_of_not_ge hlt))
    push_cast
    constructor <;> linarith

/-- Zero is the nearest integer exactly within one half of it: the tie goes to zero, which is even. -/
theorem halfEven_eq_zero_iff (x : ℚ) : halfEven x = 0 ↔ |x| ≤ 1 / 2 := by
  constructor
  · intro h
    have herr := abs_halfEven_sub_le x
    rw [h, Int.cast_zero, zero_sub, abs_neg] at herr
    exact herr
  · intro h
    obtain ⟨hlo, hhi⟩ := abs_le.mp h
    rw [halfEven]
    rcases lt_or_ge x 0 with hneg | hpos
    · have hfloor : ⌊x⌋ = -1 := by
        rw [Int.floor_eq_iff]
        push_cast
        constructor <;> linarith
      rw [hfloor, if_neg]
      · rfl
      · rintro (hlt | ⟨-, heven⟩)
        · push_cast at hlt
          linarith
        · exact absurd heven (by decide)
    · have hfloor : ⌊x⌋ = 0 := by
        rw [Int.floor_eq_iff]
        push_cast
        constructor <;> linarith
      rw [hfloor, if_pos]
      rcases lt_or_eq_of_le hhi with hlt | heq
      · left
        push_cast
        linarith
      · right
        rw [heq]
        norm_num

theorem roundTo_eq_zero_iff (digits : ℕ) (x : ℚ) :
    roundTo digits x = 0 ↔ |x * 10 ^ digits| ≤ 1 / 2 := by
  have hpos : (10 : ℚ) ^ digits ≠ 0 := by positivity
  rw [roundTo, div_eq_zero_iff, or_iff_left hpos, Int.cast_eq_zero, halfEven_eq_zero_iff]

/-- The error of rounding to some decimals. -/
theorem abs_roundTo_sub_le (digits : ℕ) (x : ℚ) : |roundTo digits x - x| ≤ 1 / 2 / 10 ^ digits := by
  have hpos : (0 : ℚ) < 10 ^ digits := by positivity
  have herr := abs_halfEven_sub_le (x * 10 ^ digits)
  have hscale : roundTo digits x - x = (halfEven (x * 10 ^ digits) - x * 10 ^ digits) / 10 ^ digits := by
    rw [roundTo, sub_div, mul_div_cancel_right₀ x hpos.ne']
  rw [hscale, abs_div, abs_of_pos hpos]
  exact div_le_div_of_nonneg_right herr hpos.le

/-- Rounding keeps what has no further decimals. -/
theorem roundTo_of_milli {digits : ℕ} {x : ℚ} {n : ℤ} (h : x = n / 10 ^ digits) :
    roundTo digits x = x := by
  have hpos : (10 : ℚ) ^ digits ≠ 0 := by positivity
  rw [roundTo, h, div_mul_cancel₀ _ hpos, halfEven_intCast]

/-- What is nearer than half a unit to a number without further decimals is rounded to it. -/
theorem roundTo_of_near {digits : ℕ} {x y : ℚ} {n : ℤ} (hx : x = n / 10 ^ digits)
    (h : |y - x| < 1 / 2 / 10 ^ digits) : roundTo digits y = x := by
  have hpos : (0 : ℚ) < 10 ^ digits := by positivity
  have hnear : |y * 10 ^ digits - n| < 1 / 2 := by
    have hscale : y * 10 ^ digits - n = (y - x) * 10 ^ digits := by
      rw [hx, sub_mul, div_mul_cancel₀ _ hpos.ne']
    rw [hscale, abs_mul, abs_of_pos hpos]
    exact (lt_div_iff₀ hpos).mp h
  have hround := abs_halfEven_sub_le (y * 10 ^ digits)
  rw [abs_lt] at hnear
  rw [abs_le] at hround
  have hlo : ((halfEven (y * 10 ^ digits) : ℤ) : ℚ) < n + 1 := by linarith
  have hhi : (n : ℚ) < halfEven (y * 10 ^ digits) + 1 := by linarith
  have heq : halfEven (y * 10 ^ digits) = n := by
    have hlo : halfEven (y * 10 ^ digits) < n + 1 := by exact_mod_cast hlo
    have hhi : n < halfEven (y * 10 ^ digits) + 1 := by exact_mod_cast hhi
    omega
  rw [roundTo, heq, hx]

/-- A rounded number has no further decimals. -/
theorem roundTo_milli (digits : ℕ) (x : ℚ) : ∃ n : ℤ, roundTo digits x = n / 10 ^ digits :=
  ⟨_, rfl⟩

theorem floor_le_halfEven (x : ℚ) : ⌊x⌋ ≤ halfEven x ∧ halfEven x ≤ ⌊x⌋ + 1 := by
  rw [halfEven]
  split <;> omega

/-- Rounding is monotone. -/
theorem halfEven_mono {x y : ℚ} (h : x ≤ y) : halfEven x ≤ halfEven y := by
  obtain ⟨-, hx⟩ := floor_le_halfEven x
  obtain ⟨hy, -⟩ := floor_le_halfEven y
  rcases lt_or_eq_of_le (Int.floor_le_floor h) with hlt | heq
  · omega
  · -- with one floor, the fractions decide
    rw [halfEven, halfEven, ← heq]
    split
    · split <;> omega
    · next hup =>
      rw [if_neg]
      rintro (hlt | ⟨hmid, heven⟩)
      · exact hup (.inl (by linarith))
      · rcases lt_or_eq_of_le (show x - ⌊x⌋ ≤ 1 / 2 by linarith) with hlt | hmid
        · exact hup (.inl hlt)
        · exact hup (.inr ⟨hmid, heven⟩)

/-- An even number added before rounding is added after: ties stay ties to the same side. -/
theorem halfEven_add_even (x : ℚ) {n : ℤ} (h : n % 2 = 0) : halfEven (x + n) = halfEven x + n := by
  have hfloor : ⌊x + n⌋ = ⌊x⌋ + n := Int.floor_add_intCast x n
  have hfraction : x + n - (⌊x⌋ + n : ℤ) = x - ⌊x⌋ := by
    push_cast
    ring
  have heven : (⌊x⌋ + n) % 2 = ⌊x⌋ % 2 := by omega
  rw [halfEven, halfEven, hfloor, hfraction, heven]
  split
  · rfl
  · ring

theorem roundTo_mono (digits : ℕ) {x y : ℚ} (h : x ≤ y) : roundTo digits x ≤ roundTo digits y := by
  have hpos : (0 : ℚ) < 10 ^ digits := by positivity
  refine div_le_div_of_nonneg_right ?_ hpos.le
  exact_mod_cast halfEven_mono (mul_le_mul_of_nonneg_right h hpos.le)

/-- A rounded share is a share. -/
theorem roundTo_share (digits : ℕ) {x : ℚ} (h0 : 0 ≤ x) (h1 : x ≤ 1) :
    0 ≤ roundTo digits x ∧ roundTo digits x ≤ 1 := by
  have hpos : (10 : ℚ) ^ digits ≠ 0 := by positivity
  have hzero : roundTo digits 0 = 0 := @roundTo_of_milli digits 0 0 (by simp)
  have hone : roundTo digits 1 = 1 := @roundTo_of_milli digits 1 (10 ^ digits) (by simp [hpos])
  have hlo := roundTo_mono digits h0
  have hhi := roundTo_mono digits h1
  rw [hzero] at hlo
  rw [hone] at hhi
  exact ⟨hlo, hhi⟩

end PacketTrain
