import Mathlib.Algebra.Order.Floor.Semiring
import Mathlib.Tactic.Linarith
import Mathlib.Tactic.Ring

/-!
# Linear interpolation

`interpolate points` joins the points of a sequence by straight lines: at a whole position it has
the point (`interpolate_natCast`), at any other it lies between the two points around it
(`le_interpolate`, `interpolate_le`). Where the points do not fall, neither does the line
(`interpolate_mono`): within a segment by its slope, across segments by the points between them.
-/

namespace PacketTrain

variable {K : Type} [Field K] [LinearOrder K] [FloorSemiring K]

/-- The value of a sequence at a position between its points. -/
def interpolate (points : ℕ → K) (position : K) : K :=
  points ⌊position⌋₊ * (1 - (position - ⌊position⌋₊)) +
    points (⌊position⌋₊ + 1) * (position - ⌊position⌋₊)

/-- Within a segment the value moves from its first point along the slope. -/
theorem interpolate_eq_slope (points : ℕ → K) (x : K) :
    interpolate points x = points ⌊x⌋₊ + (points (⌊x⌋₊ + 1) - points ⌊x⌋₊) * (x - ⌊x⌋₊) := by
  rw [interpolate]
  ring

variable [IsStrictOrderedRing K]

@[simp] theorem interpolate_natCast (points : ℕ → K) (n : ℕ) : interpolate points n = points n := by
  rw [interpolate_eq_slope, Nat.floor_natCast, sub_self, mul_zero, add_zero]

theorem le_interpolate {points : ℕ → K} (hpoints : Monotone points) {x : K} (hx : 0 ≤ x) :
    points ⌊x⌋₊ ≤ interpolate points x := by
  have hslope := sub_nonneg.mpr (hpoints (Nat.le_succ ⌊x⌋₊))
  have hweight : 0 ≤ x - ⌊x⌋₊ := sub_nonneg.mpr (Nat.floor_le hx)
  rw [interpolate_eq_slope]
  exact le_add_of_nonneg_right (mul_nonneg hslope hweight)

theorem interpolate_le {points : ℕ → K} (hpoints : Monotone points) (x : K) :
    interpolate points x ≤ points (⌊x⌋₊ + 1) := by
  have hslope := sub_nonneg.mpr (hpoints (Nat.le_succ ⌊x⌋₊))
  have hweight : x - ⌊x⌋₊ ≤ 1 := by
    have hfloor := Nat.lt_floor_add_one x
    linarith
  have hstep := mul_le_of_le_one_right hslope hweight
  rw [interpolate_eq_slope]
  linarith

/-- THE LINE DOES NOT FALL where its points do not. -/
theorem interpolate_mono {points : ℕ → K} (hpoints : Monotone points) {x y : K} (hx : 0 ≤ x)
    (hxy : x ≤ y) : interpolate points x ≤ interpolate points y := by
  rcases lt_or_eq_of_le (Nat.floor_mono hxy) with hlt | heq
  · -- the end of the one segment is not above the beginning of the other
    calc interpolate points x
      _ ≤ points (⌊x⌋₊ + 1) := interpolate_le hpoints x
      _ ≤ points ⌊y⌋₊ := hpoints hlt
      _ ≤ interpolate points y := le_interpolate hpoints (hx.trans hxy)
  · have hslope := sub_nonneg.mpr (hpoints (Nat.le_succ ⌊y⌋₊))
    have hstep := mul_le_mul_of_nonneg_left (sub_le_sub_right hxy (⌊y⌋₊ : K)) hslope
    rw [interpolate_eq_slope, interpolate_eq_slope, heq]
    linarith

end PacketTrain
