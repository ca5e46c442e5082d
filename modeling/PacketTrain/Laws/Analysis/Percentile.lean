import Mathlib.Data.List.GetD
import Mathlib.Data.List.Pairwise
import PacketTrain.Laws.Analysis.Rtt
import PacketTrain.Lib.Interpolation

/-!
# Samples and percentiles

`_samples` counts every packet once, as a sample or under one reason (`samples_conserved`).
`_percentile` reads a sorted list as the points of a line (`percentile_eq`), always within the list
(`percentile_reads`), so percentiles do not fall and stay between the first sample and the last
(`percentile_mono`, `percentile_between`). Rounding keeps that order in the response
(`rttDistribution_ordered`).
-/

namespace PacketTrain.Analysis

/-! ## Conservation -/

/-- The rejections of all reasons. -/
def Rejected.total (r : Rejected) : ℕ :=
  r.missing + r.retransmittedAck + r.idleGap + r.sliced + Rejected.implausible r

theorem length_sampleLoop (previous : Option ℚ) (group : List FlowPacket) :
    (sampleLoop previous group).length = group.length := by
  induction group generalizing previous with
  | nil => rfl
  | cons p rest ih => rw [sampleLoop, List.length_cons, ih, List.length_cons]

/-- What is not accepted is counted under one reason. -/
theorem length_filterMap_rtt (found : List Sample) :
    (found.filterMap Sample.rtt).length +
      (found.count .missing + found.count .retransmittedAck + found.count .idleGap +
        found.count .sliced + found.count Sample.implausible) = found.length := by
  induction found with
  | nil => rfl
  | cons s rest ih =>
    rw [List.length_cons, ← ih]
    cases s with
    | accepted rttMs =>
      rw [List.filterMap_cons_some (rfl : Sample.rtt (.accepted rttMs) = some rttMs),
        List.length_cons]
      simp only [List.count_cons, beq_iff_eq, reduceCtorEq, if_false]
      omega
    | _ =>
      rw [List.filterMap_cons_none rfl]
      simp only [List.count_cons, beq_iff_eq, reduceCtorEq, if_true, if_false]
      omega

/-- No packet is lost between the samples and the rejections. -/
theorem samples_conserved (group : List FlowPacket) :
    (samples group).1.length + (samples group).2.total = group.length := by
  rw [← length_sampleLoop none group]
  exact length_filterMap_rtt _

/-! ## The line through the samples -/

/-- The index of the sample at or before a fraction: `int(position)`. -/
def lowerIndex (values : List ℚ) (fraction : ℚ) : ℕ := ⌊(values.length - 1 : ℚ) * fraction⌋.toNat

/-- The index of the one after it, or of the last one. -/
def upperIndex (values : List ℚ) (fraction : ℚ) : ℕ :=
  min (lowerIndex values fraction + 1) (values.length - 1)

/-- The samples as the points of a line, which goes on level behind the last one. -/
def samplePoints (values : List ℚ) (i : ℕ) : ℚ := values.getD (min i (values.length - 1)) 0

theorem samplePoints_eq {values : List ℚ} {i : ℕ} (hi : i < values.length) :
    samplePoints values i = values[i] := by
  have hmin : min i (values.length - 1) = i := by omega
  rw [samplePoints, hmin, List.getD_eq_getElem _ _ hi]

theorem samplePoints_mono {values : List ℚ} (hsorted : values.Pairwise (· ≤ ·)) :
    Monotone (samplePoints values) := by
  intro i j hij
  cases values with
  | nil => exact le_rfl
  | cons value rest =>
    have hi : min i rest.length < (value :: rest).length := by simp
    have hj : min j rest.length < (value :: rest).length := by simp
    show (value :: rest).getD (min i rest.length) 0 ≤ (value :: rest).getD (min j rest.length) 0
    rw [List.getD_eq_getElem _ _ hi, List.getD_eq_getElem _ _ hj]
    exact hsorted.rel_get_of_le (a := ⟨_, hi⟩) (b := ⟨_, hj⟩) (min_le_min_right _ hij)

theorem lastIndex_nonneg {values : List ℚ} (hne : values ≠ []) : (0 : ℚ) ≤ values.length - 1 :=
  sub_nonneg.mpr (by exact_mod_cast List.length_pos_iff.mpr hne)

/-- A fraction of the list is a position in it. -/
theorem position_bounds {values : List ℚ} (hne : values ≠ []) {fraction : ℚ} (h0 : 0 ≤ fraction)
    (h1 : fraction ≤ 1) :
    0 ≤ (values.length - 1 : ℚ) * fraction ∧
      (values.length - 1 : ℚ) * fraction ≤ (values.length - 1 : ℕ) := by
  have hlength : 1 ≤ values.length := List.length_pos_iff.mpr hne
  have hlast := lastIndex_nonneg hne
  rw [Nat.cast_sub hlength, Nat.cast_one]
  exact ⟨mul_nonneg hlast h0, mul_le_of_le_one_right hlast h1⟩

theorem lowerIndex_eq_floor (values : List ℚ) (fraction : ℚ) :
    lowerIndex values fraction = ⌊(values.length - 1 : ℚ) * fraction⌋₊ :=
  Int.floor_toNat _

/-- Both indices are in range. -/
theorem index_lt {values : List ℚ} (hne : values ≠ []) {fraction : ℚ} (h0 : 0 ≤ fraction)
    (h1 : fraction ≤ 1) :
    lowerIndex values fraction < values.length ∧ upperIndex values fraction < values.length := by
  have hlength : 1 ≤ values.length := List.length_pos_iff.mpr hne
  have hfloor := Nat.floor_mono (position_bounds hne h0 h1).2
  rw [Nat.floor_natCast, ← lowerIndex_eq_floor] at hfloor
  rw [upperIndex]
  omega

/-- The percentile is the value of the line at its position. -/
theorem percentile_eq {values : List ℚ} (hne : values ≠ []) {fraction : ℚ} (h0 : 0 ≤ fraction)
    (h1 : fraction ≤ 1) :
    percentile values fraction =
      some (interpolate (samplePoints values) ((values.length - 1 : ℚ) * fraction)) := by
  obtain ⟨hlower, -⟩ := index_lt hne h0 h1
  match values with
  | [value] =>
    have hzero : (([value].length : ℚ) - 1) * fraction = (0 : ℕ) := by simp
    rw [hzero, interpolate_natCast]
    rfl
  | first :: second :: rest =>
    rw [interpolate, ← lowerIndex_eq_floor, samplePoints_eq hlower,
      ← List.getD_eq_getElem _ 0 hlower]
    rfl

/-- Both reads find a sample, and the percentile is the mean of the two by the weight. -/
theorem percentile_reads {values : List ℚ} (hne : values ≠ []) {fraction : ℚ} (h0 : 0 ≤ fraction)
    (h1 : fraction ≤ 1) :
    ∃ lower ∈ values[lowerIndex values fraction]?, ∃ upper ∈ values[upperIndex values fraction]?,
      percentile values fraction =
        some (lower * (1 - ((values.length - 1) * fraction - lowerIndex values fraction)) +
          upper * ((values.length - 1) * fraction - lowerIndex values fraction)) := by
  obtain ⟨hlower, hupper⟩ := index_lt hne h0 h1
  refine ⟨_, List.getElem?_eq_getElem hlower, _, List.getElem?_eq_getElem hupper, ?_⟩
  rw [percentile_eq hne h0 h1, interpolate, ← lowerIndex_eq_floor, samplePoints_eq hlower,
    ← List.getD_eq_getElem _ 0 hupper]
  rfl

/-! ## Order -/

theorem samplePoints_first {values : List ℚ} (hne : values ≠ []) :
    samplePoints values 0 = values.head hne := by
  rw [samplePoints_eq (List.length_pos_iff.mpr hne), List.head_eq_getElem]

theorem samplePoints_last {values : List ℚ} (hne : values ≠ []) :
    samplePoints values (values.length - 1) = values.getLast hne := by
  have hlength := List.length_pos_iff.mpr hne
  rw [samplePoints_eq (by omega), List.getLast_eq_getElem]

/-- Percentiles do not fall. -/
theorem percentile_mono {values : List ℚ} (hne : values ≠ []) (hsorted : values.Pairwise (· ≤ ·))
    {f g : ℚ} (h0 : 0 ≤ f) (hfg : f ≤ g) (h1 : g ≤ 1) :
    ∃ x ∈ percentile values f, ∃ y ∈ percentile values g, x ≤ y := by
  obtain ⟨hpos, -⟩ := position_bounds hne h0 (hfg.trans h1)
  have hle := mul_le_mul_of_nonneg_left hfg (lastIndex_nonneg hne)
  refine ⟨_, percentile_eq hne h0 (hfg.trans h1), _, percentile_eq hne (h0.trans hfg) h1, ?_⟩
  exact interpolate_mono (samplePoints_mono hsorted) hpos hle

theorem percentile_zero {values : List ℚ} (hne : values ≠ []) :
    percentile values 0 = some (values.head hne) := by
  have hposition : (values.length - 1 : ℚ) * 0 = (0 : ℕ) := by simp
  rw [percentile_eq hne le_rfl zero_le_one, hposition, interpolate_natCast, samplePoints_first hne]

theorem percentile_one {values : List ℚ} (hne : values ≠ []) :
    percentile values 1 = some (values.getLast hne) := by
  have hlength : 1 ≤ values.length := List.length_pos_iff.mpr hne
  have hposition : (values.length - 1 : ℚ) * 1 = (values.length - 1 : ℕ) := by
    rw [mul_one, Nat.cast_sub hlength, Nat.cast_one]
  rw [percentile_eq hne zero_le_one le_rfl, hposition, interpolate_natCast, samplePoints_last hne]

/-- A percentile lies between the first sample, at fraction 0, and the last, at fraction 1. -/
theorem percentile_between {values : List ℚ} (hne : values ≠ []) (hsorted : values.Pairwise (· ≤ ·))
    {fraction : ℚ} (h0 : 0 ≤ fraction) (h1 : fraction ≤ 1) :
    ∀ x ∈ percentile values fraction, values.head hne ≤ x ∧ x ≤ values.getLast hne := by
  intro x hx
  obtain ⟨lo, hlo, x', hx', hle⟩ := percentile_mono hne hsorted le_rfl h0 h1
  obtain ⟨x'', hx'', hi, hhi, hge⟩ := percentile_mono hne hsorted h0 h1 le_rfl
  rw [Option.mem_def, percentile_zero hne] at hlo
  rw [Option.mem_def, percentile_one hne] at hhi
  cases hlo
  cases hhi
  cases Option.mem_unique hx hx'
  cases Option.mem_unique hx hx''
  exact ⟨hle, hge⟩

/-! ## The statistics -/

theorem head_le_getLast {values : List ℚ} (hne : values ≠ []) (hsorted : values.Pairwise (· ≤ ·)) :
    ∀ value ∈ values, values.head hne ≤ value ∧ value ≤ values.getLast hne :=
  fun _ hvalue => ⟨hsorted.rel_head hvalue, hsorted.rel_getLast hvalue⟩

/-- The percentiles of a sorted list, whose least and greatest samples are its first and its last:
the two reads of each are in range, and they are in order before they are rounded. -/
structure PercentilesOrdered (values : List ℚ) : Prop where
  extremes : ∀ value ∈ values, values.headD 0 ≤ value ∧ value ≤ values.getLastD 0
  reads : ∀ fraction, 0 ≤ fraction → fraction ≤ 1 →
    ∃ lower ∈ values[lowerIndex values fraction]?, ∃ upper ∈ values[upperIndex values fraction]?,
      percentile values fraction =
        some (lower * (1 - ((values.length - 1) * fraction - lowerIndex values fraction)) +
          upper * ((values.length - 1) * fraction - lowerIndex values fraction))
  between : ∀ fraction, 0 ≤ fraction → fraction ≤ 1 →
    ∃ x ∈ percentile values fraction, values.headD 0 ≤ x ∧ x ≤ values.getLastD 0
  mono : ∀ f g, 0 ≤ f → f ≤ g → g ≤ 1 →
    ∃ x ∈ percentile values f, ∃ y ∈ percentile values g, x ≤ y
  statistics : ∃ median ∈ percentile values (1 / 2), ∃ p95 ∈ percentile values (95 / 100),
    values.headD 0 ≤ median ∧ median ≤ p95 ∧ p95 ≤ values.getLastD 0

theorem percentilesOrdered {values : List ℚ} (hne : values ≠ [])
    (hsorted : values.Pairwise (· ≤ ·)) : PercentilesOrdered values := by
  have hfirst : values.headD 0 = values.head hne := by
    rw [List.headD_eq_head?_getD, List.head?_eq_some_head hne, Option.getD_some]
  have hlast : values.getLastD 0 = values.getLast hne := by
    rw [List.getLastD_eq_getLast?, List.getLast?_eq_some_getLast hne, Option.getD_some]
  refine ⟨?_, fun _ => percentile_reads hne, ?_, fun _ _ => percentile_mono hne hsorted, ?_⟩
  · rw [hfirst, hlast]
    exact head_le_getLast hne hsorted
  · intro fraction h0 h1
    rw [hfirst, hlast]
    have hx := percentile_eq hne h0 h1
    exact ⟨_, hx, percentile_between hne hsorted h0 h1 _ hx⟩
  · have hfractions : (1 / 2 : ℚ) ≤ 95 / 100 := by norm_num
    obtain ⟨median, hmedian, p95, hp95, hle⟩ :=
      percentile_mono hne hsorted (by norm_num) hfractions (by norm_num)
    have hmin := percentile_between hne hsorted (by norm_num) (by norm_num) median hmedian
    have hmax := percentile_between hne hsorted (by norm_num) (by norm_num) p95 hp95
    rw [hfirst, hlast]
    exact ⟨median, hmedian, p95, hp95, hmin.1, hle, hmax.2⟩

/-- The response counts every packet, and its statistics are in order after rounding too. -/
theorem rttDistribution_ordered (group : List FlowPacket) :
    (rttDistribution group).samples + (rttDistribution group).rejected.total = group.length ∧
      ∀ s ∈ (rttDistribution group).statistics,
        s.minMs ≤ s.medianMs ∧ s.medianMs ≤ s.p95Ms ∧ s.p95Ms ≤ s.maxMs := by
  have hconserved := samples_conserved group
  rw [rttDistribution]
  dsimp only
  split
  · next hempty =>
    rw [List.isEmpty_iff.mp hempty] at hconserved
    exact ⟨hconserved, fun s hs => absurd hs (Option.not_mem_none s)⟩
  · next hsome =>
    have hperm := perm_sortOn id (samples group).1
    constructor
    · rw [hperm.length_eq]
      exact hconserved
    · rintro s hs
      cases hs
      have hne : sortOn id (samples group).1 ≠ [] :=
        fun hnil => hsome (List.isEmpty_iff.mpr (hnil ▸ hperm).symm.eq_nil)
      obtain ⟨median, hmedian, p95, hp95, hmin, hle, hmax⟩ :=
        (percentilesOrdered hne (inOrder_sortOn id _)).statistics
      simp only [rttStatistics, Option.mem_def.mp hmedian, Option.mem_def.mp hp95, Option.getD_some]
      exact ⟨roundTo_mono 3 hmin, roundTo_mono 3 hle, roundTo_mono 3 hmax⟩

/-- SAMPLES ARE CONSERVED AND PERCENTILES ORDERED, and so are those of the response. -/
theorem samples_conserved_percentiles_ordered (group : List FlowPacket) {values : List ℚ}
    (hne : values ≠ []) (hsorted : values.Pairwise (· ≤ ·)) :
    (samples group).1.length + (samples group).2.total = group.length ∧ PercentilesOrdered values ∧
      (rttDistribution group).samples + (rttDistribution group).rejected.total = group.length ∧
      ∀ s ∈ (rttDistribution group).statistics,
        s.minMs ≤ s.medianMs ∧ s.medianMs ≤ s.p95Ms ∧ s.p95Ms ≤ s.maxMs :=
  ⟨samples_conserved group, percentilesOrdered hne hsorted, rttDistribution_ordered group⟩

/-- Two packets, the second after a stall, and a list of five samples. -/
theorem samples_conserved_percentiles_ordered_five :
    (samples (accountingInput (samplesApart 10) 0)).1.length +
        (samples (accountingInput (samplesApart 10) 0)).2.total =
      (accountingInput (samplesApart 10) 0).length ∧
        PercentilesOrdered [10, 20, 30, 40, 50] := by
  obtain ⟨hconserved, hordered, -⟩ := samples_conserved_percentiles_ordered
    (accountingInput (samplesApart 10) 0) (show [(10 : ℚ), 20, 30, 40, 50] ≠ [] by decide) (by decide)
  exact ⟨hconserved, hordered⟩

end PacketTrain.Analysis
