import Mathlib.Algebra.BigOperators.Ring.Finset
import Mathlib.Algebra.BigOperators.Ring.List
import PacketTrain.Lib.Ranges
import PacketTrain.Laws.Analysis.Window

/-!
# The stalled share

`receiver_window_analysis` adds up the stalls of both endpoints and divides by the length of the
capture. The stalls of one endpoint are apart, so they are no longer than the capture; those of the two
may be at once. `stalled_share_iff` says that the result is a share of the capture exactly when both
endpoints are stalled for no longer than neither is.
-/

namespace PacketTrain.Analysis

open Ranges

/-! ## Microseconds -/

/-- The microsecond that a time in milliseconds is in. -/
def micros (t : ℚ) : ℤ := ⌊t * 1000⌋

/-- The time is a whole number of microseconds. -/
def OnMicros (t : ℚ) : Prop := t = micros t / 1000

theorem micros_div (n : ℤ) : micros (n / 1000) = n := by
  rw [micros, div_mul_cancel₀ _ (by norm_num), Int.floor_intCast]

theorem onMicros_roundTo (t : ℚ) : OnMicros (roundTo 3 t) := by
  obtain ⟨n, hn⟩ := roundTo_milli 3 t
  have hthousand : (10 : ℚ) ^ 3 = 1000 := by norm_num
  rw [OnMicros, hn, hthousand, micros_div]

theorem OnMicros.le_iff {t : ℚ} (h : OnMicros t) (k : ℤ) : t ≤ k / 1000 ↔ micros t ≤ k := by
  rw [h, micros_div, div_le_div_iff_of_pos_right (by norm_num), Int.cast_le]

theorem OnMicros.lt_iff {t : ℚ} (h : OnMicros t) (k : ℤ) : (k : ℚ) / 1000 < t ↔ k < micros t := by
  rw [h, micros_div, div_lt_div_iff_of_pos_right (by norm_num), Int.cast_lt]

/-- The difference of two times needs no rounding. -/
theorem OnMicros.roundTo_sub {t u : ℚ} (ht : OnMicros t) (hu : OnMicros u) :
    roundTo 3 (t - u) = t - u := by
  have hdiff : t - u = (micros t - micros u : ℤ) / 10 ^ 3 := by
    rw [ht, hu, micros_div, micros_div]
    push_cast
    ring
  exact roundTo_of_milli hdiff

section

variable {group : List FlowPacket} {side : Side} {endMs : ℚ}

/-- Every packet is within the capture, at a whole microsecond. -/
theorem windowTimeMs_within (hstamped : Stamped group) (hend : captureEnd group = some endMs)
    {p : FlowPacket} (hp : p ∈ group) :
    OnMicros (windowTimeMs p (origin group)) ∧ 0 ≤ windowTimeMs p (origin group) ∧
      windowTimeMs p (origin group) ≤ endMs := by
  obtain ⟨first, last, horigin, hend', hwithin⟩ := capture_bounds hstamped (List.ne_nil_of_mem hp)
  obtain ⟨ts, hts⟩ := Option.isSome_iff_exists.mp (hstamped p hp)
  obtain ⟨hlo, hhi⟩ := hwithin p hp ts hts
  obtain rfl := Option.some.inj (hend.symm.trans hend')
  have htime : windowTimeMs p (origin group) = roundTo 3 ((ts - first) * 1000) := by
    simp only [windowTimeMs, hts, horigin]
  have hzero : roundTo 3 0 = 0 := (roundTo_eq_zero_iff 3 0).mpr (by norm_num)
  rw [htime]
  refine ⟨onMicros_roundTo _, ?_, ?_⟩
  · rw [← hzero]
    apply roundTo_mono
    linarith
  · apply roundTo_mono
    linarith

/-! ## The stalls of an endpoint are apart -/

/-- The end of a stall, at the latest that of the capture. -/
def Stall.stop (endMs : ℚ) (s : Stall) : ℚ := s.recoveredAt.getD endMs

/-- The stalls that are long enough to report. -/
def longStalls (group : List FlowPacket) (endMs : ℚ) (side : Side) : List Stall :=
  (sideStalls group side).filter fun s => minStallMs ≤ s.stop endMs - s.startMs

/-- The microseconds of a stall. -/
def Stall.range (endMs : ℚ) (s : Stall) : Range := (micros s.startMs, micros (s.stop endMs))

/-- A stall is within the capture, from one whole microsecond to another. -/
theorem stall_within (hstamped : Stamped group) (hend : captureEnd group = some endMs) {s : Stall}
    (hs : s ∈ sideStalls group side) :
    OnMicros s.startMs ∧ OnMicros (s.stop endMs) ∧ 0 ≤ s.startMs ∧ s.startMs ≤ s.stop endMs ∧
      s.stop endMs ≤ endMs := by
  obtain ⟨p, hp, -, hstart, hrecovered⟩ := sideStalls_sound hs
  obtain ⟨hmicros, hnonneg, hle⟩ := windowTimeMs_within hstamped hend (mem_stallPackets.mp hp).1
  rw [← hstart] at hmicros hnonneg hle
  cases hr : s.recoveredAt with
  | none =>
    have hstop : s.stop endMs = endMs := by rw [Stall.stop, hr, Option.getD_none]
    obtain ⟨_, _, -, hend', -⟩ :=
      capture_bounds hstamped (List.ne_nil_of_mem (mem_stallPackets.mp hp).1)
    obtain rfl := Option.some.inj (hend.symm.trans hend')
    rw [hstop]
    exact ⟨hmicros, onMicros_roundTo _, hnonneg, hle, le_rfl⟩
  | some r =>
    have hstop : s.stop endMs = r := by rw [Stall.stop, hr, Option.getD_some]
    rw [hr] at hrecovered
    obtain ⟨q, hq, -, -, hqtime, hlater⟩ := recoveryAfter_eq_some hrecovered.symm
    obtain ⟨hmicros', -, hle'⟩ := windowTimeMs_within hstamped hend hq
    rw [hqtime] at hmicros' hle'
    rw [hstop]
    exact ⟨hmicros, hmicros', hnonneg, hlater.le, hle'⟩

theorem apart_longStalls (group : List FlowPacket) (endMs : ℚ) (side : Side) :
    ((longStalls group endMs side).map (Stall.range endMs)).Pairwise
      fun a b => a.2 ≤ b.1 ∨ b.2 ≤ a.1 := by
  rw [List.pairwise_map]
  apply ((sideStalls_apart group side).sublist List.filter_sublist).imp
  intro s t ⟨r, hr, hle⟩
  left
  rw [Stall.range, Stall.range, Stall.stop, hr, Option.getD_some]
  exact Int.floor_le_floor (mul_le_mul_of_nonneg_right hle (by norm_num))

/-- The durations of the stalls of an endpoint add up to the microseconds in them. -/
theorem sum_longStalls (hstamped : Stamped group) (hend : captureEnd group = some endMs) (side : Side) :
    ((longStalls group endMs side).map fun s => s.stop endMs - s.startMs).sum =
      (cover ((longStalls group endMs side).map (Stall.range endMs))).card / 1000 := by
  have hproper : Proper ((longStalls group endMs side).map (Stall.range endMs)) := by
    intro r hr
    obtain ⟨s, hs, rfl⟩ := List.mem_map.mp hr
    obtain ⟨-, -, -, hle, -⟩ := stall_within hstamped hend (List.mem_filter.mp hs).1
    exact Int.floor_le_floor (mul_le_mul_of_nonneg_right hle (by norm_num))
  have heach : ∀ s ∈ longStalls group endMs side,
      s.stop endMs - s.startMs = ((s.range endMs).2 - (s.range endMs).1 : ℤ) * (1000 : ℚ)⁻¹ := by
    intro s hs
    obtain ⟨hstart, hstop, -, -, -⟩ := stall_within hstamped hend (List.mem_filter.mp hs).1
    rw [Stall.range, Int.cast_sub, ← div_eq_mul_inv, sub_div, ← hstart, ← hstop]
  have hcast : ((longStalls group endMs side).map fun s =>
      (((s.range endMs).2 - (s.range endMs).1 : ℤ) : ℚ)).sum =
        (cover ((longStalls group endMs side).map (Stall.range endMs))).card := by
    rw [← Int.cast_natCast, ← sum_eq_card hproper (apart_longStalls group endMs side),
      Int.cast_list_sum, List.map_map, List.map_map]
    rfl
  rw [List.map_congr_left heach, List.sum_map_mul_right, hcast, div_eq_mul_inv]

/-! ## When an endpoint is stalled -/

/-- Until when the window that a packet closes stays closed. -/
def closedUntil (group : List FlowPacket) (endMs : ℚ) (z : FlowPacket) : ℚ :=
  (recoveryAfter group z.direction.side (windowTimeMs z (origin group)) (origin group)).getD endMs

/-- The endpoint has closed its window, for long enough that it is reported, and not yet reopened it. -/
def StalledAt (group : List FlowPacket) (endMs : ℚ) (side : Side) (t : ℚ) : Prop :=
  ∃ z ∈ stallPackets group, z.direction.side = side ∧ windowTimeMs z (origin group) ≤ t ∧
    t < closedUntil group endMs z ∧
    minStallMs ≤ closedUntil group endMs z - windowTimeMs z (origin group)

instance (group : List FlowPacket) (endMs : ℚ) (side : Side) (t : ℚ) :
    Decidable (StalledAt group endMs side t) :=
  inferInstanceAs (Decidable (∃ z ∈ stallPackets group, _))

/-- An endpoint is stalled when a stall that is long enough goes on. -/
theorem stalledAt_iff (group : List FlowPacket) (endMs : ℚ) (side : Side) (t : ℚ) :
    StalledAt group endMs side t ↔ ∃ s ∈ longStalls group endMs side, s.startMs ≤ t ∧ t < s.stop endMs := by
  constructor
  · intro ⟨z, hz, hside, hstart, hstop, hlong⟩
    obtain ⟨s, hs, hle, hbefore⟩ := sideStalls_complete hz
    rw [hside] at hs
    obtain ⟨p, -, -, -, hrecovered⟩ := sideStalls_sound hs
    have huntil : s.stop endMs = closedUntil group endMs z := by
      have hsame := recoveryAfter_within hle fun r hr => hbefore r (hrecovered.trans hr)
      rw [Stall.stop, closedUntil, hside, hsame, hrecovered]
    refine ⟨s, List.mem_filter.mpr ⟨hs, decide_eq_true ?_⟩, hle.trans hstart, huntil ▸ hstop⟩
    rw [huntil]
    linarith
  · intro ⟨s, hs, hstart, hstop⟩
    obtain ⟨hs, hlong⟩ := List.mem_filter.mp hs
    obtain ⟨p, hp, hside, hpstart, hrecovered⟩ := sideStalls_sound hs
    have huntil : closedUntil group endMs p = s.stop endMs := by
      rw [closedUntil, hside, ← hpstart, ← hrecovered, Stall.stop]
    refine ⟨p, hp, hside, hpstart ▸ hstart, huntil ▸ hstop, ?_⟩
    rw [huntil, ← hpstart]
    exact of_decide_eq_true hlong

/-- The microseconds of the capture. -/
def captureMicros (endMs : ℚ) : Finset ℤ := cover [(0, micros endMs)]

theorem mem_captureMicros {endMs : ℚ} {k : ℤ} :
    k ∈ captureMicros endMs ↔ 0 ≤ k ∧ k < micros endMs := by
  simp [captureMicros]

/-- The microseconds at which an endpoint is stalled. -/
def stalledMicros (group : List FlowPacket) (endMs : ℚ) (side : Side) : Finset ℤ :=
  (captureMicros endMs).filter fun k => StalledAt group endMs side (k / 1000)

theorem stalledMicros_eq_cover (hstamped : Stamped group) (hend : captureEnd group = some endMs)
    (side : Side) : stalledMicros group endMs side =
      cover ((longStalls group endMs side).map (Stall.range endMs)) := by
  ext k
  rw [stalledMicros, Finset.mem_filter, stalledAt_iff, mem_cover, mem_captureMicros]
  constructor
  · intro ⟨_, s, hs, hstart, hstop⟩
    obtain ⟨hmicros, hmicros', -⟩ := stall_within hstamped hend (List.mem_filter.mp hs).1
    exact ⟨_, List.mem_map_of_mem hs, (hmicros.le_iff k).mp hstart, (hmicros'.lt_iff k).mp hstop⟩
  · intro ⟨r, hr, hlo, hhi⟩
    obtain ⟨s, hs, rfl⟩ := List.mem_map.mp hr
    obtain ⟨hmicros, hmicros', hnonneg, -, hle⟩ := stall_within hstamped hend (List.mem_filter.mp hs).1
    have h0 : 0 ≤ micros s.startMs := Int.floor_nonneg.mpr (by linarith)
    have hN : micros (s.stop endMs) ≤ micros endMs :=
      Int.floor_le_floor (mul_le_mul_of_nonneg_right hle (by norm_num))
    exact ⟨⟨h0.trans hlo, hhi.trans_le hN⟩, s, hs, (hmicros.le_iff k).mpr hlo, (hmicros'.lt_iff k).mpr hhi⟩

/-! ## The total -/

theorem durationMs_episodeOf (hstamped : Stamped group) (hend : captureEnd group = some endMs)
    {s : Stall} (hs : s ∈ sideStalls group side) (index : ℕ) :
    (episodeOf side (captureEnd group) index s).durationMs = some (s.stop endMs - s.startMs) := by
  obtain ⟨hstart, hstop, -⟩ := stall_within hstamped hend hs
  rw [← hstop.roundTo_sub hstart, episodeOf, hend, Stall.stop]
  cases s.recoveredAt <;> rfl

/-- What the two endpoints add to a sum over the endpoints that have stalls. -/
theorem sum_sidesOf {stalls : List FlowPacket} (f : Side → ℚ)
    (hnone : ∀ side, side ∉ sidesOf stalls → f side = 0) :
    ((sidesOf stalls).map f).sum = f .client + f .server := by
  cases stalls with
  | nil =>
    rw [hnone .client List.not_mem_nil, hnone .server List.not_mem_nil, add_zero]
    rfl
  | cons first rest =>
    have hboth : f .client + f .server = f first.direction.side + f first.direction.side.other := by
      cases first.direction.side with
      | client => rfl
      | server => exact add_comm _ _
    rw [hboth]
    cases hany : (first :: rest).any (·.direction.side = first.direction.side.other) with
    | true => simp [sidesOf, hany]
    | false =>
      have hother : first.direction.side.other ∉ sidesOf (first :: rest) := by
        rw [mem_sidesOf]
        intro h
        obtain ⟨p, hp, hside⟩ := h
        exact List.any_eq_false.mp hany p hp (decide_eq_true hside)
      rw [hnone _ hother]
      simp [sidesOf, hany]

/-- The durations of the episodes are those of the stalls that are long enough. -/
theorem durations_eq (hstamped : Stamped group) (hend : captureEnd group = some endMs) :
    ((allEpisodes group).filter Episode.reported).filterMap Episode.durationMs =
      (sidesOf (stallPackets group)).flatMap fun side =>
        (longStalls group endMs side).map fun s => s.stop endMs - s.startMs := by
  let duration (s : Stall) : Option ℚ :=
    if minStallMs ≤ s.stop endMs - s.startMs then some (s.stop endMs - s.startMs) else none
  have hside : ∀ side, (longStalls group endMs side).map (fun s => s.stop endMs - s.startMs) =
      (sideStalls group side).filterMap duration := by
    intro side
    rw [longStalls, ← List.filterMap_eq_map, List.filterMap_filter]
    simp only [Function.comp_apply, decide_eq_true_eq]
    rfl
  let found := (sidesOf (stallPackets group)).flatMap fun side =>
    (sideStalls group side).map fun s => (side, s)
  let report (e : (Side × Stall) × ℕ) : Episode := episodeOf e.1.1 (captureEnd group) e.2 e.1.2
  have hepisode : ∀ e ∈ found.zipIdx,
      (if (report e).reported then (report e).durationMs else none) = duration e.1.2 := by
    intro ⟨⟨side, s⟩, index⟩ he
    obtain ⟨side', -, hmem⟩ := List.mem_flatMap.mp (List.fst_mem_of_mem_zipIdx he)
    obtain ⟨s', hs, heq⟩ := List.mem_map.mp hmem
    cases heq
    simp only [report, Episode.reported, durationMs_episodeOf hstamped hend hs, decide_eq_true_eq]
    rfl
  calc
    ((allEpisodes group).filter Episode.reported).filterMap Episode.durationMs =
        found.zipIdx.filterMap fun e =>
          if (report e).reported then (report e).durationMs else none := by
      rw [List.filterMap_filter]
      exact List.filterMap_map
    _ = (found.zipIdx.map Prod.fst).filterMap fun e => duration e.2 := by
      rw [List.filterMap_congr hepisode, List.filterMap_map]
      rfl
    _ = (sidesOf (stallPackets group)).flatMap fun side => (sideStalls group side).filterMap duration := by
      rw [List.zipIdx_map_fst, List.filterMap_flatMap]
      simp only [List.filterMap_map]
      rfl
    _ = _ := by
      simp only [hside]

/-- The durations of the episodes add up to those of the stalls of either endpoint. -/
theorem sum_durations (hstamped : Stamped group) (hend : captureEnd group = some endMs) :
    ((episodes group).filterMap Episode.durationMs).sum =
      ((longStalls group endMs .client).map fun s => s.stop endMs - s.startMs).sum +
        ((longStalls group endMs .server).map fun s => s.stop endMs - s.startMs).sum := by
  have hperm : ((episodes group).filterMap Episode.durationMs).sum =
      (((allEpisodes group).filter Episode.reported).filterMap Episode.durationMs).sum :=
    ((perm_sortOn Episode.startMs _).filterMap _).sum_eq
  rw [hperm, durations_eq hstamped hend, List.flatMap_def, List.sum_flatten, List.map_map]
  apply sum_sidesOf
  intro side hside
  have hnone : longStalls group endMs side = [] := by
    rw [List.eq_nil_iff_forall_not_mem]
    intro s hs
    obtain ⟨p, hp, hpside, -⟩ := sideStalls_sound (List.mem_filter.mp hs).1
    exact hside (mem_sidesOf.mpr ⟨p, hp, hpside⟩)
  rw [Function.comp_apply, hnone]
  rfl

/-- The capture ends at a whole microsecond, not before it starts. -/
theorem captureEnd_onMicros (hstamped : Stamped group) (hend : captureEnd group = some endMs) :
    OnMicros endMs ∧ 0 ≤ endMs := by
  cases group with
  | nil => cases hend
  | cons p rest =>
    obtain ⟨_, _, -, hend', -⟩ := capture_bounds hstamped (List.cons_ne_nil p rest)
    obtain ⟨-, hnonneg, hle⟩ := windowTimeMs_within hstamped hend List.mem_cons_self
    refine ⟨?_, hnonneg.trans hle⟩
    obtain rfl := Option.some.inj (hend.symm.trans hend')
    exact onMicros_roundTo _

/-- The capture is as long as the microseconds in it. -/
theorem card_captureMicros (hstamped : Stamped group) (hend : captureEnd group = some endMs) :
    ((captureMicros endMs).card : ℚ) / 1000 = endMs := by
  obtain ⟨hmicros, hnonneg⟩ := captureEnd_onMicros hstamped hend
  have hcard : ((captureMicros endMs).card : ℤ) = micros endMs := by
    have h0 : 0 ≤ micros endMs := Int.floor_nonneg.mpr (by linarith)
    rw [captureMicros, cover_singleton, Int.card_Ico, sub_zero, Int.toNat_of_nonneg h0]
  have hcast : ((captureMicros endMs).card : ℚ) = micros endMs := by exact_mod_cast hcard
  rw [hcast, ← hmicros]

/-- Some microseconds are no longer than the capture when there are no more of them. -/
theorem micros_le_captureEnd_iff (hstamped : Stamped group) (hend : captureEnd group = some endMs)
    (n : ℕ) : (n : ℚ) / 1000 ≤ endMs ↔ n ≤ (captureMicros endMs).card := by
  have hlength := card_captureMicros hstamped hend
  have hcards : (n : ℚ) / 1000 ≤ (captureMicros endMs).card / 1000 ↔ n ≤ (captureMicros endMs).card := by
    rw [div_le_div_iff_of_pos_right (by norm_num), Nat.cast_le]
  rwa [hlength] at hcards

/-- Two parts of a set are together no larger than it when they share no more than they leave. -/
theorem card_add_card_le_iff {α : Type} [DecidableEq α] {s t u : Finset α} (hs : s ⊆ u) (ht : t ⊆ u) :
    s.card + t.card ≤ u.card ↔ (s ∩ t).card ≤ (u \ (s ∪ t)).card := by
  have hunion := Finset.card_union_add_card_inter s t
  have hrest := Finset.card_sdiff_add_card_eq_card (Finset.union_subset hs ht)
  omega

/-! ## The share -/

/-- What an analysis tells of the stalled time is a share of the capture. -/
structure IsShare (group : List FlowPacket) : Prop where
  fraction : ∀ share ∈ (receiverWindowAnalysis group).stalledFraction, 0 ≤ share ∧ share ≤ 1
  total : ∀ endMs ∈ captureEnd group, (receiverWindowAnalysis group).totalStalledMs ≤ endMs

theorem receiverWindowAnalysis_sum (hstalls : stallPackets group ≠ [])
    (hend : captureEnd group = some endMs) :
    (receiverWindowAnalysis group).totalStalledMs =
      roundTo 3 ((episodes group).filterMap Episode.durationMs).sum ∧
    (receiverWindowAnalysis group).stalledFraction =
      if 0 < endMs then some (roundTo 4 (((episodes group).filterMap Episode.durationMs).sum / endMs))
      else none := by
  rw [receiverWindowAnalysis, if_neg (mt List.isEmpty_iff.mp hstalls), hend]
  exact ⟨rfl, rfl⟩

/-- The durations add up to a whole number of microseconds. -/
theorem sum_durations_eq_card (hstamped : Stamped group) (hend : captureEnd group = some endMs) :
    ((episodes group).filterMap Episode.durationMs).sum =
      ((stalledMicros group endMs .client).card + (stalledMicros group endMs .server).card : ℕ) /
        1000 := by
  rw [sum_durations hstamped hend, sum_longStalls hstamped hend, sum_longStalls hstamped hend,
    ← stalledMicros_eq_cover hstamped hend, ← stalledMicros_eq_cover hstamped hend]
  push_cast
  ring

/-- The stalled time is a share of the capture exactly when the durations of the episodes add up to no
more than it. -/
theorem isShare_iff_sum_le (hstamped : Stamped group) (hend : captureEnd group = some endMs) :
    IsShare group ↔ ((episodes group).filterMap Episode.durationMs).sum ≤ endMs := by
  have hsum := sum_durations_eq_card hstamped hend
  obtain ⟨-, hnonneg⟩ := captureEnd_onMicros hstamped hend
  generalize hn : (stalledMicros group endMs .client).card + (stalledMicros group endMs .server).card = n
    at hsum
  by_cases hstalls : stallPackets group = []
  · obtain ⟨hepisodes, htotal, hfraction, -⟩ := receiverWindowAnalysis_of_no_stalls hstalls
    rw [receiverWindowAnalysis_episodes] at hepisodes
    rw [hepisodes]
    apply iff_of_true _ hnonneg
    constructor
    · rw [hfraction]
      rintro _ ⟨⟩
      norm_num
    · intro endMs' hend'
      obtain rfl := Option.some.inj (hend.symm.trans hend')
      rw [htotal]
      exact hnonneg
  · obtain ⟨htotal, hfraction⟩ := receiverWindowAnalysis_sum hstalls hend
    have hround : roundTo 3 ((episodes group).filterMap Episode.durationMs).sum =
        ((episodes group).filterMap Episode.durationMs).sum := by
      apply @roundTo_of_milli 3 _ n
      rw [hsum]
      norm_num
    constructor
    · intro hshare
      have hle := hshare.total endMs hend
      rwa [htotal, hround] at hle
    · intro hle
      constructor
      · intro share hshare
        rw [hfraction] at hshare
        split at hshare
        · next hpos =>
          obtain rfl := Option.some.inj hshare
          have hsum' : 0 ≤ ((episodes group).filterMap Episode.durationMs).sum := by
            rw [hsum]
            positivity
          exact roundTo_share 4 (div_nonneg hsum' hnonneg) ((div_le_one hpos).mpr hle)
        · cases hshare
      · intro endMs' hend'
        obtain rfl := Option.some.inj (hend.symm.trans hend')
        rw [htotal, hround]
        exact hle

end

/-- The stalled time is a share of the capture exactly when both endpoints are stalled for no longer
than neither is. -/
theorem stalled_share_iff {group : List FlowPacket} (hstamped : Stamped group) :
    IsShare group ↔ ∀ endMs ∈ captureEnd group,
      (stalledMicros group endMs .client ∩ stalledMicros group endMs .server).card ≤
        (captureMicros endMs \
          (stalledMicros group endMs .client ∪ stalledMicros group endMs .server)).card := by
  cases hend : captureEnd group with
  | none =>
    -- only the empty list has no end
    have hnil : group = [] := by
      by_contra hne
      obtain ⟨_, _, -, hend', -⟩ := capture_bounds hstamped hne
      rw [hend] at hend'
      cases hend'
    have hstalls : stallPackets group = [] := by
      rw [hnil]
      rfl
    obtain ⟨-, -, hfraction, -⟩ := receiverWindowAnalysis_of_no_stalls hstalls
    apply iff_of_true
    · constructor
      · rw [hfraction]
        rintro _ ⟨⟩
        norm_num
      · rw [hend]
        intro endMs hnone
        cases hnone
    · intro endMs hnone
      cases hnone
  | some endMs =>
    have hsub : ∀ side, stalledMicros group endMs side ⊆ captureMicros endMs :=
      fun side => Finset.filter_subset _ _
    rw [isShare_iff_sum_le hstamped hend, sum_durations_eq_card hstamped hend,
      micros_le_captureEnd_iff hstamped hend, card_add_card_le_iff (hsub .client) (hsub .server)]
    simp only [Option.mem_some_iff, forall_eq']

/-- A client whose window is closed for a second, and a server that advertises one. -/
def bothClosed (server : ℕ) : List FlowPacket :=
  [ { plainAck with window := 0, ts := some 1, timeMs := 0, direction := .out },
    { serverAck with frame := 2, window := server, ts := some 1, timeMs := 0, direction := .in_ },
    { plainAck with frame := 3, window := 0, ts := some 2, timeMs := 1000, direction := .out } ]

/-- Both endpoints are stalled for the whole capture, which is then stalled twice over. -/
theorem bothStalled_no_share :
    Stamped (bothClosed 0) ∧ captureEnd (bothClosed 0) = some 1000 ∧
      (receiverWindowAnalysis (bothClosed 0)).totalStalledMs = 2000 ∧
      (receiverWindowAnalysis (bothClosed 0)).stalledFraction = some 2 ∧
      ¬ IsShare (bothClosed 0) := by
  have hfraction : (receiverWindowAnalysis (bothClosed 0)).stalledFraction = some 2 := by
    decide +kernel
  refine ⟨?_, ?_, ?_, hfraction, ?_⟩
  · simp [Stamped, bothClosed]
  · decide +kernel
  · decide +kernel
  · intro hshare
    have hle := (hshare.fraction 2 hfraction).2
    norm_num at hle

/-- With one endpoint stalled for the whole capture the share is all of it. -/
theorem stalled_share_iff_one :
    IsShare (bothClosed 500) ∧
      (receiverWindowAnalysis (bothClosed 500)).stalledFraction = some 1 := by
  have hstamped : Stamped (bothClosed 500) := by simp [Stamped, bothClosed]
  constructor
  · apply (stalled_share_iff hstamped).mpr
    intro endMs _
    have hnone : stalledMicros (bothClosed 500) endMs .server = ∅ := by
      rw [stalledMicros, Finset.filter_eq_empty_iff]
      intro k _ ⟨z, hz, hside, _⟩
      have hclient : ∀ z ∈ stallPackets (bothClosed 500), z.direction.side = .client := by
        decide +kernel
      rw [hclient z hz] at hside
      cases hside
    rw [hnone, Finset.inter_empty, Finset.card_empty]
    exact Nat.zero_le _
  · decide +kernel

end PacketTrain.Analysis
