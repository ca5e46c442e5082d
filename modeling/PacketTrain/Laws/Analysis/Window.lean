import Mathlib.Data.List.TakeWhile
import PacketTrain.Laws.Analysis.Detail

/-!
# Receiver windows without capture times

`stream_detail` drops the capture times before it calls `receiver_window_analysis`. The end of the
capture is then unknown: there is no share of the flow that was stalled, and an episode that the end of
the capture cuts is called persistent. `flow_window_agrees_iff` says when nothing is lost: when no
packet but a SYN advertises a zero window.
-/

namespace PacketTrain.Analysis

/-! ## What does not depend on the times -/

@[simp] theorem stallPackets_dropTs (group : List FlowPacket) :
    stallPackets (group.map FlowPacket.dropTs) = (stallPackets group).map FlowPacket.dropTs := by
  rw [stallPackets, stallPackets, List.filter_map, List.filter_map]
  rfl

@[simp] theorem captureTimes_dropTs (group : List FlowPacket) :
    captureTimes (group.map FlowPacket.dropTs) = [] := by
  rw [captureTimes, List.filterMap_map, List.filterMap_eq_nil_iff]
  exact fun p hp => rfl

@[simp] theorem captureEnd_dropTs (group : List FlowPacket) :
    captureEnd (group.map FlowPacket.dropTs) = none := by
  rw [captureEnd, captureTimes_dropTs]
  rfl

@[simp] theorem mem_stallPackets {group : List FlowPacket} {p : FlowPacket} :
    p ∈ stallPackets group ↔ p ∈ group ∧ isStall p = true ∧ p.syn = false := by
  rw [stallPackets, List.mem_filter, List.mem_filter, Bool.not_eq_true', and_assoc]

/-! ## The end of the capture -/

/-- With capture times the capture has a first time and a last, and every packet is between them. -/
theorem capture_bounds {group : List FlowPacket} (hstamped : Stamped group) (hne : group ≠ []) :
    ∃ first last, origin group = some first ∧
      captureEnd group = some (roundTo 3 ((last - first) * 1000)) ∧
      ∀ p ∈ group, ∀ ts, p.ts = some ts → first ≤ ts ∧ ts ≤ last := by
  obtain ⟨p, rest, rfl⟩ := List.exists_cons_of_ne_nil hne
  obtain ⟨ts, hts⟩ := Option.isSome_iff_exists.mp (hstamped p List.mem_cons_self)
  have htimes : captureTimes (p :: rest) ≠ [] := by
    rw [captureTimes, List.filterMap_cons_some hts]
    exact List.cons_ne_nil _ _
  obtain ⟨first, hfirst⟩ := Option.ne_none_iff_exists'.mp (mt List.min?_eq_none_iff.mp htimes)
  obtain ⟨last, hlast⟩ := Option.ne_none_iff_exists'.mp (mt List.max?_eq_none_iff.mp htimes)
  refine ⟨first, last, hfirst, ?_, fun q hq t ht => ?_⟩
  · rw [captureEnd, hlast, origin, hfirst]
  · have hmem : t ∈ captureTimes (p :: rest) := List.mem_filterMap.mpr ⟨q, hq, ht⟩
    exact ⟨(List.min?_eq_some_iff.mp hfirst).2 t hmem, (List.max?_eq_some_iff.mp hlast).2 t hmem⟩

/-- In a capture of no length every packet is at time zero of the stream's clock. -/
theorem timeMs_eq_zero {group : List FlowPacket} {firstTs endMs : ℚ} (hclock : OnClock firstTs group)
    (hfirst : ∃ p ∈ group, p.ts = some firstTs) (hend : captureEnd group = some endMs)
    (hzero : endMs ≤ 0) : ∀ p ∈ group, p.timeMs = 0 := by
  obtain ⟨q, hq, hqts⟩ := hfirst
  obtain ⟨first, last, -, hlen, hbounds⟩ :=
    capture_bounds hclock.stamped (List.ne_nil_of_mem hq)
  obtain rfl : roundTo 3 ((last - first) * 1000) = endMs := by
    rw [hlen] at hend
    exact Option.some.inj hend
  have hq' := hbounds q hq firstTs hqts
  have hround : roundTo 3 ((last - first) * 1000) = 0 := by
    have hnonneg := roundTo_mono 3 (show (0 : ℚ) ≤ (last - first) * 1000 by linarith)
    have h0 : roundTo 3 0 = 0 := (roundTo_eq_zero_iff 3 0).mpr (by norm_num)
    rw [h0] at hnonneg
    exact le_antisymm hzero hnonneg
  rw [roundTo_eq_zero_iff, abs_le] at hround
  intro p hp
  obtain ⟨ts, hts, htime⟩ := hclock p hp
  have hp' := hbounds p hp ts hts
  rw [htime, roundTo_eq_zero_iff, abs_le]
  constructor <;> linarith

/-! ## The stalls of one endpoint -/

/-- A recovery is a later window that is not zero. -/
theorem recoveryAfter_eq_some {group : List FlowPacket} {side : Side} {after r : ℚ}
    {origin : Option ℚ} (h : recoveryAfter group side after origin = some r) :
    ∃ p ∈ group, p.direction.side = side ∧ reopens p = true ∧ windowTimeMs p origin = r ∧
      after < r := by
  obtain ⟨p, hfind, htime⟩ := Option.map_eq_some_iff.mp h
  have hp := List.find?_some hfind
  obtain ⟨hside, hlater, hreopens⟩ := of_decide_eq_true hp
  rw [htime] at hlater
  exact ⟨p, List.mem_of_find?_eq_some hfind, hside, hreopens, htime, hlater⟩

theorem recoveryAfter_eq_none_iff {group : List FlowPacket} {side : Side} {after : ℚ}
    {origin : Option ℚ} : recoveryAfter group side after origin = none ↔
      ∀ p ∈ group, p.direction.side = side → after < windowTimeMs p origin → reopens p = false := by
  rw [recoveryAfter, Option.map_eq_none_iff, List.find?_eq_none]
  apply forall₂_congr
  intro p _
  simp only [decide_eq_true_eq, not_and, Bool.not_eq_true]

/-- Until a recovery, the recovery does not change. -/
theorem recoveryAfter_within {group : List FlowPacket} {side : Side} {base : Option ℚ} {a b : ℚ}
    (hab : a ≤ b) (hbefore : ∀ r, recoveryAfter group side a base = some r → b < r) :
    recoveryAfter group side b base = recoveryAfter group side a base := by
  cases ha : recoveryAfter group side a base with
  | none =>
    rw [recoveryAfter_eq_none_iff] at ha ⊢
    intro p hp hside hlater
    exact ha p hp hside (hab.trans_lt hlater)
  | some r =>
    have hlt := hbefore r ha
    obtain ⟨p, hfind, htime⟩ := Option.map_eq_some_iff.mp ha
    obtain ⟨hp, pre, post, hgroup, hpre⟩ := List.find?_eq_some_iff_append.mp hfind
    obtain ⟨hside, -, hreopens⟩ := of_decide_eq_true hp
    have hfind' : group.find? (fun p =>
        p.direction.side = side ∧ b < windowTimeMs p base ∧ reopens p) = some p := by
      rw [List.find?_eq_some_iff_append]
      refine ⟨decide_eq_true ⟨hside, htime ▸ hlt, hreopens⟩, pre, post, hgroup, ?_⟩
      intro q hq
      have hnot := hpre q hq
      simp only [Bool.not_eq_true', decide_eq_false_iff_not] at hnot ⊢
      intro ⟨hqside, hqlater, hqreopens⟩
      exact hnot ⟨hqside, hab.trans_lt hqlater, hqreopens⟩
    rw [recoveryAfter, hfind', Option.map_some, htime]

section

variable {group : List FlowPacket} {side : Side} {base : Option ℚ}

/-- Every stall starts with an advertisement and ends with the recovery after it. -/
theorem stallLoop_sound {fuel : ℕ} {timed : List Timed} {s : Stall}
    (h : s ∈ stallLoop group side base fuel timed) :
    ∃ t ∈ timed, s.startMs = t.timeMs ∧
      s.recoveredAt = recoveryAfter group side t.timeMs base := by
  induction fuel generalizing timed with
  | zero => cases timed <;> exact nomatch h
  | succ fuel ih =>
    cases timed with
    | nil => exact nomatch h
    | cons first rest =>
      rcases List.mem_cons.mp h with rfl | h
      · exact ⟨first, List.mem_cons_self, rfl, rfl⟩
      · obtain ⟨t, ht, hspec⟩ := ih h
        exact ⟨t, List.mem_cons_of_mem _ ((List.dropWhile_sublist _).mem ht), hspec⟩

/-- Every advertisement is within a stall: not before it starts, and before it recovers. -/
theorem stallLoop_complete {fuel : ℕ} {timed : List Timed} (hfuel : timed.length ≤ fuel)
    (hsorted : InOrder Timed.timeMs timed) {t : Timed} (ht : t ∈ timed) :
    ∃ s ∈ stallLoop group side base fuel timed, s.startMs ≤ t.timeMs ∧
      ∀ r, s.recoveredAt = some r → t.timeMs < r := by
  induction fuel generalizing timed with
  | zero =>
    rw [List.length_eq_zero_iff.mp (Nat.le_zero.mp hfuel)] at ht
    exact nomatch ht
  | succ fuel ih =>
    cases timed with
    | nil => exact nomatch ht
    | cons first rest =>
      obtain ⟨hfirst, hrest⟩ := List.pairwise_cons.mp hsorted
      rcases List.mem_cons.mp ht with rfl | ht
      · refine ⟨_, List.mem_cons_self, le_rfl, fun r hr => ?_⟩
        obtain ⟨_, -, -, -, -, hlater⟩ := recoveryAfter_eq_some hr
        exact hlater
      · let reopening := recoveryAfter group side first.timeMs base
        rw [← List.takeWhile_append_dropWhile (p := isProbe reopening) (l := rest)] at ht
        rcases List.mem_append.mp ht with htake | hdrop
        · refine ⟨_, List.mem_cons_self, hfirst t ((List.takeWhile_sublist _).mem htake),
            fun r hr => ?_⟩
          have hprobe := List.mem_takeWhile_imp htake
          rw [show reopening = some r from hr] at hprobe
          exact of_decide_eq_true hprobe
        · have hlength := (List.dropWhile_sublist (isProbe reopening) (l := rest)).length_le
          obtain ⟨s, hs, hspec⟩ := ih (by rw [List.length_cons] at hfuel; omega)
            (hrest.sublist (List.dropWhile_sublist _)) hdrop
          exact ⟨s, List.mem_cons_of_mem _ hs, hspec⟩

/-- A stall is over before the next one of the endpoint starts. -/
theorem stallLoop_apart {fuel : ℕ} {timed : List Timed} (hsorted : InOrder Timed.timeMs timed) :
    (stallLoop group side base fuel timed).Pairwise fun s t =>
      ∃ r, s.recoveredAt = some r ∧ r ≤ t.startMs := by
  induction fuel generalizing timed with
  | zero => cases timed <;> exact .nil
  | succ fuel ih =>
    cases timed with
    | nil => exact .nil
    | cons first rest =>
      rw [stallLoop]
      generalize recoveryAfter group side first.timeMs base = reopening
      have hrest : InOrder Timed.timeMs (rest.dropWhile (isProbe reopening)) :=
        (List.pairwise_cons.mp hsorted).2.sublist (List.dropWhile_sublist _)
      apply List.pairwise_cons.mpr
      refine ⟨?_, ih hrest⟩
      intro s hs
      obtain ⟨t, ht, hstart, -⟩ := stallLoop_sound hs
      cases reopening with
      | none =>
        have hdrop : rest.dropWhile (isProbe none) = [] := List.dropWhile_eq_nil_iff.mpr fun _ _ => rfl
        rw [hdrop] at ht
        cases ht
      | some r =>
        refine ⟨r, rfl, ?_⟩
        rw [hstart]
        -- the first advertisement left is not before the recovery, and the others are not before it
        have hnot := List.head?_dropWhile_not (isProbe (some r)) rest
        cases hdrop : rest.dropWhile (isProbe (some r)) with
        | nil =>
          rw [hdrop] at ht
          cases ht
        | cons u us =>
          rw [hdrop] at hnot ht hrest
          have hle : r ≤ u.timeMs := not_lt.mp (of_decide_eq_false hnot)
          rcases List.mem_cons.mp ht with rfl | ht
          · exact hle
          · exact hle.trans ((List.pairwise_cons.mp hrest).1 t ht)

theorem stallsOf_sound {advertisements : List FlowPacket} {s : Stall}
    (h : s ∈ stallsOf advertisements group side base) :
    ∃ p ∈ advertisements, s.startMs = windowTimeMs p base ∧
      s.recoveredAt = recoveryAfter group side s.startMs base := by
  obtain ⟨t, ht, hstart, hrecovered⟩ := stallLoop_sound h
  obtain ⟨p, hp, rfl⟩ := List.mem_map.mp (mem_sortOn.mp ht)
  rw [← hstart] at hrecovered
  exact ⟨p, hp, hstart, hrecovered⟩

theorem stallsOf_complete (group : List FlowPacket) (side : Side) (base : Option ℚ)
    {advertisements : List FlowPacket} {p : FlowPacket} (h : p ∈ advertisements) :
    ∃ s ∈ stallsOf advertisements group side base, s.startMs ≤ windowTimeMs p base ∧
      ∀ r, s.recoveredAt = some r → windowTimeMs p base < r :=
  stallLoop_complete le_rfl (inOrder_sortOn _ _)
    (t := ⟨windowTimeMs p base, p⟩) (mem_sortOn.mpr (List.mem_map.mpr ⟨p, h, rfl⟩))

end

/-! ## The episodes -/

@[simp] theorem mem_sidesOf {stalls : List FlowPacket} {side : Side} :
    side ∈ sidesOf stalls ↔ ∃ p ∈ stalls, p.direction.side = side := by
  cases stalls with
  | nil => exact ⟨(fun h => nomatch h), (fun ⟨_, h, _⟩ => nomatch h)⟩
  | cons first rest =>
    rw [sidesOf, List.mem_cons]
    constructor
    · rintro (rfl | h)
      · exact ⟨first, List.mem_cons_self, rfl⟩
      · split at h
        · next hany =>
          obtain ⟨p, hp, hside⟩ := List.any_eq_true.mp hany
          rw [List.mem_singleton.mp h]
          exact ⟨p, hp, of_decide_eq_true hside⟩
        · exact nomatch h
    · rintro ⟨p, hp, hside⟩
      by_cases hfirst : side = first.direction.side
      · exact .inl hfirst
      · right
        have hother : side = first.direction.side.other := by
          revert hfirst
          cases side <;> cases first.direction.side <;> simp [Side.other]
        rw [if_pos (List.any_eq_true.mpr ⟨p, hp, decide_eq_true (hside.trans hother)⟩), hother]
        exact List.mem_singleton_self _

/-- The stalls of one endpoint of the stream. -/
def sideStalls (group : List FlowPacket) (side : Side) : List Stall :=
  stallsOf ((stallPackets group).filter (·.direction.side = side)) group side (origin group)

theorem sideStalls_sound {group : List FlowPacket} {side : Side} {s : Stall}
    (h : s ∈ sideStalls group side) :
    ∃ p ∈ stallPackets group, p.direction.side = side ∧
      s.startMs = windowTimeMs p (origin group) ∧
      s.recoveredAt = recoveryAfter group side s.startMs (origin group) := by
  obtain ⟨p, hp, hspec⟩ := stallsOf_sound h
  obtain ⟨hstall, hside⟩ := List.mem_filter.mp hp
  exact ⟨p, hstall, of_decide_eq_true hside, hspec⟩

theorem sideStalls_complete {group : List FlowPacket} {p : FlowPacket}
    (h : p ∈ stallPackets group) :
    ∃ s ∈ sideStalls group p.direction.side, s.startMs ≤ windowTimeMs p (origin group) ∧
      ∀ r, s.recoveredAt = some r → windowTimeMs p (origin group) < r :=
  stallsOf_complete group _ _ (List.mem_filter.mpr ⟨h, decide_eq_true rfl⟩)

/-- A stall of an endpoint is over before its next one starts. -/
theorem sideStalls_apart (group : List FlowPacket) (side : Side) :
    (sideStalls group side).Pairwise fun s t => ∃ r, s.recoveredAt = some r ∧ r ≤ t.startMs :=
  stallLoop_apart (inOrder_sortOn _ _)

/-- Every number stands for a stall of an endpoint. -/
theorem exists_stall {group : List FlowPacket} {e : Episode} (h : e ∈ allEpisodes group) :
    ∃ side index, ∃ s ∈ sideStalls group side, e = episodeOf side (captureEnd group) index s := by
  obtain ⟨⟨⟨side, s⟩, index⟩, hindexed, rfl⟩ := List.mem_map.mp h
  obtain ⟨side', -, hfound⟩ := List.mem_flatMap.mp (List.fst_mem_of_mem_zipIdx hindexed)
  obtain ⟨s', hs, heq⟩ := List.mem_map.mp hfound
  cases heq
  exact ⟨side, index, s, hs, rfl⟩

/-- Every episode reports a stall of an endpoint. -/
theorem mem_episodes {group : List FlowPacket} {e : Episode} (h : e ∈ episodes group) :
    e.reported = true ∧ ∃ side index, ∃ s ∈ sideStalls group side,
      e = episodeOf side (captureEnd group) index s := by
  obtain ⟨hall, hreported⟩ := List.mem_filter.mp (mem_sortOn.mp h)
  exact ⟨hreported, exists_stall hall⟩

/-- Every stall that is long enough is an episode. -/
theorem exists_mem_episodes {group : List FlowPacket} {side : Side} {s : Stall}
    (hs : s ∈ sideStalls group side)
    (hreported : ∀ index, (episodeOf side (captureEnd group) index s).reported = true) :
    ∃ index, episodeOf side (captureEnd group) index s ∈ episodes group := by
  obtain ⟨p, hstall, hside, -, -⟩ := sideStalls_sound hs
  have hfound : (side, s) ∈ (sidesOf (stallPackets group)).flatMap fun side =>
      (sideStalls group side).map fun s => (side, s) :=
    List.mem_flatMap.mpr ⟨side, mem_sidesOf.mpr ⟨p, hstall, hside⟩,
      List.mem_map_of_mem hs⟩
  obtain ⟨index, hindex⟩ := List.getElem?_of_mem hfound
  refine ⟨index, mem_sortOn.mpr (List.mem_filter.mpr ⟨List.mem_map.mpr ⟨((side, s), index), ?_, rfl⟩,
    hreported index⟩)⟩
  exact List.mk_mem_zipIdx_iff_getElem?.mpr hindex

/-! ## The analysis with and without times -/

theorem receiverWindowAnalysis_of_no_stalls {group : List FlowPacket}
    (h : stallPackets group = []) :
    (receiverWindowAnalysis group).episodes = [] ∧ (receiverWindowAnalysis group).totalStalledMs = 0 ∧
      (receiverWindowAnalysis group).stalledFraction = some 0 ∧
      (receiverWindowAnalysis group).persistent = false := by
  rw [receiverWindowAnalysis, h, List.isEmpty_nil, if_pos rfl]
  exact ⟨rfl, rfl, rfl, rfl⟩

theorem receiverWindowAnalysis_of_stalls {group : List FlowPacket} (h : stallPackets group ≠ []) :
    (receiverWindowAnalysis group).episodes = episodes group ∧
      ((receiverWindowAnalysis group).stalledFraction.isSome = true ↔
        ∃ endMs ∈ captureEnd group, 0 < endMs) ∧
      ((receiverWindowAnalysis group).persistent = true ↔
        (∃ e ∈ episodes group, e.recovered = false) ∧ captureEnd group = none) := by
  rw [receiverWindowAnalysis, if_neg (mt List.isEmpty_iff.mp h)]
  refine ⟨rfl, ?_, ?_⟩
  · cases captureEnd group with
    | none => simp
    | some endMs => by_cases hpos : 0 < endMs <;> simp [hpos]
  · simp only [Bool.and_eq_true, ne_eq, List.length_eq_zero_iff, List.filter_eq_nil_iff,
      Option.isNone_iff_eq_none]
    simp

theorem receiverWindowAnalysis_episodes (group : List FlowPacket) :
    (receiverWindowAnalysis group).episodes = episodes group := by
  by_cases hstalls : stallPackets group = []
  · rw [(receiverWindowAnalysis_of_no_stalls hstalls).1, episodes, allEpisodes, hstalls]
    rfl
  · exact (receiverWindowAnalysis_of_stalls hstalls).1

/-- Where no packet is later than another, an analysis without capture times that has a stall calls it
persistent. -/
theorem persistent_of_zero {group : List FlowPacket} (hzero : ∀ p ∈ group, p.timeMs = 0)
    (hstalls : stallPackets group ≠ []) :
    (receiverWindowAnalysis (group.map FlowPacket.dropTs)).persistent = true := by
  obtain ⟨q, hq⟩ := List.exists_mem_of_ne_nil _ hstalls
  have hq' : q.dropTs ∈ stallPackets (group.map FlowPacket.dropTs) := by
    rw [stallPackets_dropTs]
    exact List.mem_map_of_mem hq
  rw [(receiverWindowAnalysis_of_stalls (List.ne_nil_of_mem hq')).2.2]
  refine ⟨?_, captureEnd_dropTs group⟩
  obtain ⟨s, hs, -, -⟩ := sideStalls_complete hq'
  obtain ⟨p, hp, -, hstart, hrecovered⟩ := sideStalls_sound hs
  have htimes : ∀ r ∈ group.map FlowPacket.dropTs,
      windowTimeMs r (origin (group.map FlowPacket.dropTs)) = 0 := by
    intro r hr
    obtain ⟨r', hr', rfl⟩ := List.mem_map.mp hr
    exact hzero r' hr'
  have hnone : s.recoveredAt = none := by
    rw [hrecovered, recoveryAfter_eq_none_iff]
    intro r hr _ hlater
    rw [hstart, htimes r hr, htimes p (mem_stallPackets.mp hp).1] at hlater
    exact absurd hlater (lt_irrefl 0)
  obtain ⟨index, hmem⟩ := exists_mem_episodes hs fun index => by
    rw [Episode.reported, episodeOf, hnone, captureEnd_dropTs]
    rfl
  refine ⟨_, hmem, ?_⟩
  rw [episodeOf, hnone]
  rfl

/-! ## The response -/

/-- What two analyses tell of an episode. -/
structure Told where
  startMs : ℚ
  durationMs : Option ℚ
  probes : ℕ
  recovered : Bool
deriving DecidableEq

def Episode.told (e : Episode) : Told := ⟨e.startMs, e.durationMs, e.probes, e.recovered⟩

/-- The analysis tells what another does, and calls no stall persistent that the end of the capture
cuts: an unresolved episode is never more than that. -/
structure WindowAgrees (response real : WindowAnalysis) : Prop where
  episodes : response.episodes.map Episode.told = real.episodes.map Episode.told
  total : response.totalStalledMs = real.totalStalledMs
  fraction : response.stalledFraction = real.stalledFraction
  persistent : response.persistent = false

/-- The response carries the analysis of the packets with their capture times exactly when no packet
but a SYN advertises a zero window. -/
theorem flow_window_agrees_iff {packets : List Packet} {stream : ℕ} {detail : StreamDetail}
    (h : streamDetail packets stream = some detail) :
    WindowAgrees detail.receiverWindow (receiverWindowAnalysis (accountingInput packets stream)) ↔
      ∀ p ∈ accountingInput packets stream, ¬ (isStall p = true ∧ p.syn = false) := by
  obtain ⟨-, -, -, hwindow⟩ := streamDetail_eq_some h
  obtain ⟨firstTs, hclock, hfirst⟩ := accountingInput_clock h
  generalize accountingInput packets stream = group at *
  rw [hwindow]
  constructor
  · intro hagrees p hp hstall
    have hstalls : stallPackets group ≠ [] :=
      List.ne_nil_of_mem (mem_stallPackets.mpr ⟨hp, hstall.1, hstall.2⟩)
    have hstalls' : stallPackets (group.map FlowPacket.dropTs) ≠ [] := by
      rw [stallPackets_dropTs]
      exact mt List.map_eq_nil_iff.mp hstalls
    obtain ⟨first, last, -, hend, -⟩ := capture_bounds hclock.stamped (List.ne_nil_of_mem hp)
    -- the response has no share of the flow, so the capture has no length
    have hzero : roundTo 3 ((last - first) * 1000) ≤ 0 := by
      by_contra hpos
      have hsome := (receiverWindowAnalysis_of_stalls hstalls).2.1.mpr ⟨_, hend, not_le.mp hpos⟩
      rw [← hagrees.fraction, (receiverWindowAnalysis_of_stalls hstalls').2.1, captureEnd_dropTs]
        at hsome
      obtain ⟨_, hnone, -⟩ := hsome
      exact nomatch hnone
    have hpersistent := persistent_of_zero (timeMs_eq_zero hclock hfirst hend hzero) hstalls
    rw [hagrees.persistent] at hpersistent
    cases hpersistent
  · intro hnone
    have hstalls : stallPackets group = [] := by
      rw [List.eq_nil_iff_forall_not_mem]
      intro p hp
      obtain ⟨hp, hstall, hsyn⟩ := mem_stallPackets.mp hp
      exact hnone p hp ⟨hstall, hsyn⟩
    have hstalls' : stallPackets (group.map FlowPacket.dropTs) = [] := by
      rw [stallPackets_dropTs, hstalls, List.map_nil]
    obtain ⟨hepisodes, htotal, hfraction, -⟩ := receiverWindowAnalysis_of_no_stalls hstalls
    obtain ⟨hepisodes', htotal', hfraction', hpersistent'⟩ :=
      receiverWindowAnalysis_of_no_stalls hstalls'
    refine ⟨?_, ?_, ?_, hpersistent'⟩
    · rw [hepisodes, hepisodes']
    · rw [htotal, htotal']
    · rw [hfraction, hfraction']

/-- A client that closes its window, and a later packet that leaves it closed. -/
def closedWindow (gap : ℚ) : List Packet :=
  [ { plainAck with window := 0, ts := 1 },
    { plainAck with frame := 2, window := 0, ts := 1 + gap } ]

/-- The capture ends a second into a stall; the response calls the stall persistent, with no duration
and no share of the flow. -/
theorem unresolved_called_persistent :
    ∃ detail, streamDetail (closedWindow 1) 0 = some detail ∧
      detail.receiverWindow.persistent = true ∧ detail.receiverWindow.totalStalledMs = 0 ∧
      detail.receiverWindow.episodes.map Episode.told = [⟨0, none, 2, false⟩] ∧
      (receiverWindowAnalysis (accountingInput (closedWindow 1) 0)).episodes.map Episode.told =
        [⟨0, some 1000, 2, false⟩] ∧
      (receiverWindowAnalysis (accountingInput (closedWindow 1) 0)).persistent = false ∧
      ¬ WindowAgrees detail.receiverWindow
        (receiverWindowAnalysis (accountingInput (closedWindow 1) 0)) := by
  have hresponse : (streamDetail (closedWindow 1) 0).map (fun detail =>
      (detail.receiverWindow.persistent, detail.receiverWindow.totalStalledMs,
        detail.receiverWindow.episodes.map Episode.told)) =
      some (true, 0, [⟨0, none, 2, false⟩]) := by decide +kernel
  have hepisodes : (receiverWindowAnalysis (accountingInput (closedWindow 1) 0)).episodes.map
      Episode.told = [⟨0, some 1000, 2, false⟩] := by decide +kernel
  have hreal : (receiverWindowAnalysis (accountingInput (closedWindow 1) 0)).persistent = false := by
    decide +kernel
  obtain ⟨detail, hdetail, hvalues⟩ := Option.map_eq_some_iff.mp hresponse
  simp only [Prod.mk.injEq] at hvalues
  obtain ⟨hpersistent, htotal, htold⟩ := hvalues
  refine ⟨detail, hdetail, hpersistent, htotal, htold, hepisodes, hreal, fun hagrees => ?_⟩
  rw [hagrees.persistent] at hpersistent
  cases hpersistent

theorem flow_window_agrees_iff_closed :
    ∃ detail, streamDetail (closedWindow 1) 0 = some detail ∧
      ¬ WindowAgrees detail.receiverWindow
        (receiverWindowAnalysis (accountingInput (closedWindow 1) 0)) := by
  have hsome : (streamDetail (closedWindow 1) 0).isSome = true := rfl
  obtain ⟨detail, hdetail⟩ := Option.isSome_iff_exists.mp hsome
  refine ⟨detail, hdetail, mt (flow_window_agrees_iff hdetail).mp ?_⟩
  decide +kernel

end PacketTrain.Analysis
