import PacketTrain.Laws.Analysis.Idle

/-!
# The replay timeline

`timeline` finds the gap after a packet through a table keyed by frame. When frames are distinct a frame
starts at most one gap, so the table gives back the neighbours of the analysis (`byStart_of_adjacent`)
and the segments are the packets in time order with the labelled gaps between them
(`segments_eq_interleave`). `timeline_replaysWhole` lists what follows, in every mode and at every speed.
-/

namespace PacketTrain.Analysis

/-- The frame and the time of a packet segment. -/
def PlaySegment.shown : PlaySegment → Option (ℕ × ℚ)
  | .packet frame timeMs => some (frame, timeMs)
  | .compressed .. => none

def PlaySegment.isCompressed : PlaySegment → Bool
  | .packet .. => false
  | .compressed .. => true

/-- The segment of a packet. -/
def FlowPacket.segment (p : FlowPacket) : PlaySegment := .packet p.frame p.timeMs

/-- The neighbours whose gap has a label. -/
def labelledPairs (packets : List FlowPacket) (mode : Mode) (speed : ℚ) :
    List (FlowPacket × FlowPacket) :=
  (laterPairs packets).filter fun ab =>
    (gapBetween packets mode speed playbackTriggerS ab).label.isSome

/-- A replay that loses and alters nothing. -/
structure ReplaysWhole (packets : List FlowPacket) (mode : Mode) (speed : ℚ) : Prop where
  /-- The packets in stable time order, each once, with their times. -/
  shown : (timeline packets mode speed).segments.filterMap PlaySegment.shown =
    (sortOn FlowPacket.timeMs packets).map fun p => (p.frame, p.timeMs)
  ordered : (sortOn FlowPacket.timeMs packets).Perm packets ∧
    InOrder FlowPacket.timeMs (sortOn FlowPacket.timeMs packets) ∧
    ∀ t, (sortOn FlowPacket.timeMs packets).filter (·.timeMs = t) = packets.filter (·.timeMs = t)
  /-- One compressed segment for each labelled gap of the analysis, in order. -/
  compressed : ((timeline packets mode speed).segments.filter PlaySegment.isCompressed).map some =
    ((timeline packets mode speed).analysis.gaps.filter (·.label.isSome)).map Gap.segment
  count : ((timeline packets mode speed).analysis.compressedCount.getD 0) =
    ((timeline packets mode speed).segments.filter PlaySegment.isCompressed).length
  /-- The labelled gaps are those between the labelled neighbours. -/
  labelled : (timeline packets mode speed).analysis.gaps.filter (·.label.isSome) =
    (labelledPairs packets mode speed).map (gapBetween packets mode speed playbackTriggerS)
  /-- A compressed segment stands directly between the packets of its gap. -/
  placed : ∀ pre segment post, segment.isCompressed = true →
    (timeline packets mode speed).segments = pre ++ segment :: post →
    ∃ ab ∈ labelledPairs packets mode speed,
      (gapBetween packets mode speed playbackTriggerS ab).segment = some segment ∧
        pre.getLast? = some ab.1.segment ∧ post.head? = some ab.2.segment
  /-- And each labelled gap has its segment there. -/
  present : ∀ ab ∈ labelledPairs packets mode speed, ∃ pre segment post,
    (gapBetween packets mode speed playbackTriggerS ab).segment = some segment ∧
      (timeline packets mode speed).segments =
        pre ++ ab.1.segment :: segment :: ab.2.segment :: post
  /-- No packet lies strictly inside a compressed interval. -/
  empty : ∀ ab ∈ labelledPairs packets mode speed, ∀ p ∈ packets,
    p.timeMs ≤ ab.1.timeMs ∨ ab.2.timeMs ≤ p.timeMs
  /-- Compressed intervals share end points at most. -/
  disjoint : (labelledPairs packets mode speed).Pairwise fun ab cd => ab.2.timeMs ≤ cd.1.timeMs
  /-- The sum that the analysis rounds. -/
  seconds : (timeline packets mode speed).analysis.compressedSeconds =
    roundTo 3 ((labelledPairs packets mode speed).map fun ab => capturedS ab.1 ab.2).sum

section

variable {packets : List FlowPacket} {mode : Mode} {speed : ℚ}

/-! ## The table of gaps -/

theorem frames_gapBetween (ab : FlowPacket × FlowPacket) (trigger : ℚ) :
    (gapBetween packets mode speed trigger ab).frames = (ab.1.frame, ab.2.frame) := by
  cases mode <;> rfl

theorem segment_isSome (gap : Gap) : gap.segment.isSome = gap.label.isSome := by
  simp [Gap.segment]

theorem isCompressed_of_segment {gap : Gap} {segment : PlaySegment}
    (h : gap.segment = some segment) : segment.isCompressed = true := by
  obtain ⟨label, -, rfl⟩ := Option.map_eq_some_iff.mp h
  rfl

theorem byStart_eq_some {gaps : List Gap} {frame : ℕ} {gap : Gap} (h : byStart gaps frame = some gap) :
    gap ∈ gaps ∧ gap.frames.1 = frame :=
  ⟨List.mem_reverse.mp (List.mem_of_find?_eq_some h), by simpa using List.find?_some h⟩

theorem byStart_eq_none {gaps : List Gap} {frame : ℕ} :
    byStart gaps frame = none ↔ ∀ gap ∈ gaps, gap.frames.1 ≠ frame := by
  simp [byStart]

/-- Distinct frames start distinct pairs of neighbours. -/
theorem adjacent_frame_inj (hframes : (packets.map (·.frame)).Nodup)
    {ab cd : FlowPacket × FlowPacket} (hab : ab ∈ adjacent (sortOn FlowPacket.timeMs packets))
    (hcd : cd ∈ adjacent (sortOn FlowPacket.timeMs packets)) (h : ab.1.frame = cd.1.frame) :
    ab = cd := by
  have hsorted : ((sortOn FlowPacket.timeMs packets).map (·.frame)).Nodup :=
    ((perm_sortOn _ packets).map _).nodup_iff.mpr hframes
  have hnodup : ((adjacent (sortOn FlowPacket.timeMs packets)).map fun ab => ab.1.frame).Nodup := by
    have hmap := congrArg (List.map (·.frame)) (map_fst_adjacent (sortOn FlowPacket.timeMs packets))
    rw [List.map_map] at hmap
    exact hmap ▸ hsorted.sublist ((List.dropLast_sublist _).map _)
  exact List.inj_on_of_nodup_map hnodup hab hcd h

/-- What the table has for the first of two neighbours: their gap, when time passes between them. -/
theorem byStart_of_adjacent (hframes : (packets.map (·.frame)).Nodup)
    {ab : FlowPacket × FlowPacket} (hab : ab ∈ adjacent (sortOn FlowPacket.timeMs packets)) :
    byStart (analyzeGaps packets mode speed playbackTriggerS).gaps ab.1.frame =
      if 0 < capturedS ab.1 ab.2 then some (gapBetween packets mode speed playbackTriggerS ab)
      else none := by
  rw [analyzeGaps_gaps]
  by_cases hlater : 0 < capturedS ab.1 ab.2
  · rw [if_pos hlater]
    have hmem : ab ∈ laterPairs packets := List.mem_filter.mpr ⟨hab, decide_eq_true hlater⟩
    cases hfound : byStart ((laterPairs packets).map
        (gapBetween packets mode speed playbackTriggerS)) ab.1.frame with
    | none =>
      refine absurd ?_ (byStart_eq_none.mp hfound _ (List.mem_map_of_mem hmem))
      rw [frames_gapBetween]
    | some gap =>
      obtain ⟨hgap, hframe⟩ := byStart_eq_some hfound
      obtain ⟨cd, hcd, rfl⟩ := List.mem_map.mp hgap
      rw [frames_gapBetween] at hframe
      rw [adjacent_frame_inj hframes (List.mem_filter.mp hcd).1 hab hframe]
  · rw [if_neg hlater, byStart_eq_none]
    intro gap hgap hframe
    obtain ⟨cd, hcd, rfl⟩ := List.mem_map.mp hgap
    obtain ⟨hcd, hlater'⟩ := List.mem_filter.mp hcd
    rw [frames_gapBetween] at hframe
    rw [adjacent_frame_inj hframes hcd hab hframe] at hlater'
    exact hlater (of_decide_eq_true hlater')

/-- It has nothing for the last packet. -/
theorem byStart_of_last (hframes : (packets.map (·.frame)).Nodup) {p : FlowPacket}
    (hp : p ∈ (sortOn FlowPacket.timeMs packets).getLast?) :
    byStart (analyzeGaps packets mode speed playbackTriggerS).gaps p.frame = none := by
  rw [analyzeGaps_gaps, byStart_eq_none]
  intro gap hgap hframe
  obtain ⟨ab, hab, rfl⟩ := List.mem_map.mp hgap
  rw [frames_gapBetween] at hframe
  have hfirst : ab.1 ∈ (sortOn FlowPacket.timeMs packets).dropLast := by
    rw [← map_fst_adjacent]
    exact List.mem_map_of_mem (List.mem_filter.mp hab).1
  have hsorted : ((sortOn FlowPacket.timeMs packets).map (·.frame)).Nodup :=
    ((perm_sortOn _ packets).map _).nodup_iff.mpr hframes
  rw [← List.dropLast_append_getLast? p hp, List.map_append, List.map_singleton] at hsorted
  have hnot := (List.nodup_append.mp hsorted).2.2
  exact hnot _ (List.mem_map_of_mem hfirst) _ (List.mem_singleton_self _) hframe

/-! ## The segments -/

/-- The compressed segment between two neighbours. -/
def compressedBetween (packets : List FlowPacket) (mode : Mode) (speed : ℚ)
    (ab : FlowPacket × FlowPacket) : Option PlaySegment :=
  if 0 < capturedS ab.1 ab.2 then (gapBetween packets mode speed playbackTriggerS ab).segment
  else none

/-- The segments are the packets in time order with the compressed segments between neighbours. -/
theorem segments_eq_interleave (hframes : (packets.map (·.frame)).Nodup) :
    (timeline packets mode speed).segments =
      interleave FlowPacket.segment (compressedBetween packets mode speed)
        (sortOn FlowPacket.timeMs packets) := by
  refine flatMap_eq_interleave (fun p : FlowPacket =>
    (byStart (analyzeGaps packets mode speed playbackTriggerS).gaps p.frame).bind Gap.segment)
    (fun ab hab => ?_) fun p hp => ?_
  · rw [byStart_of_adjacent hframes hab, compressedBetween]
    split <;> rfl
  · rw [byStart_of_last hframes hp, Option.bind_none]

/-- The labelled neighbours are those with a compressed segment between them. -/
theorem labelledPairs_eq : labelledPairs packets mode speed =
    (adjacent (sortOn FlowPacket.timeMs packets)).filter fun ab =>
      (compressedBetween packets mode speed ab).isSome := by
  rw [labelledPairs, laterPairs, List.filter_filter]
  apply List.filter_congr
  intro ab _
  rw [compressedBetween]
  by_cases hlater : 0 < capturedS ab.1 ab.2 <;> simp [hlater, segment_isSome]

theorem mem_labelledPairs {ab : FlowPacket × FlowPacket} :
    ab ∈ labelledPairs packets mode speed ↔ ab ∈ adjacent (sortOn FlowPacket.timeMs packets) ∧
      (compressedBetween packets mode speed ab).isSome = true := by
  rw [labelledPairs_eq, List.mem_filter]

theorem compressedBetween_eq {ab : FlowPacket × FlowPacket}
    (h : ab ∈ labelledPairs packets mode speed) :
    compressedBetween packets mode speed ab =
      (gapBetween packets mode speed playbackTriggerS ab).segment :=
  if_pos (of_decide_eq_true (List.mem_filter.mp (List.mem_of_mem_filter h)).2)

theorem isCompressed_compressedBetween {ab : FlowPacket × FlowPacket} {segment : PlaySegment}
    (h : compressedBetween packets mode speed ab = some segment) : segment.isCompressed = true := by
  rw [compressedBetween] at h
  split at h
  · exact isCompressed_of_segment h
  · cases h

/-- The compressed segments, in order. -/
theorem compressed_segments (hframes : (packets.map (·.frame)).Nodup) :
    ((timeline packets mode speed).segments.filter PlaySegment.isCompressed).map some =
      (labelledPairs packets mode speed).map fun ab =>
        (gapBetween packets mode speed playbackTriggerS ab).segment := by
  have hbetween : (timeline packets mode speed).segments.filter PlaySegment.isCompressed =
      (adjacent (sortOn FlowPacket.timeMs packets)).filterMap
        (compressedBetween packets mode speed) := by
    rw [segments_eq_interleave hframes, ← List.filterMap_eq_filter, filterMap_gaps fun p => rfl]
    apply List.filterMap_congr
    intro ab _
    cases hab : compressedBetween packets mode speed ab with
    | none => rfl
    | some segment => simp [isCompressed_compressedBetween hab]
  rw [hbetween, map_some_filterMap, ← labelledPairs_eq]
  exact List.map_congr_left fun ab hab => compressedBetween_eq hab

/-! ## The whole replay -/

theorem labelled_gaps : (timeline packets mode speed).analysis.gaps.filter (·.label.isSome) =
    (labelledPairs packets mode speed).map (gapBetween packets mode speed playbackTriggerS) := by
  rw [timeline, analyzeGaps_gaps, List.filter_map]
  rfl

/-- What the analysis counts and adds up. -/
theorem analysis_totals :
    (timeline packets mode speed).analysis.compressedCount.getD 0 =
        (labelledPairs packets mode speed).length ∧
      (timeline packets mode speed).analysis.compressedSeconds =
        roundTo 3 ((labelledPairs packets mode speed).map fun ab => capturedS ab.1 ab.2).sum := by
  rw [timeline, analyzeGaps]
  by_cases hshort : (sortOn FlowPacket.timeMs packets).length < 2
  · have hzero : roundTo 3 0 = 0 := by decide +kernel
    simp only [if_pos hshort, labelledPairs, laterPairs_of_short hshort]
    exact ⟨rfl, hzero.symm⟩
  · simp only [if_neg hshort, Option.getD_some, List.countP_map]
    exact ⟨List.countP_eq_length_filter, rfl⟩

end

/-- THE REPLAY keeps every packet and compresses exactly the labelled gaps, in every mode and at every
speed, when frames are distinct. -/
theorem timeline_replaysWhole {packets : List FlowPacket} (hframes : (packets.map (·.frame)).Nodup)
    (mode : Mode) (speed : ℚ) : ReplaysWhole packets mode speed := by
  have hinterleave := @segments_eq_interleave packets mode speed hframes
  have hcompressed := @compressed_segments packets mode speed hframes
  have hadjacent : ∀ {ab}, ab ∈ labelledPairs packets mode speed →
      ab ∈ adjacent (sortOn FlowPacket.timeMs packets) := fun h => (mem_labelledPairs.mp h).1
  have hlength := congrArg List.length hcompressed
  rw [List.length_map, List.length_map] at hlength
  refine ⟨?_, ⟨perm_sortOn _ _, inOrder_sortOn _ _, filter_sortOn _ _⟩, ?_, ?_, labelled_gaps, ?_, ?_, ?_,
    ?_, analysis_totals.2⟩
  · rw [hinterleave, filterMap_items]
    · exact congrFun List.filterMap_eq_map _
    · intro ab
      cases hab : compressedBetween packets mode speed ab with
      | none => rfl
      | some segment =>
        have h := isCompressed_compressedBetween hab
        cases segment with
        | packet frame timeMs => cases h
        | compressed => rfl
  · rw [hcompressed, labelled_gaps, List.map_map]
    rfl
  · rw [analysis_totals.1, hlength]
  · intro pre segment post hsegment hsplit
    rw [hinterleave] at hsplit
    have hitem : ∀ p : FlowPacket, p.segment ≠ segment := by
      rintro p rfl
      cases hsegment
    obtain ⟨ab, hab, hgap, hpre, hpost⟩ := interleave_split hitem hsplit
    have hmem := mem_labelledPairs.mpr ⟨hab, by rw [hgap, Option.isSome_some]⟩
    exact ⟨ab, hmem, by rw [← compressedBetween_eq hmem, hgap], hpre, hpost⟩
  · intro ab hab
    obtain ⟨segment, hsegment⟩ := Option.isSome_iff_exists.mp (mem_labelledPairs.mp hab).2
    obtain ⟨pre, post, hsplit⟩ := exists_interleave FlowPacket.segment (hadjacent hab) hsegment
    exact ⟨pre, segment, post, by rw [← compressedBetween_eq hab, hsegment], hinterleave.trans hsplit⟩
  · intro ab hab p hp
    exact adjacent_split (inOrder_sortOn _ _) (hadjacent hab) (mem_sortOn.mpr hp)
  · exact ((pairwise_adjacent (inOrder_sortOn FlowPacket.timeMs packets)).filter _).filter _

/-- Two packets ten seconds apart and one at the time of the second. -/
def quietStream : List FlowPacket :=
  [ { plainAck with ts := none, timeMs := 0, direction := .out },
    { plainAck with frame := 2, ts := none, timeMs := 10000, direction := .out },
    { plainAck with frame := 3, ts := none, timeMs := 10000, direction := .out } ]

/-- Ten quiet seconds are compressed between the packets that bound them. -/
theorem timeline_replaysWhole_quiet :
    ReplaysWhole quietStream .smart 1 ∧
      (timeline quietStream .smart 1).segments =
        [ .packet 1 0, .compressed "Idle interval compressed · 10.0 s" 10 true 0 10000,
          .packet 2 10000, .packet 3 10000 ] :=
  ⟨timeline_replaysWhole (by decide) .smart 1, by decide +kernel⟩

end PacketTrain.Analysis
