import Mathlib.Algebra.Order.BigOperators.Group.List
import PacketTrain.Laws.Analysis.Detail

/-!
# Retransmissions without capture times

`stream_detail` drops the capture times before it calls `retransmission_analysis`. The ranges do not
depend on them, so the totals stay. The verdicts do: without times every repeat of a captured range is
called a retransmission, and its reason names no interval. `retransmissions_dropTs_iff` says when
nothing is lost: when there is no repeat at all.
-/

namespace PacketTrain.Analysis

/-- No payload range meets an earlier one of its direction. Ranges are relative to the first payload
packet of the direction, or to its first SYN with payload. -/
def RepeatFree (group : List FlowPacket) : Prop :=
  ∀ side, (payloadOf group side).Pairwise fun earlier later =>
    let start := fun p : FlowPacket =>
      relative p.seq (initialSequence (payloadOf group side) side.fromClient)
    start later + later.length ≤ start earlier ∨ start earlier + earlier.length ≤ start later

/-! ## What does not depend on the times -/

def Segment.untimed (s : Segment) : Segment := { s with timeMs := none }

def Repeat.untimed (r : Repeat) : Repeat := { r with timeMs := none }

@[simp] theorem payloadOf_dropTs (group : List FlowPacket) (side : Side) :
    payloadOf (group.map FlowPacket.dropTs) side = (payloadOf group side).map FlowPacket.dropTs :=
  List.filter_map

@[simp] theorem initialSequence_dropTs (packets : List FlowPacket) (fromClient : Bool) :
    initialSequence (packets.map FlowPacket.dropTs) fromClient =
      initialSequence packets fromClient := by
  have hfind : ∀ q : FlowPacket → Bool, (∀ p, q (FlowPacket.dropTs p) = q p) →
      (packets.map FlowPacket.dropTs).find? q = (packets.find? q).map FlowPacket.dropTs := by
    intro q hq
    rw [List.find?_map]
    congr 2
    ext p
    exact hq p
  rw [initialSequence, initialSequence, hfind _ fun p => rfl]
  cases packets.find? fun p => decide (p.syn = true ∧ p.direction = wanted fromClient) with
  | some p => rfl
  | none =>
    simp only [Option.map_none]
    rw [hfind _ fun p => rfl, Option.map_map]
    rfl

@[simp] theorem sideSegments_dropTs (group : List FlowPacket) (side : Side) :
    sideSegments (group.map FlowPacket.dropTs) side =
      (sideSegments group side).map Segment.untimed := by
  rw [sideSegments, sideSegments, payloadOf_dropTs, segments, segments, initialSequence_dropTs,
    List.map_map, List.map_map]
  rfl

@[simp] theorem duplicateBytes_untimed (covered : List Segment) (s : Segment) :
    duplicateBytes (covered.map Segment.untimed) s.untimed = duplicateBytes covered s := by
  rw [duplicateBytes, duplicateBytes, List.map_map]
  rfl

theorem splitRepeats_untimed (covered segs : List Segment) :
    splitRepeats (covered.map Segment.untimed) (segs.map Segment.untimed) =
      ((splitRepeats covered segs).1.map Segment.untimed,
        (splitRepeats covered segs).2.map Repeat.untimed) := by
  induction segs generalizing covered with
  | nil => rfl
  | cons s segs ih =>
    have hrest := ih (covered ++ [s])
    rw [List.map_append] at hrest
    rw [List.map_cons, splitRepeats, splitRepeats, duplicateBytes_untimed]
    simp only [List.map_cons, List.map_nil] at hrest
    simp only [hrest]
    split <;> rfl

@[simp] theorem firstTransmissions_untimed (segs : List Segment) :
    firstTransmissions (segs.map Segment.untimed) =
      ((firstTransmissions segs).1.map Segment.untimed,
        (firstTransmissions segs).2.map Repeat.untimed) :=
  splitRepeats_untimed [] segs

@[simp] theorem directionTotals_untimed (segs : List Segment) :
    directionTotals (segs.map Segment.untimed) = directionTotals segs := by
  rw [directionTotals, directionTotals, firstTransmissions_untimed]
  simp only [List.length_map, List.map_map]
  rfl

/-! ## When a segment is a repeat -/

theorem overlap_nonneg (s t : Segment) : 0 ≤ overlap s t := le_max_left _ _

theorem overlap_comm (s t : Segment) : overlap s t = overlap t s := by
  rw [overlap, overlap, min_comm, max_comm s.start]

/-- A segment has duplicate bytes exactly when it overlaps a covered one. -/
theorem duplicateBytes_eq_zero_iff {covered : List Segment} {s : Segment} (hs : 0 < s.length) :
    duplicateBytes covered s = 0 ↔ ∀ c ∈ covered, overlap s c = 0 := by
  have hsum : 0 ≤ (covered.map (overlap s)).sum := by
    apply List.sum_nonneg
    intro x hx
    obtain ⟨c, -, rfl⟩ := List.mem_map.mp hx
    exact overlap_nonneg s c
  rw [duplicateBytes]
  constructor
  · intro h c hc
    have hzero : (covered.map (overlap s)).sum = 0 := by omega
    have hle := List.single_le_sum (fun x hx => by
      obtain ⟨d, -, rfl⟩ := List.mem_map.mp hx
      exact overlap_nonneg s d) _ (List.mem_map.mpr ⟨c, hc, rfl⟩)
    have := overlap_nonneg s c
    omega
  · intro h
    have hzero : (covered.map (overlap s)).sum = 0 := by
      apply List.sum_eq_zero
      intro x hx
      obtain ⟨c, hc, rfl⟩ := List.mem_map.mp hx
      exact h c hc
    omega

theorem splitRepeats_of_first {covered segs : List Segment} {s : Segment}
    (h : duplicateBytes covered s = 0) :
    splitRepeats covered (s :: segs) =
      (s :: (splitRepeats (covered ++ [s]) segs).1, (splitRepeats (covered ++ [s]) segs).2) := by
  rw [splitRepeats]
  exact if_neg (not_not.mpr h)

theorem splitRepeats_of_repeat {covered segs : List Segment} {s : Segment}
    (h : duplicateBytes covered s ≠ 0) :
    splitRepeats covered (s :: segs) =
      ((splitRepeats (covered ++ [s]) segs).1,
        { s with
          repeatBytes := duplicateBytes covered s
          newBytes := s.length - duplicateBytes covered s } ::
        (splitRepeats (covered ++ [s]) segs).2) := by
  rw [splitRepeats]
  exact if_pos h

/-- There is no repeat exactly when no segment overlaps a covered or an earlier one. -/
theorem splitRepeats_eq_nil_iff (covered : List Segment) {segs : List Segment} (hpos : ∀ s ∈ segs, 0 < s.length) :
    (splitRepeats covered segs).2 = [] ↔ (∀ s ∈ segs, ∀ c ∈ covered, overlap s c = 0) ∧
      segs.Pairwise fun earlier later => overlap later earlier = 0 := by
  induction segs generalizing covered with
  | nil => simp [splitRepeats]
  | cons s segs ih =>
    have hs : 0 < s.length := hpos s List.mem_cons_self
    have hrest := ih (covered ++ [s]) fun t ht => hpos t (List.mem_cons_of_mem _ ht)
    by_cases hdup : duplicateBytes covered s = 0
    · rw [splitRepeats_of_first hdup]
      rw [duplicateBytes_eq_zero_iff hs] at hdup
      simp only [hrest, List.mem_append, List.pairwise_cons, List.mem_cons, List.not_mem_nil,
        or_false]
      constructor
      · rintro ⟨hcov, hpair⟩
        refine ⟨?_, fun t ht => hcov t ht s (.inr rfl), hpair⟩
        rintro t (rfl | ht) c hc
        · exact hdup c hc
        · exact hcov t ht c (.inl hc)
      · rintro ⟨hcov, hs, hpair⟩
        refine ⟨?_, hpair⟩
        rintro t ht c (hc | rfl)
        · exact hcov t (.inr ht) c hc
        · exact hs t ht
    · rw [splitRepeats_of_repeat hdup]
      simp only [reduceCtorEq, false_iff]
      rintro ⟨hcov, -⟩
      exact hdup ((duplicateBytes_eq_zero_iff hs).mpr (hcov s List.mem_cons_self))

theorem mem_splitRepeats (covered segs : List Segment) :
    (∀ s ∈ (splitRepeats covered segs).1, s ∈ segs) ∧
      ∀ r ∈ (splitRepeats covered segs).2, r.toSegment ∈ segs := by
  induction segs generalizing covered with
  | nil => exact ⟨(fun _ h => nomatch h), (fun _ h => nomatch h)⟩
  | cons s segs ih =>
    obtain ⟨hfirsts, hrepeats⟩ := ih (covered ++ [s])
    by_cases hdup : duplicateBytes covered s = 0
    · rw [splitRepeats_of_first hdup]
      refine ⟨fun t ht => ?_, fun r hr => List.mem_cons_of_mem _ (hrepeats r hr)⟩
      rcases List.mem_cons.mp ht with rfl | ht
      · exact List.mem_cons_self
      · exact List.mem_cons_of_mem _ (hfirsts t ht)
    · rw [splitRepeats_of_repeat hdup]
      refine ⟨fun t ht => List.mem_cons_of_mem _ (hfirsts t ht), fun r hr => ?_⟩
      rcases List.mem_cons.mp hr with rfl | hr
      · exact List.mem_cons_self
      · exact List.mem_cons_of_mem _ (hrepeats r hr)

/-- The first repeat overlaps a first transmission: until then there was nothing else. -/
theorem first_repeat_overlaps {covered segs : List Segment} {r : Repeat} {rest : List Repeat}
    (hpos : ∀ s ∈ segs, 0 < s.length) (h : (splitRepeats covered segs).2 = r :: rest) :
    ∃ c ∈ covered ++ (splitRepeats covered segs).1, overlap c r.toSegment ≠ 0 := by
  induction segs generalizing covered with
  | nil => cases h
  | cons s segs ih =>
    have hs : 0 < s.length := hpos s List.mem_cons_self
    by_cases hdup : duplicateBytes covered s = 0
    · rw [splitRepeats_of_first hdup] at h ⊢
      obtain ⟨c, hc, hne⟩ := ih (fun t ht => hpos t (List.mem_cons_of_mem _ ht)) h
      rw [List.append_assoc] at hc
      exact ⟨c, hc, hne⟩
    · rw [splitRepeats_of_repeat hdup] at h ⊢
      obtain ⟨rfl, -⟩ := List.cons.inj h
      rw [duplicateBytes_eq_zero_iff hs] at hdup
      push Not at hdup
      obtain ⟨c, hc, hne⟩ := hdup
      refine ⟨c, List.mem_append_left _ hc, ?_⟩
      rw [overlap_comm]
      exact hne

/-! ## Verdicts with and without times -/

/-- The reason given for a repeat without a time. -/
def untimedReason : String := "repeat after the original"

theorem classify_untimed {r : Repeat} (firsts : List Segment) {c : Segment}
    (ordered : List FlowPacket) (hr : r.timeMs = none) (hc : c ∈ firsts)
    (hover : overlap c r.toSegment ≠ 0) :
    classify r firsts ordered = (.retransmission, untimedReason) := by
  rw [classify, hr]
  split
  · rename_i hnone
    rw [List.argmax_eq_none, List.filter_eq_nil_iff] at hnone
    exact absurd (decide_eq_true hover) (hnone c hc)
  · rfl

theorem append_ne {first mid last text : String} (h : text.length < first.length + last.length) :
    first ++ mid ++ last ≠ text := by
  intro heq
  have hlength := congrArg String.length heq
  rw [String.length_append, String.length_append] at hlength
  omega

/-- A reason that names an interval is longer than the one that names none. -/
theorem classify_timed {r : Repeat} (firsts : List Segment) (ordered : List FlowPacket)
    (hr : r.timeMs.isSome = true) (hfirsts : ∀ s ∈ firsts, s.timeMs.isSome = true) :
    (classify r firsts ordered).2 ≠ untimedReason := by
  obtain ⟨stop, hstop⟩ := Option.isSome_iff_exists.mp hr
  rw [classify, hstop]
  split
  · decide
  · rename_i original horiginal
    have hmem := List.mem_of_mem_filter (List.argmax_mem horiginal)
    obtain ⟨start, hstart⟩ := Option.isSome_iff_exists.mp (hfirsts original hmem)
    rw [hstart]
    dsimp only
    split
    · exact append_ne (by decide)
    · split
      · rw [String.append_assoc]
        exact append_ne (by decide)
      · exact append_ne (by decide)

/-- The repeats of one side. -/
def repeatsOf (group : List FlowPacket) (side : Side) : List Repeat :=
  (firstTransmissions (sideSegments group side)).2

theorem judged_eq (group : List FlowPacket) (side : Side) :
    judged group side = (repeatsOf group side).map fun r =>
      let verdict := classify r (firstTransmissions (sideSegments group side)).1 group
      ⟨r.frame, side, verdict.1, verdict.2, r.repeatBytes, r.newBytes⟩ := rfl

@[simp] theorem repeatsOf_dropTs (group : List FlowPacket) (side : Side) :
    repeatsOf (group.map FlowPacket.dropTs) side = (repeatsOf group side).map Repeat.untimed := by
  rw [repeatsOf, repeatsOf, sideSegments_dropTs, firstTransmissions_untimed]

theorem judged_of_no_repeats {group : List FlowPacket} {side : Side}
    (h : repeatsOf group side = []) : judged group side = [] := by
  rw [judged_eq, h, List.map_nil]

theorem sideSegments_pos {group : List FlowPacket} {side : Side} :
    ∀ s ∈ sideSegments group side, 0 < s.length := by
  intro s hs
  obtain ⟨p, hp, rfl⟩ := List.mem_map.mp hs
  exact (of_decide_eq_true (List.mem_filter.mp hp).2).2

theorem sideSegments_timed {group : List FlowPacket} (hstamped : Stamped group) (side : Side) :
    ∀ s ∈ sideSegments group side, s.timeMs.isSome = true := by
  intro s hs
  obtain ⟨p, hp, rfl⟩ := List.mem_map.mp hs
  obtain ⟨ts, hts⟩ := Option.isSome_iff_exists.mp (hstamped p (List.mem_of_mem_filter hp))
  have horigin : origin (payloadOf group side) ≠ none := by
    rw [origin, Ne, List.min?_eq_none_iff]
    exact List.ne_nil_of_mem (List.mem_filterMap.mpr ⟨p, hp, hts⟩)
  obtain ⟨first, hfirst⟩ := Option.ne_none_iff_exists'.mp horigin
  rw [hts, hfirst]
  rfl

/-- The first entry of a side with repeats shows whether the packets had times. -/
theorem head_judged_ne {group : List FlowPacket} (hstamped : Stamped group) {side : Side}
    (hrepeats : repeatsOf group side ≠ []) :
    ∃ x y, (judged (group.map FlowPacket.dropTs) side).head? = some x ∧
      (judged group side).head? = some y ∧ x ≠ y := by
  obtain ⟨r, rest, hrest⟩ := List.exists_cons_of_ne_nil hrepeats
  obtain ⟨c, hc, hover⟩ := first_repeat_overlaps sideSegments_pos hrest
  rw [List.nil_append] at hc
  obtain ⟨hfirsts, hmem⟩ := mem_splitRepeats [] (sideSegments group side)
  have hr : r ∈ repeatsOf group side := by
    rw [hrest]
    exact List.mem_cons_self
  have htimed := classify_timed (firstTransmissions (sideSegments group side)).1 group
    (sideSegments_timed hstamped side _ (hmem r hr))
    fun s hs => sideSegments_timed hstamped side s (hfirsts s hs)
  rw [judged_eq, judged_eq, repeatsOf_dropTs, hrest]
  refine ⟨_, _, rfl, rfl, fun heq => htimed ?_⟩
  have hc' : c.untimed ∈
      (firstTransmissions (sideSegments (group.map FlowPacket.dropTs) side)).1 := by
    rw [sideSegments_dropTs, firstTransmissions_untimed]
    exact List.mem_map_of_mem hc
  have huntimed := classify_untimed _ (group.map FlowPacket.dropTs)
    (show r.untimed.timeMs = none from rfl) hc' hover
  have hreason := congrArg ListedRepeat.reason heq
  dsimp only at hreason
  rw [← hreason, huntimed]

/-! ## The analysis with and without times -/

/-- Two ranges share no byte exactly when one ends before the other starts. -/
theorem overlap_eq_zero_iff {s t : Segment} (hs : 0 < s.length) (ht : 0 < t.length)
    (hstop : s.stop = s.start + s.length) (htop : t.stop = t.start + t.length) :
    overlap s t = 0 ↔ s.stop ≤ t.start ∨ t.stop ≤ s.start := by
  rw [overlap]
  omega

theorem repeatFree_iff (group : List FlowPacket) :
    RepeatFree group ↔ ∀ side, repeatsOf group side = [] := by
  apply forall_congr'
  intro side
  have hnil := splitRepeats_eq_nil_iff [] (@sideSegments_pos group side)
  rw [repeatsOf, firstTransmissions, hnil, sideSegments, segments, List.pairwise_map]
  constructor
  · intro h
    refine ⟨(fun _ _ _ hc => nomatch hc), h.imp_of_mem fun {p q} hp hq hpq => ?_⟩
    have hplen := (of_decide_eq_true (List.mem_filter.mp hp).2).2
    have hqlen := (of_decide_eq_true (List.mem_filter.mp hq).2).2
    exact (overlap_eq_zero_iff hqlen hplen rfl rfl).mpr hpq
  · rintro ⟨-, h⟩
    refine h.imp_of_mem fun {p q} hp hq hpq => ?_
    have hplen := (of_decide_eq_true (List.mem_filter.mp hp).2).2
    have hqlen := (of_decide_eq_true (List.mem_filter.mp hq).2).2
    exact (overlap_eq_zero_iff hqlen hplen rfl rfl).mp hpq

/-- Dropping the capture times changes the analysis exactly when there is a repeat. -/
theorem retransmissionAnalysis_dropTs_iff {group : List FlowPacket} (hstamped : Stamped group) :
    retransmissionAnalysis (group.map FlowPacket.dropTs) = retransmissionAnalysis group ↔
      RepeatFree group := by
  rw [repeatFree_iff]
  constructor
  · intro heq
    have hlist := congrArg (List.head? ∘ RetransmissionAnalysis.repeats) heq
    simp only [Function.comp, retransmissionAnalysis, List.head?_take, List.head?_append] at hlist
    rw [if_neg (by decide), if_neg (by decide)] at hlist
    have hclient : repeatsOf group .client = [] := by
      by_contra hrepeats
      obtain ⟨x, y, hx, hy, hne⟩ := head_judged_ne hstamped hrepeats
      rw [hx, hy, Option.some_or, Option.some_or] at hlist
      exact hne (Option.some.inj hlist)
    have hclient' : repeatsOf (group.map FlowPacket.dropTs) .client = [] := by
      rw [repeatsOf_dropTs, hclient, List.map_nil]
    rintro (_ | _)
    · exact hclient
    · by_contra hrepeats
      rw [judged_of_no_repeats hclient, judged_of_no_repeats hclient'] at hlist
      obtain ⟨x, y, hx, hy, hne⟩ := head_judged_ne hstamped hrepeats
      rw [List.head?_nil, Option.none_or, hx, Option.none_or, hy] at hlist
      exact hne (Option.some.inj hlist)
  · intro hnone
    have hjudged : ∀ side, judged (group.map FlowPacket.dropTs) side = judged group side := by
      intro side
      rw [judged_of_no_repeats (hnone side), judged_of_no_repeats]
      rw [repeatsOf_dropTs, hnone side, List.map_nil]
    simp only [retransmissionAnalysis, hjudged, sideSegments_dropTs, directionTotals_untimed]

/-- The response carries the analysis of the packets with their capture times exactly when no payload
range of the stream is repeated. -/
theorem flow_retransmissions_iff {packets : List Packet} {stream : ℕ} {detail : StreamDetail}
    (h : streamDetail packets stream = some detail) :
    detail.retransmissions = retransmissionAnalysis (accountingInput packets stream) ↔
      RepeatFree (accountingInput packets stream) := by
  obtain ⟨-, -, hretransmissions, -⟩ := streamDetail_eq_some h
  rw [hretransmissions]
  exact retransmissionAnalysis_dropTs_iff (accountingInput_stamped packets stream)

/-- A range that arrives again after a time. -/
def repeatedAfter (gap : ℚ) : List Packet :=
  [ { plainAck with length := 1000, ts := 1 },
    { plainAck with frame := 2, length := 1000, ts := 1 + gap } ]

/-- A repeat 50 ms after the original with no duplicate ACK between them is a reordering; the response
says retransmission. -/
theorem early_repeat_misjudged :
    ∃ detail, streamDetail (repeatedAfter (1 / 20)) 0 = some detail ∧
      detail.retransmissions.verdicts = ⟨1, 0, 0⟩ ∧
      (retransmissionAnalysis (accountingInput (repeatedAfter (1 / 20)) 0)).verdicts = ⟨0, 1, 0⟩ ∧
      detail.retransmissions ≠
        retransmissionAnalysis (accountingInput (repeatedAfter (1 / 20)) 0) := by
  have hresponse : (streamDetail (repeatedAfter (1 / 20)) 0).map (·.retransmissions.verdicts) =
      some ⟨1, 0, 0⟩ := by decide +kernel
  have hreal : (retransmissionAnalysis (accountingInput (repeatedAfter (1 / 20)) 0)).verdicts =
      ⟨0, 1, 0⟩ := by decide +kernel
  obtain ⟨detail, hdetail, hverdicts⟩ := Option.map_eq_some_iff.mp hresponse
  refine ⟨detail, hdetail, hverdicts, hreal, fun heq => ?_⟩
  rw [heq, hreal] at hverdicts
  cases hverdicts

theorem flow_retransmissions_iff_early :
    ∃ detail, streamDetail (repeatedAfter (1 / 20)) 0 = some detail ∧
      ¬ RepeatFree (accountingInput (repeatedAfter (1 / 20)) 0) ∧
      detail.retransmissions ≠
        retransmissionAnalysis (accountingInput (repeatedAfter (1 / 20)) 0) := by
  have hsome : (streamDetail (repeatedAfter (1 / 20)) 0).isSome = true := rfl
  obtain ⟨detail, hdetail⟩ := Option.isSome_iff_exists.mp hsome
  have hrepeat : ¬ RepeatFree (accountingInput (repeatedAfter (1 / 20)) 0) := by
    intro h
    have hclient := h .client
    revert hclient
    decide +kernel
  exact ⟨detail, hdetail, hrepeat, fun heq => hrepeat ((flow_retransmissions_iff hdetail).mp heq)⟩

end PacketTrain.Analysis
