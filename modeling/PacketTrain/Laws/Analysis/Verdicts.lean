import PacketTrain.Laws.Analysis.RepeatBytes

/-!
# What is said of a repeat

A repeat is found against every earlier segment and explained by the first transmissions alone. So there
may be no first transmission that it overlaps, only other repeats: then it is called unknown
(`verdicts_truthful_iff`).
-/

namespace PacketTrain.Analysis

open Ranges

/-! ## Repeats and their originals -/

/-- The packets of a side that overlap none before them. -/
def firstSent (group : List FlowPacket) (side : Side) : List FlowPacket :=
  ((payloadArrivals group side).filter fun a => sharedBefore (payloadBase group side) a = 0).map
    Prod.snd

/-- Those that overlap some, with the packets before them. -/
def repeated (group : List FlowPacket) (side : Side) : List (List FlowPacket × FlowPacket) :=
  (payloadArrivals group side).filter fun a => sharedBefore (payloadBase group side) a ≠ 0

/-- The bytes that the ranges of two packets share. -/
def sharedBytes (group : List FlowPacket) (side : Side) (p q : FlowPacket) : ℤ :=
  shared (sentRange (payloadBase group side) q) (sentRange (payloadBase group side) p)

/-- The order that the source compares byte counts by, for `argmax`. -/
local instance sharedOrder : Preorder ℤ := Int.instLinearOrder.toPreorder

/-- The first transmission that a packet overlaps most. -/
def originalOf (group : List FlowPacket) (side : Side) (p : FlowPacket) : Option FlowPacket :=
  ((firstSent group side).filter fun q => sharedBytes group side p q ≠ 0).argmax
    (sharedBytes group side p)

/-- The repeat of a packet, as it is listed. -/
def listedRepeat (group : List FlowPacket) (side : Side) (a : List FlowPacket × FlowPacket) :
    ListedRepeat :=
  let bytes := min (sharedBefore (payloadBase group side) a) a.2.length
  let verdict := classify (repeatWith group side a bytes)
    ((firstSent group side).map (segmentOf group side)) group
  ⟨a.2.frame, side, verdict.1, verdict.2, bytes, a.2.length - bytes⟩

theorem min_ne_zero_iff {group : List FlowPacket} {side : Side} {a : List FlowPacket × FlowPacket}
    (ha : a ∈ payloadArrivals group side) :
    min (sharedBefore (payloadBase group side) a) (a.2.length : ℤ) ≠ 0 ↔
      sharedBefore (payloadBase group side) a ≠ 0 := by
  have hlength := payloadArrivals_pos ha
  have hshared := sharedBefore_nonneg (payloadBase group side) a
  omega

theorem firsts_eq (group : List FlowPacket) (side : Side) :
    (firstTransmissions (sideSegments group side)).1 =
      (firstSent group side).map (segmentOf group side) := by
  have harrivals : arrivals [] (sideSegments group side) =
      (payloadArrivals group side).map fun a =>
        (a.1.map (segmentOf group side), segmentOf group side a.2) := arrivals_map _ [] _
  rw [firstTransmissions, splitRepeats_eq, harrivals, firstSent]
  simp only [List.filter_map, List.map_map, Function.comp_def, duplicateBytes_segmentOf]
  congr 1
  apply List.filter_congr
  intro a ha
  exact decide_eq_decide.mpr (not_iff_not.mp (min_ne_zero_iff ha))

/-- The repeats with their verdicts, packet by packet. -/
theorem judged_eq_map (group : List FlowPacket) (side : Side) :
    judged group side = (repeated group side).map (listedRepeat group side) := by
  have hkept : (payloadArrivals group side).filter (fun a =>
      min (sharedBefore (payloadBase group side) a) (a.2.length : ℤ) ≠ 0) = repeated group side :=
    List.filter_congr fun a ha => decide_eq_decide.mpr (min_ne_zero_iff ha)
  rw [judged_eq, firsts_eq, repeatsOf_eq, hkept, List.map_map]
  rfl

/-- The original of the listed repeat. -/
theorem argmax_firsts (group : List FlowPacket) (side : Side) (a : List FlowPacket × FlowPacket)
    (bytes : ℤ) :
    (((firstSent group side).map (segmentOf group side)).filter fun s =>
        overlap s (repeatWith group side a bytes).toSegment ≠ 0).argmax
      (fun s => overlap s (repeatWith group side a bytes).toSegment) =
      (originalOf group side a.2).map (segmentOf group side) := by
  rw [List.filter_map, argmax_map]
  rfl

/-! ## Unknown -/

/-- The verdict is unknown exactly when no first transmission is overlapped. -/
theorem verdict_unknown_iff (group : List FlowPacket) (side : Side)
    (a : List FlowPacket × FlowPacket) :
    (listedRepeat group side a).verdict = .unknown ↔
      ∀ q ∈ firstSent group side, sharedBytes group side a.2 q = 0 := by
  have hnone : originalOf group side a.2 = none ↔
      ∀ q ∈ firstSent group side, sharedBytes group side a.2 q = 0 := by
    rw [originalOf, List.argmax_eq_none, List.filter_eq_nil_iff]
    simp only [decide_eq_true_eq, not_not]
  rw [← hnone, listedRepeat]
  dsimp only
  rw [classify, argmax_firsts]
  cases originalOf group side a.2 with
  | none => exact ⟨fun _ => rfl, fun _ => rfl⟩
  | some q =>
    simp only [Option.map_some, reduceCtorEq, iff_false]
    split
    · split
      · exact Verdict.noConfusion
      · split
        · exact Verdict.noConfusion
        · exact Verdict.noConfusion
    · exact Verdict.noConfusion

/-- The verdicts add up, and none of them denies what made the segment a repeat. -/
structure VerdictsTruthful (group : List FlowPacket) : Prop where
  known : ∀ side, ∀ r ∈ judged group side, r.verdict ≠ .unknown
  none_unknown : (retransmissionAnalysis group).verdicts.unknown = 0
  total :
    let verdicts := (retransmissionAnalysis group).verdicts
    verdicts.retransmission + verdicts.reordering + verdicts.unknown =
      (retransmissionAnalysis group).client.repeats + (retransmissionAnalysis group).server.repeats

/-- Each packet that overlaps one before it overlaps one that overlaps none before it. -/
def EveryRepeatHasOriginal (group : List FlowPacket) : Prop :=
  ∀ side, ∀ a ∈ repeated group side, ∃ q ∈ firstSent group side, sharedBytes group side a.2 q ≠ 0

/-- Every repeat is of one of the three verdicts. -/
theorem count_verdicts (l : List ListedRepeat) :
    l.countP (·.verdict = .retransmission) + l.countP (·.verdict = .reordering) +
      l.countP (·.verdict = .unknown) = l.length := by
  induction l with
  | nil => rfl
  | cons r l ih =>
    rw [List.countP_cons, List.countP_cons, List.countP_cons, List.length_cons, ← ih]
    cases r.verdict <;> simp <;> omega

theorem length_judged (group : List FlowPacket) (side : Side) :
    (judged group side).length = (directionTotals (sideSegments group side)).repeats :=
  List.length_map _

/-- THE CAUSES ARE TRUE exactly when each repeat overlaps some first transmission. -/
theorem verdicts_truthful_iff (group : List FlowPacket) :
    VerdictsTruthful group ↔ EveryRepeatHasOriginal group := by
  have hside : ∀ side, (∀ r ∈ judged group side, r.verdict ≠ .unknown) ↔
      ∀ a ∈ repeated group side, ∃ q ∈ firstSent group side, sharedBytes group side a.2 q ≠ 0 := by
    intro side
    rw [judged_eq_map, List.forall_mem_map]
    apply forall_congr'
    intro a
    apply forall_congr'
    intro _
    rw [Ne, verdict_unknown_iff]
    push Not
    rfl
  constructor
  · intro h side
    exact (hside side).mp (h.known side)
  · intro h
    have hknown : ∀ side, ∀ r ∈ judged group side, r.verdict ≠ .unknown := fun side =>
      (hside side).mpr (h side)
    refine ⟨hknown, ?_, ?_⟩
    · show (judged group .client ++ judged group .server).countP (·.verdict = .unknown) = 0
      rw [List.countP_eq_zero]
      intro r hr
      rw [decide_eq_true_eq]
      rcases List.mem_append.mp hr with hr | hr
      · exact hknown .client r hr
      · exact hknown .server r hr
    · refine (count_verdicts (judged group .client ++ judged group .server)).trans ?_
      rw [List.length_append, length_judged, length_judged]
      rfl

/-- Ten bytes, ten of which five are new, and the five new ones again. -/
def repeatOfRepeat : List FlowPacket :=
  [ { plainAck with length := 10, ts := some 1, timeMs := 0, direction := .out },
    { plainAck with frame := 2, seq := 1005, length := 10, ts := some 2, timeMs := 1000,
                    direction := .out },
    { plainAck with frame := 3, seq := 1010, length := 5, ts := some 3, timeMs := 2000,
                    direction := .out } ]

/-- The last five bytes were captured before, in a segment that is itself a repeat: no earlier
transmission of them was captured, says the verdict. -/
theorem repeatOfRepeat_unknown :
    (judged repeatOfRepeat .client).map (fun r => (r.frame, r.verdict, r.reason)) =
        [ (2, .retransmission, "repeat 1000.0 ms after the original"),
          (3, .unknown, "no earlier transmission of this sequence space was captured") ] ∧
      (retransmissionAnalysis repeatOfRepeat).verdicts.unknown = 1 ∧
      ¬ VerdictsTruthful repeatOfRepeat := by
  have hone : (retransmissionAnalysis repeatOfRepeat).verdicts.unknown = 1 := by decide +kernel
  refine ⟨by decide +kernel, hone, fun h => ?_⟩
  have hnone := h.none_unknown
  rw [hone] at hnone
  cases hnone

end PacketTrain.Analysis
