import Mathlib.Data.List.MinMax
import PacketTrain.Analysis.Packet

/-!
# Retransmission analysis

`packettrain/retransmit.py`. Every payload packet becomes a segment, a relative sequence range; a
segment that overlaps an earlier one of its direction is a repeat, and each repeat gets a verdict from
the time between it and the first transmission it overlaps most.

The segments of a direction are timed from that direction's first capture time, the duplicate ACKs
from the first capture time of the whole stream, as the source has it. Binary64 is modelled by exact
rationals: where the difference of two times is exactly the reorder window, the source may find more or less.
-/

namespace PacketTrain.Analysis

/-- `REORDER_WINDOW_MS`. -/
def reorderWindowMs : ℚ := 200

/-- `MIN_MEANINGFUL_RETRANS`. -/
def minMeaningfulRetrans : ℕ := 1

/-- The payload packets of one side, in arrival order: `_payload_by_direction`. -/
def payloadOf (packets : List FlowPacket) (side : Side) : List FlowPacket :=
  packets.filter fun p => p.direction.side = side ∧ 0 < p.length

structure Segment where
  frame : ℕ
  timeMs : Option ℚ
  start : ℤ
  stop : ℤ
  length : ℕ
  labelled : Bool
  sack : Bool
  seq : ℤ
deriving DecidableEq, Repr

/-- Milliseconds from an origin, to three decimals; `none` without a capture time. -/
def sinceOrigin (origin ts : Option ℚ) : Option ℚ :=
  match ts, origin with
  | some ts, some origin => some (roundTo 3 ((ts - origin) * 1000))
  | _, _ => none

/-- `_segments`. -/
def segments (packets : List FlowPacket) (fromClient : Bool) : List Segment :=
  let base := initialSequence packets fromClient
  packets.map fun p =>
    { frame := p.frame
      timeMs := sinceOrigin (origin packets) p.ts
      start := relative p.seq base
      stop := relative p.seq base + p.length
      length := p.length
      labelled := p.retrans
      sack := p.sack
      seq := p.seq % seqSpace }

/-- `_overlap`: bytes covered by both ranges. -/
def overlap (first second : Segment) : ℤ :=
  max 0 (min first.stop second.stop - max first.start second.start)

/-- A segment that repeats bytes, and how many. -/
structure Repeat extends Segment where
  repeatBytes : ℤ
  newBytes : ℤ
deriving DecidableEq, Repr

/-- The bytes of a segment that earlier segments covered, no more than the segment has. -/
def duplicateBytes (covered : List Segment) (segment : Segment) : ℤ :=
  min (covered.map (overlap segment)).sum segment.length

/-- The loop of `_first_transmissions`, over the segments after `covered`. -/
def splitRepeats : List Segment → List Segment → List Segment × List Repeat
  | _, [] => ([], [])
  | covered, segment :: rest =>
    let duplicate := duplicateBytes covered segment
    let (firsts, repeats) := splitRepeats (covered ++ [segment]) rest
    if duplicate ≠ 0 then
      (firsts, { segment with repeatBytes := duplicate, newBytes := segment.length - duplicate } ::
        repeats)
    else (segment :: firsts, repeats)

/-- `_first_transmissions`: first transmissions and repeats. -/
def firstTransmissions (segments : List Segment) : List Segment × List Repeat :=
  splitRepeats [] segments

inductive Verdict
  | retransmission
  | reordering
  | unknown
deriving DecidableEq, Repr

/-- The duplicate ACKs between two times, counted from the first capture time of the stream. -/
def duplicateAcks (ordered : List FlowPacket) (start stop : ℚ) : ℕ :=
  ordered.countP fun p => p.dupAck ∧
    ∃ t ∈ sinceOrigin (origin ordered) p.ts, start ≤ t ∧ t ≤ stop

/-- The computable order of byte counts, for `argmax`. -/
local instance byteOrder : Preorder ℤ := Int.instLinearOrder.toPreorder

/-- `_classify`: the verdict on a repeat, and why. -/
def classify (r : Repeat) (firsts : List Segment) (ordered : List FlowPacket) : Verdict × String :=
  match (firsts.filter fun s => overlap s r.toSegment ≠ 0).argmax fun s => overlap s r.toSegment with
  | none => (.unknown, "no earlier transmission of this sequence space was captured")
  | some original =>
    match r.timeMs, original.timeMs with
    | some stop, some start =>
      let gapMs := stop - start
      if gapMs < 0 then
        (.reordering, "duplicate arrived " ++ fixed1 |gapMs| ++
          " ms before the original record, so arrival order differs from send order")
      else if gapMs ≤ reorderWindowMs ∧ duplicateAcks ordered start stop = 0 then
        (.reordering, "repeat " ++ fixed1 gapMs ++
          " ms after the original with no duplicate ACKs in between, which is consistent with " ++
          "reordering")
      else (.retransmission, "repeat " ++ fixed1 gapMs ++ " ms after the original")
    | _, _ => (.retransmission, "repeat after the original")

/-- The totals of one direction. -/
structure DirectionTotals where
  records : ℕ
  firstTransmissions : ℕ
  repeats : ℕ
  uniqueBytes : ℤ
  repeatedBytes : ℤ
  repeatFraction : ℚ
  repeatedPercent : ℚ
deriving DecidableEq, Repr

/-- An entry of the repeats that the analysis lists. -/
structure ListedRepeat where
  frame : ℕ
  direction : Side
  verdict : Verdict
  reason : String
  repeatBytes : ℤ
  newBytes : ℤ
deriving DecidableEq, Repr

structure VerdictCounts where
  retransmission : ℕ
  reordering : ℕ
  unknown : ℕ
deriving DecidableEq, Repr

/-- A suspicion that one side's repeats are an artifact of where the capture was taken. -/
structure CaptureArtifact where
  suspected : Bool
  side : Side
  detail : String
deriving DecidableEq, Repr

structure RetransmissionAnalysis where
  basis : String
  client : DirectionTotals
  server : DirectionTotals
  verdicts : VerdictCounts
  repeatedBytes : ℤ
  uniqueBytes : ℤ
  repeatedPercent : ℚ
  repeats : List ListedRepeat
  captureArtifact : Option CaptureArtifact
  meaningful : Bool
  doesNotProve : String
deriving DecidableEq, Repr

/-- A share of a total, scaled and rounded; zero of nothing. -/
def share (scale : ℚ) (digits : ℕ) (part total : ℤ) : ℚ :=
  if total = 0 then 0 else roundTo digits (scale * part / total)

/-- The segments of one direction. -/
def sideSegments (group : List FlowPacket) (side : Side) : List Segment :=
  segments (payloadOf group side) side.fromClient

/-- The totals of one direction's segments. -/
def directionTotals (segments : List Segment) : DirectionTotals :=
  let (firsts, repeats) := firstTransmissions segments
  let sent := (firsts.map fun s => (s.length : ℤ)).sum
  let repeated := (repeats.map Repeat.repeatBytes).sum
  { records := segments.length
    firstTransmissions := firsts.length
    repeats := repeats.length
    uniqueBytes := sent
    repeatedBytes := repeated
    repeatFraction := share 1 4 repeated (sent + repeated)
    repeatedPercent := share 100 2 repeated (sent + repeated) }

/-- The repeats of one direction with their verdicts, in arrival order. -/
def judged (group : List FlowPacket) (side : Side) : List ListedRepeat :=
  let (firsts, repeats) := firstTransmissions (sideSegments group side)
  repeats.map fun r =>
    let (verdict, reason) := classify r firsts group
    ⟨r.frame, side, verdict, reason, r.repeatBytes, r.newBytes⟩

/-- Repeats in one direction only. -/
def captureArtifact (clientRepeats serverRepeats : ℕ) : Option CaptureArtifact :=
  if (clientRepeats ≠ 0 ∨ serverRepeats ≠ 0) ∧ ¬ (clientRepeats ≠ 0 ∧ serverRepeats ≠ 0) then
    let side := if clientRepeats ≠ 0 then Side.client else .server
    some ⟨true, side, "repeats appear only in the " ++ side.text ++
      " direction; a capture at one endpoint commonly records the first transmission as missing " ++
      "rather than lost"⟩
  else none

/-- `retransmission_analysis`. -/
def retransmissionAnalysis (group : List FlowPacket) : RetransmissionAnalysis :=
  let client := directionTotals (sideSegments group .client)
  let server := directionTotals (sideSegments group .server)
  let repeats := judged group .client ++ judged group .server
  let count := fun verdict : Verdict => repeats.countP (·.verdict = verdict)
  let repeated := client.repeatedBytes + server.repeatedBytes
  let unique := client.uniqueBytes + server.uniqueBytes
  { basis := "sequence-range overlap on captured TCP payload"
    client := client
    server := server
    verdicts := ⟨count .retransmission, count .reordering, count .unknown⟩
    repeatedBytes := repeated
    uniqueBytes := unique
    repeatedPercent := share 100 2 repeated (unique + repeated)
    -- the list stops at twenty
    repeats := repeats.take 20
    captureArtifact := captureArtifact client.repeats server.repeats
    meaningful := minMeaningfulRetrans ≤ client.repeats + server.repeats
    doesNotProve := "A repeat shows sequence space was sent twice. Whether the cause was " ++
      "loss, reordering or the capture point is stated per repeat and is a " ++
      "judgement from timing, not a proof." }

end PacketTrain.Analysis
