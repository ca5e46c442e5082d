import PacketTrain.Laws.Analysis.Retransmit
import PacketTrain.Laws.Analysis.UniquePayload

/-!
# Other initial sequence numbers

The same packets, had the two sides opened with other initial sequence numbers: `shifted`. Everything
that is measured from `initial_sequence` stays as it is (`relative_shifted`), so the payload ranges, the
bursts and the whole retransmission analysis do.
-/

namespace PacketTrain.Analysis

def Direction.reverse : Direction → Direction
  | .out => .in_
  | .in_ => .out

/-- The packet, with the sequence numbers of each direction moved on. The acknowledgement number belongs
to the other direction, and is one only under the ACK flag. -/
def shifted (k : Direction → ℤ) (p : FlowPacket) : FlowPacket :=
  { p with
    seq := (p.seq + k p.direction) % seqSpace
    ack := if p.ackFlag then (p.ack + k p.direction.reverse) % seqSpace else p.ack }

section

variable (k : Direction → ℤ) {packets : List FlowPacket} {fromClient : Bool} {p : FlowPacket}

@[simp] theorem shifted_src : (shifted k p).src = p.src := rfl
@[simp] theorem shifted_dst : (shifted k p).dst = p.dst := rfl
@[simp] theorem shifted_sport : (shifted k p).sport = p.sport := rfl
@[simp] theorem shifted_dport : (shifted k p).dport = p.dport := rfl
@[simp] theorem shifted_length : (shifted k p).length = p.length := rfl
@[simp] theorem shifted_ackFlag : (shifted k p).ackFlag = p.ackFlag := rfl
@[simp] theorem shifted_timeMs : (shifted k p).timeMs = p.timeMs := rfl
@[simp] theorem shifted_direction : (shifted k p).direction = p.direction := rfl

/-! ## Relative numbers -/

theorem seq_shifted (h : p.direction = wanted fromClient) :
    (shifted k p).seq % seqSpace = (p.seq % seqSpace + k (wanted fromClient)) % seqSpace := by
  rw [shifted, Int.emod_emod, h, Int.emod_add_emod]

/-- The base of a direction moves with it. -/
theorem initialSequence_shifted (packets : List FlowPacket) (fromClient : Bool) :
    initialSequence (packets.map (shifted k)) fromClient =
      (initialSequence packets fromClient).map fun base => (base + k (wanted fromClient)) % seqSpace := by
  have hsyns : (packets.map (shifted k)).find? (fun q => q.syn ∧ q.direction = wanted fromClient) =
      (packets.find? fun q => q.syn ∧ q.direction = wanted fromClient).map (shifted k) := List.find?_map
  have hpays : (packets.map (shifted k)).find?
        (fun q => q.direction = wanted fromClient ∧ 0 < q.length) =
      (packets.find? fun q => q.direction = wanted fromClient ∧ 0 < q.length).map (shifted k) :=
    List.find?_map
  rw [initialSequence, initialSequence, hsyns, hpays]
  cases hsyn : packets.find? fun q => q.syn ∧ q.direction = wanted fromClient with
  | some q =>
    have hq := List.find?_some hsyn
    exact congrArg some (seq_shifted k (of_decide_eq_true hq).2)
  | none =>
    cases hpay : packets.find? fun q => q.direction = wanted fromClient ∧ 0 < q.length with
    | some q =>
      have hq := List.find?_some hpay
      exact congrArg some (seq_shifted k (of_decide_eq_true hq).1)
    | none => rfl

theorem relative_shift (value base k : ℤ) :
    relative ((value + k) % seqSpace) (some ((base + k) % seqSpace)) = relative value (some base) := by
  rw [relative, relative, ← Int.sub_emod, add_sub_add_right_eq_sub]

/-- A direction with payload has a base. -/
theorem exists_initialSequence (hp : p ∈ packets) (hsends : SendsPayload fromClient p) :
    ∃ base, initialSequence packets fromClient = some base := by
  rw [initialSequence]
  split
  · exact ⟨_, rfl⟩
  · cases hfind : packets.find? fun q => q.direction = wanted fromClient ∧ 0 < q.length with
    | some q => exact ⟨_, rfl⟩
    | none =>
      have hnone := List.find?_eq_none.mp hfind p hp
      rw [decide_eq_true_eq] at hnone
      exact absurd hsends hnone

/-- A payload packet keeps its relative sequence number. -/
theorem relative_shifted (hp : p ∈ packets) (hsends : SendsPayload fromClient p) :
    relative (shifted k p).seq (initialSequence (packets.map (shifted k)) fromClient) =
      relative p.seq (initialSequence packets fromClient) := by
  obtain ⟨base, hbase⟩ := exists_initialSequence hp hsends
  rw [initialSequence_shifted, hbase, ← relative_shift p.seq base (k (wanted fromClient)), ← hsends.1]
  rfl

/-! ## Accounting -/

theorem sentPackets_shifted (packets : List FlowPacket) (fromClient : Bool) :
    sentPackets (packets.map (shifted k)) fromClient =
      (sentPackets packets fromClient).map (shifted k) := by
  rw [sentPackets, List.filter_map]
  rfl

theorem seqRanges_shifted (packets : List FlowPacket) (fromClient : Bool) :
    seqRanges (packets.map (shifted k)) fromClient = seqRanges packets fromClient := by
  rw [seqRanges, sentPackets_shifted, List.flatMap_map, seqRanges]
  apply List.flatMap_congr
  intro p hp
  obtain ⟨hmem, hsends⟩ := mem_sentPackets.mp hp
  rw [seqRange, relative_shifted k hmem hsends]
  rfl

theorem burstsFrom_shifted (gap : ℚ) (current : Option Burst) (records : List (ℚ × FlowPacket)) :
    burstsFrom gap current (records.map (Prod.map id (shifted k))) = burstsFrom gap current records := by
  induction records generalizing current with
  | nil => rfl
  | cons r records ih =>
    simp only [List.map_cons, burstsFrom, Prod.map, ih, shifted_length, shifted_direction, id_eq]

theorem capturedRecords_shifted (packets : List FlowPacket) :
    capturedRecords (packets.map (shifted k)) =
      (capturedRecords packets).map (List.map (Prod.map id (shifted k))) := by
  have hstamp : ∀ p : FlowPacket, ((shifted k p).ts.map fun ts => (ts, shifted k p)) =
      (p.ts.map fun ts => (ts, p)).map (Prod.map id (shifted k)) := by
    intro p
    rw [Option.map_map]
    rfl
  rw [capturedRecords, capturedRecords, Fallible.mapM_map hstamp, Option.map_map, Option.map_map]
  refine congrFun (congrArg Option.map (funext fun records => ?_)) _
  exact sortOn_map Prod.fst _ records

theorem largestBurst_shifted (packets : List FlowPacket) (gap : ℚ) :
    largestBurst (packets.map (shifted k)) gap = largestBurst packets gap := by
  rw [largestBurst, capturedRecords_shifted, largestBurst]
  cases capturedRecords packets with
  | none => rfl
  | some records =>
    simp only [Option.map_some, Option.bind_eq_bind, Option.bind_some, burstsAt, burstsFrom_shifted]

/-- The unique payload of the two sides is measured from their bases. -/
theorem uniquePayloadBytes_shifted (packets : List FlowPacket) :
    (tcpAccounting (packets.map (shifted k))).map TcpAccounting.uniquePayloadBytes =
      (tcpAccounting packets).map TcpAccounting.uniquePayloadBytes := by
  rw [tcpAccounting, largestBurst_shifted, tcpAccounting]
  cases largestBurst packets with
  | none => rfl
  | some bursts => simp only [Option.bind_eq_bind, Option.bind_some, Option.map_some, seqRanges_shifted]

/-! ## Retransmissions

A segment keeps its absolute sequence number too, which no verdict looks at. -/

def Segment.renumbered (d : ℤ) (s : Segment) : Segment := { s with seq := (s.seq + d) % seqSpace }

def Repeat.renumbered (d : ℤ) (r : Repeat) : Repeat :=
  { r with toSegment := r.toSegment.renumbered d }

theorem captureTimes_shifted (packets : List FlowPacket) :
    captureTimes (packets.map (shifted k)) = captureTimes packets := List.filterMap_map

theorem origin_shifted (packets : List FlowPacket) :
    origin (packets.map (shifted k)) = origin packets := by
  rw [origin, captureTimes_shifted, origin]

theorem payloadOf_shifted (packets : List FlowPacket) (side : Side) :
    payloadOf (packets.map (shifted k)) side = (payloadOf packets side).map (shifted k) := List.filter_map

theorem segments_shifted (hsends : ∀ p ∈ packets, SendsPayload fromClient p) :
    segments (packets.map (shifted k)) fromClient =
      (segments packets fromClient).map (Segment.renumbered (k (wanted fromClient))) := by
  simp only [segments, List.map_map]
  apply List.map_congr_left
  intro p hp
  simp only [Function.comp_apply, Segment.renumbered, relative_shifted k hp (hsends p hp), origin_shifted,
    seq_shifted k (hsends p hp).1]
  rfl

theorem sideSegments_shifted (group : List FlowPacket) (side : Side) :
    sideSegments (group.map (shifted k)) side =
      (sideSegments group side).map (Segment.renumbered (k (wanted side.fromClient))) := by
  rw [sideSegments, payloadOf_shifted, segments_shifted]
  · rfl
  · intro p hp
    obtain ⟨hside, hlength⟩ := of_decide_eq_true (List.mem_filter.mp hp).2
    refine ⟨?_, hlength⟩
    rw [← hside]
    cases p.direction <;> rfl

end

section

variable (d : ℤ)

theorem duplicateBytes_renumbered (covered : List Segment) (s : Segment) :
    duplicateBytes (covered.map (Segment.renumbered d)) (s.renumbered d) = duplicateBytes covered s := by
  rw [duplicateBytes, List.map_map]
  rfl

theorem splitRepeats_renumbered (covered segs : List Segment) :
    splitRepeats (covered.map (Segment.renumbered d)) (segs.map (Segment.renumbered d)) =
      ((splitRepeats covered segs).1.map (Segment.renumbered d),
        (splitRepeats covered segs).2.map (Repeat.renumbered d)) := by
  induction segs generalizing covered with
  | nil => rfl
  | cons s segs ih =>
    have hcovered := ih (covered ++ [s])
    rw [List.map_append, List.map_singleton] at hcovered
    rw [List.map_cons]
    by_cases hdup : duplicateBytes covered s = 0
    · rw [splitRepeats_of_first hdup, splitRepeats_of_first (by rwa [duplicateBytes_renumbered]), hcovered]
      rfl
    · rw [splitRepeats_of_repeat hdup, splitRepeats_of_repeat (by rwa [duplicateBytes_renumbered]), hcovered,
        duplicateBytes_renumbered]
      rfl

theorem directionTotals_renumbered (segs : List Segment) :
    directionTotals (segs.map (Segment.renumbered d)) = directionTotals segs := by
  have hsplit := splitRepeats_renumbered d [] segs
  rw [List.map_nil] at hsplit
  simp only [directionTotals, firstTransmissions, hsplit, List.length_map, List.map_map]
  rfl

theorem duplicateAcks_shifted (k : Direction → ℤ) (ordered : List FlowPacket) (start stop : ℚ) :
    duplicateAcks (ordered.map (shifted k)) start stop = duplicateAcks ordered start stop := by
  rw [duplicateAcks, List.countP_map, origin_shifted]
  rfl

theorem classify_renumbered (k : Direction → ℤ) (r : Repeat) (firsts : List Segment)
    (ordered : List FlowPacket) :
    classify (r.renumbered d) (firsts.map (Segment.renumbered d)) (ordered.map (shifted k)) =
      classify r firsts ordered := by
  have hmost : ((firsts.map (Segment.renumbered d)).filter
        fun s => overlap s (r.renumbered d).toSegment ≠ 0).argmax
          (fun s => overlap s (r.renumbered d).toSegment) =
      ((firsts.filter fun s => overlap s r.toSegment ≠ 0).argmax
        fun s => overlap s r.toSegment).map (Segment.renumbered d) := by
    rw [List.filter_map, argmax_map]
    rfl
  rw [classify, hmost, classify]
  cases (firsts.filter fun s => overlap s r.toSegment ≠ 0).argmax fun s => overlap s r.toSegment with
  | none => rfl
  | some original =>
    simp only [Option.map_some, duplicateAcks_shifted]
    rfl

theorem judged_shifted (k : Direction → ℤ) (group : List FlowPacket) (side : Side) :
    judged (group.map (shifted k)) side = judged group side := by
  have hsplit := splitRepeats_renumbered (k (wanted side.fromClient)) [] (sideSegments group side)
  rw [List.map_nil] at hsplit
  simp only [judged, firstTransmissions, sideSegments_shifted, hsplit, List.map_map]
  apply List.map_congr_left
  intro r _
  simp only [Function.comp_apply, classify_renumbered]
  rfl

end

/-- The retransmission analysis does not depend on the initial sequence numbers. -/
theorem retransmissionAnalysis_shifted (k : Direction → ℤ) (group : List FlowPacket) :
    retransmissionAnalysis (group.map (shifted k)) = retransmissionAnalysis group := by
  simp only [retransmissionAnalysis, sideSegments_shifted, directionTotals_renumbered, judged_shifted]

end PacketTrain.Analysis
