import PacketTrain.Laws.Analysis.Bursts
import PacketTrain.Laws.Analysis.Outstanding
import PacketTrain.Lib.Circular

/-!
# The unique payload of a direction

`_seq_ranges` measures every payload range from the base that `initial_sequence` finds and splits it at
`2 ^ 32`; `unique_payload` merges the ranges and adds up what is left. On the circle of sequence numbers
a payload is an arc, so the sum is the number of sequence numbers that carried a byte
(`uniquePayload_seqRanges`), whatever the base and the order of the packets.
-/

namespace PacketTrain.Analysis

open Circular

/-- The arc of sequence numbers that a payload takes up. -/
def arcOf (p : FlowPacket) : ℤ × ℕ := (p.seq, p.length)

/-- The sequence numbers that carried a payload byte of a direction. -/
def sequenceBytes (packets : List FlowPacket) (fromClient : Bool) : Finset ℤ :=
  arcs seqSpace ((sentPackets packets fromClient).map arcOf)

theorem relative_eq (value : ℤ) (base : Option ℤ) :
    relative value base = (value - base.getD 0) % seqSpace := by
  cases base with
  | none => rw [relative, Option.getD_none, sub_zero]
  | some base => rfl

theorem seqRange_eq_cut (base : Option ℤ) (p : FlowPacket) :
    seqRange base p = cut seqSpace ((p.seq - base.getD 0) % seqSpace) p.length := by
  rw [← relative_eq]
  rfl

/-- The ranges of packets are their arcs, cut from the base. -/
theorem flatMap_seqRange (base : Option ℤ) (packets : List FlowPacket) :
    packets.flatMap (seqRange base) =
      (packets.map arcOf).flatMap fun a => cut seqSpace ((a.1 - base.getD 0) % seqSpace) a.2 := by
  rw [List.flatMap_map]
  exact List.flatMap_congr fun p _ => seqRange_eq_cut base p

theorem uniquePayload_eq_total (ranges : List Ranges.Range) :
    uniquePayload ranges = Ranges.total ranges := by
  rw [uniquePayload]
  split
  · next hnil =>
    rw [hnil]
    rfl
  · rfl

theorem proper_seqRanges (base : Option ℤ) (packets : List FlowPacket) :
    Ranges.Proper (packets.flatMap (seqRange base)) := by
  intro r hr
  obtain ⟨p, -, hr⟩ := List.mem_flatMap.mp hr
  rw [seqRange_eq_cut] at hr
  exact proper_cut (Int.emod_lt_of_pos _ (by decide)) _ r hr

/-- No payload of a direction is longer than the sequence space. -/
def FitsSequenceSpace (packets : List FlowPacket) (fromClient : Bool) : Prop :=
  ∀ p ∈ packets, SendsPayload fromClient p → (p.length : ℤ) ≤ seqSpace

/-- The merged ranges of a direction are as long as there are sequence numbers with a byte. -/
theorem uniquePayload_seqRanges {packets : List FlowPacket} {fromClient : Bool}
    (h : FitsSequenceSpace packets fromClient) :
    uniquePayload (seqRanges packets fromClient) = (sequenceBytes packets fromClient).card := by
  have hfits : ∀ a ∈ (sentPackets packets fromClient).map arcOf, (a.2 : ℤ) ≤ seqSpace := by
    intro a ha
    obtain ⟨p, hp, rfl⟩ := List.mem_map.mp ha
    obtain ⟨hmem, hsends⟩ := mem_sentPackets.mp hp
    exact h p hmem hsends
  rw [uniquePayload_eq_total, seqRanges, flatMap_seqRange, total_cuts (by decide) _ hfits,
    sequenceBytes]

theorem tcpAccounting_eq_some {packets : List FlowPacket} {accounting : TcpAccounting}
    (h : tcpAccounting packets = some accounting) :
    (∀ side, accounting.uniquePayloadBytes side =
      uniquePayload (seqRanges packets side.fromClient)) ∧
    accounting.window = scaledWindow packets ∧ accounting.outstanding = outstandingBytes packets := by
  rw [tcpAccounting] at h
  obtain ⟨bursts, -, heq⟩ := Option.bind_eq_some_iff.mp h
  cases heq
  exact ⟨fun _ => rfl, rfl, rfl⟩

/-- The accounting needs nothing but the capture times. -/
theorem exists_tcpAccounting {packets : List FlowPacket} (h : Stamped packets) :
    ∃ accounting, tcpAccounting packets = some accounting := by
  obtain ⟨records, hrecords, -, -⟩ := capturedRecords_spec h
  obtain ⟨bursts, hbursts, -⟩ := largestBurst_eq_some hrecords burstGapS
  rw [tcpAccounting, hbursts]
  exact ⟨_, rfl⟩

/-- The accounting of a stream reports, for each side, how many sequence numbers carried a payload
byte. -/
theorem uniquePayloadBytes_exact {packets : List FlowPacket} (hstamped : Stamped packets)
    (side : Side) (hfits : FitsSequenceSpace packets side.fromClient) :
    ∃ accounting, tcpAccounting packets = some accounting ∧
      accounting.uniquePayloadBytes side = (sequenceBytes packets side.fromClient).card := by
  obtain ⟨accounting, haccounting⟩ := exists_tcpAccounting hstamped
  refine ⟨accounting, haccounting, ?_⟩
  rw [(tcpAccounting_eq_some haccounting).1 side]
  exact uniquePayload_seqRanges hfits

/-- A record that ends past `2 ^ 32` and a later one that begins inside it. -/
def wrappingRecords : List FlowPacket :=
  [ { plainAck with seq := 2 ^ 32 - 4, length := 10, ts := some 1, timeMs := 0, direction := .out },
    { plainAck with frame := 2, seq := 3, length := 5, ts := some 2, timeMs := 1000,
                    direction := .out } ]

/-- Twelve sequence numbers carry a byte: four before the wrap and eight after it. -/
theorem uniquePayloadBytes_exact_wrapping :
    (∃ accounting, tcpAccounting wrappingRecords = some accounting ∧
      accounting.uniquePayloadBytes .client = (sequenceBytes wrappingRecords true).card) ∧
      (sequenceBytes wrappingRecords true).card = 12 := by
  have hstamped : Stamped wrappingRecords := by
    intro p hp
    revert p
    decide
  have hfits : FitsSequenceSpace wrappingRecords true := by
    intro p hp _
    revert p
    decide
  exact ⟨uniquePayloadBytes_exact hstamped .client hfits, by decide +kernel⟩

end PacketTrain.Analysis
