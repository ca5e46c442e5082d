import PacketTrain.Laws.Analysis.InitialSequence
import PacketTrain.Laws.Analysis.UniquePayload

/-!
# What an outstanding point counts

A point of `outstanding_bytes` measures the ranges that its acknowledgement leaves open. In integers
this is a count: of the positions that the payload captured by then covers, those at or above the
acknowledgement (`outstandingPoint_eq_card`). The positions are not reduced again, so they are the
sequence numbers measured from the base only where no payload runs past the end of the sequence
space. With the opening SYN captured and the payload within `2 ^ 32` of it, the series is the naive
recount (`outstandingBytes_exact`).
-/

namespace PacketTrain.Analysis

open Circular Ranges

/-! ## The series of a direction -/

/-- The payload packets of a direction captured by the time of a packet. -/
def sentBy (packets : List FlowPacket) (fromClient : Bool) (ack : FlowPacket) : List FlowPacket :=
  sentPackets (packets.filter fun p => timestamp p ≤ timestamp ack) fromClient

theorem mem_sentBy {packets : List FlowPacket} {fromClient : Bool} {ack p : FlowPacket} :
    p ∈ sentBy packets fromClient ack ↔
      p ∈ packets ∧ timestamp p ≤ timestamp ack ∧ SendsPayload fromClient p := by
  simp [sentBy, and_assoc]

/-- What the cursor has passed is, up to the order, what was captured by then. -/
theorem perm_sentBy (packets : List FlowPacket) (fromClient : Bool) (ack : FlowPacket) :
    ((sortOn timestamp (sentPackets packets fromClient)).filter
      fun p => timestamp p ≤ timestamp ack).Perm (sentBy packets fromClient ack) := by
  have hcomm : (sentPackets packets fromClient).filter (fun p => timestamp p ≤ timestamp ack) =
      sentBy packets fromClient ack := List.filter_comm _ _ packets
  rw [← hcomm]
  exact (perm_sortOn timestamp _).filter _

/-- The series of a direction when each of its acknowledgements has some point. -/
def pointSeries (packets : List FlowPacket) (fromClient : Bool)
    (point : FlowPacket → OutstandingPoint) : List OutstandingPoint :=
  if sentPackets packets fromClient = [] then []
  else sortOn OutstandingPoint.timeMs
    ((sortOn timestamp (ackPackets packets fromClient)).map point)

/-- Two series are equal exactly when they agree at every acknowledgement. -/
theorem pointSeries_eq_iff {packets : List FlowPacket} {fromClient : Bool}
    {f g : FlowPacket → OutstandingPoint} (hsent : ∃ p ∈ packets, SendsPayload fromClient p)
    (hf : ∀ ack, (f ack).timeMs = ack.timeMs) (hg : ∀ ack, (g ack).timeMs = ack.timeMs) :
    pointSeries packets fromClient f = pointSeries packets fromClient g ↔
      ∀ ack ∈ packets, Acknowledges fromClient ack → f ack = g ack := by
  have hne : sentPackets packets fromClient ≠ [] := by
    obtain ⟨p, hp, hsends⟩ := hsent
    exact List.ne_nil_of_mem (mem_sentPackets.mpr ⟨hp, hsends⟩)
  rw [pointSeries, if_neg hne, pointSeries, if_neg hne]
  constructor
  · intro h ack hack hacks
    -- at the time of the acknowledgement both series have the same acknowledgements
    have htime := congrArg (List.filter (·.timeMs = ack.timeMs)) h
    rw [filter_sortOn, filter_sortOn, List.filter_map, List.filter_map] at htime
    have hfkeep : (fun pt : OutstandingPoint => decide (pt.timeMs = ack.timeMs)) ∘ f =
        fun p => decide (p.timeMs = ack.timeMs) := by
      funext p
      rw [Function.comp, hf]
    have hgkeep : (fun pt : OutstandingPoint => decide (pt.timeMs = ack.timeMs)) ∘ g =
        fun p => decide (p.timeMs = ack.timeMs) := by
      funext p
      rw [Function.comp, hg]
    rw [hfkeep, hgkeep] at htime
    refine List.map_inj_left.mp htime ack (List.mem_filter.mpr ⟨?_, decide_eq_true rfl⟩)
    exact mem_sortOn.mpr (mem_ackPackets.mpr ⟨hack, hacks⟩)
  · intro h
    congr 1
    apply List.map_congr_left
    intro ack hack
    obtain ⟨hmem, hacks⟩ := mem_ackPackets.mp (mem_sortOn.mp hack)
    exact h ack hmem hacks

/-! ## Counting positions -/

/-- The positions, measured from a base and not reduced again, that some payload covers. -/
def positions (base : Option ℤ) (sent : List FlowPacket) : Finset ℤ := cover (sent.map (sentRange base))

theorem mem_positions {base : Option ℤ} {sent : List FlowPacket} {x : ℤ} :
    x ∈ positions base sent ↔
      ∃ p ∈ sent, relative p.seq base ≤ x ∧ x < relative p.seq base + p.length := by
  simp [positions, sentRange]

theorem proper_openRanges {acked : ℤ} {sent : List Range} (h : Proper sent) :
    Proper (openRanges acked sent) := by
  intro r hr
  obtain ⟨q, hq, rfl⟩ := List.mem_map.mp hr
  obtain ⟨hq, hopen⟩ := List.mem_filter.mp hq
  exact max_le (h q hq) (of_decide_eq_true hopen).le

theorem cover_openRanges (acked : ℤ) (sent : List Range) :
    cover (openRanges acked sent) = (cover sent).filter (acked ≤ ·) := by
  ext x
  simp only [openRanges, mem_cover, List.mem_map, List.mem_filter, Finset.mem_filter,
    decide_eq_true_eq]
  constructor
  · rintro ⟨r, ⟨q, ⟨hq, -⟩, rfl⟩, hlo, hhi⟩
    exact ⟨⟨q, hq, (le_max_left _ _).trans hlo, hhi⟩, (le_max_right _ _).trans hlo⟩
  · rintro ⟨⟨q, hq, hlo, hhi⟩, hacked⟩
    exact ⟨_, ⟨q, ⟨hq, hacked.trans_lt hhi⟩, rfl⟩, max_le hlo hacked, hhi⟩

theorem proper_sentRanges (base : Option ℤ) (sent : List FlowPacket) :
    Proper (sent.map (sentRange base)) := by
  intro r hr
  obtain ⟨p, -, rfl⟩ := List.mem_map.mp hr
  show relative p.seq base ≤ relative p.seq base + p.length
  omega

/-- A point counts the covered positions at or above its acknowledgement. -/
theorem outstandingPoint_eq_card (fromClient : Bool) (base : Option ℤ) (sent : List FlowPacket)
    (ack : FlowPacket) :
    (outstandingPoint fromClient base (sent.map (sentRange base)) ack).outstanding =
      ((positions base sent).filter (relative ack.ack base ≤ ·)).card := by
  rw [outstandingPoint, uniquePayload_eq_total,
    total_eq_card (proper_openRanges (proper_sentRanges base sent)), cover_openRanges]
  rfl

theorem positions_congr {base : Option ℤ} {sent sent' : List FlowPacket}
    (h : ∀ p, p ∈ sent ↔ p ∈ sent') : positions base sent = positions base sent' := by
  ext x
  simp only [mem_positions, h]

/-- The point of an acknowledgement, counted afresh from what was captured by its time. -/
def countedPoint (packets : List FlowPacket) (fromClient : Bool) (base : Option ℤ)
    (ack : FlowPacket) : OutstandingPoint where
  timeMs := ack.timeMs
  direction := wanted fromClient
  outstanding :=
    ((positions base (sentBy packets fromClient ack)).filter (relative ack.ack base ≤ ·)).card
  cumulativeAck := relative ack.ack base
  sentRecordsCounted := (sentBy packets fromClient ack).length

/-- THE SWEEP IS A RECOUNT: whatever the order of the list, the series of a direction has the points of
its acknowledgements, each counted afresh. -/
theorem outstandingBytes_recount (packets : List FlowPacket) (fromClient : Bool) :
    (outstandingBytes packets).filter (·.direction = wanted fromClient) =
      pointSeries packets fromClient
        (countedPoint packets fromClient (initialSequence packets fromClient)) := by
  have hpoint : ∀ ack, outstandingPoint fromClient (initialSequence packets fromClient)
      ([] ++ ((sortOn timestamp (sentPackets packets fromClient)).filter
        fun p => timestamp p ≤ timestamp ack).map
          (sentRange (initialSequence packets fromClient))) ack =
      countedPoint packets fromClient (initialSequence packets fromClient) ack := by
    intro ack
    have hperm := perm_sentBy packets fromClient ack
    rw [List.nil_append, OutstandingPoint.mk.injEq]
    refine ⟨rfl, rfl, ?_, rfl, ?_⟩
    · rw [outstandingPoint_eq_card, positions_congr fun p => hperm.mem_iff]
      rfl
    · exact (List.length_map _).trans hperm.length_eq
  rw [filter_direction_outstandingBytes, outstandingOf, pointSeries]
  by_cases hnone : sentPackets packets fromClient = []
  · rw [if_pos (List.isEmpty_iff.mpr hnone), if_pos hnone]
    rfl
  · rw [if_neg (mt List.isEmpty_iff.mp hnone), if_neg hnone,
      outstandingLoop_eq (inOrder_sortOn _ _) (inOrder_sortOn _ _),
      List.map_congr_left fun ack _ => hpoint ack]

/-! ## With the handshake -/

/-- No payload runs past the end of the sequence space: on the circle the positions are the sequence
numbers turned back by the base. -/
theorem positions_eq_image {base : Option ℤ} {sent : List FlowPacket}
    (h : ∀ p ∈ sent, relative p.seq base + p.length ≤ seqSpace) :
    positions base sent = (arcs seqSpace (sent.map arcOf)).image fun x => relative x base := by
  have hlengths : ∀ a ∈ sent.map arcOf, (a.2 : ℤ) ≤ seqSpace := by
    intro a ha
    obtain ⟨p, hp, rfl⟩ := List.mem_map.mp ha
    have hend := h p hp
    have hstart : 0 ≤ relative p.seq base := by
      rw [relative_eq]
      exact Int.emod_nonneg _ (by decide)
    show (p.length : ℤ) ≤ seqSpace
    omega
  have hrotate : (fun x => relative x base) = rotate seqSpace (-base.getD 0) := by
    funext x
    rw [relative_eq, rotate, sub_eq_add_neg]
  have hranges : sent.map (sentRange base) = sent.flatMap (seqRange base) := by
    rw [List.map_eq_flatMap]
    exact List.flatMap_congr fun p hp => (if_neg (not_lt.mpr (h p hp))).symm
  rw [positions, hranges, flatMap_seqRange, cover_cuts (by decide) _ hlengths, hrotate]

/-- The outstanding bytes by their definition: the sequence numbers that carried a payload byte by the
time of the acknowledgement and lie, measured from the base, at or above it. -/
def outstandingByDefinition (packets : List FlowPacket) (fromClient : Bool) (base : Option ℤ)
    (ack : FlowPacket) : OutstandingPoint where
  timeMs := ack.timeMs
  direction := wanted fromClient
  outstanding :=
    ((sequenceBytes (packets.filter fun p => timestamp p ≤ timestamp ack) fromClient).filter
      fun x => relative ack.ack base ≤ relative x base).card
  cumulativeAck := relative ack.ack base
  sentRecordsCounted := packets.countP fun p => timestamp p ≤ timestamp ack ∧ SendsPayload fromClient p

/-- The base of a direction is the sequence number of its first SYN, reduced. -/
theorem initialSequence_syn {packets : List FlowPacket} {fromClient : Bool} {syn : FlowPacket}
    (h : packets.find? (fun p => p.syn ∧ p.direction = wanted fromClient) = some syn) :
    initialSequence packets fromClient = some (syn.seq % seqSpace) := by
  rw [initialSequence, h]

theorem relative_emod (value isn : ℤ) :
    relative value (some (isn % seqSpace)) = relative value (some isn) := by
  rw [relative, relative, Int.sub_emod_emod]

theorem positions_emod (isn : ℤ) (sent : List FlowPacket) :
    positions (some (isn % seqSpace)) sent = positions (some isn) sent := by
  ext x
  simp only [mem_positions, relative_emod]

/-- A point counted afresh is the point of the definition when no payload runs past the end. -/
theorem countedPoint_eq {packets : List FlowPacket} {fromClient : Bool} {base : Option ℤ}
    (h : ∀ p ∈ packets, SendsPayload fromClient p → relative p.seq base + p.length ≤ seqSpace)
    (ack : FlowPacket) :
    countedPoint packets fromClient base ack =
      outstandingByDefinition packets fromClient base ack := by
  have himage : positions base (sentBy packets fromClient ack) =
      (sequenceBytes (packets.filter fun p => timestamp p ≤ timestamp ack) fromClient).image
        fun x => relative x base := by
    refine positions_eq_image fun p hp => ?_
    obtain ⟨hmem, -, hsends⟩ := mem_sentBy.mp hp
    exact h p hmem hsends
  have hcount : (sentBy packets fromClient ack).length =
      packets.countP fun p => timestamp p ≤ timestamp ack ∧ SendsPayload fromClient p := by
    rw [sentBy, sentPackets, ← List.countP_eq_length_filter, List.countP_filter]
    apply List.countP_congr
    intro p _
    rw [Bool.and_eq_true, decide_eq_true_eq, decide_eq_true_eq, decide_eq_true_eq]
    exact and_comm
  rw [countedPoint, outstandingByDefinition, hcount, himage, Finset.filter_image,
    Finset.card_image_of_injOn]
  intro x hx y hy heq
  have hin : ∀ z ∈ (sequenceBytes (packets.filter fun p => timestamp p ≤ timestamp ack)
      fromClient).filter fun z => relative ack.ack base ≤ relative z base, z % seqSpace = z :=
    fun z hz => emod_of_mem_arcs (Finset.mem_filter.mp hz).1
  simp only [relative_eq, sub_eq_add_neg] at heq
  exact rotate_inj (hin x hx) (hin y hy) heq

/-- The series of a direction whose SYN was captured, and whose payload stays within `2 ^ 32` of it, has
at each acknowledgement the outstanding bytes by their definition. -/
theorem outstandingBytes_exact {packets : List FlowPacket} {fromClient : Bool} {syn : FlowPacket}
    (hsyn : packets.find? (fun p => p.syn ∧ p.direction = wanted fromClient) = some syn)
    (hfits : ∀ p ∈ packets, SendsPayload fromClient p →
      relative p.seq (some syn.seq) + p.length ≤ seqSpace) :
    (outstandingBytes packets).filter (·.direction = wanted fromClient) =
      pointSeries packets fromClient
        (outstandingByDefinition packets fromClient (some syn.seq)) := by
  have hpoint : countedPoint packets fromClient (initialSequence packets fromClient) =
      outstandingByDefinition packets fromClient (some syn.seq) := by
    funext ack
    rw [← countedPoint_eq hfits ack, initialSequence_syn hsyn, countedPoint, countedPoint]
    simp only [relative_emod, positions_emod]
  rw [outstandingBytes_recount, hpoint]

/-- A SYN, a record that wraps, one that overlaps it, and an acknowledgement inside the first. -/
def handshakeRecords : List FlowPacket :=
  [ { plainAck with seq := 2 ^ 32 - 5, syn := true, ts := some 1, timeMs := 0, direction := .out },
    { serverAck with frame := 4, ack := 1, ts := some 4, timeMs := 3000, direction := .in_ },
    { plainAck with frame := 2, seq := 2 ^ 32 - 4, length := 10, ts := some 2, timeMs := 1000,
                    direction := .out },
    { plainAck with frame := 3, seq := 2, length := 6, ts := some 3, timeMs := 2000,
                    direction := .out } ]

/-- Of the twelve sequence numbers with a byte, the seven from the acknowledged one on are open. -/
theorem outstandingBytes_exact_handshake :
    (outstandingBytes handshakeRecords).filter (·.direction = wanted true) =
      [⟨3000, .out, 7, 6, 2⟩] := by
  have hfits : ∀ p ∈ handshakeRecords, SendsPayload true p →
      relative p.seq (some (2 ^ 32 - 5)) + p.length ≤ seqSpace := by
    intro p hp _
    revert p
    decide +kernel
  have hpoints : pointSeries handshakeRecords true
      (outstandingByDefinition handshakeRecords true (some (2 ^ 32 - 5))) =
        [⟨3000, .out, 7, 6, 2⟩] := by decide +kernel
  have hexact := @outstandingBytes_exact handshakeRecords true _ rfl hfits
  exact hexact.trans hpoints

end PacketTrain.Analysis
