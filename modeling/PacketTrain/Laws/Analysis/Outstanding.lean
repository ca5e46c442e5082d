import PacketTrain.Analysis.Outstanding

/-!
# What the outstanding series samples

`outstanding_bytes` walks the payload and the acknowledgements of a direction with one cursor. The walk
comes to this: the point of an acknowledgement counts the payload captured by its time
(`outstandingLoop_eq`). So a point is positive exactly when its acknowledgement leaves some of that
payload open (`outstanding_pos_iff`), and there is a point at an acknowledgement and nowhere else.
-/

namespace PacketTrain.Analysis

/-- The base of a direction's sequence numbers, found in time order. -/
def sequenceBase (packets : List FlowPacket) (fromClient : Bool) : Option ℤ :=
  initialSequence (sortOn FlowPacket.timeMs packets) fromClient

/-- A payload packet of a direction. -/
def SendsPayload (fromClient : Bool) (p : FlowPacket) : Prop :=
  p.direction = wanted fromClient ∧ 0 < p.length

/-- A packet of the other direction with an acknowledgement number. -/
def Acknowledges (fromClient : Bool) (p : FlowPacket) : Prop :=
  p.direction = wanted (!fromClient) ∧ p.ack ≠ 0

instance (fromClient : Bool) (p : FlowPacket) : Decidable (SendsPayload fromClient p) :=
  inferInstanceAs (Decidable (_ ∧ _))

instance (fromClient : Bool) (p : FlowPacket) : Decidable (Acknowledges fromClient p) :=
  inferInstanceAs (Decidable (_ ∧ _))

/-- The acknowledgement does not reach the end of some payload captured by its time. -/
def LeavesOpen (packets : List FlowPacket) (fromClient : Bool) (base : Option ℤ) (ack : FlowPacket) :
    Prop :=
  ∃ p ∈ packets, SendsPayload fromClient p ∧ timestamp p ≤ timestamp ack ∧
    relative ack.ack base < relative p.seq base + p.length

@[simp] theorem mem_sentPackets {packets : List FlowPacket} {fromClient : Bool} {p : FlowPacket} :
    p ∈ sentPackets packets fromClient ↔ p ∈ packets ∧ SendsPayload fromClient p := by
  rw [sentPackets, List.mem_filter, decide_eq_true_eq, SendsPayload]

@[simp] theorem mem_ackPackets {packets : List FlowPacket} {fromClient : Bool} {p : FlowPacket} :
    p ∈ ackPackets packets fromClient ↔ p ∈ packets ∧ Acknowledges fromClient p := by
  rw [ackPackets, List.mem_filter, decide_eq_true_eq, Acknowledges]

/-! ## The walk -/

/-- The cursor counts, at each acknowledgement, the payload up to its time. -/
theorem outstandingLoop_eq {fromClient : Bool} {base : Option ℤ} {acks pending : List FlowPacket}
    (hacks : InOrder timestamp acks) (hpending : InOrder timestamp pending)
    (sent : List Ranges.Range) :
    outstandingLoop fromClient base acks pending sent =
      acks.map fun ack => outstandingPoint fromClient base
        (sent ++ (pending.filter fun p => timestamp p ≤ timestamp ack).map (sentRange base)) ack := by
  induction acks generalizing pending sent with
  | nil => rfl
  | cons ack acks ih =>
    obtain ⟨hlater, hacks⟩ := List.pairwise_cons.mp hacks
    have hrest : InOrder timestamp (pending.dropWhile fun p => timestamp p ≤ timestamp ack) :=
      hpending.sublist (List.dropWhile_sublist _)
    rw [outstandingLoop, List.map_cons, ih hacks hrest, takeWhile_le hpending]
    refine congrArg _ (List.map_congr_left fun next hnext => ?_)
    -- what the cursor passed at `ack` and what it passes up to `next`
    have hsplit : pending.filter (fun p => timestamp p ≤ timestamp next) =
        pending.filter (fun p => timestamp p ≤ timestamp ack) ++
          (pending.dropWhile fun p => timestamp p ≤ timestamp ack).filter
            fun p => timestamp p ≤ timestamp next := by
      conv_lhs => rw [← List.takeWhile_append_dropWhile
        (p := fun p => decide (timestamp p ≤ timestamp ack)) (l := pending)]
      rw [List.filter_append, takeWhile_le hpending, List.filter_filter]
      congr 1
      apply List.filter_congr
      intro p _
      rw [Bool.and_eq_right_iff_imp, decide_eq_true_eq, decide_eq_true_eq]
      exact fun hp => hp.trans (hlater next hnext)
    rw [hsplit, List.map_append, List.append_assoc]

/-- A point is positive exactly when a payload range of its direction, sent by then, is not covered. -/
theorem outstandingPoint_pos_iff {fromClient : Bool} {base : Option ℤ} {sent : List FlowPacket}
    {ack : FlowPacket} (hpos : ∀ p ∈ sent, 0 < p.length) :
    0 < (outstandingPoint fromClient base (sent.map (sentRange base)) ack).outstanding ↔
      ∃ p ∈ sent, relative ack.ack base < relative p.seq base + p.length := by
  let acked := relative ack.ack base
  have hlt : ∀ r ∈ openRanges acked (sent.map (sentRange base)), r.1 < r.2 := by
    intro r hr
    obtain ⟨q, hq, rfl⟩ := List.mem_map.mp hr
    obtain ⟨hq, hopen⟩ := List.mem_filter.mp hq
    obtain ⟨p, hp, rfl⟩ := List.mem_map.mp hq
    have hlength := hpos p hp
    refine max_lt ?_ (of_decide_eq_true hopen)
    simp only [sentRange]
    omega
  have hunique : 0 < uniquePayload (openRanges acked (sent.map (sentRange base))) ↔
      ∃ r, r ∈ openRanges acked (sent.map (sentRange base)) := by
    rw [uniquePayload]
    by_cases hnil : openRanges acked (sent.map (sentRange base)) = []
    · rw [if_pos hnil, hnil]
      simp
    · rw [if_neg hnil, Ranges.total_pos_iff fun r hr => (hlt r hr).le]
      exact ⟨fun ⟨r, hr, _⟩ => ⟨r, hr⟩, fun ⟨r, hr⟩ => ⟨r, hr, hlt r hr⟩⟩
  refine hunique.trans ⟨?_, ?_⟩
  · rintro ⟨r, hr⟩
    obtain ⟨q, hq, -⟩ := List.mem_map.mp hr
    obtain ⟨hq, hopen⟩ := List.mem_filter.mp hq
    obtain ⟨p, hp, rfl⟩ := List.mem_map.mp hq
    exact ⟨p, hp, of_decide_eq_true hopen⟩
  · rintro ⟨p, hp, hopen⟩
    exact ⟨_, List.mem_map_of_mem (List.mem_filter.mpr
      ⟨List.mem_map_of_mem hp, decide_eq_true hopen⟩)⟩

/-! ## The series -/

/-- The positive points of one direction stand at the acknowledgements that leave payload open. -/
theorem outstandingOf_pos_iff {packets : List FlowPacket} {fromClient : Bool} {time : ℚ} :
    (∃ pt ∈ outstandingOf packets fromClient, pt.timeMs = time ∧ 0 < pt.outstanding) ↔
      ∃ ack ∈ packets, ack.timeMs = time ∧ Acknowledges fromClient ack ∧
        LeavesOpen packets fromClient (initialSequence packets fromClient) ack := by
  have hpoint : ∀ ack, 0 < (outstandingPoint fromClient (initialSequence packets fromClient)
      (((sortOn timestamp (sentPackets packets fromClient)).filter
        fun p => timestamp p ≤ timestamp ack).map
          (sentRange (initialSequence packets fromClient))) ack).outstanding ↔
      LeavesOpen packets fromClient (initialSequence packets fromClient) ack := by
    intro ack
    rw [outstandingPoint_pos_iff]
    · simp [LeavesOpen, and_assoc]
    · intro p hp
      exact (mem_sentPackets.mp (mem_sortOn.mp (List.mem_of_mem_filter hp))).2.2
  rw [outstandingOf]
  split
  · next hnone =>
    constructor
    · rintro ⟨pt, hpt, -⟩
      cases hpt
    · rintro ⟨ack, -, -, -, p, hp, hsends, -⟩
      rw [List.isEmpty_iff] at hnone
      have hmem := mem_sentPackets.mpr ⟨hp, hsends⟩
      rw [hnone] at hmem
      cases hmem
  · rw [outstandingLoop_eq (inOrder_sortOn _ _) (inOrder_sortOn _ _)]
    simp only [List.nil_append, List.mem_map, mem_sortOn, mem_ackPackets]
    constructor
    · rintro ⟨pt, ⟨ack, ⟨hmem, hacks⟩, rfl⟩, htime, hpos⟩
      exact ⟨ack, hmem, htime, hacks, (hpoint ack).mp hpos⟩
    · rintro ⟨ack, hmem, htime, hacks, hopen⟩
      exact ⟨_, ⟨ack, ⟨hmem, hacks⟩, rfl⟩, htime, (hpoint ack).mpr hopen⟩

/-- The positive points of the series of both directions. -/
theorem outstanding_pos_iff {packets : List FlowPacket} {time : ℚ} :
    (∃ pt ∈ outstandingBytes packets, pt.timeMs = time ∧ 0 < pt.outstanding) ↔
      ∃ fromClient, ∃ ack ∈ packets, ack.timeMs = time ∧ Acknowledges fromClient ack ∧
        LeavesOpen packets fromClient (initialSequence packets fromClient) ack := by
  simp only [outstandingBytes, mem_sortOn, List.mem_append, Bool.exists_bool]
  rw [← outstandingOf_pos_iff, ← outstandingOf_pos_iff]
  constructor
  · rintro ⟨pt, hpt | hpt, hspec⟩
    · exact .inr ⟨pt, hpt, hspec⟩
    · exact .inl ⟨pt, hpt, hspec⟩
  · rintro (⟨pt, hpt, hspec⟩ | ⟨pt, hpt, hspec⟩)
    · exact ⟨pt, .inr hpt, hspec⟩
    · exact ⟨pt, .inl hpt, hspec⟩

end PacketTrain.Analysis
