import PacketTrain.Analysis.Graph
import PacketTrain.Laws.Analysis.Detail
import PacketTrain.Laws.Analysis.InitialSequence
import PacketTrain.Lib.Serial

/-!
# One graph, two sets of coordinates

The browser draws an acknowledgement at its signed distance from the first packet of the direction
(`seqDelta_eq`); `outstanding_bytes` reports it at its place from the opening SYN, or else from the
first payload (`mem_pointsAt`). The two are one number exactly where the first packet has the number
of the opening one and the acknowledgement is less than half a turn ahead of it (`acksAgree_iff`).
-/

namespace PacketTrain.Analysis

open Serial

/-! ## The points of a direction -/

/-- The acknowledgements of a direction, each with the point that the series has of it. -/
def pointsAt (packets : List FlowPacket) (fromClient : Bool) :
    List (FlowPacket × OutstandingPoint) :=
  (sortOn timestamp (ackPackets packets fromClient)).zip (outstandingOf packets fromClient)

/-- The packet that opens a direction: its first SYN, or else its first payload. -/
def opening (packets : List FlowPacket) (fromClient : Bool) : Option FlowPacket :=
  (packets.find? fun p => p.syn ∧ p.direction = wanted fromClient).or
    (packets.find? fun p => p.direction = wanted fromClient ∧ 0 < p.length)

theorem initialSequence_eq_opening (packets : List FlowPacket) (fromClient : Bool) :
    initialSequence packets fromClient =
      (opening packets fromClient).map fun p => p.seq % seqSpace := by
  rw [initialSequence, opening]
  cases packets.find? fun p => p.syn ∧ p.direction = wanted fromClient <;> rfl

theorem pointsAt_eq {packets : List FlowPacket} {fromClient : Bool}
    (hsent : ∃ p ∈ packets, SendsPayload fromClient p) :
    pointsAt packets fromClient =
      (sortOn timestamp (ackPackets packets fromClient)).map fun ack =>
        (ack, outstandingPoint fromClient (initialSequence packets fromClient)
          (((sortOn timestamp (sentPackets packets fromClient)).filter
            fun p => timestamp p ≤ timestamp ack).map
              (sentRange (initialSequence packets fromClient))) ack) := by
  have hne : (sentPackets packets fromClient).isEmpty = false := by
    obtain ⟨p, hp, hsends⟩ := hsent
    rw [List.isEmpty_eq_false_iff]
    exact List.ne_nil_of_mem (mem_sentPackets.mpr ⟨hp, hsends⟩)
  rw [pointsAt, outstandingOf, hne, if_neg Bool.false_ne_true,
    outstandingLoop_eq (inOrder_sortOn _ _) (inOrder_sortOn _ _)]
  exact List.map_prod_left_eq_zip.symm

/-- Every acknowledgement has its point, which reports its place from the opening packet. -/
theorem mem_pointsAt {packets : List FlowPacket} {fromClient : Bool} {o : FlowPacket}
    (hsent : ∃ p ∈ packets, SendsPayload fromClient p)
    (hopening : opening packets fromClient = some o) :
    (∀ a ∈ pointsAt packets fromClient, a.2.cumulativeAck = place seqSpace o.seq a.1.ack) ∧
      ∀ ack, (∃ pt, (ack, pt) ∈ pointsAt packets fromClient) ↔
        ack ∈ packets ∧ Acknowledges fromClient ack := by
  rw [pointsAt_eq hsent]
  constructor
  · intro a ha
    obtain ⟨ack, -, rfl⟩ := List.mem_map.mp ha
    show relative ack.ack (initialSequence packets fromClient) = place seqSpace o.seq ack.ack
    rw [initialSequence_eq_opening, hopening]
    exact Int.sub_emod_emod _ _ _
  · intro ack
    rw [← mem_ackPackets, ← (mem_sortOn : ack ∈ sortOn timestamp _ ↔ _)]
    constructor
    · rintro ⟨pt, hpt⟩
      obtain ⟨ack', hack', heq⟩ := List.mem_map.mp hpt
      cases heq
      exact hack'
    · intro hack
      exact ⟨_, List.mem_map_of_mem hack⟩

/-- They are the points that the series has of the direction. -/
theorem filter_outstandingBytes_pointsAt {packets : List FlowPacket} {fromClient : Bool}
    (hsent : ∃ p ∈ packets, SendsPayload fromClient p) :
    (outstandingBytes packets).filter (·.direction = wanted fromClient) =
      sortOn OutstandingPoint.timeMs ((pointsAt packets fromClient).map Prod.snd) := by
  have hlength : (outstandingOf packets fromClient).length ≤
      (sortOn timestamp (ackPackets packets fromClient)).length := by
    obtain ⟨p, hp, hsends⟩ := hsent
    have hne : sentPackets packets fromClient ≠ [] :=
      List.ne_nil_of_mem (mem_sentPackets.mpr ⟨hp, hsends⟩)
    have hmap := congrArg List.length (map_outstandingOf hne)
    rw [List.length_map, List.length_map] at hmap
    exact hmap.le
  rw [filter_direction_outstandingBytes, pointsAt, List.map_snd_zip hlength]

/-! ## The distance that is drawn -/

/-- JavaScript's remainder and its two corrections come to the signed distance. -/
theorem seqDelta_eq (value base : ℤ) :
    seqDelta (some value) (some base) = some (distance seqSpace base value) := by
  have hspace : seqSpace = 4294967296 := rfl
  have hhalf : seqHalf = 2147483648 := rfl
  have hlo := Int.emod_nonneg (value - base) (b := 4294967296) (by decide)
  have hhi := Int.emod_lt_of_pos (value - base) (b := 4294967296) (by decide)
  -- the remainder of a negative distance is negative, unless it is zero
  have hrem : (value - base).tmod 4294967296 = (value - base) % 4294967296 ∨
      (value - base).tmod 4294967296 = (value - base) % 4294967296 - 4294967296 ∧
        (value - base) % 4294967296 ≠ 0 := by
    rw [Int.tmod_eq_emod]
    split
    · exact .inl (Int.sub_zero _)
    · next hneg => exact .inr ⟨rfl, fun hzero => hneg (.inr (Int.dvd_of_emod_eq_zero hzero))⟩
  simp only [seqDelta, distance, Within, place, hspace, hhalf, Option.some.injEq]
  rcases hrem with hrem | ⟨hrem, hne⟩ <;> rw [hrem] <;> split_ifs <;> omega

theorem seqBase_dropTs (packets : List FlowPacket) (dir : Direction) :
    seqBase (packets.map FlowPacket.dropTs) dir = seqBase packets dir := by
  rw [seqBase, seqBase, List.find?_map, Option.map_map]
  rfl

/-- An acknowledgement with the flag is drawn at its signed distance from the first packet. -/
theorem ackOf_dropTs {packets : List FlowPacket} {dir : Direction} {first ack : FlowPacket}
    (hfirst : (packets.find? fun p => p.direction = dir) = some first)
    (hflag : ack.ackFlag = true) :
    ackOf (packets.map FlowPacket.dropTs) ack.dropTs dir =
      some (distance seqSpace first.seq ack.ack) := by
  rw [ackOf, seqBase_dropTs, seqBase, hfirst, Option.map_some, ← seqDelta_eq]
  exact if_pos hflag

/-! ## The two together -/

/-- Every acknowledgement of a direction that has the flag is drawn, among the packets of the
response, at the number that its point in the series reports. -/
def AcksAgree (response group : List FlowPacket) (fromClient : Bool) : Prop :=
  ∀ ack ∈ group, Acknowledges fromClient ack → ack.ackFlag = true →
    ∃ a ∈ pointsAt group fromClient, a.1 = ack ∧
      ackOf response ack.dropTs (wanted fromClient) = some a.2.cumulativeAck

/-- The first packet of the direction has the sequence number of its opening packet, and every
acknowledgement with the flag is in the half turn from there. -/
def AcksInWindow (group : List FlowPacket) (fromClient : Bool) : Prop :=
  ∀ ack ∈ group, Acknowledges fromClient ack → ack.ackFlag = true →
    ∀ first ∈ group.find? fun p => p.direction = wanted fromClient, ∀ o ∈ opening group fromClient,
      (first.seq - o.seq) % seqSpace = 0 ∧ Within seqSpace first.seq ack.ack

instance (response group : List FlowPacket) (fromClient : Bool) :
    Decidable (AcksAgree response group fromClient) :=
  inferInstanceAs (Decidable (∀ ack ∈ group, _ → _ → _))

instance (group : List FlowPacket) (fromClient : Bool) :
    Decidable (AcksInWindow group fromClient) :=
  inferInstanceAs (Decidable (∀ ack ∈ group, _ → _ → _))

/-- THE GRAPH AND THE ACCOUNTING AGREE on the acknowledgements of a direction with payload exactly
when they are measured from one packet and none is half a turn ahead. The points are those of the series. -/
theorem acksAgree_iff {packets : List Packet} {stream : ℕ} {detail : StreamDetail}
    (h : streamDetail packets stream = some detail) {fromClient : Bool}
    (hsent : ∃ p ∈ accountingInput packets stream, SendsPayload fromClient p) :
    (AcksAgree detail.packets (accountingInput packets stream) fromClient ↔
      AcksInWindow (accountingInput packets stream) fromClient) ∧
      (outstandingBytes (accountingInput packets stream)).filter (·.direction = wanted fromClient) =
        sortOn OutstandingPoint.timeMs
          ((pointsAt (accountingInput packets stream) fromClient).map Prod.snd) := by
  rw [(streamDetail_eq_some h).1]
  generalize accountingInput packets stream = group at *
  refine ⟨?_, filter_outstandingBytes_pointsAt hsent⟩
  obtain ⟨first, hfirst⟩ : ∃ first,
      (group.find? fun p => p.direction = wanted fromClient) = some first := by
    obtain ⟨p, hp, hsends⟩ := hsent
    rw [← Option.isSome_iff_exists, List.find?_isSome]
    exact ⟨p, hp, decide_eq_true hsends.1⟩
  obtain ⟨o, hopening⟩ : ∃ o, opening group fromClient = some o := by
    obtain ⟨p, hp, hsends⟩ := hsent
    rw [← Option.isSome_iff_exists, opening, Option.isSome_or, Bool.or_eq_true]
    refine .inr (List.find?_isSome.mpr ⟨p, hp, decide_eq_true hsends⟩)
  obtain ⟨hplace, hpoints⟩ := mem_pointsAt hsent hopening
  have hack : ∀ ack ∈ group, Acknowledges fromClient ack → ack.ackFlag = true →
      ((∃ a ∈ pointsAt group fromClient, a.1 = ack ∧
        ackOf (group.map FlowPacket.dropTs) ack.dropTs (wanted fromClient) =
          some a.2.cumulativeAck) ↔
          (first.seq - o.seq) % seqSpace = 0 ∧ Within seqSpace first.seq ack.ack) := by
    intro ack hmem hacks hflag
    rw [ackOf_dropTs hfirst hflag, ← distance_eq_place_iff (m := seqSpace) (by decide)]
    constructor
    · rintro ⟨a, ha, rfl, heq⟩
      rw [Option.some.inj heq, hplace a ha]
    · intro heq
      obtain ⟨pt, hpt⟩ := (hpoints ack).mpr ⟨hmem, hacks⟩
      refine ⟨(ack, pt), hpt, rfl, ?_⟩
      rw [heq, hplace _ hpt]
  constructor
  · intro hagree ack hmem hacks hflag first' hfirst' o' ho'
    rw [Option.mem_def, hfirst] at hfirst'
    rw [Option.mem_def, hopening] at ho'
    cases hfirst'
    cases ho'
    exact (hack ack hmem hacks hflag).mp (hagree ack hmem hacks hflag)
  · intro hwindow ack hmem hacks hflag
    exact (hack ack hmem hacks hflag).mpr (hwindow ack hmem hacks hflag first hfirst o hopening)

/-- A direction of a probe, or of a SYN, then a segment and its acknowledgement. -/
def acknowledgedSegment (first : Fields) : List Packet :=
  [ { first with ts := 100 },
    { plainAck with frame := 2, seq := 1000, length := 100, ts := 101 },
    { serverAck with frame := 3, seq := 1, ack := 1100, ts := 102 } ]

/-- A keep-alive probe is captured before the first segment: its number is one less, and the line of
acknowledgements is drawn one above the area in flight. -/
theorem keepAlive_shifts :
    ¬∀ packets stream detail, streamDetail packets stream = some detail → ∀ fromClient,
      (∃ p ∈ accountingInput packets stream, SendsPayload fromClient p) →
        AcksAgree detail.packets (accountingInput packets stream) fromClient := by
  intro h
  let capture := acknowledgedSegment { plainAck with seq := 999 }
  have hsome : (streamDetail capture 0).isSome = true := rfl
  obtain ⟨detail, hdetail⟩ := Option.isSome_iff_exists.mp hsome
  have hagree := h capture 0 detail hdetail true (by decide +kernel)
  rw [(streamDetail_eq_some hdetail).1] at hagree
  exact absurd hagree (by decide +kernel)

/-- Behind the SYN of the direction they agree. -/
theorem acksAgree_iff_handshake :
    ∃ detail, streamDetail
        (acknowledgedSegment { plainAck with seq := 999, syn := true, ackFlag := false }) 0 =
          some detail ∧
      AcksAgree detail.packets (accountingInput
        (acknowledgedSegment { plainAck with seq := 999, syn := true, ackFlag := false }) 0)
        true := by
  have hsome : (streamDetail
      (acknowledgedSegment { plainAck with seq := 999, syn := true, ackFlag := false })
      0).isSome = true := rfl
  obtain ⟨detail, hdetail⟩ := Option.isSome_iff_exists.mp hsome
  exact ⟨detail, hdetail, (acksAgree_iff hdetail (by decide +kernel)).1.mpr (by decide +kernel)⟩

end PacketTrain.Analysis
