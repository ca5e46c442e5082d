import PacketTrain.Laws.Analysis.OutstandingCount
import PacketTrain.Lib.Serial

/-!
# The outstanding series of a mid-stream capture

Without a SYN the base is the payload record that was captured first, and `relative` puts whatever
precedes it in sequence space far above everything else. The series still agrees with the order of
serial numbers at some acknowledgements, and `outstandingBytes_serial_iff` says at which. At one that
does not precede the base: no payload captured by then precedes it. At one that does: all that was
captured from the base on was also carried by records that begin before it.
-/

namespace PacketTrain.Analysis

open Circular Ranges Serial

/-- The sequence number of the payload record of a direction that was captured first. -/
def firstSeq (packets : List FlowPacket) (fromClient : Bool) : ℤ :=
  ((packets.find? fun p => SendsPayload fromClient p).map (·.seq)).getD 0

/-- The payload of a direction and the acknowledgements of it lie in the half turn from `start`. -/
structure InHalfTurn (packets : List FlowPacket) (fromClient : Bool) (start : ℤ) : Prop where
  payload : ∀ p ∈ packets, SendsPayload fromClient p → ArcWithin seqSpace start (arcOf p)
  acks : ∀ p ∈ packets, Acknowledges fromClient p → Within seqSpace start p.ack

/-- The outstanding bytes in serial order: the sequence numbers that carried a payload byte by the time
of the acknowledgement and do not come before it. -/
def serialPoint (packets : List FlowPacket) (fromClient : Bool) (ack : FlowPacket) : OutstandingPoint :=
  { countedPoint packets fromClient (some (firstSeq packets fromClient)) ack with
    outstanding :=
      ((sequenceBytes (packets.filter fun p => timestamp p ≤ timestamp ack) fromClient).filter
        fun x => ¬ before seqSpace x ack.ack).card }

/-- The payload captured by the time of an acknowledgement that begins before the base. -/
def olderBy (packets : List FlowPacket) (fromClient : Bool) (ack : FlowPacket) : List FlowPacket :=
  (sentBy packets fromClient ack).filter fun p => before seqSpace p.seq (firstSeq packets fromClient)

/-- The payload captured by the time of an acknowledgement that does not. -/
def newerBy (packets : List FlowPacket) (fromClient : Bool) (ack : FlowPacket) : List FlowPacket :=
  (sentBy packets fromClient ack).filter fun p => ¬ before seqSpace p.seq (firstSeq packets fromClient)

/-- When a point agrees with the serial order. -/
def AgreesSerially (packets : List FlowPacket) (fromClient : Bool) (ack : FlowPacket) : Prop :=
  (before seqSpace ack.ack (firstSeq packets fromClient) →
    arcs seqSpace ((newerBy packets fromClient ack).map arcOf) ⊆
      arcs seqSpace ((olderBy packets fromClient ack).map arcOf)) ∧
  (¬ before seqSpace ack.ack (firstSeq packets fromClient) → olderBy packets fromClient ack = [])

instance (packets : List FlowPacket) (fromClient : Bool) (ack : FlowPacket) :
    Decidable (AgreesSerially packets fromClient ack) :=
  inferInstanceAs (Decidable (_ ∧ _))

/-! ## Two ways to count places -/

section

variable {newer older : Finset ℤ} {acked : ℤ}

/-- What precedes the base is counted whole when it stands above everything else. -/
theorem card_aboveBase_iff (holder : older.Nonempty → ∃ k ∈ older, k < acked) :
    (newer.filter (acked ≤ ·)).card + older.card = ((newer ∪ older).filter (acked ≤ ·)).card ↔
      older = ∅ := by
  constructor
  · intro h
    by_contra hne
    obtain ⟨k, hk, hlt⟩ := holder (Finset.nonempty_iff_ne_empty.mpr hne)
    have hfewer : (older.filter (acked ≤ ·)).card < older.card :=
      Finset.card_lt_card (Finset.filter_ssubset.mpr ⟨k, hk, not_le.mpr hlt⟩)
    have hunion := Finset.card_union_le (newer.filter (acked ≤ ·)) (older.filter (acked ≤ ·))
    rw [← Finset.filter_union] at hunion
    omega
  · rintro rfl
    simp

/-- What follows the base is not counted when the acknowledgement stands above it. -/
theorem card_belowBase_iff (hnewer : ∀ k ∈ newer, acked ≤ k) :
    (older.filter (acked ≤ ·)).card = ((newer ∪ older).filter (acked ≤ ·)).card ↔ newer ⊆ older := by
  have hsub : older.filter (acked ≤ ·) ⊆ (newer ∪ older).filter (acked ≤ ·) :=
    Finset.filter_subset_filter _ Finset.subset_union_right
  constructor
  · intro h k hk
    have heq := Finset.eq_of_subset_of_card_le hsub h.ge
    have hmem : k ∈ (newer ∪ older).filter (acked ≤ ·) :=
      Finset.mem_filter.mpr ⟨Finset.mem_union_left _ hk, hnewer k hk⟩
    rw [← heq] at hmem
    exact Finset.mem_of_mem_filter k hmem
  · intro h
    rw [Finset.union_eq_right.mpr h]

variable {covered : Finset ℤ} {base turn : ℤ}
  (hcovered : ∀ x, x ∈ covered ↔ x + base ∈ newer ∨ x + base - turn ∈ older)
  (hnewer : ∀ k ∈ newer, base ≤ k ∧ 2 * k < turn)
include hcovered hnewer

/-- Measured from the base, what precedes it is counted at an acknowledgement at or after the base. -/
theorem card_covered_above (holder : ∀ k ∈ older, 0 ≤ k) (hbase : 0 ≤ base) (hle : base ≤ acked)
    (hacked : 2 * acked < turn) :
    (covered.filter (acked - base ≤ ·)).card = (newer.filter (acked ≤ ·)).card + older.card := by
  have hsplit : covered.filter (acked - base ≤ ·) =
      (newer.filter (acked ≤ ·)).image (· - base) ∪ older.image (· - (base - turn)) := by
    ext x
    simp only [Finset.mem_filter, Finset.mem_union, Finset.mem_image, hcovered]
    constructor
    · rintro ⟨hx | hx, hacked⟩
      · exact .inl ⟨x + base, ⟨hx, by omega⟩, by omega⟩
      · exact .inr ⟨x + base - turn, hx, by omega⟩
    · rintro (⟨k, ⟨hk, hacked⟩, rfl⟩ | ⟨k, hk, rfl⟩)
      · exact ⟨.inl (by rwa [sub_add_cancel]), by omega⟩
      · have hbounds := holder k hk
        refine ⟨.inr ?_, by omega⟩
        rwa [show k - (base - turn) + base - turn = k by omega]
  have hdisjoint : Disjoint ((newer.filter (acked ≤ ·)).image (· - base))
      (older.image (· - (base - turn))) := by
    rw [Finset.disjoint_left]
    intro x hx hx'
    obtain ⟨k, hk, rfl⟩ := Finset.mem_image.mp hx
    obtain ⟨k', hk', heq⟩ := Finset.mem_image.mp hx'
    have hbounds := hnewer k (Finset.mem_of_mem_filter k hk)
    have hbounds' := holder k' hk'
    omega
  rw [hsplit, Finset.card_union_of_disjoint hdisjoint,
    Finset.card_image_of_injective _ (sub_left_injective),
    Finset.card_image_of_injective _ (sub_left_injective)]

/-- At one before the base, only what precedes the base is counted. -/
theorem card_covered_below (hlt : acked < base) (hacked : 0 ≤ acked) :
    (covered.filter (acked - base + turn ≤ ·)).card = (older.filter (acked ≤ ·)).card := by
  have hsplit : covered.filter (acked - base + turn ≤ ·) =
      (older.filter (acked ≤ ·)).image (· - (base - turn)) := by
    ext x
    simp only [Finset.mem_filter, Finset.mem_image, hcovered]
    constructor
    · rintro ⟨hx | hx, hle⟩
      · have hbounds := hnewer _ hx
        omega
      · exact ⟨x + base - turn, ⟨hx, by omega⟩, by omega⟩
    · rintro ⟨k, ⟨hk, hle⟩, rfl⟩
      refine ⟨.inr ?_, by omega⟩
      rwa [show k - (base - turn) + base - turn = k by omega]
  rw [hsplit, Finset.card_image_of_injective _ (sub_left_injective)]

end

theorem OutstandingPoint.eq_with_iff (pt : OutstandingPoint) (n : ℤ) :
    pt = { pt with outstanding := n } ↔ pt.outstanding = n := by
  constructor
  · intro h
    exact congrArg OutstandingPoint.outstanding h
  · rintro rfl
    rfl

/-! ## Places -/

/-- The places that some payload takes in a window. -/
def placesOf (start : ℤ) (sent : List FlowPacket) : Finset ℤ :=
  cover ((sent.map arcOf).map (places seqSpace start))

theorem mem_placesOf {start : ℤ} {sent : List FlowPacket} {k : ℤ} :
    k ∈ placesOf start sent ↔
      ∃ p ∈ sent, place seqSpace start p.seq ≤ k ∧ k < place seqSpace start p.seq + p.length := by
  simp [placesOf, places, arcOf]

section

variable {packets : List FlowPacket} {fromClient : Bool} {start : ℤ}
  (hwindow : InHalfTurn packets fromClient start) (ack : FlowPacket)

theorem mem_sentBy_iff {p : FlowPacket} :
    p ∈ sentBy packets fromClient ack ↔
      p ∈ newerBy packets fromClient ack ∨ p ∈ olderBy packets fromClient ack := by
  simp only [newerBy, olderBy, List.mem_filter, decide_eq_true_eq]
  tauto

theorem placesOf_sentBy :
    placesOf start (sentBy packets fromClient ack) =
      placesOf start (newerBy packets fromClient ack) ∪ placesOf start (olderBy packets fromClient ack) := by
  ext k
  simp only [Finset.mem_union, mem_placesOf, mem_sentBy_iff, or_and_right, exists_or]

include hwindow

theorem within_seq {p : FlowPacket} (hp : p ∈ sentBy packets fromClient ack) :
    Within seqSpace start p.seq ∧ 2 * (place seqSpace start p.seq + p.length - 1) < seqSpace := by
  obtain ⟨hmem, -, hsends⟩ := mem_sentBy.mp hp
  have harc : ArcWithin seqSpace start (p.seq, p.length) := hwindow.payload p hmem hsends
  have hfirst := harc 0 hsends.2
  have hend := place_end (by decide) harc hsends.2
  rw [Nat.cast_zero, add_zero] at hfirst
  exact ⟨hfirst, hend⟩

/-- The base is one of the captured records, so it lies in the window with them. -/
theorem within_firstSeq {p : FlowPacket} (hp : p ∈ packets) (hsends : SendsPayload fromClient p) :
    Within seqSpace start (firstSeq packets fromClient) := by
  cases hfirst : packets.find? fun p => SendsPayload fromClient p with
  | none =>
    have hnot := List.find?_eq_none.mp hfirst p hp
    exact absurd (decide_eq_true hsends) hnot
  | some first =>
    have hmem := List.mem_of_find?_eq_some hfirst
    have hkept := List.find?_some hfirst
    have hfirstSends : SendsPayload fromClient first := of_decide_eq_true hkept
    have harc : ArcWithin seqSpace start (first.seq, first.length) :=
      hwindow.payload first hmem hfirstSends
    have hplace := harc 0 hfirstSends.2
    rw [Nat.cast_zero, add_zero] at hplace
    rw [firstSeq, hfirst]
    exact hplace

theorem arcWithin_of_mem_sentBy {l : List FlowPacket} (hl : ∀ p ∈ l, p ∈ sentBy packets fromClient ack) :
    ∀ a ∈ l.map arcOf, ArcWithin seqSpace start a := by
  intro a ha
  obtain ⟨p, hp, rfl⟩ := List.mem_map.mp ha
  obtain ⟨hmem, -, hsends⟩ := mem_sentBy.mp (hl p hp)
  exact hwindow.payload p hmem hsends

/-- In serial order a point counts the places from the acknowledgement on. -/
theorem serialPoint_eq {ack : FlowPacket} (hack : ack ∈ packets) (hacks : Acknowledges fromClient ack) :
    (serialPoint packets fromClient ack).outstanding =
      ((placesOf start (newerBy packets fromClient ack) ∪
        placesOf start (olderBy packets fromClient ack)).filter (place seqSpace start ack.ack ≤ ·)).card := by
  rw [← placesOf_sentBy]
  exact congrArg Nat.cast (card_not_before (by decide)
    (arcWithin_of_mem_sentBy hwindow ack fun p hp => hp) (hwindow.acks ack hack hacks))

/-- Measured from the base, what precedes it stands a whole turn higher. -/
theorem mem_positions_iff (hbase : Within seqSpace start (firstSeq packets fromClient)) (x : ℤ) :
    x ∈ positions (some (firstSeq packets fromClient)) (sentBy packets fromClient ack) ↔
      x + place seqSpace start (firstSeq packets fromClient) ∈
          placesOf start (newerBy packets fromClient ack) ∨
        x + place seqSpace start (firstSeq packets fromClient) - seqSpace ∈
          placesOf start (olderBy packets fromClient ack) := by
  have hrelative : ∀ p ∈ sentBy packets fromClient ack,
      relative p.seq (some (firstSeq packets fromClient)) =
        if before seqSpace p.seq (firstSeq packets fromClient) then
          place seqSpace start p.seq - place seqSpace start (firstSeq packets fromClient) + seqSpace
        else place seqSpace start p.seq - place seqSpace start (firstSeq packets fromClient) := by
    intro p hp
    have hseq := (within_seq hwindow ack hp).1
    rw [relative, sub_emod_eq (by decide) hseq hbase]
    simp only [before_iff (by decide : 0 < seqSpace) hseq hbase]
  simp only [mem_positions, mem_placesOf, newerBy, olderBy, List.mem_filter, decide_eq_true_eq]
  constructor
  · rintro ⟨p, hp, hlo, hhi⟩
    rw [hrelative p hp] at hlo hhi
    by_cases hbefore : before seqSpace p.seq (firstSeq packets fromClient)
    · rw [if_pos hbefore] at hlo hhi
      exact .inr ⟨p, ⟨hp, hbefore⟩, by omega, by omega⟩
    · rw [if_neg hbefore] at hlo hhi
      exact .inl ⟨p, ⟨hp, hbefore⟩, by omega, by omega⟩
  · rintro (⟨p, ⟨hp, hbefore⟩, hlo, hhi⟩ | ⟨p, ⟨hp, hbefore⟩, hlo, hhi⟩)
    · refine ⟨p, hp, ?_⟩
      rw [hrelative p hp, if_neg hbefore]
      constructor <;> omega
    · refine ⟨p, hp, ?_⟩
      rw [hrelative p hp, if_pos hbefore]
      constructor <;> omega

/-- What follows the base keeps to half a turn. -/
theorem place_of_mem_newerBy (hbase : Within seqSpace start (firstSeq packets fromClient)) {k : ℤ}
    (hk : k ∈ placesOf start (newerBy packets fromClient ack)) :
    place seqSpace start (firstSeq packets fromClient) ≤ k ∧ 2 * k < seqSpace := by
  obtain ⟨p, hp, hlo, hhi⟩ := mem_placesOf.mp hk
  obtain ⟨hp, hnot⟩ := List.mem_filter.mp hp
  obtain ⟨hseq, hend⟩ := within_seq hwindow ack hp
  have hle := of_decide_eq_true hnot
  rw [before_iff (by decide) hseq hbase, not_lt] at hle
  exact ⟨hle.trans hlo, by omega⟩

/-- What precedes the base takes a place there. -/
theorem place_of_mem_olderBy (hbase : Within seqSpace start (firstSeq packets fromClient))
    {p : FlowPacket} (hp : p ∈ olderBy packets fromClient ack) :
    place seqSpace start p.seq ∈ placesOf start (olderBy packets fromClient ack) ∧
      place seqSpace start p.seq < place seqSpace start (firstSeq packets fromClient) := by
  obtain ⟨hsent, hbefore⟩ := List.mem_filter.mp hp
  have hlength := (mem_sentBy.mp hsent).2.2.2
  have hless := of_decide_eq_true hbefore
  rw [before_iff (by decide) (within_seq hwindow ack hsent).1 hbase] at hless
  exact ⟨mem_placesOf.mpr ⟨p, hp, le_rfl, by omega⟩, hless⟩

theorem placesOf_olderBy_eq_empty_iff (hbase : Within seqSpace start (firstSeq packets fromClient)) :
    placesOf start (olderBy packets fromClient ack) = ∅ ↔ olderBy packets fromClient ack = [] := by
  constructor
  · intro h
    apply List.eq_nil_iff_forall_not_mem.mpr
    intro p hp
    exact Finset.notMem_empty _ (h ▸ (place_of_mem_olderBy hwindow ack hbase hp).1)
  · intro h
    rw [h]
    rfl

/-- The point of one acknowledgement. -/
theorem countedPoint_eq_serialPoint_iff {ack : FlowPacket} (hack : ack ∈ packets)
    (hacks : Acknowledges fromClient ack) (hsent : ∃ p ∈ packets, SendsPayload fromClient p) :
    countedPoint packets fromClient (some (firstSeq packets fromClient)) ack =
        serialPoint packets fromClient ack ↔
      AgreesSerially packets fromClient ack := by
  obtain ⟨q, hq, hsends⟩ := hsent
  have hbase := within_firstSeq hwindow hq hsends
  have hacked := hwindow.acks ack hack hacks
  let base := place seqSpace start (firstSeq packets fromClient)
  let acked := place seqSpace start ack.ack
  let newer := placesOf start (newerBy packets fromClient ack)
  let older := placesOf start (olderBy packets fromClient ack)
  have hbase0 : 0 ≤ base := place_nonneg (by decide) _ _
  have hacked0 : 0 ≤ acked := place_nonneg (by decide) _ _
  have hcovered := mem_positions_iff hwindow ack hbase
  have hnewer : ∀ k ∈ newer, base ≤ k ∧ 2 * k < seqSpace := fun k hk =>
    place_of_mem_newerBy hwindow ack hbase hk
  have holder : ∀ k ∈ older, 0 ≤ k := by
    intro k hk
    obtain ⟨p, -, hlo, -⟩ := mem_placesOf.mp hk
    exact (place_nonneg (by decide) _ _).trans hlo
  have hpoint : countedPoint packets fromClient (some (firstSeq packets fromClient)) ack =
      serialPoint packets fromClient ack ↔
        ((positions (some (firstSeq packets fromClient)) (sentBy packets fromClient ack)).filter
          (relative ack.ack (some (firstSeq packets fromClient)) ≤ ·)).card =
        ((newer ∪ older).filter (acked ≤ ·)).card := by
    rw [← Int.natCast_inj]
    exact (OutstandingPoint.eq_with_iff _ _).trans (Eq.congr_right (serialPoint_eq hwindow hack hacks))
  have hrelative : relative ack.ack (some (firstSeq packets fromClient)) =
      if acked < base then acked - base + seqSpace else acked - base :=
    sub_emod_eq (by decide) hacked hbase
  have hbefore : before seqSpace ack.ack (firstSeq packets fromClient) ↔ acked < base :=
    before_iff (by decide) hacked hbase
  rw [hpoint, AgreesSerially, hbefore, hrelative]
  by_cases hlt : acked < base
  · have hsubset : arcs seqSpace ((newerBy packets fromClient ack).map arcOf) ⊆
        arcs seqSpace ((olderBy packets fromClient ack).map arcOf) ↔ newer ⊆ older :=
      arcs_subset_iff (by decide)
        (arcWithin_of_mem_sentBy hwindow ack fun p hp => List.mem_of_mem_filter hp)
        (arcWithin_of_mem_sentBy hwindow ack fun p hp => List.mem_of_mem_filter hp)
    rw [if_pos hlt, card_covered_below hcovered hnewer hlt hacked0,
      card_belowBase_iff fun k hk => hlt.le.trans (hnewer k hk).1, hsubset]
    exact ⟨fun h => ⟨fun _ => h, fun hnot => absurd hlt hnot⟩, fun h => h.1 hlt⟩
  · have hempty : older = ∅ ↔ olderBy packets fromClient ack = [] :=
      placesOf_olderBy_eq_empty_iff hwindow ack hbase
    have hnonempty : older.Nonempty → ∃ k ∈ older, k < acked := by
      intro h
      obtain ⟨k, hk⟩ := h
      obtain ⟨p, hp, -⟩ := mem_placesOf.mp hk
      obtain ⟨hmem, hless⟩ := place_of_mem_olderBy hwindow ack hbase hp
      exact ⟨_, hmem, hless.trans_le (not_lt.mp hlt)⟩
    have hhalf : 2 * acked < seqSpace := hacked
    rw [if_neg hlt, card_covered_above hcovered hnewer holder hbase0 (not_lt.mp hlt) hhalf,
      card_aboveBase_iff hnonempty, hempty]
    exact ⟨fun h => ⟨fun h' => absurd h' hlt, fun _ => h⟩, fun h => h.2 hlt⟩

end

/-! ## The series -/

/-- Without a SYN the base is the payload record that was captured first. -/
theorem initialSequence_of_no_syn {packets : List FlowPacket} {fromClient : Bool}
    (hsyn : ∀ p ∈ packets, p.direction = wanted fromClient → p.syn = false)
    (hsent : ∃ p ∈ packets, SendsPayload fromClient p) :
    initialSequence packets fromClient = some (firstSeq packets fromClient % seqSpace) := by
  have hnone : packets.find? (fun p => p.syn ∧ p.direction = wanted fromClient) = none := by
    rw [List.find?_eq_none]
    intro p hp hopens
    obtain ⟨hp', hdirection⟩ := of_decide_eq_true hopens
    rw [hsyn p hp hdirection] at hp'
    cases hp'
  obtain ⟨p, hp, hsends⟩ := hsent
  rw [initialSequence, hnone, firstSeq]
  show (packets.find? fun p => SendsPayload fromClient p).map _ = _
  cases hfirst : packets.find? fun p => SendsPayload fromClient p with
  | none => exact absurd (decide_eq_true hsends) (List.find?_eq_none.mp hfirst p hp)
  | some first => rfl

/-- THE BASE OF A MID-STREAM CAPTURE: where payload and acknowledgements keep to half a turn of the
sequence space, the series of a direction without a SYN counts in serial order exactly when each
acknowledgement meets no payload on the wrong side of the base. -/
theorem outstandingBytes_serial_iff {packets : List FlowPacket} {fromClient : Bool} {start : ℤ}
    (hsyn : ∀ p ∈ packets, p.direction = wanted fromClient → p.syn = false)
    (hwindow : InHalfTurn packets fromClient start) :
    (outstandingBytes packets).filter (·.direction = wanted fromClient) =
        pointSeries packets fromClient (serialPoint packets fromClient) ↔
      ∀ ack ∈ packets, Acknowledges fromClient ack → AgreesSerially packets fromClient ack := by
  rw [outstandingBytes_recount]
  by_cases hsent : ∃ p ∈ packets, SendsPayload fromClient p
  · have hpoint : countedPoint packets fromClient (initialSequence packets fromClient) =
        countedPoint packets fromClient (some (firstSeq packets fromClient)) := by
      funext ack
      rw [initialSequence_of_no_syn hsyn hsent, countedPoint, countedPoint]
      simp only [relative_emod, positions_emod]
    rw [hpoint, pointSeries_eq_iff hsent (fun _ => rfl) (fun _ => rfl)]
    apply forall_congr'
    intro ack
    apply forall_congr'
    intro hack
    apply forall_congr'
    intro hacks
    exact countedPoint_eq_serialPoint_iff hwindow hack hacks hsent
  · have hnone : sentPackets packets fromClient = [] := by
      apply List.eq_nil_iff_forall_not_mem.mpr
      intro p hp
      exact hsent ⟨p, mem_sentPackets.mp hp⟩
    have hby : ∀ ack, sentBy packets fromClient ack = [] := by
      intro ack
      apply List.eq_nil_iff_forall_not_mem.mpr
      intro p hp
      obtain ⟨hmem, -, hsends⟩ := mem_sentBy.mp hp
      exact hsent ⟨p, hmem, hsends⟩
    rw [pointSeries, if_pos hnone, pointSeries, if_pos hnone]
    refine ⟨fun _ ack _ _ => ?_, fun _ => rfl⟩
    rw [AgreesSerially, newerBy, olderBy, hby]
    exact ⟨fun _ => subset_rfl, fun _ => rfl⟩

/-- A record captured before the one that precedes it, and an acknowledgement between the two. -/
def reorderedStart : List FlowPacket :=
  [ { plainAck with seq := 1010, length := 10, ts := some 1, timeMs := 0, direction := .out },
    { plainAck with frame := 2, seq := 1000, length := 10, ts := some 2, timeMs := 1000,
                    direction := .out },
    { serverAck with frame := 3, ack := 1010, ts := some 3, timeMs := 2000, direction := .in_ } ]

/-- The ten bytes below the base are acknowledged and counted as outstanding all the same. -/
theorem reorderedStart_miscounted :
    (∀ p ∈ reorderedStart, p.direction = wanted true → p.syn = false) ∧
      InHalfTurn reorderedStart true 1000 ∧
      (outstandingBytes reorderedStart).filter (·.direction = wanted true) =
        [⟨2000, .out, 20, 0, 2⟩] ∧
      pointSeries reorderedStart true (serialPoint reorderedStart true) =
        [⟨2000, .out, 10, 0, 2⟩] ∧
      (outstandingBytes reorderedStart).filter (·.direction = wanted true) ≠
        pointSeries reorderedStart true (serialPoint reorderedStart true) := by
  refine ⟨by decide, ⟨?_, ?_⟩, by decide +kernel, by decide +kernel, by decide +kernel⟩
  · intro p hp _
    revert p
    decide +kernel
  · intro p hp _
    revert p
    decide +kernel

/-- The same records, the acknowledgement past both. -/
def orderedStart : List FlowPacket :=
  [ { plainAck with seq := 2 ^ 32 - 10, length := 10, ts := some 1, timeMs := 0, direction := .out },
    { plainAck with frame := 2, seq := 0, length := 10, ts := some 2, timeMs := 1000,
                    direction := .out },
    { serverAck with frame := 3, ack := 4, ts := some 3, timeMs := 2000, direction := .in_ } ]

/-- In order a capture may start anywhere, also just before the sequence numbers wrap. -/
theorem outstandingBytes_serial_iff_ordered :
    (outstandingBytes orderedStart).filter (·.direction = wanted true) =
      [⟨2000, .out, 6, 14, 2⟩] := by
  have hsyn : ∀ p ∈ orderedStart, p.direction = wanted true → p.syn = false := by decide
  have hwindow : InHalfTurn orderedStart true (2 ^ 32 - 10) := by
    constructor
    · intro p hp _
      revert p
      decide +kernel
    · intro p hp _
      revert p
      decide +kernel
  have hagrees : ∀ ack ∈ orderedStart, Acknowledges true ack → AgreesSerially orderedStart true ack := by
    decide +kernel
  have hpoints : pointSeries orderedStart true (serialPoint orderedStart true) =
      [⟨2000, .out, 6, 14, 2⟩] := by decide +kernel
  have hseries := (outstandingBytes_serial_iff hsyn hwindow).mpr hagrees
  exact hseries.trans hpoints

end PacketTrain.Analysis
