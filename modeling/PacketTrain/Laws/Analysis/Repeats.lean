import Mathlib.Algebra.BigOperators.Ring.Finset
import PacketTrain.Laws.Analysis.Retransmit
import PacketTrain.Laws.Analysis.UniquePayload

/-!
# Unique bytes in two modules

`tcp_accounting` counts the sequence numbers that carried a byte. `retransmission_analysis` adds up the
segments that overlap no earlier one; the new part of a partial retransmission is in neither of its
sums. `uniqueBytes_iff` says when the two modules agree and nothing is lost: each overlapping packet
overlaps earlier ones by its whole length, and what such packets carry for the first time makes up for
what the others carry again across the wrap. Without a range past `2 ^ 32` that comes to one thing: a
packet that overlaps an earlier one carries nothing new.
-/

namespace PacketTrain.Analysis

open Circular Ranges

/-! ## Packets and those before them -/

/-- Each element with those before it, `covered` before the first. -/
def arrivals {α : Type} (covered : List α) : List α → List (List α × α)
  | [] => []
  | a :: l => (covered, a) :: arrivals (covered ++ [a]) l

theorem arrivals_map {α β : Type} (f : α → β) (covered l : List α) :
    arrivals (covered.map f) (l.map f) =
      (arrivals covered l).map fun a => (a.1.map f, f a.2) := by
  induction l generalizing covered with
  | nil => rfl
  | cons a l ih =>
    have hrest := ih (covered ++ [a])
    rw [List.map_append] at hrest
    rw [List.map_cons, arrivals, arrivals, List.map_cons]
    exact congrArg _ hrest

theorem map_snd_arrivals {α : Type} (covered l : List α) :
    (arrivals covered l).map Prod.snd = l := by
  induction l generalizing covered with
  | nil => rfl
  | cons a l ih => rw [arrivals, List.map_cons, ih]

theorem mem_of_mem_arrivals {α : Type} {covered l : List α} {a : List α × α}
    (h : a ∈ arrivals covered l) : a.2 ∈ l ∧ ∀ b ∈ a.1, b ∈ covered ∨ b ∈ l := by
  induction l generalizing covered with
  | nil => cases h
  | cons x l ih =>
    rcases List.mem_cons.mp h with rfl | h
    · exact ⟨List.mem_cons_self, fun b hb => .inl hb⟩
    · obtain ⟨hmem, hbefore⟩ := ih h
      refine ⟨List.mem_cons_of_mem _ hmem, fun b hb => ?_⟩
      rcases hbefore b hb with hb | hb
      · rcases List.mem_append.mp hb with hb | hb
        · exact .inl hb
        · exact .inr (List.mem_singleton.mp hb ▸ List.mem_cons_self)
      · exact .inr (List.mem_cons_of_mem _ hb)

/-- What each element covers for the first time adds up to what all of them cover. -/
theorem sum_new_eq_card {α : Type} (f : α → List Range) (covered l : List α) :
    ((arrivals covered l).map fun a =>
      (cover (f a.2) \ cover (a.1.flatMap f)).card).sum + (cover (covered.flatMap f)).card =
      (cover ((covered ++ l).flatMap f)).card := by
  induction l generalizing covered with
  | nil => rw [arrivals, List.append_nil, List.map_nil, List.sum_nil, Nat.zero_add]
  | cons a l ih =>
    have hrest := ih (covered ++ [a])
    have hnew : (cover (f a) \ cover (covered.flatMap f)).card + (cover (covered.flatMap f)).card =
        (cover ((covered ++ [a]).flatMap f)).card := by
      rw [Finset.card_sdiff_add_card, List.flatMap_append, cover_append, List.flatMap_singleton,
        Finset.union_comm]
    rw [List.append_assoc, List.singleton_append] at hrest
    rw [arrivals, List.map_cons, List.sum_cons, ← hrest, ← hnew]
    dsimp only
    omega

/-! ## The split as two filters -/

/-- A segment as the repeat it is. -/
def repeatOf (covered : List Segment) (s : Segment) : Repeat :=
  { s with
    repeatBytes := duplicateBytes covered s
    newBytes := s.length - duplicateBytes covered s }

/-- The loop keeps, in order, the segments without duplicate bytes and those with some. -/
theorem splitRepeats_eq (covered segs : List Segment) :
    splitRepeats covered segs =
      (((arrivals covered segs).filter fun a => duplicateBytes a.1 a.2 = 0).map Prod.snd,
        ((arrivals covered segs).filter fun a => duplicateBytes a.1 a.2 ≠ 0).map
          fun a => repeatOf a.1 a.2) := by
  induction segs generalizing covered with
  | nil => rfl
  | cons s segs ih =>
    by_cases h : duplicateBytes covered s = 0
    · rw [splitRepeats_of_first h, ih, arrivals, List.filter_cons_of_pos (by simpa using h),
        List.filter_cons_of_neg (by simpa using h)]
      rfl
    · rw [splitRepeats_of_repeat h, ih, arrivals, List.filter_cons_of_neg (by simpa using h),
        List.filter_cons_of_pos (by simpa using h)]
      rfl

/-! ## The packets of a direction -/

/-- The base from which `retransmission_analysis` measures the payload of a side. -/
def payloadBase (group : List FlowPacket) (side : Side) : Option ℤ :=
  initialSequence (payloadOf group side) side.fromClient

/-- The payload packets of a side, each with those before it. -/
def payloadArrivals (group : List FlowPacket) (side : Side) : List (List FlowPacket × FlowPacket) :=
  arrivals [] (payloadOf group side)

/-- The bytes that a packet shares with those before it, added up over them. -/
def sharedBefore (base : Option ℤ) (a : List FlowPacket × FlowPacket) : ℤ :=
  (a.1.map fun q => shared (sentRange base a.2) (sentRange base q)).sum

/-- How many sequence numbers a packet carries that none before it carried. -/
def carriedFirst (base : Option ℤ) (a : List FlowPacket × FlowPacket) : ℕ :=
  (cover (seqRange base a.2) \ cover (a.1.flatMap (seqRange base))).card

/-- When the unique bytes of a side are exact. -/
structure RepeatsBalance (group : List FlowPacket) (side : Side) : Prop where
  /-- A packet that overlaps earlier ones overlaps them by its whole length, added up over them. -/
  whole : ∀ a ∈ payloadArrivals group side, sharedBefore (payloadBase group side) a ≠ 0 →
    (a.2.length : ℤ) ≤ sharedBefore (payloadBase group side) a
  /-- What the packets without overlap carry again, across the wrap, is as much as what the
  overlapping ones carry first. -/
  balanced :
    (((payloadArrivals group side).filter fun a => sharedBefore (payloadBase group side) a = 0).map
      fun a => (a.2.length : ℤ) - carriedFirst (initialSequence group side.fromClient) a).sum =
    (((payloadArrivals group side).filter fun a => ¬ sharedBefore (payloadBase group side) a = 0).map
      fun a => (carriedFirst (initialSequence group side.fromClient) a : ℤ)).sum

/-- No payload range of a side passes the end of the sequence space. -/
def Unwrapped (group : List FlowPacket) (side : Side) : Prop :=
  ∀ p ∈ payloadOf group side, relative p.seq (payloadBase group side) + p.length ≤ seqSpace

/-- A packet that overlaps an earlier one carries only sequence numbers that earlier ones carried. -/
def NothingNewInRepeats (group : List FlowPacket) (side : Side) : Prop :=
  ∀ a ∈ payloadArrivals group side, sharedBefore (payloadBase group side) a ≠ 0 →
    arc seqSpace a.2.seq a.2.length ⊆ arcs seqSpace (a.1.map arcOf)

theorem sentPackets_eq_payloadOf (group : List FlowPacket) (side : Side) :
    sentPackets group side.fromClient = payloadOf group side := by
  apply List.filter_congr
  intro p _
  have hside : p.direction = wanted side.fromClient ↔ p.direction.side = side := by
    cases p.direction <;> cases side <;> decide
  simp only [hside]

/-- The segment of a payload packet. -/
def segmentOf (group : List FlowPacket) (side : Side) (p : FlowPacket) : Segment :=
  { frame := p.frame
    timeMs := sinceOrigin (origin (payloadOf group side)) p.ts
    start := relative p.seq (payloadBase group side)
    stop := relative p.seq (payloadBase group side) + p.length
    length := p.length
    labelled := p.retrans
    sack := p.sack
    seq := p.seq % seqSpace }

theorem duplicateBytes_segmentOf (group : List FlowPacket) (side : Side)
    (a : List FlowPacket × FlowPacket) :
    duplicateBytes (a.1.map (segmentOf group side)) (segmentOf group side a.2) =
      min (sharedBefore (payloadBase group side) a) a.2.length := by
  rw [duplicateBytes, List.map_map]
  rfl

theorem sharedBefore_nonneg (base : Option ℤ) (a : List FlowPacket × FlowPacket) :
    0 ≤ sharedBefore base a := by
  apply List.sum_nonneg
  intro x hx
  obtain ⟨q, -, rfl⟩ := List.mem_map.mp hx
  exact shared_nonneg _ _

theorem payloadArrivals_pos {group : List FlowPacket} {side : Side}
    {a : List FlowPacket × FlowPacket} (ha : a ∈ payloadArrivals group side) : 0 < a.2.length :=
  (of_decide_eq_true (List.mem_filter.mp (mem_of_mem_arrivals ha).1).2).2

/-- The two sums of a direction: the packets without overlap by their length, the others by what they
share, as far as they are long. -/
theorem directionTotals_eq (group : List FlowPacket) (side : Side) :
    (directionTotals (sideSegments group side)).uniqueBytes =
      (((payloadArrivals group side).filter fun a =>
        sharedBefore (payloadBase group side) a = 0).map fun a => (a.2.length : ℤ)).sum ∧
    (directionTotals (sideSegments group side)).repeatedBytes =
      (((payloadArrivals group side).filter fun a =>
        ¬ sharedBefore (payloadBase group side) a = 0).map fun a =>
          min (sharedBefore (payloadBase group side) a) (a.2.length : ℤ)).sum := by
  have hsplit := splitRepeats_eq [] (sideSegments group side)
  have harrivals : arrivals [] (sideSegments group side) =
      (payloadArrivals group side).map fun a =>
        (a.1.map (segmentOf group side), segmentOf group side a.2) := arrivals_map _ [] _
  have hzero : ∀ a ∈ payloadArrivals group side,
      (duplicateBytes (a.1.map (segmentOf group side)) (segmentOf group side a.2) = 0 ↔
        sharedBefore (payloadBase group side) a = 0) := by
    intro a ha
    have hlength := payloadArrivals_pos ha
    have hshared := sharedBefore_nonneg (payloadBase group side) a
    rw [duplicateBytes_segmentOf]
    omega
  let pair : List FlowPacket × FlowPacket → List Segment × Segment := fun a =>
    (a.1.map (segmentOf group side), segmentOf group side a.2)
  have hfree : (payloadArrivals group side).filter
      ((fun a : List Segment × Segment => decide (duplicateBytes a.1 a.2 = 0)) ∘ pair) =
      (payloadArrivals group side).filter fun a => sharedBefore (payloadBase group side) a = 0 :=
    List.filter_congr fun a ha => decide_eq_decide.mpr (hzero a ha)
  have hover : (payloadArrivals group side).filter
      ((fun a : List Segment × Segment => decide (duplicateBytes a.1 a.2 ≠ 0)) ∘ pair) =
      (payloadArrivals group side).filter fun a => ¬ sharedBefore (payloadBase group side) a = 0 :=
    List.filter_congr fun a ha => decide_eq_decide.mpr (not_congr (hzero a ha))
  rw [directionTotals, firstTransmissions, hsplit, harrivals]
  simp only [List.filter_map, List.map_map]
  constructor
  · rw [hfree]
    rfl
  · rw [hover]
    refine congrArg _ (List.map_congr_left fun a _ => ?_)
    exact duplicateBytes_segmentOf group side a

/-! ## Agreement -/

theorem sum_map_sub {α : Type} (l : List α) (f g : α → ℤ) :
    (l.map fun a => f a - g a).sum = (l.map f).sum - (l.map g).sum := by
  rw [eq_sub_iff_add_eq, ← List.sum_map_add]
  simp only [sub_add_cancel]

/-- The totals of a side: `by_direction`. -/
def RetransmissionAnalysis.byDirection (analysis : RetransmissionAnalysis) : Side → DirectionTotals
  | .client => analysis.client
  | .server => analysis.server

theorem byDirection_eq (group : List FlowPacket) (side : Side) :
    (retransmissionAnalysis group).byDirection side = directionTotals (sideSegments group side) := by
  cases side <;> rfl

/-- Nothing is lost exactly when each overlapping packet overlaps by its whole length. -/
theorem unique_add_repeated_iff (group : List FlowPacket) (side : Side) :
    let totals := (retransmissionAnalysis group).byDirection side
    totals.uniqueBytes + totals.repeatedBytes =
        ((payloadOf group side).map fun p => (p.length : ℤ)).sum ↔
      ∀ a ∈ payloadArrivals group side, sharedBefore (payloadBase group side) a ≠ 0 →
        (a.2.length : ℤ) ≤ sharedBefore (payloadBase group side) a := by
  obtain ⟨hunique, hrepeated⟩ := directionTotals_eq group side
  have hall : ((payloadOf group side).map fun p => (p.length : ℤ)).sum =
      ((payloadArrivals group side).map fun a => (a.2.length : ℤ)).sum := by
    conv_lhs => rw [← map_snd_arrivals [] (payloadOf group side), List.map_map]
    rfl
  have hsplit := List.sum_map_filter_add_sum_map_filter_not
    (fun a => sharedBefore (payloadBase group side) a = 0)
    (fun a : List FlowPacket × FlowPacket => (a.2.length : ℤ)) (payloadArrivals group side)
  let repeated := (payloadArrivals group side).filter fun a =>
    ¬ sharedBefore (payloadBase group side) a = 0
  have hsub : (repeated.map fun a => (a.2.length : ℤ)).sum -
      (repeated.map fun a => min (sharedBefore (payloadBase group side) a) (a.2.length : ℤ)).sum =
      (repeated.map fun a =>
        (a.2.length : ℤ) - min (sharedBefore (payloadBase group side) a) (a.2.length : ℤ)).sum :=
    (sum_map_sub _ _ _).symm
  dsimp only
  rw [byDirection_eq, hunique, hrepeated, hall, ← hsplit]
  constructor
  · intro heq a ha hshared
    have hzero := List.all_zero_of_le_zero_le_of_sum_eq_zero (l := repeated.map fun a =>
        (a.2.length : ℤ) - min (sharedBefore (payloadBase group side) a) (a.2.length : ℤ))
      (fun x hx => by
        obtain ⟨b, -, rfl⟩ := List.mem_map.mp hx
        exact sub_nonneg.mpr (min_le_right _ _))
      (by
        rw [← hsub]
        exact sub_eq_zero.mpr (add_left_cancel heq).symm)
      (List.mem_map_of_mem (List.mem_filter.mpr ⟨ha, decide_eq_true hshared⟩))
    omega
  · intro hwhole
    congr 2
    apply List.map_congr_left
    intro a ha
    obtain ⟨ha, hshared⟩ := List.mem_filter.mp ha
    exact min_eq_right (hwhole a ha (of_decide_eq_true hshared))

/-- What the payload of a side covers is what its packets carry first. -/
theorem sum_carriedFirst (group : List FlowPacket) (side : Side) :
    uniquePayload (seqRanges group side.fromClient) =
      ((payloadArrivals group side).map fun a =>
        (carriedFirst (initialSequence group side.fromClient) a : ℤ)).sum := by
  have hsum := sum_new_eq_card (seqRange (initialSequence group side.fromClient)) []
    (payloadOf group side)
  rw [uniquePayload_eq_total, seqRanges, sentPackets_eq_payloadOf, total_eq_card (proper_seqRanges _ _)]
  have hnone : (cover []).card = 0 := rfl
  rw [List.flatMap_nil, List.nil_append, hnone, Nat.add_zero] at hsum
  rw [← hsum, Nat.cast_list_sum, List.map_map]
  rfl

/-- The unique bytes are the covered ones exactly when the sides of the balance are equal. -/
theorem unique_eq_iff (group : List FlowPacket) (side : Side) :
    ((retransmissionAnalysis group).byDirection side).uniqueBytes =
        uniquePayload (seqRanges group side.fromClient) ↔
      (((payloadArrivals group side).filter fun a =>
          sharedBefore (payloadBase group side) a = 0).map
        fun a => (a.2.length : ℤ) - carriedFirst (initialSequence group side.fromClient) a).sum =
      (((payloadArrivals group side).filter fun a =>
          ¬ sharedBefore (payloadBase group side) a = 0).map
        fun a => (carriedFirst (initialSequence group side.fromClient) a : ℤ)).sum := by
  have hsplit := List.sum_map_filter_add_sum_map_filter_not
    (fun a => sharedBefore (payloadBase group side) a = 0)
    (fun a => (carriedFirst (initialSequence group side.fromClient) a : ℤ))
    (payloadArrivals group side)
  rw [byDirection_eq, (directionTotals_eq group side).1, sum_carriedFirst, ← hsplit, sum_map_sub]
  constructor
  · intro h
    rw [h]
    exact add_sub_cancel_left _ _
  · intro h
    rw [← h]
    exact (add_sub_cancel _ _).symm

/-! ## Without a wrap -/

/-- What a packet carries first is counted on the circle, whatever the base. -/
theorem carriedFirst_eq (base : Option ℤ) {a : List FlowPacket × FlowPacket}
    (hlast : (a.2.length : ℤ) ≤ seqSpace) (hearlier : ∀ q ∈ a.1, (q.length : ℤ) ≤ seqSpace) :
    carriedFirst base a =
      (arc seqSpace a.2.seq a.2.length \ arcs seqSpace (a.1.map arcOf)).card := by
  have hfits : ∀ b ∈ a.1.map arcOf, (b.2 : ℤ) ≤ seqSpace := by
    intro b hb
    obtain ⟨q, hq, rfl⟩ := List.mem_map.mp hb
    exact hearlier q hq
  have hspace : (0 : ℤ) < seqSpace := by decide
  rw [carriedFirst, seqRange_eq_cut, cover_cut hspace _ _ hlast, flatMap_seqRange,
    cover_cuts hspace _ hfits,
    image_rotate_sdiff (fun x => emod_of_mem_arc) (fun x => emod_of_mem_arcs)]
  exact card_image_rotate fun x hx => emod_of_mem_arc (Finset.mem_sdiff.mp hx).1

section

variable {group : List FlowPacket} {side : Side} (hunwrapped : Unwrapped group side)
include hunwrapped

theorem seqRange_of_unwrapped {p : FlowPacket} (hp : p ∈ payloadOf group side) :
    seqRange (payloadBase group side) p = [sentRange (payloadBase group side) p] :=
  if_neg (not_lt.mpr (hunwrapped p hp))

theorem length_le_of_unwrapped {p : FlowPacket} (hp : p ∈ payloadOf group side) :
    (p.length : ℤ) ≤ seqSpace := by
  have hend := hunwrapped p hp
  have hstart : 0 ≤ relative p.seq (payloadBase group side) := by
    rw [relative_eq]
    exact Int.emod_nonneg _ (by decide)
  omega

variable {a : List FlowPacket × FlowPacket} (ha : a ∈ payloadArrivals group side)
include ha

/-- What a packet carries first, as ranges that none of them passes the end. -/
theorem carriedFirst_of_unwrapped (base : Option ℤ) :
    carriedFirst base a = (cover [sentRange (payloadBase group side) a.2] \
      cover (a.1.map (sentRange (payloadBase group side)))).card := by
  obtain ⟨hlast, hearlier⟩ := mem_of_mem_arrivals ha
  have hmem : ∀ q ∈ a.1, q ∈ payloadOf group side := fun q hq =>
    (hearlier q hq).resolve_left (List.not_mem_nil)
  have hlengths : ∀ q ∈ a.1, (q.length : ℤ) ≤ seqSpace := fun q hq =>
    length_le_of_unwrapped hunwrapped (hmem q hq)
  have hflat : a.1.flatMap (seqRange (payloadBase group side)) =
      a.1.map (sentRange (payloadBase group side)) := by
    rw [List.map_eq_flatMap]
    exact List.flatMap_congr fun q hq => seqRange_of_unwrapped hunwrapped (hmem q hq)
  rw [carriedFirst_eq base (length_le_of_unwrapped hunwrapped hlast) hlengths,
    ← carriedFirst_eq (payloadBase group side) (length_le_of_unwrapped hunwrapped hlast) hlengths,
    carriedFirst, seqRange_of_unwrapped hunwrapped hlast, hflat]

/-- A packet carries nothing first exactly when earlier ones carried all its sequence numbers. -/
theorem carriedFirst_eq_zero_iff (base : Option ℤ) :
    carriedFirst base a = 0 ↔
      arc seqSpace a.2.seq a.2.length ⊆ arcs seqSpace (a.1.map arcOf) := by
  obtain ⟨hlast, hearlier⟩ := mem_of_mem_arrivals ha
  rw [carriedFirst_eq base (length_le_of_unwrapped hunwrapped hlast) fun q hq =>
    length_le_of_unwrapped hunwrapped ((hearlier q hq).resolve_left List.not_mem_nil),
    Finset.card_eq_zero, Finset.sdiff_eq_empty_iff_subset]

/-- A packet without overlap carries all its bytes first. -/
theorem carriedFirst_of_free (base : Option ℤ)
    (hfree : sharedBefore (payloadBase group side) a = 0) :
    (carriedFirst base a : ℤ) = a.2.length := by
  have hsum : ((a.1.map (sentRange (payloadBase group side))).map
      (shared (sentRange (payloadBase group side) a.2))).sum = 0 := by
    rw [List.map_map]
    exact hfree
  rw [carriedFirst_of_unwrapped hunwrapped ha, cover_sdiff_of_shared_eq_zero hsum,
    card_cover_singleton (by simp [sentRange])]
  simp [sentRange]

/-- A packet whose sequence numbers earlier ones carried overlaps them by its whole length. -/
theorem whole_of_carried
    (h : arc seqSpace a.2.seq a.2.length ⊆ arcs seqSpace (a.1.map arcOf)) :
    (a.2.length : ℤ) ≤ sharedBefore (payloadBase group side) a := by
  have hzero := (carriedFirst_eq_zero_iff hunwrapped ha (payloadBase group side)).mpr h
  rw [carriedFirst_of_unwrapped hunwrapped ha, Finset.card_eq_zero,
    Finset.sdiff_eq_empty_iff_subset] at hzero
  have hle := le_sum_shared hzero
  rw [List.map_map] at hle
  simpa [sentRange, sharedBefore, Function.comp_def] using hle

omit ha

/-- Without a range past the end, the balance says that overlapping packets carry nothing new. -/
theorem repeatsBalance_iff : RepeatsBalance group side ↔ NothingNewInRepeats group side := by
  let base := initialSequence group side.fromClient
  have hfree : (((payloadArrivals group side).filter fun a =>
      sharedBefore (payloadBase group side) a = 0).map
        fun a => (a.2.length : ℤ) - carriedFirst base a).sum = 0 := by
    apply List.sum_eq_zero
    intro x hx
    obtain ⟨a, ha, rfl⟩ := List.mem_map.mp hx
    obtain ⟨ha, hzero⟩ := List.mem_filter.mp ha
    rw [carriedFirst_of_free hunwrapped ha base (of_decide_eq_true hzero), sub_self]
  refine ⟨fun h a ha hover => ?_, fun h => ⟨fun a ha hover => ?_, ?_⟩⟩
  · have hzero := List.all_zero_of_le_zero_le_of_sum_eq_zero
      (fun x hx => by
        obtain ⟨b, -, rfl⟩ := List.mem_map.mp hx
        exact Int.natCast_nonneg _)
      (h.balanced.symm.trans hfree)
      (List.mem_map_of_mem (List.mem_filter.mpr ⟨ha, decide_eq_true hover⟩))
    exact (carriedFirst_eq_zero_iff hunwrapped ha base).mp (Int.natCast_eq_zero.mp hzero)
  · exact whole_of_carried hunwrapped ha (h a ha hover)
  · refine hfree.trans (List.sum_eq_zero fun x hx => ?_).symm
    obtain ⟨a, ha, rfl⟩ := List.mem_map.mp hx
    obtain ⟨ha, hover⟩ := List.mem_filter.mp ha
    have hcarried := h a ha (of_decide_eq_true hover)
    exact Int.natCast_eq_zero.mpr ((carriedFirst_eq_zero_iff hunwrapped ha base).mpr hcarried)

end

/-! ## The two modules -/

/-- The retransmission totals of a side are exact: their unique bytes are those of the accounting, and
with the repeated bytes they are the whole payload. -/
def TotalsAgree (group : List FlowPacket) (accounting : TcpAccounting) (side : Side) : Prop :=
  let totals := (retransmissionAnalysis group).byDirection side
  totals.uniqueBytes = accounting.uniquePayloadBytes side ∧
    totals.uniqueBytes + totals.repeatedBytes =
      ((payloadOf group side).map fun p => (p.length : ℤ)).sum

/-- The totals of a side are exact exactly when its repeats balance; where no range passes the end of
the sequence space, exactly when no overlapping packet carries anything new. -/
theorem totalsAgree_iff {group : List FlowPacket} {accounting : TcpAccounting}
    (h : tcpAccounting group = some accounting) (side : Side) :
    (TotalsAgree group accounting side ↔ RepeatsBalance group side) ∧
      (Unwrapped group side →
        (TotalsAgree group accounting side ↔ NothingNewInRepeats group side)) := by
  have hagree : TotalsAgree group accounting side ↔ RepeatsBalance group side := by
    rw [TotalsAgree, (tcpAccounting_eq_some h).1 side]
    refine (and_congr (unique_eq_iff group side) (unique_add_repeated_iff group side)).trans ?_
    refine ⟨fun h => ?_, fun h => ?_⟩
    · exact ⟨h.2, h.1⟩
    · exact ⟨h.balanced, h.whole⟩
  exact ⟨hagree, fun hunwrapped => hagree.trans (repeatsBalance_iff hunwrapped)⟩

/-- Ten bytes, then ten of which five are new. -/
def partialRepeat : List FlowPacket :=
  [ { plainAck with length := 10, ts := some 1, timeMs := 0, direction := .out },
    { plainAck with frame := 2, seq := 1005, length := 10, ts := some 2, timeMs := 1000,
                    direction := .out } ]

/-- The five new bytes of a partial retransmission are in neither sum: ten unique and five repeated of
twenty, where fifteen sequence numbers carried a byte. -/
theorem partialRepeat_lost :
    ∃ accounting, tcpAccounting partialRepeat = some accounting ∧
      accounting.uniquePayloadBytes .client = 15 ∧
      ((retransmissionAnalysis partialRepeat).byDirection .client).uniqueBytes = 10 ∧
      ((retransmissionAnalysis partialRepeat).byDirection .client).repeatedBytes = 5 ∧
      ¬ TotalsAgree partialRepeat accounting .client := by
  have haccounting : (tcpAccounting partialRepeat).map (·.uniquePayloadBytes .client) =
      some 15 := by decide +kernel
  have hunique : ((retransmissionAnalysis partialRepeat).byDirection .client).uniqueBytes = 10 := by
    decide +kernel
  have hrepeated : ((retransmissionAnalysis partialRepeat).byDirection .client).repeatedBytes = 5 := by
    decide +kernel
  obtain ⟨accounting, hsome, hcovered⟩ := Option.map_eq_some_iff.mp haccounting
  refine ⟨accounting, hsome, hcovered, hunique, hrepeated, fun hagree => ?_⟩
  have hfifteen := hagree.1
  rw [hunique, hcovered] at hfifteen
  cases hfifteen

/-- Ten bytes, then the last five of them again. -/
def wholeRepeat : List FlowPacket :=
  [ { plainAck with length := 10, ts := some 1, timeMs := 0, direction := .out },
    { plainAck with frame := 2, seq := 1005, length := 5, ts := some 2, timeMs := 1000,
                    direction := .out } ]

/-- A repeat of captured bytes keeps the totals exact, a partial one does not. -/
theorem totalsAgree_iff_repeats :
    (∃ accounting, tcpAccounting wholeRepeat = some accounting ∧
      TotalsAgree wholeRepeat accounting .client) ∧
    ∃ accounting, tcpAccounting partialRepeat = some accounting ∧
      ¬ TotalsAgree partialRepeat accounting .client := by
  have hwhole : (tcpAccounting wholeRepeat).isSome = true := by decide +kernel
  have hpartial : (tcpAccounting partialRepeat).isSome = true := by decide +kernel
  obtain ⟨whole, hwhole⟩ := Option.isSome_iff_exists.mp hwhole
  obtain ⟨part, hpart⟩ := Option.isSome_iff_exists.mp hpartial
  refine ⟨⟨whole, hwhole, ?_⟩, ⟨part, hpart, ?_⟩⟩
  · refine ((totalsAgree_iff hwhole .client).2 ?_).mpr ?_
    · intro p hp
      revert p
      decide +kernel
    · intro a ha
      revert a
      decide +kernel
  · rw [(totalsAgree_iff hpart .client).1]
    intro h
    have hbalanced := h.balanced
    revert hbalanced
    decide +kernel

end PacketTrain.Analysis
