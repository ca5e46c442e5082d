import PacketTrain.Laws.Analysis.Repeats
import PacketTrain.Laws.Analysis.Shift
import PacketTrain.Lib.Serial

/-!
# How many bytes of a segment are repeated

`_first_transmissions` adds up what a segment shares with each earlier one and stops at its length. On
the circle of sequence numbers the repeated bytes are those that some earlier segment carried. The sum
differs in two ways: it counts again what several earlier segments carried, and it misses what lies
across the base, since a range that begins before the base is measured a whole turn higher.
`repeats_exact_iff` says that the repeats are exact exactly when the two make up for one another, or
the segment is wholly covered and no more is missed than is counted again.
-/

namespace PacketTrain.Analysis

open Circular Ranges Serial

/-! ## Exact repeats -/

/-- The sequence numbers of a payload. -/
def bytesOf (p : FlowPacket) : Finset ℤ := arc seqSpace p.seq p.length

/-- The sequence numbers of several payloads. -/
def bytesOfAll (l : List FlowPacket) : Finset ℤ := arcs seqSpace (l.map arcOf)

/-- How many bytes of a packet some packet before it carried. -/
def coveredBefore (a : List FlowPacket × FlowPacket) : ℕ := (bytesOf a.2 ∩ bytesOfAll a.1).card

/-- The repeat of a packet, by what was carried before. -/
def exactRepeat (group : List FlowPacket) (side : Side) (a : List FlowPacket × FlowPacket) : Repeat :=
  { segmentOf group side a.2 with
    repeatBytes := coveredBefore a
    newBytes := a.2.length - coveredBefore a }

/-- The packets of a side that carry a byte again. -/
def exactRepeats (group : List FlowPacket) (side : Side) : List Repeat :=
  ((payloadArrivals group side).filter fun a => coveredBefore a ≠ 0).map (exactRepeat group side)

/-! ## The two sides of the base -/

/-- A packet begins before the base of its side's ranges. -/
def PrecedesBase (group : List FlowPacket) (side : Side) (p : FlowPacket) : Prop :=
  before seqSpace p.seq ((payloadBase group side).getD 0)

instance (group : List FlowPacket) (side : Side) (p : FlowPacket) :
    Decidable (PrecedesBase group side p) := inferInstanceAs (Decidable (before _ _ _))

/-- The packets before a packet that begin on its side of the base. -/
def sameSide (group : List FlowPacket) (side : Side) (a : List FlowPacket × FlowPacket) :
    List FlowPacket :=
  a.1.filter fun q => PrecedesBase group side q ↔ PrecedesBase group side a.2

/-- Those that begin on the other side. -/
def otherSide (group : List FlowPacket) (side : Side) (a : List FlowPacket × FlowPacket) :
    List FlowPacket :=
  a.1.filter fun q => ¬ (PrecedesBase group side q ↔ PrecedesBase group side a.2)

/-- The bytes of a packet that packets of its side of the base carried before, each as often as it was
carried, but for the first time. -/
def countedAgain (group : List FlowPacket) (side : Side) (a : List FlowPacket × FlowPacket) : ℤ :=
  ((sameSide group side a).map fun q => ((bytesOf a.2 ∩ bytesOf q).card : ℤ)).sum -
    (bytesOf a.2 ∩ bytesOfAll (sameSide group side a)).card

/-- The bytes of a packet that only packets of the other side of the base carried before. -/
def missed (group : List FlowPacket) (side : Side) (a : List FlowPacket × FlowPacket) : ℕ :=
  ((bytesOf a.2 ∩ bytesOfAll (otherSide group side a)) \ bytesOfAll (sameSide group side a)).card

/-- What is missed of a packet is made up for. -/
structure MadeUp (group : List FlowPacket) (side : Side) (a : List FlowPacket × FlowPacket) : Prop where
  enough : (missed group side a : ℤ) ≤ countedAgain group side a
  exact : (missed group side a : ℤ) = countedAgain group side a ∨ bytesOf a.2 ⊆ bytesOfAll a.1

instance (group : List FlowPacket) (side : Side) (a : List FlowPacket × FlowPacket) :
    Decidable (MadeUp group side a) :=
  decidable_of_iff (_ ∧ _) ⟨fun h => ⟨h.1, h.2⟩, fun h => ⟨h.enough, h.exact⟩⟩

theorem bytesOfAll_eq_union (group : List FlowPacket) (side : Side)
    (a : List FlowPacket × FlowPacket) :
    bytesOfAll a.1 = bytesOfAll (sameSide group side a) ∪ bytesOfAll (otherSide group side a) := by
  ext x
  simp only [bytesOfAll, sameSide, otherSide, Finset.mem_union, mem_arcs, List.mem_map,
    List.mem_filter, decide_eq_true_eq]
  constructor
  · rintro ⟨b, ⟨q, hq, rfl⟩, hx⟩
    by_cases hside : PrecedesBase group side q ↔ PrecedesBase group side a.2
    · exact .inl ⟨_, ⟨q, ⟨hq, hside⟩, rfl⟩, hx⟩
    · exact .inr ⟨_, ⟨q, ⟨hq, hside⟩, rfl⟩, hx⟩
  · rintro (⟨b, ⟨q, ⟨hq, -⟩, rfl⟩, hx⟩ | ⟨b, ⟨q, ⟨hq, -⟩, rfl⟩, hx⟩)
    · exact ⟨_, ⟨q, hq, rfl⟩, hx⟩
    · exact ⟨_, ⟨q, hq, rfl⟩, hx⟩

/-- What was carried before, on one side of the base and then only on the other. -/
theorem coveredBefore_eq (group : List FlowPacket) (side : Side) (a : List FlowPacket × FlowPacket) :
    coveredBefore a =
      (bytesOf a.2 ∩ bytesOfAll (sameSide group side a)).card + missed group side a := by
  rw [coveredBefore, bytesOfAll_eq_union group side a, missed, ← Finset.card_union_of_disjoint]
  · congr 1
    ext x
    simp only [Finset.mem_inter, Finset.mem_union, Finset.mem_sdiff]
    tauto
  · rw [Finset.disjoint_left]
    intro x hx hx'
    exact (Finset.mem_sdiff.mp hx').2 (Finset.mem_inter.mp hx).2

/-! ## What the sum counts -/

/-- The base of the ranges is the sequence number of one of the packets. -/
theorem exists_payloadBase {group : List FlowPacket} {side : Side} {p : FlowPacket}
    (hp : p ∈ payloadOf group side) :
    ∃ q ∈ payloadOf group side, payloadBase group side = some (q.seq % seqSpace) := by
  rw [payloadBase, initialSequence]
  split
  · next q hq => exact ⟨q, List.mem_of_find?_eq_some hq, rfl⟩
  · cases hfind : (payloadOf group side).find? fun q =>
        q.direction = wanted side.fromClient ∧ 0 < q.length with
    | some q => exact ⟨q, List.mem_of_find?_eq_some hfind, rfl⟩
    | none =>
      have hnone := List.find?_eq_none.mp hfind p hp
      rw [decide_eq_true_eq] at hnone
      rw [← sentPackets_eq_payloadOf] at hp
      exact absurd (mem_sentPackets.mp hp).2 hnone

section

variable {group : List FlowPacket} {side : Side} {start : ℤ}
  (hwindow : ∀ p ∈ payloadOf group side, ArcWithin seqSpace start (arcOf p))
include hwindow

theorem within_payload {p : FlowPacket} (hp : p ∈ payloadOf group side) :
    Within seqSpace start p.seq ∧ 2 * (place seqSpace start p.seq + p.length - 1) < seqSpace := by
  have harc : ArcWithin seqSpace start (p.seq, p.length) := hwindow p hp
  have hpos : 0 < p.length := (of_decide_eq_true (List.mem_filter.mp hp).2).2
  have hfirst := harc 0 hpos
  have hend := place_end (by decide) harc hpos
  rw [Nat.cast_zero, add_zero] at hfirst
  exact ⟨hfirst, hend⟩

theorem within_payloadBase {p : FlowPacket} (hp : p ∈ payloadOf group side) :
    Within seqSpace start ((payloadBase group side).getD 0) := by
  obtain ⟨q, hq, hbase⟩ := exists_payloadBase hp
  have hseq := (within_payload hwindow hq).1
  rwa [hbase, Option.getD_some, Within, place, Int.emod_sub_emod]

/-- How far the range of a packet is moved from its places. -/
theorem sentRange_eq {p : FlowPacket} (hp : p ∈ payloadOf group side) :
    let base := place seqSpace start ((payloadBase group side).getD 0)
    let turn := if PrecedesBase group side p then seqSpace - base else -base
    sentRange (payloadBase group side) p =
      ((places seqSpace start (arcOf p)).1 + turn, (places seqSpace start (arcOf p)).2 + turn) := by
  have hseq := (within_payload hwindow hp).1
  have hbase := within_payloadBase hwindow hp
  have hsub := sub_emod_eq (by decide) hseq hbase
  have hprecedes : PrecedesBase group side p ↔ _ := before_iff (by decide) hseq hbase
  rw [← relative_eq] at hsub
  simp only [sentRange, places, arcOf, hsub, hprecedes]
  split
  · exact Prod.ext (by ring) (by ring)
  · exact Prod.ext (by ring) (by ring)

/-- Packets of one side of the base share the bytes that they have in common. -/
theorem shared_of_same {p q : FlowPacket} (hp : p ∈ payloadOf group side) (hq : q ∈ payloadOf group side)
    (hside : PrecedesBase group side q ↔ PrecedesBase group side p) :
    shared (sentRange (payloadBase group side) p) (sentRange (payloadBase group side) q) =
      (bytesOf p ∩ bytesOf q).card := by
  rw [sentRange_eq hwindow hp, sentRange_eq hwindow hq]
  simp only [hside]
  rw [shared_add]
  exact (card_arc_inter (by decide) (hwindow p hp) (hwindow q hq)).symm

/-- A range that begins before the base is moved past all that begin after it. -/
theorem shared_of_precedes {p q : FlowPacket} (hp : p ∈ payloadOf group side)
    (hq : q ∈ payloadOf group side) (hpre : PrecedesBase group side p)
    (hnot : ¬ PrecedesBase group side q) :
    shared (sentRange (payloadBase group side) q) (sentRange (payloadBase group side) p) = 0 := by
  have hbase : Within seqSpace start ((payloadBase group side).getD 0) :=
    within_payloadBase hwindow hp
  have hend := (within_payload hwindow hq).2
  have hturn : 0 < seqSpace := by decide
  have h0 : 0 ≤ place seqSpace start p.seq := place_nonneg hturn _ _
  unfold Within at hbase
  apply shared_eq_zero
  rw [sentRange_eq hwindow hp, sentRange_eq hwindow hq, if_pos hpre, if_neg hnot]
  simp only [places, arcOf]
  omega

/-- The sum over the earlier packets is that over those of the same side of the base. -/
theorem sharedBefore_eq {a : List FlowPacket × FlowPacket} (ha : a ∈ payloadArrivals group side) :
    sharedBefore (payloadBase group side) a =
      ((sameSide group side a).map fun q => ((bytesOf a.2 ∩ bytesOf q).card : ℤ)).sum := by
  obtain ⟨hlast, hearlier⟩ := mem_of_mem_arrivals ha
  have hmem : ∀ q ∈ a.1, q ∈ payloadOf group side := fun q hq =>
    (hearlier q hq).resolve_left List.not_mem_nil
  have hsplit := List.sum_map_filter_add_sum_map_filter_not
    (fun q => PrecedesBase group side q ↔ PrecedesBase group side a.2)
    (fun q => shared (sentRange (payloadBase group side) a.2) (sentRange (payloadBase group side) q)) a.1
  have hother : ((a.1.filter fun q => ¬ (PrecedesBase group side q ↔ PrecedesBase group side a.2)).map
      fun q => shared (sentRange (payloadBase group side) a.2)
        (sentRange (payloadBase group side) q)).sum = 0 := by
    apply List.sum_eq_zero
    intro x hx
    obtain ⟨q, hq, rfl⟩ := List.mem_map.mp hx
    obtain ⟨hq, hside⟩ := List.mem_filter.mp hq
    have hside := of_decide_eq_true hside
    by_cases hpre : PrecedesBase group side a.2
    · rw [shared_comm]
      exact shared_of_precedes hwindow hlast (hmem q hq) hpre fun h => hside ⟨fun _ => hpre, fun _ => h⟩
    · refine shared_of_precedes hwindow (hmem q hq) hlast ?_ hpre
      by_contra h
      exact hside ⟨fun h' => absurd h' h, fun h' => absurd h' hpre⟩
  have hsame : ((a.1.filter fun q => PrecedesBase group side q ↔ PrecedesBase group side a.2).map
      fun q => shared (sentRange (payloadBase group side) a.2)
        (sentRange (payloadBase group side) q)) =
      (sameSide group side a).map fun q => ((bytesOf a.2 ∩ bytesOf q).card : ℤ) := by
    apply List.map_congr_left
    intro q hq
    obtain ⟨hq, hside⟩ := List.mem_filter.mp hq
    exact shared_of_same hwindow hlast (hmem q hq) (of_decide_eq_true hside)
  rw [hother, hsame, add_zero] at hsplit
  rw [sharedBefore, ← hsplit]

theorem card_bytesOf {p : FlowPacket} (hp : p ∈ payloadOf group side) :
    ((bytesOf p).card : ℤ) = p.length := by
  have hself := card_arc_inter (by decide) (hwindow p hp) (hwindow p hp)
  rw [Finset.inter_self] at hself
  refine hself.trans ?_
  simp only [shared, places, arcOf, max_self, min_self]
  omega

/-- A packet none of whose bytes was carried before shares nothing. -/
theorem sharedBefore_of_uncovered {a : List FlowPacket × FlowPacket}
    (ha : a ∈ payloadArrivals group side) (hnone : coveredBefore a = 0) :
    sharedBefore (payloadBase group side) a = 0 := by
  rw [coveredBefore, Finset.card_eq_zero, ← Finset.disjoint_iff_inter_eq_empty] at hnone
  rw [sharedBefore_eq hwindow ha]
  apply List.sum_eq_zero
  intro x hx
  obtain ⟨q, hq, rfl⟩ := List.mem_map.mp hx
  have hsub : bytesOf q ⊆ bytesOfAll a.1 := by
    intro y hy
    exact mem_arcs.mpr ⟨_, List.mem_map_of_mem (List.mem_of_mem_filter hq), hy⟩
  have hempty := Finset.disjoint_iff_inter_eq_empty.mp (hnone.mono_right hsub)
  rw [hempty, Finset.card_empty, Nat.cast_zero]

/-- A repeat is exact exactly when what is missed of it is made up for. -/
theorem duplicateBytes_exact_iff {a : List FlowPacket × FlowPacket}
    (ha : a ∈ payloadArrivals group side) :
    min (sharedBefore (payloadBase group side) a) a.2.length = (coveredBefore a : ℤ) ↔
      MadeUp group side a := by
  have hlast := (mem_of_mem_arrivals ha).1
  have hcard := card_bytesOf hwindow hlast
  have hcovered : coveredBefore a ≤ (bytesOf a.2).card :=
    Finset.card_le_card Finset.inter_subset_left
  have hwhole : bytesOf a.2 ⊆ bytesOfAll a.1 ↔ coveredBefore a = (bytesOf a.2).card := by
    rw [coveredBefore]
    constructor
    · intro h
      rw [Finset.inter_eq_left.mpr h]
    · intro h
      exact Finset.inter_eq_left.mp (Finset.eq_of_subset_of_card_le Finset.inter_subset_left h.ge)
  have hshared : sharedBefore (payloadBase group side) a =
      (bytesOf a.2 ∩ bytesOfAll (sameSide group side a)).card + countedAgain group side a := by
    rw [sharedBefore_eq hwindow ha, countedAgain]
    ring
  have hsplit := coveredBefore_eq group side a
  have hmade : MadeUp group side a ↔ (missed group side a : ℤ) ≤ countedAgain group side a ∧
      ((missed group side a : ℤ) = countedAgain group side a ∨
        coveredBefore a = (bytesOf a.2).card) := by
    rw [← hwhole]
    exact ⟨fun h => ⟨h.enough, h.exact⟩, fun h => ⟨h.1, h.2⟩⟩
  rw [hmade]
  omega

end

/-! ## The list of repeats -/

/-- Two lists of what has a count, the first leaving out what the second leaves out, are equal exactly
when the counts are. -/
theorem counted_eq_iff {α β : Type} {l : List α} {f g : α → ℤ} {report : α → ℤ → β}
    (hinj : ∀ a x y, report a x = report a y → x = y) (hzero : ∀ a ∈ l, g a = 0 → f a = 0) :
    (l.filter fun a => f a ≠ 0).map (fun a => report a (f a)) =
        (l.filter fun a => g a ≠ 0).map (fun a => report a (g a)) ↔
      ∀ a ∈ l, f a = g a := by
  constructor
  · intro h a ha
    have hkept : (l.filter fun a => f a ≠ 0) = (l.filter fun a => g a ≠ 0).filter fun a => f a ≠ 0 := by
      rw [List.filter_filter]
      apply List.filter_congr
      intro b hb
      rw [eq_comm, Bool.and_eq_left_iff_imp, decide_eq_true_eq, decide_eq_true_eq]
      exact mt (hzero b hb)
    have hlength := congrArg List.length h
    rw [List.length_map, List.length_map, hkept] at hlength
    have hsame : (l.filter fun a => f a ≠ 0) = l.filter fun a => g a ≠ 0 :=
      hkept.trans (List.filter_sublist.eq_of_length hlength)
    rw [hsame] at h
    by_cases hg : g a = 0
    · rw [hg, hzero a ha hg]
    · exact hinj a _ _ (List.map_inj_left.mp h a (List.mem_filter.mpr ⟨ha, decide_eq_true hg⟩))
  · intro h
    have hsame : (l.filter fun a => f a ≠ 0) = l.filter fun a => g a ≠ 0 :=
      List.filter_congr fun a ha => by rw [h a ha]
    rw [hsame]
    apply List.map_congr_left
    intro a ha
    rw [h a (List.mem_of_mem_filter ha)]

/-- The repeat of a packet with some number of repeated bytes. -/
def repeatWith (group : List FlowPacket) (side : Side) (a : List FlowPacket × FlowPacket) (bytes : ℤ) :
    Repeat :=
  { segmentOf group side a.2 with
    repeatBytes := bytes
    newBytes := a.2.length - bytes }

/-- The repeats that the loop lists. -/
theorem repeatsOf_eq (group : List FlowPacket) (side : Side) :
    repeatsOf group side =
      ((payloadArrivals group side).filter fun a =>
        min (sharedBefore (payloadBase group side) a) a.2.length ≠ 0).map fun a =>
          repeatWith group side a (min (sharedBefore (payloadBase group side) a) a.2.length) := by
  have harrivals : arrivals [] (sideSegments group side) =
      (payloadArrivals group side).map fun a =>
        (a.1.map (segmentOf group side), segmentOf group side a.2) := arrivals_map _ [] _
  rw [repeatsOf, firstTransmissions, splitRepeats_eq, harrivals]
  simp only [List.filter_map, List.map_map, Function.comp_def, duplicateBytes_segmentOf, repeatOf]
  rfl

/-- THE REPEATS ARE EXACT, in a half turn of the sequence space, exactly when for every segment what is
missed across the base is made up for by what is counted again. -/
theorem repeats_exact_iff {group : List FlowPacket} {side : Side} {start : ℤ}
    (hwindow : ∀ p ∈ payloadOf group side, ArcWithin seqSpace start (arcOf p)) :
    (firstTransmissions (sideSegments group side)).2 = exactRepeats group side ↔
      ∀ a ∈ payloadArrivals group side, MadeUp group side a := by
  have hzero : ∀ a ∈ payloadArrivals group side, (coveredBefore a : ℤ) = 0 →
      min (sharedBefore (payloadBase group side) a) (a.2.length : ℤ) = 0 := by
    intro a ha hnone
    have hsum := sharedBefore_of_uncovered hwindow ha (Int.natCast_eq_zero.mp hnone)
    omega
  have hexact : exactRepeats group side =
      ((payloadArrivals group side).filter fun a => (coveredBefore a : ℤ) ≠ 0).map fun a =>
        repeatWith group side a (coveredBefore a) := by
    rw [exactRepeats]
    simp only [Ne, Int.natCast_eq_zero]
    rfl
  have hrepeats := repeatsOf_eq group side
  rw [repeatsOf] at hrepeats
  rw [hrepeats, hexact, counted_eq_iff (fun a x y h => congrArg Repeat.repeatBytes h) hzero]
  apply forall_congr'
  intro a
  apply forall_congr'
  intro ha
  exact duplicateBytes_exact_iff hwindow ha

/-- Ten bytes twice, then ten of which five are new. -/
def twiceCovered : List FlowPacket :=
  [ { plainAck with length := 10, ts := some 1, timeMs := 0, direction := .out },
    { plainAck with frame := 2, length := 10, ts := some 2, timeMs := 1000, direction := .out },
    { plainAck with frame := 3, seq := 1005, length := 10, ts := some 3, timeMs := 2000,
                    direction := .out } ]

/-- Five bytes of the third record were carried twice before: all ten count as repeated. -/
theorem twiceCovered_overcounted :
    (∀ p ∈ payloadOf twiceCovered .client, ArcWithin seqSpace 1000 (arcOf p)) ∧
      (firstTransmissions (sideSegments twiceCovered .client)).2.map
        (fun r => (r.frame, r.repeatBytes, r.newBytes)) = [(2, 10, 0), (3, 10, 0)] ∧
      (exactRepeats twiceCovered .client).map
        (fun r => (r.frame, r.repeatBytes, r.newBytes)) = [(2, 10, 0), (3, 5, 5)] ∧
      (firstTransmissions (sideSegments twiceCovered .client)).2 ≠ exactRepeats twiceCovered .client := by
  refine ⟨?_, by decide +kernel, by decide +kernel, by decide +kernel⟩
  intro p hp
  revert p
  decide +kernel

/-- The five bytes that a partial repeat carries again are listed as repeated, and no more. -/
theorem repeats_exact_iff_partial :
    (firstTransmissions (sideSegments partialRepeat .client)).2 = exactRepeats partialRepeat .client ∧
      (exactRepeats partialRepeat .client).map
        (fun r => (r.frame, r.repeatBytes, r.newBytes)) = [(2, 5, 5)] := by
  have hwindow : ∀ p ∈ payloadOf partialRepeat .client, ArcWithin seqSpace 1000 (arcOf p) := by
    intro p hp
    revert p
    decide +kernel
  have hmade : ∀ a ∈ payloadArrivals partialRepeat .client, MadeUp partialRepeat .client a := by
    intro a ha
    revert a
    decide +kernel
  exact ⟨(repeats_exact_iff hwindow).mpr hmade, by decide +kernel⟩

end PacketTrain.Analysis
