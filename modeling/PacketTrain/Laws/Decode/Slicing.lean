import Mathlib.Algebra.Order.BigOperators.Group.List
import Mathlib.Data.List.Dedup
import PacketTrain.Laws.Decode.Rows
import PacketTrain.Lib.Ledger

/-!
# The two slicing reports

The flow page takes its slicing report from the decoded packets of one stream, `/api/slicing` from a
print-out of the two lengths alone. `slicing_agrees` says that they are one report of the same packets, and
that the reports of a capture's streams add up to the report of the capture. What it reports is sound
(`SlicingSound`): no more frames are sliced than there are, bytes are lost exactly when a frame is sliced,
and there is advice exactly then.
-/

namespace PacketTrain.Decode

open Lines Strings

/-- The columns that `/api/slicing` asks for. -/
def lengthColumns : List Field := [.frameLen, .capLen]

/-- The bytes that a packet was cut by. -/
def DecodedPacket.lost (p : DecodedPacket) : ℤ := p.frameLength - p.capLength

/-- The lengths say whether a packet is sliced. -/
def DecodedPacket.Measured (p : DecodedPacket) : Prop :=
  p.sliced = true ↔ 0 < p.capLength ∧ p.capLength < p.frameLength

theorem parseRow_lengths {row : Row} {p : DecodedPacket} (h : parseRow row = some p) :
    p.Measured ∧ p.frameLength = num (row .frameLen) ∧ p.capLength = num (row .capLen) := by
  unfold parseRow at h
  split at h
  · cases h
  · split at h
    · cases h
    · cases h
      exact ⟨by simp [DecodedPacket.Measured, decodedPacket], rfl, rfl⟩

/-- A line of the two lengths is counted as its packet is. -/
theorem countLine_row {row : Row} (hclean : ∀ f, Clean (row f)) {p : DecodedPacket}
    (hp : parseRow row = some p) (count : SlicingCount) :
    countLine count (printColumns lengthColumns row) =
      ⟨count.total + 1, count.sliced + (if p.sliced then 1 else 0),
        count.lost + (if p.sliced then p.lost else 0)⟩ := by
  obtain ⟨hmeasured, hframe, hcap⟩ := parseRow_lengths hp
  rw [DecodedPacket.Measured, hframe, hcap] at hmeasured
  rw [countLine, split_printColumns (by decide) fun f _ => hclean f]
  show (if 0 < num (row .capLen) ∧ num (row .capLen) < num (row .frameLen) then _ else _) = _
  rw [DecodedPacket.lost, hframe, hcap]
  by_cases hsliced : p.sliced = true
  · rw [if_pos (hmeasured.mp hsliced), if_pos hsliced, if_pos hsliced]
  · rw [if_neg fun h => hsliced (hmeasured.mpr h), if_neg hsliced, if_neg hsliced, Int.add_zero]
    rfl

/-- The count over some packets. -/
def countPackets (packets : List DecodedPacket) : SlicingCount :=
  ⟨packets.length, (packets.filter (·.sliced)).length,
    ((packets.filter (·.sliced)).map DecodedPacket.lost).sum⟩

theorem foldl_countLine {rows : List Row} (hclean : ∀ row ∈ rows, ∀ f, Clean (row f))
    (hread : ∀ row ∈ rows, (parseRow row).isSome) (count : SlicingCount) :
    (rows.map (printColumns lengthColumns)).foldl countLine count =
      ⟨count.total + (countPackets (rows.filterMap parseRow)).total,
        count.sliced + (countPackets (rows.filterMap parseRow)).sliced,
        count.lost + (countPackets (rows.filterMap parseRow)).lost⟩ := by
  induction rows generalizing count with
  | nil => simp [countPackets]
  | cons row rows ih =>
    obtain ⟨p, hp⟩ := Option.isSome_iff_exists.mp (hread row List.mem_cons_self)
    rw [List.map_cons, List.foldl_cons, countLine_row (hclean row List.mem_cons_self) hp,
      ih (fun r hr => hclean r (List.mem_cons_of_mem _ hr))
        (fun r hr => hread r (List.mem_cons_of_mem _ hr)), List.filterMap_cons_some hp]
    cases hsliced : p.sliced <;> simp [countPackets, hsliced] <;> omega

/-- The report of a count. -/
def SlicingCount.report (count : SlicingCount) : SlicingReport :=
  let fraction : ℚ := if count.total = 0 then 0 else count.sliced / count.total
  { sliced := count.sliced ≠ 0
    total := count.total
    slicedFrames := count.sliced
    lostBytes := count.lost
    slicedFraction := roundTo 4 fraction
    advice :=
      if count.sliced ≠ 0 ∧ 1 / 2 ≤ fraction then some heavyAdvice
      else if count.sliced ≠ 0 then some someAdvice
      else none }

/-- The report of some packets is that of their count. -/
theorem slicingReport_eq (packets : List DecodedPacket) :
    slicingReport packets = (countPackets packets).report := by
  by_cases hnil : packets = []
  · subst hnil
    have hzero : roundTo 4 0 = 0 := (roundTo_eq_zero_iff 4 0).mpr (by norm_num)
    simp [slicingReport, SlicingCount.report, countPackets, hzero]
  · have hlength : packets.length ≠ 0 := fun h => hnil (List.length_eq_zero_iff.mp h)
    rw [slicingReport, if_neg hnil]
    unfold SlicingCount.report countPackets
    simp only [if_neg hlength]
    by_cases hsliced : packets.filter (·.sliced) = []
    · simp [hsliced]
    · have hcount : (packets.filter (·.sliced)).length ≠ 0 :=
        fun h => hsliced (List.length_eq_zero_iff.mp h)
      simp only [ne_eq, hcount, hsliced, not_false_eq_true, true_and, if_true]
      rfl

/-! ## The law -/

/-- What a report of slicing may say. -/
structure SlicingSound (report : SlicingReport) : Prop where
  frames : report.slicedFrames ≤ report.total
  share : 0 ≤ report.slicedFraction ∧ report.slicedFraction ≤ 1
  /-- A sliced frame has lost a byte at least. -/
  lost : (report.slicedFrames : ℤ) ≤ report.lostBytes
  sliced : report.sliced = true ↔ 0 < report.lostBytes
  advised : report.advice.isSome = report.sliced

theorem SlicingCount.sound {count : SlicingCount} (hframes : count.sliced ≤ count.total)
    (hlost : (count.sliced : ℤ) ≤ count.lost) (hnone : count.sliced = 0 → count.lost = 0) :
    SlicingSound count.report where
  frames := hframes
  share := by
    refine roundTo_share 4 ?_ ?_
    · split
      · exact le_rfl
      · positivity
    · split
      · exact zero_le_one
      · next htotal =>
        have hpos : (0 : ℚ) < count.total := by exact_mod_cast Nat.pos_of_ne_zero htotal
        rw [div_le_one hpos]
        exact_mod_cast hframes
  lost := hlost
  sliced := by
    show decide (count.sliced ≠ 0) = true ↔ 0 < count.lost
    rw [decide_eq_true_eq]
    constructor
    · intro hne
      omega
    · intro hpos hzero
      have := hnone hzero
      omega
  advised := by
    show (if count.sliced ≠ 0 ∧ _ then some heavyAdvice else _).isSome = decide (count.sliced ≠ 0)
    by_cases hsliced : count.sliced = 0
    · simp [hsliced]
    · simp only [ne_eq, hsliced, not_false_eq_true, true_and, if_true, decide_true]
      split <;> split <;> rfl

theorem countPackets_sound {packets : List DecodedPacket} (h : ∀ p ∈ packets, p.Measured) :
    SlicingSound (countPackets packets).report := by
  refine SlicingCount.sound (List.length_filter_le _ _) ?_ fun hzero => ?_
  · have hone : ∀ p ∈ packets.filter (·.sliced), 1 ≤ p.lost := by
      intro p hp
      obtain ⟨hmem, hsliced⟩ := List.mem_filter.mp hp
      have hlengths := (h p hmem).mp hsliced
      rw [DecodedPacket.lost]
      omega
    have hsum := List.card_nsmul_le_sum ((packets.filter (·.sliced)).map DecodedPacket.lost) 1
      (by rintro x hx; obtain ⟨p, hp, rfl⟩ := List.mem_map.mp hx; exact hone p hp)
    simpa [countPackets] using hsum
  · have hnil : packets.filter (·.sliced) = [] := List.length_eq_zero_iff.mp hzero
    simp [countPackets, hnil]

/-! ### The streams of a capture -/

/-- The packets of one stream, and what the flow page reports of them. -/
def streamReport (packets : List DecodedPacket) (stream : ℤ) : SlicingReport :=
  slicingReport (packets.filter fun p => p.stream = stream)

theorem covers_streams (packets : List DecodedPacket) :
    Ledger.Covers (fun p : DecodedPacket => some p.stream) packets (packets.map (·.stream)).dedup where
  nodup := List.nodup_dedup _
  all p hp k hk := by
    cases hk
    exact List.mem_dedup.mpr (List.mem_map_of_mem hp)

/-- An amount summed stream by stream is the amount summed over the capture. -/
theorem sum_streams {M : Type} [AddCommMonoid M] (amount : DecodedPacket → M)
    (packets : List DecodedPacket) :
    ((packets.map (·.stream)).dedup.map fun stream =>
      ((packets.filter fun p => p.stream = stream).map amount).sum).sum = (packets.map amount).sum := by
  have hsum := Ledger.sum_postedTo (covers_streams packets) amount
  have hposted : Ledger.posted (fun p : DecodedPacket => some p.stream) packets = packets :=
    List.filter_eq_self.mpr fun _ _ => rfl
  rw [hposted] at hsum
  rw [← hsum]
  refine congrArg List.sum (List.map_congr_left fun stream _ => ?_)
  simp only [Ledger.postedTo, Option.some.injEq]

/-- The counters of a count, as sums over the packets. -/
theorem countPackets_sums (packets : List DecodedPacket) :
    (countPackets packets).total = (packets.map fun _ => 1).sum ∧
      (countPackets packets).sliced = (packets.map fun p => if p.sliced then 1 else 0).sum ∧
      (countPackets packets).lost = (packets.map fun p => if p.sliced then p.lost else 0).sum := by
  induction packets with
  | nil => exact ⟨rfl, rfl, rfl⟩
  | cons p packets ih =>
    obtain ⟨htotal, hsliced, hlost⟩ := ih
    simp only [List.map_cons, List.sum_cons, ← htotal, ← hsliced, ← hlost]
    cases h : p.sliced <;> simp [countPackets, h] <;> omega

/-- The reports of the streams add up to the report of the capture. -/
structure AddsUp (packets : List DecodedPacket) (report : SlicingReport) : Prop where
  total : ((packets.map (·.stream)).dedup.map fun s => (streamReport packets s).total).sum = report.total
  frames : ((packets.map (·.stream)).dedup.map fun s => (streamReport packets s).slicedFrames).sum =
    report.slicedFrames
  lost : ((packets.map (·.stream)).dedup.map fun s => (streamReport packets s).lostBytes).sum =
    report.lostBytes

theorem addsUp_slicingReport (packets : List DecodedPacket) :
    AddsUp packets (slicingReport packets) := by
  have hstream : ∀ s, streamReport packets s =
      (countPackets (packets.filter fun p => p.stream = s)).report := fun s => slicingReport_eq _
  obtain ⟨htotal, hsliced, hlost⟩ := countPackets_sums packets
  refine ⟨?_, ?_, ?_⟩
  · simp only [hstream, slicingReport_eq, SlicingCount.report]
    rw [htotal, ← sum_streams]
    exact congrArg List.sum (List.map_congr_left fun s _ => (countPackets_sums _).1)
  · simp only [hstream, slicingReport_eq, SlicingCount.report]
    rw [hsliced, ← sum_streams]
    exact congrArg List.sum (List.map_congr_left fun s _ => (countPackets_sums _).2.1)
  · simp only [hstream, slicingReport_eq, SlicingCount.report]
    rw [hlost, ← sum_streams]
    exact congrArg List.sum (List.map_congr_left fun s _ => (countPackets_sums _).2.2)

/-- THE SLICING REPORTS AGREE on every capture whose rows have a time and a stream: `/api/slicing` reports
what the decoded packets do, soundly, and the flow pages of its streams add up to it. -/
theorem slicing_agrees {rows : List Row} (hclean : ∀ row ∈ rows, ∀ f, Clean (row f))
    (hread : ∀ row ∈ rows, (parseRow row).isSome) :
    let report := slicingOf (printLines (rows.map (printColumns lengthColumns)))
    let packets := parseRows (splitlines (printLines (rows.map printRow)))
    report = slicingReport packets ∧ SlicingSound report ∧ AddsUp packets report := by
  have hlines : splitlines (printLines (rows.map (printColumns lengthColumns))) =
      rows.map (printColumns lengthColumns) := by
    refine splitlines_printLines fun line hline => ?_
    obtain ⟨row, hrow, rfl⟩ := List.mem_map.mp hline
    exact no_break_printColumns fun f _ => hclean row hrow f
  have hcount : slicingOf (printLines (rows.map (printColumns lengthColumns))) =
      slicingReport (rows.filterMap parseRow) := by
    have hfold := foldl_countLine hclean hread ⟨0, 0, 0⟩
    simp only [Nat.zero_add, Int.zero_add] at hfold
    show SlicingCount.report ((splitlines _).foldl countLine ⟨0, 0, 0⟩) = _
    rw [hlines, hfold, slicingReport_eq]
  have hmeasured : ∀ p ∈ rows.filterMap parseRow, p.Measured := by
    intro p hp
    obtain ⟨row, -, hrow⟩ := List.mem_filterMap.mp hp
    exact (parseRow_lengths hrow).1
  dsimp only
  rw [hcount, splitlines_printRows hclean, parseRows_printRows hclean]
  refine ⟨rfl, ?_, addsUp_slicingReport _⟩
  rw [slicingReport_eq]
  exact countPackets_sound hmeasured

/-- A bare ACK between two hosts, of some length on the wire and in the capture. -/
def bareSegment (frameLen capLen : ℕ) : Segment where
  frame := 1
  time := ⟨1700000000, 5⟩
  stream := 0
  addresses := .ipv4 ⟨"10.0.0.1".toList, by decide⟩ ⟨"10.0.0.2".toList, by decide⟩ 64
  sport := 40000
  dport := 443
  seq := 1
  ack := 1
  len := 0
  frameLen := frameLen
  capLen := capLen
  flags := 0x10
  retransmission := ⟨[], clean_nil⟩
  fastRetransmission := ⟨[], clean_nil⟩
  spuriousRetransmission := ⟨[], clean_nil⟩
  duplicateAck := ⟨[], clean_nil⟩
  sackLe := none
  window := some 502
  ackRtt := none
  mss := none
  handshakeType := ⟨[], clean_nil⟩
  contentType := ⟨[], clean_nil⟩
  serverName := ⟨[], clean_nil⟩
  alpn := ⟨[], clean_nil⟩
  handshakeVersion := ⟨[], clean_nil⟩
  wscale := none
  sackPerm := ⟨[], clean_nil⟩
  tsval := none
  options := ⟨[], clean_nil⟩

/-- The law at work: one frame of two is stored without its last forty bytes. -/
theorem slicing_agrees_half :
    let rows := [(bareSegment 100 60).row, (bareSegment 60 60).row]
    let report := slicingOf (printLines (rows.map (printColumns lengthColumns)))
    let packets := parseRows (splitlines (printLines (rows.map printRow)))
    report = ⟨true, 2, 1, 40, 1 / 2, some heavyAdvice⟩ ∧ report = slicingReport packets ∧
      SlicingSound report ∧ AddsUp packets report := by
  refine ⟨by decide +kernel, slicing_agrees ?_ ?_⟩
  · intro row hrow
    simp only [List.mem_cons, List.not_mem_nil, or_false] at hrow
    rcases hrow with rfl | rfl
    · exact (bareSegment 100 60).clean
    · exact (bareSegment 60 60).clean
  · intro row hrow
    simp only [List.mem_cons, List.not_mem_nil, or_false] at hrow
    rcases hrow with rfl | rfl
    · rw [parseRow_row, Option.isSome_some]
    · rw [parseRow_row, Option.isSome_some]

end PacketTrain.Decode
