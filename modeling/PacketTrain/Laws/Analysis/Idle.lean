import PacketTrain.Analysis.Idle
import PacketTrain.Laws.Analysis.Detail
import PacketTrain.Laws.Analysis.Outstanding
import PacketTrain.Lib.Serial

/-!
# What smart skip preserves

`_gap_reason` looks at the packets of one gap, its two ends and what shares their times, and at the
points of the outstanding series between them. The series has a point only where an acknowledgement
was captured. `gapReason_iff` says which gaps are preserved; `smart_preserves_waits_iff` says what this
means for a wait: payload that is open across a gap is seen only if an acknowledgement at one end of
the gap leaves something open, or another rule preserves the gap. A wait is told in serial order, on the
circle of sequence numbers; the classifier measures both numbers from the direction's base.
-/

namespace PacketTrain.Analysis

/-- What the classifier takes for transport activity: in the gap, its ends included, a window is closed,
or there is a retransmission, or a SYN without a SYN-ACK, or an acknowledgement that leaves payload
open. -/
def Explained (packets : List FlowPacket) (before after : FlowPacket) : Prop :=
  let window := gapWindow packets before after
  (∃ p ∈ window, p.windowPresent = true ∧ p.window = 0) ∨
    (∃ p ∈ window, p.retrans = true) ∨
    ((∃ p ∈ window, p.syn = true ∧ p.ackFlag = false) ∧
      ∀ p ∈ window, p.syn = true → p.ackFlag = false) ∨
    ∃ fromClient, ∃ ack ∈ window, Acknowledges fromClient ack ∧
      LeavesOpen packets fromClient (sequenceBase packets fromClient) ack

/-! ## The classifier -/

@[simp] theorem mem_gapWindow {packets : List FlowPacket} {before after p : FlowPacket} :
    p ∈ gapWindow packets before after ↔
      p ∈ packets ∧ before.timeMs ≤ p.timeMs ∧ p.timeMs ≤ after.timeMs := by
  rw [gapWindow, List.mem_filter, decide_eq_true_eq]

theorem mem_gapWindow_sortOn {packets : List FlowPacket} {before after p : FlowPacket} :
    p ∈ gapWindow (sortOn FlowPacket.timeMs packets) before after ↔
      p ∈ gapWindow packets before after := by
  rw [mem_gapWindow, mem_gapWindow, mem_sortOn]

/-- A point within a gap is an acknowledgement within it. -/
theorem outstandingWithin_iff {packets : List FlowPacket} {before after : FlowPacket} :
    outstandingWithin (outstandingBytes (sortOn FlowPacket.timeMs packets)) before.timeMs
        after.timeMs = true ↔
      ∃ fromClient, ∃ ack ∈ gapWindow packets before after, Acknowledges fromClient ack ∧
        LeavesOpen packets fromClient (sequenceBase packets fromClient) ack := by
  simp only [outstandingWithin, List.any_eq_true, decide_eq_true_eq]
  constructor
  · rintro ⟨pt, hpt, hlo, hhi, hpos⟩
    obtain ⟨fromClient, ack, hack, htime, hacks, hopen⟩ :=
      outstanding_pos_iff.mp ⟨pt, hpt, rfl, hpos⟩
    rw [← htime] at hlo hhi
    refine ⟨fromClient, ack, mem_gapWindow.mpr ⟨mem_sortOn.mp hack, hlo, hhi⟩, hacks, ?_⟩
    obtain ⟨p, hp, hspec⟩ := hopen
    exact ⟨p, mem_sortOn.mp hp, hspec⟩
  · rintro ⟨fromClient, ack, hack, hacks, p, hp, hspec⟩
    obtain ⟨hmem, hlo, hhi⟩ := mem_gapWindow.mp hack
    obtain ⟨pt, hpt, htime, hpos⟩ := outstanding_pos_iff.mpr
      ⟨fromClient, ack, mem_sortOn.mpr hmem, rfl, hacks, p, mem_sortOn.mpr hp, hspec⟩
    rw [← htime] at hlo hhi
    exact ⟨pt, hpt, hlo, hhi, hpos⟩

/-- THE CLASSIFIER preserves a gap exactly when something explains it. -/
theorem gapReason_iff {packets : List FlowPacket} {before after : FlowPacket}
    (hbefore : before ∈ packets) (hle : before.timeMs ≤ after.timeMs) :
    (gapReason (sortOn FlowPacket.timeMs packets) before after
      (outstandingBytes (sortOn FlowPacket.timeMs packets))).1 = false ↔
        Explained packets before after := by
  have hne : (gapWindow (sortOn FlowPacket.timeMs packets) before after).isEmpty = false := by
    rw [List.isEmpty_eq_false_iff]
    exact List.ne_nil_of_mem (mem_gapWindow_sortOn.mpr (mem_gapWindow.mpr ⟨hbefore, le_rfl, hle⟩))
  have hany : ∀ q : FlowPacket → Bool,
      (gapWindow (sortOn FlowPacket.timeMs packets) before after).any q = true ↔
        ∃ p ∈ gapWindow packets before after, q p = true := by
    intro q
    simp only [List.any_eq_true, mem_gapWindow_sortOn]
  have hsynAck : (gapWindow (sortOn FlowPacket.timeMs packets) before after).any
      (fun p => p.syn ∧ p.ackFlag) = false ↔
        ∀ p ∈ gapWindow packets before after, p.syn = true → p.ackFlag = false := by
    rw [← Bool.not_eq_true, hany]
    simp
  rw [gapReason]
  simp only [hne, Bool.false_eq_true, if_false, hany, hsynAck, decide_eq_true_eq,
    Bool.not_eq_true']
  split_ifs with hzero hretrans hretry hopen
  · exact iff_of_true rfl (.inl hzero)
  · exact iff_of_true rfl (.inr (.inl hretrans))
  · exact iff_of_true rfl (.inr (.inr (.inl hretry)))
  · exact iff_of_true rfl (.inr (.inr (.inr (outstandingWithin_iff.mp hopen))))
  · apply iff_of_false (by decide)
    rintro (h | h | h | h)
    · exact hzero h
    · exact hretrans h
    · exact hretry h
    · exact hopen (outstandingWithin_iff.mpr h)

/-! ## The gaps of smart mode -/

theorem mem_laterPairs {packets : List FlowPacket} {before after : FlowPacket}
    (h : (before, after) ∈ laterPairs packets) :
    before ∈ packets ∧ after ∈ packets ∧ before.timeMs < after.timeMs := by
  obtain ⟨hadjacent, hlater⟩ := List.mem_filter.mp h
  obtain ⟨hbefore, hafter⟩ := mem_of_adjacent hadjacent
  have hpos : 0 < (after.timeMs - before.timeMs) / 1000 := of_decide_eq_true hlater
  refine ⟨mem_sortOn.mp hbefore, mem_sortOn.mp hafter, ?_⟩
  linarith

/-- The entry of two neighbours in the analysis of a stream. -/
def gapBetween (packets : List FlowPacket) (mode : Mode) (speed trigger : ℚ)
    (ab : FlowPacket × FlowPacket) : Gap :=
  gapOf mode speed trigger (sortOn FlowPacket.timeMs packets)
    (if mode = .faithful then [] else outstandingBytes (sortOn FlowPacket.timeMs packets)) ab.1 ab.2

theorem laterPairs_of_short {packets : List FlowPacket}
    (h : (sortOn FlowPacket.timeMs packets).length < 2) : laterPairs packets = [] := by
  rw [laterPairs, adjacent]
  generalize sortOn FlowPacket.timeMs packets = sorted at h
  cases sorted with
  | nil => rfl
  | cons a rest =>
    have hrest : rest = [] := by
      apply List.length_eq_zero_iff.mp
      rw [List.length_cons] at h
      omega
    rw [hrest]
    rfl

/-- There is one entry for each later neighbour, in order. -/
theorem analyzeGaps_gaps (packets : List FlowPacket) (mode : Mode) (speed trigger : ℚ) :
    (analyzeGaps packets mode speed trigger).gaps =
      (laterPairs packets).map (gapBetween packets mode speed trigger) := by
  rw [analyzeGaps]
  by_cases hshort : (sortOn FlowPacket.timeMs packets).length < 2
  · simp only [if_pos hshort, laterPairs_of_short hshort, List.map_nil]
  · simp only [if_neg hshort]
    rfl

/-- A gap in smart mode is preserved with no label, or compressible, and then labelled when the replay
reaches the trigger. -/
theorem gapOf_smart {packets : List FlowPacket} {before after : FlowPacket} (speed trigger : ℚ)
    (h : (before, after) ∈ laterPairs packets) :
    let g := gapBetween packets .smart speed trigger (before, after)
    (g.compressible = false ↔ Explained packets before after) ∧
      (g.label = none ↔ Explained packets before after ∨ playbackS speed before after < trigger) := by
  obtain ⟨hbefore, -, hlt⟩ := mem_laterPairs h
  have hreason := gapReason_iff hbefore hlt.le
  refine ⟨hreason, ?_⟩
  rw [← hreason]
  simp only [gapBetween, gapOf, gapLabel, reduceCtorEq, if_false]
  cases (gapReason (sortOn FlowPacket.timeMs packets) before after
    (outstandingBytes (sortOn FlowPacket.timeMs packets))).1 with
  | false => simp
  | true => by_cases hshort : playbackS speed before after < trigger <;> simp [hshort]

/-! ## Waits -/

/-- A cumulative acknowledgement of the peer past a sequence number: the number comes before the
acknowledged one on the circle, whatever numbers the direction started from. -/
def Covers (fromClient : Bool) (number : ℤ) (ack : FlowPacket) : Prop :=
  ack.direction = wanted (!fromClient) ∧ ack.ackFlag = true ∧ Serial.before seqSpace number ack.ack

instance (fromClient : Bool) (number : ℤ) (ack : FlowPacket) :
    Decidable (Covers fromClient number ack) :=
  inferInstanceAs (Decidable (_ ∧ _))

/-- Some payload byte sent by `before` is covered by no acknowledgement captured by then, and the first
one that covers it comes at `after` or later. -/
def UnackedAcross (packets : List FlowPacket) (before after : FlowPacket) : Prop :=
  ∃ fromClient, ∃ p ∈ packets, SendsPayload fromClient p ∧ p.timeMs ≤ before.timeMs ∧
    ∃ i : ℕ, i < p.length ∧
      (∀ ack ∈ packets, ack.timeMs ≤ before.timeMs → ¬ Covers fromClient (p.seq + i) ack) ∧
      ∃ first ∈ packets, Covers fromClient (p.seq + i) first ∧ after.timeMs ≤ first.timeMs ∧
        ∀ ack ∈ packets, Covers fromClient (p.seq + i) ack → first.timeMs ≤ ack.timeMs

/-- Smart skip compresses no gap that unacknowledged payload spans. -/
def WaitsPreserved (packets : List FlowPacket) (speed : ℚ) : Prop :=
  ∀ (i : ℕ) (before after : FlowPacket), (laterPairs packets)[i]? = some (before, after) →
    UnackedAcross packets before after →
    ∃ g : Gap, (analyzeGaps packets .smart speed playbackTriggerS).gaps[i]? = some g ∧
      g.compressible = false ∧ g.label = none

/-- At every speed, smart skip preserves the waits of a stream exactly when something at the ends of
each of them explains it. -/
theorem smart_preserves_waits_iff (packets : List FlowPacket) (speed : ℚ) :
    WaitsPreserved packets speed ↔ ∀ before after, (before, after) ∈ laterPairs packets →
      UnackedAcross packets before after → Explained packets before after := by
  have hgap : ∀ (i : ℕ) (before after : FlowPacket), (laterPairs packets)[i]? = some (before, after) →
      (analyzeGaps packets .smart speed playbackTriggerS).gaps[i]? =
        some (gapBetween packets .smart speed playbackTriggerS (before, after)) := by
    intro i before after h
    rw [analyzeGaps_gaps, List.getElem?_map, h]
    rfl
  constructor
  · intro hpreserved before after hmem hwait
    obtain ⟨i, hi⟩ := List.getElem?_of_mem hmem
    obtain ⟨g, hg, hcompressible, -⟩ := hpreserved i before after hi hwait
    rw [hgap i before after hi] at hg
    obtain rfl := Option.some.inj hg
    exact (gapOf_smart speed playbackTriggerS hmem).1.mp hcompressible
  · intro hexplained i before after hi hwait
    have hmem := List.mem_of_getElem? hi
    have hexplain := hexplained before after hmem hwait
    obtain ⟨hcompressible, hlabel⟩ := gapOf_smart speed playbackTriggerS hmem
    exact ⟨_, hgap i before after hi, hcompressible.mpr hexplain, hlabel.mpr (.inl hexplain)⟩

/-- Payload of the client at time zero. -/
def sentAtZero : FlowPacket :=
  { plainAck with length := 100, ts := none, timeMs := 0, direction := .out }

/-- The acknowledgement of all of it. -/
def ackedAt (timeMs : ℚ) : FlowPacket :=
  { serverAck with frame := 2, ack := 1100, ts := none, timeMs := timeMs, direction := .in_ }

/-- Payload waits ten seconds for its acknowledgement. The series has its only point at the
acknowledgement, where nothing is open any more, and the wait is compressed as idle. -/
theorem wait_compressed :
    laterPairs [sentAtZero, ackedAt 10000] = [(sentAtZero, ackedAt 10000)] ∧
    UnackedAcross [sentAtZero, ackedAt 10000] sentAtZero (ackedAt 10000) ∧
    (analyzeGaps [sentAtZero, ackedAt 10000] .smart 1 playbackTriggerS).gaps.map
      (fun g => (g.compressible, g.label)) = [(true, some "Idle interval compressed · 10.0 s")] ∧
    ¬ WaitsPreserved [sentAtZero, ackedAt 10000] 1 := by
  have hpairs : laterPairs [sentAtZero, ackedAt 10000] = [(sentAtZero, ackedAt 10000)] := by
    decide +kernel
  have hgaps : (analyzeGaps [sentAtZero, ackedAt 10000] .smart 1 playbackTriggerS).gaps.map
      (fun g => (g.compressible, g.label)) = [(true, some "Idle interval compressed · 10.0 s")] := by
    decide +kernel
  have hwait : UnackedAcross [sentAtZero, ackedAt 10000] sentAtZero (ackedAt 10000) := by
    refine ⟨true, sentAtZero, List.mem_cons_self, by decide, le_rfl, 0, by decide, ?_, ackedAt 10000,
      by decide, by decide, le_rfl, ?_⟩
    · decide +kernel
    · decide +kernel
  refine ⟨hpairs, hwait, hgaps, fun hpreserved => ?_⟩
  obtain ⟨g, hg, hcompressible, -⟩ := hpreserved 0 sentAtZero (ackedAt 10000)
    (by rw [hpairs]; rfl) hwait
  have hmapped := congrArg (fun l => l[0]?) hgaps
  simp only [List.getElem?_map, hg, Option.map_some] at hmapped
  rw [hcompressible] at hmapped
  cases hmapped

end PacketTrain.Analysis
