import PacketTrain.Laws.Analysis.Detail

/-!
# Round-trip times without capture times

`stream_detail` drops the capture times before it calls `rtt_distribution`. The silence before a packet
is then unknown, and no sample is rejected for it. `rttDistribution_dropTs_iff` says when nothing is
lost: when no sample that passes the earlier tests follows a silence.
-/

namespace PacketTrain.Analysis

/-- The packet was captured more than `IDLE_GAP_MS` after the one before it. -/
def Late (previous p : FlowPacket) : Prop := ∃ gap ∈ gapMs previous.ts p.ts, idleGapMs < gap

/-- The packet has an RTT sample, and is neither a retransmission nor sliced. -/
def Usable (p : FlowPacket) : Prop := 0 < p.ackRttMs ∧ p.retrans = false ∧ p.sliced = false

/-- No usable sample follows a silence. -/
def NoLateSample (group : List FlowPacket) : Prop :=
  ∀ ab ∈ adjacent group, Late ab.1 ab.2 → ¬ Usable ab.2

instance (previous p : FlowPacket) : Decidable (Late previous p) :=
  inferInstanceAs (Decidable (∃ gap ∈ gapMs previous.ts p.ts, idleGapMs < gap))

instance (p : FlowPacket) : Decidable (Usable p) :=
  inferInstanceAs (Decidable (_ ∧ _))

instance (group : List FlowPacket) : Decidable (NoLateSample group) :=
  inferInstanceAs (Decidable (∀ ab ∈ adjacent group, Late ab.1 ab.2 → ¬ Usable ab.2))

/-! ## What a packet contributes -/

/-- There is no silence before the first capture time. -/
theorem gapMs_none (ts : Option ℚ) : ¬ ∃ gap ∈ gapMs none ts, idleGapMs < gap := by
  cases ts <;> exact fun ⟨_, hgap, _⟩ => nomatch hgap

/-- A packet with no known silence before it. -/
theorem sampleOf_of_not_late {previous : Option ℚ} {p : FlowPacket}
    (h : ¬ ∃ gap ∈ gapMs previous p.ts, idleGapMs < gap) : sampleOf previous p = sampleOf none p := by
  rw [sampleOf, sampleOf, if_neg h, if_neg (gapMs_none p.ts)]

theorem sampleOf_none_ne (p : FlowPacket) : sampleOf none p ≠ .idleGap := by
  rw [sampleOf, if_neg (gapMs_none p.ts)]
  split_ifs <;> exact fun h => nomatch h

theorem sampleOf_of_not_usable {previous : Option ℚ} {p : FlowPacket} (h : ¬ Usable p) :
    sampleOf previous p = sampleOf none p ∧ ∀ r, sampleOf previous p ≠ .accepted r := by
  rw [sampleOf, sampleOf]
  by_cases hrtt : p.ackRttMs ≤ 0
  · rw [if_pos hrtt, if_pos hrtt]
    exact ⟨rfl, fun r hr => nomatch hr⟩
  · rw [if_neg hrtt, if_neg hrtt]
    by_cases hretrans : p.retrans = true
    · rw [if_pos hretrans, if_pos hretrans]
      exact ⟨rfl, fun r hr => nomatch hr⟩
    · rw [if_neg hretrans, if_neg hretrans]
      have hsliced : p.sliced = true := by
        by_contra hsliced
        exact h ⟨not_le.mp hrtt, Bool.eq_false_iff.mpr hretrans, Bool.eq_false_iff.mpr hsliced⟩
      rw [if_pos hsliced, if_pos hsliced]
      exact ⟨rfl, fun r hr => nomatch hr⟩

theorem sampleOf_of_late {previous p : FlowPacket} (hlate : Late previous p) (h : Usable p) :
    sampleOf previous.ts p = .idleGap := by
  obtain ⟨hrtt, hretrans, hsliced⟩ := h
  rw [sampleOf, if_neg (not_le.mpr hrtt), if_neg (Bool.eq_false_iff.mp hretrans),
    if_neg (Bool.eq_false_iff.mp hsliced)]
  exact if_pos hlate

theorem sampleOf_dropTs (p : FlowPacket) : sampleOf none p.dropTs = sampleOf none p := by
  rw [sampleOf, sampleOf, if_neg (gapMs_none p.ts), if_neg (gapMs_none p.dropTs.ts)]
  rfl

/-! ## The loop -/

/-- With capture times each packet is judged by the one before it. -/
theorem sampleLoop_stamped (previous : Option ℚ) (p : FlowPacket) (rest : List FlowPacket)
    (h : Stamped (p :: rest)) :
    sampleLoop previous (p :: rest) =
      sampleOf previous p :: (adjacent (p :: rest)).map fun ab => sampleOf ab.1.ts ab.2 := by
  induction rest generalizing previous p with
  | nil => rfl
  | cons q rest ih =>
    obtain ⟨ts, hts⟩ := Option.isSome_iff_exists.mp (h p List.mem_cons_self)
    have hrest := ih (p.ts.or previous) q fun r hr => h r (List.mem_cons_of_mem _ hr)
    rw [sampleLoop, hrest, hts, Option.some_or]
    change _ = sampleOf previous p :: sampleOf p.ts q :: _
    rw [hts]
    rfl

/-- Without them no packet knows the one before it. -/
theorem sampleLoop_dropTs (group : List FlowPacket) :
    sampleLoop none (group.map FlowPacket.dropTs) = group.map (sampleOf none) := by
  induction group with
  | nil => rfl
  | cons p rest ih =>
    rw [List.map_cons, sampleLoop, sampleOf_dropTs]
    exact congrArg _ ih

/-- The two loops agree where no sample is late. -/
theorem sampleLoop_dropTs_of_noLateSample {group : List FlowPacket} (hstamped : Stamped group)
    (h : NoLateSample group) :
    sampleLoop none (group.map FlowPacket.dropTs) = sampleLoop none group := by
  cases group with
  | nil => rfl
  | cons p rest =>
    rw [sampleLoop_dropTs, sampleLoop_stamped none p rest hstamped, List.map_cons]
    have hsnd : rest = (adjacent (p :: rest)).map Prod.snd := by
      rw [adjacent, List.tail_cons, List.map_snd_zip]
      simp
    congr 1
    conv_lhs => rw [hsnd, List.map_map]
    apply List.map_congr_left
    intro ab hab
    by_cases hlate : Late ab.1 ab.2
    · exact (sampleOf_of_not_usable (h ab hab hlate)).1.symm
    · exact (sampleOf_of_not_late hlate).symm

/-! ## The distribution with and without times -/

theorem rejected_rttDistribution (group : List FlowPacket) :
    (rttDistribution group).rejected = (samples group).2 := by
  rw [rttDistribution]
  dsimp only
  split <;> rfl

/-- A late sample is counted with times and not without. -/
theorem rttDistribution_dropTs_iff {group : List FlowPacket} (hstamped : Stamped group) :
    rttDistribution (group.map FlowPacket.dropTs) = rttDistribution group ↔ NoLateSample group := by
  constructor
  · intro heq ab hab hlate husable
    have hidle := congrArg (Rejected.idleGap ∘ RttDistribution.rejected) heq
    simp only [Function.comp, rejected_rttDistribution, samples, sampleLoop_dropTs] at hidle
    have hzero : (group.map (sampleOf none)).count .idleGap = 0 := by
      rw [List.count_eq_zero]
      intro hmem
      obtain ⟨p, -, hp⟩ := List.mem_map.mp hmem
      exact sampleOf_none_ne p hp
    rw [hzero, eq_comm, List.count_eq_zero] at hidle
    apply hidle
    cases group with
    | nil => exact nomatch hab
    | cons p rest =>
      rw [sampleLoop_stamped none p rest hstamped]
      exact List.mem_cons_of_mem _ (List.mem_map.mpr ⟨ab, hab, sampleOf_of_late hlate husable⟩)
  · intro h
    have hsamples : samples (group.map FlowPacket.dropTs) = samples group := by
      rw [samples, samples, sampleLoop_dropTs_of_noLateSample hstamped h]
    rw [rttDistribution, rttDistribution, hsamples]

/-! ## The response -/

/-- The distribution of the response is the one of the packets with their capture times; in what its
loop makes of each packet, no late sample is accepted, and each late one that is usable is counted as
an idle gap. -/
structure ExcludesStalls (detail : StreamDetail) (group : List FlowPacket) : Prop where
  same : detail.rttDistribution = rttDistribution group
  excluded : ∀ i a b, (adjacent group)[i]? = some (a, b) → Late a b →
    ∀ r, (sampleLoop none detail.packets)[i + 1]? ≠ some (.accepted r)
  counted : ∀ i a b, (adjacent group)[i]? = some (a, b) → Late a b → Usable b →
    (sampleLoop none detail.packets)[i + 1]? = some .idleGap

/-- The response excludes the stalls of the application exactly when there are none to exclude. -/
theorem flow_rtt_excludes_stalls_iff {packets : List Packet} {stream : ℕ} {detail : StreamDetail}
    (h : streamDetail packets stream = some detail) :
    ExcludesStalls detail (accountingInput packets stream) ↔
      NoLateSample (accountingInput packets stream) := by
  obtain ⟨hpackets, hrtt, -, -⟩ := streamDetail_eq_some h
  have hstamped := accountingInput_stamped packets stream
  generalize accountingInput packets stream = group at *
  constructor
  · intro hexcludes
    apply (rttDistribution_dropTs_iff hstamped).mp
    rw [← hrtt]
    exact hexcludes.same
  · intro hnone
    refine ⟨?_, fun i a b hab hlate r => ?_, fun i a b hab hlate husable => ?_⟩
    · rw [hrtt]
      exact (rttDistribution_dropTs_iff hstamped).mpr hnone
    · have hmem := List.mem_of_getElem? hab
      rw [hpackets, sampleLoop_dropTs_of_noLateSample hstamped hnone]
      cases group with
      | nil => exact nomatch hmem
      | cons p rest =>
        rw [sampleLoop_stamped none p rest hstamped, List.getElem?_cons_succ, List.getElem?_map, hab]
        intro heq
        exact (sampleOf_of_not_usable (hnone _ hmem hlate)).2 r (Option.some.inj heq)
    · exact absurd husable (hnone _ (List.mem_of_getElem? hab) hlate)

/-- Two ACKs with a sample each, and a time between them. -/
def samplesApart (gap : ℚ) : List Packet :=
  [ { plainAck with ackRttMs := 20, ts := 100 },
    { plainAck with frame := 2, ackRttMs := 30, ts := 100 + gap } ]

/-- After ten seconds of silence the second sample is a stall; the response accepts it. -/
theorem stall_accepted :
    ∃ detail, streamDetail (samplesApart 10) 0 = some detail ∧
      (detail.rttDistribution.samples, detail.rttDistribution.rejected.idleGap) = (2, 0) ∧
      ((rttDistribution (accountingInput (samplesApart 10) 0)).samples,
        (rttDistribution (accountingInput (samplesApart 10) 0)).rejected.idleGap) = (1, 1) ∧
      (sampleLoop none detail.packets)[1]? = some (.accepted 30) ∧
      ¬ ExcludesStalls detail (accountingInput (samplesApart 10) 0) := by
  have hresponse : (streamDetail (samplesApart 10) 0).map (fun detail =>
      ((detail.rttDistribution.samples, detail.rttDistribution.rejected.idleGap),
        (sampleLoop none detail.packets)[1]?)) = some ((2, 0), some (.accepted 30)) := by
    decide +kernel
  have hreal : ((rttDistribution (accountingInput (samplesApart 10) 0)).samples,
      (rttDistribution (accountingInput (samplesApart 10) 0)).rejected.idleGap) = (1, 1) := by
    decide +kernel
  obtain ⟨detail, hdetail, hvalues⟩ := Option.map_eq_some_iff.mp hresponse
  obtain ⟨hcounts, haccepted⟩ := Prod.mk.inj hvalues
  refine ⟨detail, hdetail, hcounts, hreal, haccepted, fun hexcludes => ?_⟩
  rw [hexcludes.same, hreal] at hcounts
  cases hcounts

theorem flow_rtt_excludes_stalls_iff_close :
    ∃ detail, streamDetail (samplesApart (1 / 20)) 0 = some detail ∧
      NoLateSample (accountingInput (samplesApart (1 / 20)) 0) ∧
      ExcludesStalls detail (accountingInput (samplesApart (1 / 20)) 0) := by
  have hsome : (streamDetail (samplesApart (1 / 20)) 0).isSome = true := rfl
  obtain ⟨detail, hdetail⟩ := Option.isSome_iff_exists.mp hsome
  have hnone : NoLateSample (accountingInput (samplesApart (1 / 20)) 0) := by decide +kernel
  exact ⟨detail, hdetail, hnone, (flow_rtt_excludes_stalls_iff hdetail).mpr hnone⟩

end PacketTrain.Analysis
