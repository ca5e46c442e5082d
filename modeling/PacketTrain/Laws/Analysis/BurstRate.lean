import Mathlib.Data.List.GetD
import PacketTrain.Analysis.BurstRate
import PacketTrain.Laws.Analysis.Detail

/-!
# The bias of the burst rate

The runs are the payload packets of the stretches between two ACKs of the other direction
(`burstRuns_eq`), and the first of the longest is sampled (`sampledRun_eq`). When its packets are of one
size and one serialization time apart, the span from the first to the last holds one packet less than the
run does, and the rate counts them all: it is never that of the link (`captureRate_biased`). Over the
bytes after the first record it would be (`rate_after_first`).
-/

namespace PacketTrain.Analysis

/-! ## Runs -/

section

variable (dataDirection : Direction)

/-- The payload packets of each stretch without an ACK of the other direction. -/
def stretches (group : List FlowPacket) : List (List FlowPacket) :=
  (group.splitOnP (endsRun dataDirection)).map fun stretch => stretch.filter (isPayload dataDirection)

theorem exists_stretches (group : List FlowPacket) : ∃ stretch rest,
    group.splitOnP (endsRun dataDirection) = stretch :: rest :=
  List.exists_cons_of_ne_nil (List.splitOnP_ne_nil _ _)

variable {dataDirection}

theorem not_endsRun {p : FlowPacket} (h : isPayload dataDirection p = true) :
    endsRun dataDirection p = false := by
  have hdirection := (of_decide_eq_true h).1
  simp [endsRun, hdirection]

/-- Their packets have payload. -/
theorem pos_of_mem_stretches {group run : List FlowPacket} (hrun : run ∈ stretches dataDirection group)
    {p : FlowPacket} (hp : p ∈ run) : 0 < p.length := by
  obtain ⟨stretch, -, rfl⟩ := List.mem_map.mp hrun
  exact (of_decide_eq_true (List.mem_filter.mp hp).2).2

variable {minPackets : ℤ}

/-- The loop keeps the stretches that hold enough, the packets in hand at the head of the first. -/
theorem burstRunsFrom_eq (current group : List FlowPacket) :
    burstRunsFrom dataDirection minPackets current group =
      ((stretches dataDirection group).modifyHead (current ++ ·)).filter
        fun run => minPackets ≤ run.length := by
  have hqualifying : ∀ run runs : List _, qualifying minPackets run ++
      runs.filter (fun run => minPackets ≤ run.length) =
      (run :: runs : List (List FlowPacket)).filter fun run => minPackets ≤ run.length := by
    intro run runs
    rw [qualifying, List.filter_cons]
    by_cases hmin : minPackets ≤ run.length <;> simp [hmin]
  induction group generalizing current with
  | nil =>
    rw [burstRunsFrom, ← List.append_nil (qualifying minPackets current)]
    have hnone := hqualifying current []
    rw [List.filter_nil] at hnone
    rw [hnone, stretches, List.splitOnP_nil, List.map_singleton, List.filter_nil, List.modifyHead_cons,
      List.append_nil]
  | cons p group ih =>
    obtain ⟨stretch, rest, hsplit⟩ := exists_stretches dataDirection group
    rw [stretches, hsplit, List.map_cons] at ih
    rw [stretches, List.splitOnP_cons_eq_if_modifyHead, hsplit]
    by_cases hpayload : isPayload dataDirection p = true
    · rw [burstRunsFrom, if_pos hpayload, ih, if_neg (by simp [not_endsRun hpayload])]
      simp [hpayload]
    · rw [burstRunsFrom, if_neg hpayload]
      by_cases hends : endsRun dataDirection p = true
      · rw [if_pos hends, if_pos hends, ih, List.modifyHead_cons, List.nil_append, hqualifying]
        simp
      · rw [if_neg hends, if_neg hends, ih]
        simp [hpayload]

theorem burstRuns_eq (group : List FlowPacket) : burstRuns dataDirection minPackets group =
    (stretches dataDirection group).filter fun run => minPackets ≤ run.length := by
  obtain ⟨stretch, rest, hsplit⟩ := exists_stretches dataDirection group
  rw [burstRuns, burstRunsFrom_eq, stretches, hsplit, List.map_cons, List.modifyHead_cons,
    List.nil_append]

end

/-- The first of the longest runs comes after shorter ones. -/
theorem bestIndex_eq {before after : List (List FlowPacket)} {run : List FlowPacket}
    (hbefore : ∀ r ∈ before, r.length < run.length) (hafter : ∀ r ∈ after, r.length ≤ run.length) :
    bestIndex (before ++ run :: after) = some before.length := by
  have hrun : (before ++ run :: after).getD before.length [] = run := by simp
  have hlonger : ∀ i, ((before ++ run :: after).getD i []).length ≤ run.length := by
    intro i
    rw [List.getD_eq_getElem?_getD]
    cases hi : (before ++ run :: after)[i]? with
    | none => exact Nat.zero_le _
    | some r =>
      rcases List.mem_append.mp (List.mem_of_getElem? hi) with hr | hr
      · exact (hbefore r hr).le
      · rcases List.mem_cons.mp hr with rfl | hr
        · exact le_rfl
        · exact hafter r hr
  have hidx : ∀ i ∈ List.range (before ++ run :: after).length,
      (List.range (before ++ run :: after).length).idxOf i = i := by
    intro i hi
    have hlt : i < (List.range (before ++ run :: after).length).length := by
      rwa [List.length_range, ← List.mem_range]
    have hfound := List.nodup_range.idxOf_getElem i hlt
    rwa [List.getElem_range] at hfound
  rw [bestIndex, List.argmax_eq_some_iff]
  have hmem : before.length ∈ List.range (before ++ run :: after).length := by
    rw [List.mem_range, List.length_append, List.length_cons]
    omega
  refine ⟨hmem, ?_, ?_⟩
  · intro i _
    rw [hrun]
    exact hlonger i
  · intro i hi hle
    rw [hidx _ hmem, hidx i hi]
    by_contra hlt
    have hi : i < before.length := by omega
    rw [hrun, List.getD_append _ _ _ _ hi, List.getD_eq_getElem _ _ hi] at hle
    have hless := hbefore _ (List.getElem_mem hi)
    omega

/-! ## The law -/

/-- Packets of one size, one serialization time apart. -/
structure SteadyRun (size : ℕ) (rate : ℚ) (run : List FlowPacket) : Prop where
  sizes : ∀ p ∈ run, p.length = size
  spacing : ∀ ab ∈ adjacent run, ab.2.timeMs - ab.1.timeMs = size * 8 / rate * 1000

section

variable {size : ℕ} {rate : ℚ}

theorem payloadBytes_of_steady {s : BurstSample} (h : SteadyRun size rate s.run) :
    s.payloadBytes = s.run.length * size := by
  have hsizes : s.run.map (·.length) = List.replicate s.run.length size := by
    rw [List.eq_replicate_iff, List.length_map]
    refine ⟨rfl, ?_⟩
    intro length hlength
    obtain ⟨p, hp, rfl⟩ := List.mem_map.mp hlength
    exact h.sizes p hp
  rw [BurstSample.payloadBytes, hsizes, List.sum_replicate_nat]

/-- Each packet but the first adds its serialization time to the span. -/
theorem span_of_steady (first : FlowPacket) (rest : List FlowPacket)
    (h : SteadyRun size rate (first :: rest)) :
    (rest.getLastD first).timeMs - first.timeMs = rest.length * (size * 8 / rate * 1000) := by
  induction rest generalizing first with
  | nil => simp
  | cons second rest ih =>
    have htail : SteadyRun size rate (second :: rest) :=
      ⟨fun p hp => h.sizes p (List.mem_cons_of_mem _ hp),
        fun ab hab => h.spacing ab (List.mem_cons_of_mem _ hab)⟩
    have hfirst := h.spacing (first, second) List.mem_cons_self
    have hrest := ih second htail
    rw [List.getLastD_cons, List.length_cons]
    push_cast
    linarith

/-- A run of one packet has no span; another has one packet less in its span than in its bits. -/
theorem captureRate_of_steady {s : BurstSample} (hrate : 0 < rate) (hsize : 0 < size)
    (h : SteadyRun size rate s.run) : s.captureRate =
      if s.rest = [] then none else some ((s.rest.length + 1) / s.rest.length * rate) := by
  have hspan : s.spanMs = s.rest.length * (size * 8 / rate * 1000) := span_of_steady s.first s.rest h
  have hbits : (s.payloadBits : ℚ) = (s.rest.length + 1) * size * 8 := by
    rw [BurstSample.payloadBits, payloadBytes_of_steady h, BurstSample.run, List.length_cons]
    push_cast
    ring
  have hbytes : (0 : ℚ) < size := by exact_mod_cast hsize
  rw [BurstSample.captureRate, hspan, hbits]
  split
  · next hpos =>
    have hrest : s.rest ≠ [] := by
      intro hnil
      simp [hnil] at hpos
    have hlength : (s.rest.length : ℚ) ≠ 0 := by
      simpa using hrest
    rw [if_neg hrest]
    congr 1
    field_simp
  · next hnone =>
    rw [if_pos]
    by_contra hrest
    have hlength : (0 : ℚ) < s.rest.length := by
      exact_mod_cast List.length_pos_iff.mpr hrest
    exact hnone (by positivity)

/-- Over the bytes after the first record it is the rate of the link. -/
theorem rate_after_first {s : BurstSample} (hrate : 0 < rate) (hsize : 0 < size)
    (h : SteadyRun size rate s.run) (hrest : s.rest ≠ []) :
    ((s.payloadBytes - s.first.length : ℕ) : ℚ) * 8 / (s.spanMs / 1000) = rate := by
  have hspan : s.spanMs = s.rest.length * (size * 8 / rate * 1000) := span_of_steady s.first s.rest h
  have hbytes : s.payloadBytes - s.first.length = s.rest.length * size := by
    rw [payloadBytes_of_steady h, h.sizes s.first List.mem_cons_self, BurstSample.run, List.length_cons,
      Nat.succ_mul, Nat.add_sub_cancel]
  have hlength : (s.rest.length : ℚ) ≠ 0 := by
    simpa using hrest
  have hpos : (size : ℚ) ≠ 0 := by
    exact_mod_cast hsize.ne'
  rw [hspan, hbytes]
  push_cast
  field_simp

variable {dataDirection : Direction} {minPackets : ℤ} {group : List FlowPacket}
  {before after : List (List FlowPacket)} {run : List FlowPacket}
  (hstretches : stretches dataDirection group = before ++ run :: after)
  (hmin : minPackets ≤ run.length) (hbefore : ∀ r ∈ before, r.length < run.length)
  (hafter : ∀ r ∈ after, r.length ≤ run.length)

include hstretches hmin hbefore hafter

/-- The longest run is the one that is sampled. -/
theorem run_of_sampledRun {s : BurstSample} (hs : sampledRun group dataDirection minPackets = .run s) :
    s.run = run := by
  have hqualified : burstRuns dataDirection minPackets group =
      before.filter (fun r => minPackets ≤ r.length) ++
        run :: after.filter fun r => minPackets ≤ r.length := by
    rw [burstRuns_eq, hstretches, List.filter_append, List.filter_cons_of_pos (by simpa using hmin)]
  have hbest : bestIndex (burstRuns dataDirection minPackets group) =
      some (before.filter fun r => minPackets ≤ r.length).length := by
    rw [hqualified]
    apply bestIndex_eq
    · intro r hr
      exact hbefore r (List.mem_of_mem_filter hr)
    · intro r hr
      exact hafter r (List.mem_of_mem_filter hr)
  have hrun : (burstRuns dataDirection minPackets group).getD
      (before.filter fun r => minPackets ≤ r.length).length [] = run := by
    rw [hqualified]
    simp
  simp only [sampledRun, hbest, hrun] at hs
  cases run with
  | nil => cases hs
  | cons first rest =>
    cases hs
    rfl

end

/-- THE CAPTURE RATE IS NEVER THE RATE OF THE LINK: of a run of `n` packets it is `n / (n - 1)` times
that, and of one packet there is none; the answer has it in megabits. The bytes after the first record would
give the rate of the link. -/
theorem captureRate_biased {dataDirection : Direction} {minPackets : ℤ} {group : List FlowPacket}
    {before after : List (List FlowPacket)} {run : List FlowPacket} {size : ℕ} {rate : ℚ}
    (hrate : 0 < rate) (hstretches : stretches dataDirection group = before ++ run :: after)
    (hmin : minPackets ≤ run.length) (hbefore : ∀ r ∈ before, r.length < run.length)
    (hafter : ∀ r ∈ after, r.length ≤ run.length) (hsteady : SteadyRun size rate run) :
    (¬∃ s, sampledRun group dataDirection minPackets = .run s ∧ s.captureRate = some rate) ∧
    (∀ s, sampledRun group dataDirection minPackets = .run s → s.run = run ∧
      s.captureRate = (if run.length = 1 then none else some (run.length / (run.length - 1) * rate)) ∧
      (run.length ≠ 1 →
        ((s.payloadBytes - s.first.length : ℕ) : ℚ) * 8 / (s.spanMs / 1000) = rate)) ∧
    ∀ report, burstRate group dataDirection minPackets = some (.available report) →
      report.captureRateMbps =
        rateMbps (if run.length = 1 then none else some (run.length / (run.length - 1) * rate)) := by
  have hsampled : ∀ s, sampledRun group dataDirection minPackets = .run s → s.run = run ∧
      s.captureRate = (if run.length = 1 then none else some (run.length / (run.length - 1) * rate)) ∧
      (run.length ≠ 1 →
        ((s.payloadBytes - s.first.length : ℕ) : ℚ) * 8 / (s.spanMs / 1000) = rate) := by
    intro s hs
    have hrun := run_of_sampledRun hstretches hmin hbefore hafter hs
    rw [← hrun] at hsteady
    have hmem : s.run ∈ stretches dataDirection group := by
      rw [hstretches, hrun]
      exact List.mem_append_right _ List.mem_cons_self
    have hsize : 0 < size :=
      hsteady.sizes s.first List.mem_cons_self ▸ pos_of_mem_stretches hmem List.mem_cons_self
    have hlength : run.length = s.rest.length + 1 := by
      rw [← hrun, BurstSample.run, List.length_cons]
    refine ⟨hrun, ?_, fun hmany => rate_after_first hrate hsize hsteady fun hnil => hmany ?_⟩
    · rw [captureRate_of_steady hrate hsize hsteady, hlength]
      simp
    · rw [hlength, hnil, List.length_nil]
  refine ⟨?_, hsampled, ?_⟩
  · rintro ⟨s, hs, hlink⟩
    obtain ⟨hrun, hbiased, -⟩ := hsampled s hs
    rw [hlink] at hbiased
    split at hbiased
    · cases hbiased
    · next hmany =>
      have hpos : 1 ≤ run.length := by
        rw [← hrun, BurstSample.run, List.length_cons]
        exact Nat.le_add_left _ _
      have hlength : (1 : ℚ) < run.length := by
        exact_mod_cast lt_of_le_of_ne hpos (Ne.symm hmany)
      have hne : (run.length : ℚ) - 1 ≠ 0 := (sub_pos.mpr hlength).ne'
      have hrates := Option.some.inj hbiased
      field_simp at hrates
      linarith
  · intro report hreport
    rw [burstRate] at hreport
    split at hreport
    · cases hreport
    · cases hreport
    · next s hs =>
      cases hreport
      exact congrArg rateMbps (hsampled s hs).2.1

/-- Five packets of 125 bytes, a millisecond apart, with what may stand between them. -/
def steadyGroup : List FlowPacket :=
  [ ⟨{ plainAck with frame := 1, length := 125 }, none, 0, .out⟩,
    ⟨{ serverAck with frame := 2, length := 300, ackFlag := false }, none, 1 / 2, .in_⟩,
    ⟨{ plainAck with frame := 3, length := 125 }, none, 1, .out⟩,
    ⟨{ plainAck with frame := 4, length := 125 }, none, 2, .out⟩,
    ⟨{ plainAck with frame := 5 }, none, 5 / 2, .out⟩,
    ⟨{ plainAck with frame := 6, length := 125 }, none, 3, .out⟩,
    ⟨{ plainAck with frame := 7, length := 125 }, none, 4, .out⟩,
    ⟨{ serverAck with frame := 8 }, none, 5, .in_⟩,
    ⟨{ plainAck with frame := 9, length := 125 }, none, 6, .out⟩ ]

/-- The link carries a megabit a second, and the rate is 1.25 of it. -/
theorem steadyGroup_biased : ∃ s, sampledRun steadyGroup .out = .run s ∧ s.run.length = 5 ∧
    (∀ p ∈ s.run, p.length = 125) ∧
    (∀ ab ∈ adjacent s.run, ab.2.timeMs - ab.1.timeMs = (125 : ℕ) * 8 / 1000000 * 1000) ∧
    s.captureRate = some 1250000 ∧ s.captureRate ≠ some 1000000 := by
  have hrun : (match sampledRun steadyGroup .out with
      | .run s => decide (s.run.length = 5 ∧ (∀ p ∈ s.run, p.length = 125) ∧
          (∀ ab ∈ adjacent s.run, ab.2.timeMs - ab.1.timeMs = (125 : ℕ) * 8 / 1000000 * 1000) ∧
          s.captureRate = some 1250000 ∧ s.captureRate ≠ some 1000000)
      | _ => false) = true := by
    decide +kernel
  split at hrun
  · next s hs => exact ⟨s, hs, of_decide_eq_true hrun⟩
  · cases hrun

/-- The law at work. -/
theorem captureRate_biased_steady :
    ¬∃ s, sampledRun steadyGroup .out = .run s ∧ s.captureRate = some 1000000 := by
  have hsteady : SteadyRun 125 1000000 (steadyGroup.take 7 |>.filter (isPayload .out)) :=
    ⟨by decide +kernel, by decide +kernel⟩
  exact (captureRate_biased (by norm_num) (by decide +kernel : stretches .out steadyGroup =
    [] ++ (steadyGroup.take 7 |>.filter (isPayload .out)) :: [(steadyGroup.drop 8)]) (by decide)
    (by decide) (by decide) hsteady).1

end PacketTrain.Analysis
