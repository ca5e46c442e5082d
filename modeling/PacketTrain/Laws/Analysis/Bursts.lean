import Mathlib.Algebra.Order.BigOperators.Group.List
import PacketTrain.Analysis.Accounting
import PacketTrain.Analysis.Behavior
import PacketTrain.Laws.Analysis.Detail
import PacketTrain.Lib.Fallible
import PacketTrain.Lib.Runs

/-!
# Bursts

`bursts_at` sums up the runs of the payload records in time order, cut where the direction changes or the
gap is over the threshold (`forall₂_burstsAt`). A cut at the larger threshold is one at the smaller, so
that the runs of the one are made of runs of the other and the largest burst does not shrink
(`bursts_monotone`). The loop of `classify_stream` finds the same bursts at 0.2 s, on the packets before
they are given a direction.
-/

namespace PacketTrain.Analysis

/-! ## The loop of `bursts_at` -/

/-- A payload record that goes on a burst. -/
def sameBurst (gap : ℚ) (a b : ℚ × FlowPacket) : Bool :=
  a.2.direction = b.2.direction ∧ b.1 - a.1 ≤ gap

def timedPayload (records : List (ℚ × FlowPacket)) : List (ℚ × FlowPacket) :=
  records.filter (0 < ·.2.length)

/-- The payload records, cut into bursts. -/
def gapRuns (gap : ℚ) (records : List (ℚ × FlowPacket)) : List (List (ℚ × FlowPacket)) :=
  (timedPayload records).splitBy (sameBurst gap)

/-- The burst says of a run what it was. -/
structure BurstOf (run : List (ℚ × FlowPacket)) (b : Burst) : Prop where
  direction : ∀ x ∈ run, x.2.direction = b.direction
  start : run.head?.map Prod.fst = some b.start
  stop : run.getLast?.map Prod.fst = some b.stop
  bytes : b.bytes = (run.map fun x => x.2.length).sum
  records : b.records = run.length

namespace Burst

def fresh (x : ℚ × FlowPacket) : Burst := ⟨x.2.direction, x.1, x.1, x.2.length, 1⟩

def extend (b : Burst) (x : ℚ × FlowPacket) : Burst :=
  { b with stop := x.1, bytes := b.bytes + x.2.length, records := b.records + 1 }

def joins (gap : ℚ) (b : Burst) (x : ℚ × FlowPacket) : Bool :=
  b.direction = x.2.direction ∧ x.1 - b.stop ≤ gap

end Burst

theorem burstsFrom_eq_scan (gap : ℚ) (current : Option Burst) (records : List (ℚ × FlowPacket)) :
    burstsFrom gap current records =
      Runs.scan Burst.fresh Burst.extend (Burst.joins gap) current (timedPayload records) := by
  induction records generalizing current with
  | nil => rfl
  | cons x records ih =>
    by_cases hpayload : x.2.length = 0
    · rw [burstsFrom, if_pos hpayload, ih, timedPayload, timedPayload,
        List.filter_cons_of_neg (by simp [hpayload])]
    · rw [burstsFrom, if_neg hpayload, timedPayload, List.filter_cons_of_pos (by simp; omega)]
      cases current with
      | none =>
        rw [Runs.scan]
        exact ih (some (Burst.fresh x))
      | some b =>
        rw [Runs.scan, Burst.joins]
        simp only [decide_eq_true_eq]
        split
        · exact ih (some (b.extend x))
        · rw [← timedPayload, ← ih (some (Burst.fresh x))]
          rfl

theorem burstOf_fresh (x : ℚ × FlowPacket) : BurstOf [x] (Burst.fresh x) where
  direction := by
    intro y hy
    rw [List.mem_singleton.mp hy]
    rfl
  start := rfl
  stop := rfl
  bytes := by simp [Burst.fresh]
  records := rfl

theorem BurstOf.extend {gap : ℚ} {run : List (ℚ × FlowPacket)} {b : Burst} {x : ℚ × FlowPacket}
    (h : BurstOf run b) (hjoins : b.joins gap x = true) : BurstOf (run ++ [x]) (b.extend x) where
  direction := by
    intro y hy
    rcases List.mem_append.mp hy with hy | hy
    · exact h.direction y hy
    · rw [List.mem_singleton.mp hy]
      exact (of_decide_eq_true hjoins).1.symm
  start := by
    have hstart := h.start
    cases run with
    | nil => cases hstart
    | cons y run => exact hstart
  stop := by
    rw [List.getLast?_concat]
    rfl
  bytes := by
    rw [Burst.extend, h.bytes]
    simp
  records := by
    rw [Burst.extend, h.records, List.length_append, List.length_singleton]

/-- The last record of the burst decides. -/
theorem BurstOf.joins_eq {gap : ℚ} {run : List (ℚ × FlowPacket)} {b : Burst} {x y : ℚ × FlowPacket}
    (h : BurstOf run b) (hlast : run.getLast? = some y) : b.joins gap x = sameBurst gap y x := by
  have hstop := h.stop
  rw [hlast] at hstop
  rw [Burst.joins, sameBurst, h.direction y (List.mem_of_getLast? hlast), ← Option.some.inj hstop]

/-- The bursts are those of these runs. -/
theorem forall₂_burstsAt (gap : ℚ) (records : List (ℚ × FlowPacket)) :
    List.Forall₂ BurstOf (gapRuns gap records) (burstsAt records gap) := by
  unfold burstsAt gapRuns
  rw [burstsFrom_eq_scan]
  apply Runs.forall₂_scan
  · exact burstOf_fresh
  · intro run b x hrun hjoins
    exact hrun.extend hjoins
  · intro run b y x hrun hlast
    exact hrun.joins_eq hlast

/-- Runs that partition the payload records, and of which the bursts are. -/
structure Partitions (gap : ℚ) (records : List (ℚ × FlowPacket))
    (runs : List (List (ℚ × FlowPacket))) : Prop where
  flatten : runs.flatten = timedPayload records
  nonempty : [] ∉ runs
  bursts : List.Forall₂ BurstOf runs (burstsAt records gap)

theorem partitions_gapRuns (gap : ℚ) (records : List (ℚ × FlowPacket)) :
    Partitions gap records (gapRuns gap records) where
  flatten := List.flatten_splitBy _ _
  nonempty := List.nil_notMem_splitBy _ _
  bursts := forall₂_burstsAt gap records

/-! ## Two thresholds -/

theorem coarsens_gapRuns {g h : ℚ} (hgh : g ≤ h) (records : List (ℚ × FlowPacket)) :
    Runs.Coarsens (gapRuns g records) (gapRuns h records) := by
  apply Runs.coarsens_splitBy
  intro a b hsame
  obtain ⟨hdirection, hgap⟩ := of_decide_eq_true hsame
  exact decide_eq_true ⟨hdirection, hgap.trans hgh⟩

theorem largestBytes_le_iff {bursts : List Burst} {n : ℕ} :
    largestBytes bursts ≤ n ↔ ∀ b ∈ bursts, b.bytes ≤ n := by
  unfold largestBytes
  cases hmax : (bursts.map Burst.bytes).max? with
  | none =>
    rw [List.map_eq_nil_iff.mp (List.max?_eq_none_iff.mp hmax)]
    simp
  | some m =>
    rw [Option.getD_some, List.max?_le_iff hmax, List.forall_mem_map]

theorem largestBytes_mono {g h : ℚ} (hgh : g ≤ h) (records : List (ℚ × FlowPacket)) :
    largestBytes (burstsAt records g) ≤ largestBytes (burstsAt records h) := by
  apply largestBytes_le_iff.mpr
  intro b hb
  obtain ⟨run, hrun, hof⟩ := exists_of_forall₂_right (forall₂_burstsAt g records) hb
  obtain ⟨whole, hwhole, hpart⟩ := Runs.infix_of_coarsens (coarsens_gapRuns hgh records) hrun
  obtain ⟨b', hb', hof'⟩ := exists_of_forall₂ (forall₂_burstsAt h records) hwhole
  have hbytes : b.bytes ≤ b'.bytes := by
    rw [hof.bytes, hof'.bytes]
    exact (hpart.sublist.map _).sum_le_sum fun _ _ => Nat.zero_le _
  exact hbytes.trans (largestBytes_le_iff.mp le_rfl b' hb')

/-- The bytes of the largest burst of a report. -/
def BurstReport.bytes (report : BurstReport) : ℕ := (report.largest.map (·.bytes)).getD 0

/-- The four thresholds that a report shows. -/
def shownThresholds (gapS : ℚ) : List ℚ := [gapS / 2, gapS, gapS * 2, gapS * 5]

/-- A report is of the bursts of the records: it has the bytes of the largest, which is one of them, and
those of the largest at each of four thresholds. -/
structure ReportsBursts (records : List (ℚ × FlowPacket)) (gapS : ℚ) (report : BurstReport) : Prop where
  threshold : report.thresholdS = gapS
  bytes : report.bytes = largestBytes (burstsAt records gapS)
  largest : ∀ l ∈ report.largest, ∃ b ∈ burstsAt records gapS,
    l = ⟨b.bytes, b.records, roundTo 3 ((b.stop - b.start) * 1000), b.direction⟩
  sensitivity : report.sensitivity =
    if burstsAt records gapS = [] then []
    else (shownThresholds gapS).map fun g => (g, largestBytes (burstsAt records g))

/-- `largest_burst` answers when each packet has its capture time. -/
theorem largestBurst_eq_some {packets : List FlowPacket} {records : List (ℚ × FlowPacket)}
    (hrecords : capturedRecords packets = some records) (gapS : ℚ) :
    ∃ report, largestBurst packets gapS = some report ∧ ReportsBursts records gapS report := by
  rw [largestBurst, hrecords, Option.bind_eq_bind, Option.bind_some]
  cases hmax : (burstsAt records gapS).argmax Burst.bytes with
  | none =>
    have hnil := List.argmax_eq_none.mp hmax
    refine ⟨_, rfl, rfl, ?_, fun l hl => (nomatch hl), (if_pos hnil).symm⟩
    rw [hnil]
    rfl
  | some largest =>
    have hmem := List.argmax_mem hmax
    refine ⟨_, rfl, rfl, le_antisymm ?_ ?_, fun l hl => ⟨largest, hmem, ?_⟩,
      (if_neg (List.ne_nil_of_mem hmem)).symm⟩
    · exact largestBytes_le_iff.mp le_rfl largest hmem
    · apply largestBytes_le_iff.mpr
      intro b hb
      exact List.le_of_mem_argmax hb hmax
    · exact (Option.some.inj hl).symm

/-- The thresholds grow, and the bursts with them. -/
theorem pairwise_sensitivity {records : List (ℚ × FlowPacket)} {gapS : ℚ} (hgap : 0 ≤ gapS)
    {report : BurstReport} (h : ReportsBursts records gapS report) :
    (report.sensitivity.map Prod.snd).Pairwise (· ≤ ·) := by
  have hthresholds : (shownThresholds gapS).Pairwise (· ≤ ·) := by
    simp only [shownThresholds, List.pairwise_cons, List.mem_cons, List.not_mem_nil, or_false,
      forall_eq_or_imp, forall_eq, List.Pairwise.nil, and_true, false_imp_iff, implies_true]
    refine ⟨⟨?_, ?_, ?_⟩, ⟨?_, ?_⟩, ?_⟩ <;> linarith
  rw [h.sensitivity]
  split
  · exact .nil
  · rw [List.map_map, List.pairwise_map]
    exact hthresholds.imp fun hle => largestBytes_mono hle records

/-! ## The loop of `classify_stream` -/

/-- A burst with the direction of its side. -/
def SideBurst.oriented (b : SideBurst) : Burst where
  direction := wanted b.side.fromClient
  start := b.start
  stop := b.stop
  bytes := b.bytes
  records := b.records

/-- A packet with its capture time, as the accounting has it. -/
def timed (summary : Summary) (firstTs : ℚ) (p : Packet) : ℚ × FlowPacket :=
  (p.ts, flowPacket summary firstTs p)

theorem capturedRecords_accountingInput {packets : List Packet} {stream : ℕ} {first : Packet}
    {rest : List Packet} (h : streamPackets packets stream = first :: rest) :
    capturedRecords (accountingInput packets stream) =
      some (sortOn Prod.fst ((first :: rest).map (timed (summaryOf first rest) first.ts))) := by
  have hstamps := Fallible.mapM_map (f := fun p : Packet => some p)
    (g := fun q : FlowPacket => q.ts.map fun ts => (ts, q))
    (a := flowPacket (summaryOf first rest) first.ts) (b := timed (summaryOf first rest) first.ts)
    (fun _ => rfl) (first :: rest)
  have hall : (first :: rest).mapM (fun p => some p) = some (first :: rest) := by
    simpa using List.mapM_pure (m := Option) (l := first :: rest) (f := id)
  rw [capturedRecords, accountingInput, h]
  dsimp only
  rw [hstamps, hall]
  rfl

/-- The loop over `bursts[-1]` is the one that keeps the burst in hand. -/
theorem sideBursts_eq_scan (client : String × ℕ) (packets : List Packet) :
    sideBursts client packets = Runs.scan (SideBurst.fresh client)
      (fun b p => { b with stop := p.ts, bytes := b.bytes + p.length, records := b.records + 1 })
      (fun b p => b.side = sideOf client p ∧ p.ts - b.stop ≤ 1 / 5) none (payloadRecords packets) := by
  have hgrow : addRecord client = Runs.grow (SideBurst.fresh client)
      (fun b p => { b with stop := p.ts, bytes := b.bytes + p.length, records := b.records + 1 })
      (fun b p => b.side = sideOf client p ∧ p.ts - b.stop ≤ 1 / 5) := by
    funext bursts p
    rw [addRecord, Runs.grow]
    cases bursts.getLast? with
    | none => rfl
    | some b => simp only [decide_eq_true_eq]
  rw [sideBursts, hgrow, Runs.foldl_grow]

/-- A direction tells its side. -/
theorem wanted_inj {side side' : Side} (h : wanted side.fromClient = wanted side'.fromClient) :
    side = side' := by
  cases side <;> cases side' <;> first | rfl | cases h

theorem wanted_sideOf (summary : Summary) (firstTs : ℚ) (p : Packet) :
    wanted (sideOf (summary.client, summary.clientPort) p).fromClient =
      (flowPacket summary firstTs p).direction := by
  rw [sideOf, flowPacket]
  split <;> rfl

/-- Both loops find the same bursts in a stream. -/
theorem oriented_sideBursts (summary : Summary) (firstTs : ℚ) (group : List Packet) :
    (sideBursts (summary.client, summary.clientPort) group).map SideBurst.oriented =
      burstsAt (sortOn Prod.fst (group.map (timed summary firstTs))) burstGapS := by
  have hrecords : timedPayload (sortOn Prod.fst (group.map (timed summary firstTs))) =
      (payloadRecords group).map (timed summary firstTs) := by
    rw [sortOn_map, timedPayload, List.filter_map, payloadRecords, sortOn_filter]
    rfl
  rw [sideBursts_eq_scan, burstsAt, burstsFrom_eq_scan, hrecords]
  apply Runs.map_scan
  · intro p
    rw [SideBurst.oriented, SideBurst.fresh, wanted_sideOf summary firstTs]
    rfl
  · intro b p
    rfl
  · intro b p
    rw [Burst.joins, timed, SideBurst.oriented, ← wanted_sideOf summary firstTs, burstGapS]
    apply decide_eq_decide.mpr
    refine and_congr_left fun _ => ⟨?_, wanted_inj⟩
    intro hside
    rw [hside]

/-! ## The law -/

/-- The capture's records are the packets, in time order. -/
theorem capturedRecords_spec {packets : List FlowPacket} (hstamped : Stamped packets) :
    ∃ records, capturedRecords packets = some records ∧ InOrder Prod.fst records ∧
      (records.map fun x => (some x.1, x.2)).Perm (packets.map fun p => (p.ts, p)) := by
  obtain ⟨paired, hpaired⟩ := Fallible.exists_mapM
    (f := fun p : FlowPacket => p.ts.map fun ts => (ts, p)) fun p hp => by
      rw [Option.isSome_map]
      exact hstamped p hp
  refine ⟨sortOn Prod.fst paired, ?_, inOrder_sortOn _ _, ?_⟩
  · rw [capturedRecords, hpaired]
    rfl
  · have hsame : paired.map (fun x => (some x.1, x.2)) = packets.map fun p => (p.ts, p) := by
      have hrel := Fallible.mapM_eq_some hpaired
      clear hpaired hstamped
      induction hrel with
      | nil => rfl
      | cons hx _ ih =>
        obtain ⟨ts, hts, rfl⟩ := Option.map_eq_some_iff.mp hx
        rw [List.map_cons, List.map_cons, ih, hts]
    rw [← hsame]
    exact (perm_sortOn _ _).map _

/-- THE LARGEST BURST DOES NOT SHRINK AS ITS THRESHOLD GROWS: the bursts at each threshold partition the
payload records in time order, the report is of the largest of them, those at the greater threshold are
made of those at the smaller, and at 0.2 s they are the bursts that `classify_stream` finds in the
stream. -/
theorem bursts_monotone {packets : List FlowPacket} (hstamped : Stamped packets) {g h : ℚ} (hg : 0 ≤ g)
    (hgh : g ≤ h) :
    (∃ records fine coarse, capturedRecords packets = some records ∧ InOrder Prod.fst records ∧
      (records.map fun x => (some x.1, x.2)).Perm (packets.map fun p => (p.ts, p)) ∧
      largestBurst packets g = some fine ∧ ReportsBursts records g fine ∧
      largestBurst packets h = some coarse ∧ ReportsBursts records h coarse ∧
      Partitions g records (gapRuns g records) ∧ Partitions h records (gapRuns h records) ∧
      Runs.Coarsens (gapRuns g records) (gapRuns h records) ∧ fine.bytes ≤ coarse.bytes ∧
      (fine.sensitivity.map Prod.snd).Pairwise (· ≤ ·)) ∧
    ∀ captured stream first rest, streamPackets captured stream = first :: rest →
      ∃ records, capturedRecords (accountingInput captured stream) = some records ∧
        (sideBursts ((summaryOf first rest).client, (summaryOf first rest).clientPort)
          (streamPackets captured stream)).map SideBurst.oriented = burstsAt records burstGapS := by
  refine ⟨?_, ?_⟩
  · obtain ⟨records, hrecords, hordered, hperm⟩ := capturedRecords_spec hstamped
    obtain ⟨fine, hfine, hfineBursts⟩ := largestBurst_eq_some hrecords g
    obtain ⟨coarse, hcoarse, hcoarseBursts⟩ := largestBurst_eq_some hrecords h
    refine ⟨records, fine, coarse, hrecords, hordered, hperm, hfine, hfineBursts, hcoarse, hcoarseBursts,
      partitions_gapRuns g records, partitions_gapRuns h records, coarsens_gapRuns hgh records, ?_,
      pairwise_sensitivity hg hfineBursts⟩
    rw [hfineBursts.bytes, hcoarseBursts.bytes]
    exact largestBytes_mono hgh records
  · intro captured stream first rest hgroup
    refine ⟨_, capturedRecords_accountingInput hgroup, ?_⟩
    rw [hgroup]
    exact oriented_sideBursts (summaryOf first rest) first.ts (first :: rest)

/-- Two requests, 150 ms apart, and an answer. -/
def twoRequests : List Packet :=
  [ { plainAck with frame := 1, length := 100, ts := 0 },
    { plainAck with frame := 2, length := 50, ts := 3 / 20 },
    { serverAck with frame := 3, length := 30, ts := 1 / 5 } ]

/-- The law at work: at 0.1 s the requests are two bursts, at 0.2 s one. -/
theorem bursts_monotone_requests :
    (∃ fine coarse, largestBurst (accountingInput twoRequests 0) (1 / 10) = some fine ∧
      largestBurst (accountingInput twoRequests 0) (1 / 5) = some coarse ∧ fine.bytes ≤ coarse.bytes ∧
      (fine.bytes, coarse.bytes) = (100, 150) ∧
      fine.sensitivity = [(1 / 20, 100), (1 / 10, 100), (1 / 5, 150), (1 / 2, 150)] ∧
      (fine.sensitivity.map Prod.snd).Pairwise (· ≤ ·)) ∧
    ∃ records, capturedRecords (accountingInput twoRequests 0) = some records ∧
      (sideBursts ("192.0.2.1", 50000) twoRequests).map SideBurst.oriented =
        burstsAt records burstGapS := by
  obtain ⟨hlargest, hclassified⟩ := bursts_monotone (accountingInput_stamped twoRequests 0)
    (by norm_num : (0 : ℚ) ≤ 1 / 10) (by norm_num : (1 / 10 : ℚ) ≤ 1 / 5)
  obtain ⟨records, fine, coarse, -, -, -, hfine, -, hcoarse, -, -, -, -, hbytes, hgrows⟩ := hlargest
  have hfineShown : (largestBurst (accountingInput twoRequests 0) (1 / 10)).map (fun r =>
      (r.bytes, r.sensitivity)) = some (100, [(1 / 20, 100), (1 / 10, 100), (1 / 5, 150), (1 / 2, 150)]) := by
    decide +kernel
  have hcoarseShown : (largestBurst (accountingInput twoRequests 0) (1 / 5)).map BurstReport.bytes =
      some 150 := by
    decide +kernel
  rw [hfine, Option.map_some, Option.some.injEq, Prod.mk.injEq] at hfineShown
  rw [hcoarse, Option.map_some, Option.some.injEq] at hcoarseShown
  refine ⟨⟨fine, coarse, hfine, hcoarse, hbytes, ?_, hfineShown.2, hgrows⟩, ?_⟩
  · rw [hfineShown.1, hcoarseShown]
  · exact hclassified twoRequests 0 _ _ (by decide +kernel : streamPackets twoRequests 0 =
      { plainAck with frame := 1, length := 100, ts := 0 } :: twoRequests.tail)

end PacketTrain.Analysis
