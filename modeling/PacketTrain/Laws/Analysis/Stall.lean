import PacketTrain.Laws.Analysis.Idle
import PacketTrain.Laws.Analysis.Window

/-!
# Idle gaps and stalls

`receiver_window_analysis` keeps an endpoint's window closed until the endpoint opens it again;
`_gap_reason` looks for a closed window at the two ends of one gap. The two disagree on a gap inside a
stall whose ends advertise something else. `stalls_respected_iff` says when they agree on a stream in
time order.
-/

namespace PacketTrain.Analysis

/-! ## Streams in time order -/

/-- The packets of one stream of a capture in time order, as `stream_detail` makes them: with their
capture times or without. -/
def TimeOrderedStream (group : List FlowPacket) : Prop :=
  ∃ packets stream, InOrder Packet.ts (streamPackets packets stream) ∧
    (group = accountingInput packets stream ∨
      group = (accountingInput packets stream).map FlowPacket.dropTs)

/-- What the two analyses rely on: the packets are in the order of their times, which have three
decimals, the window analysis has the same times, and the last is the end of the capture when that is
known. -/
structure StreamClock (group : List FlowPacket) : Prop where
  inOrder : InOrder FlowPacket.timeMs group
  milli : ∀ p ∈ group, ∃ n : ℤ, p.timeMs = n / 10 ^ 3
  same : ∀ p ∈ group, windowTimeMs p (origin group) = p.timeMs
  ends : ∀ endMs, captureEnd group = some endMs →
    (∃ p ∈ group, p.timeMs = endMs) ∧ ∀ p ∈ group, p.timeMs ≤ endMs

theorem captureEnd_eq_none_iff {group : List FlowPacket} :
    captureEnd group = none ↔ captureTimes group = [] := by
  rw [captureEnd]
  constructor
  · intro h
    by_contra hne
    obtain ⟨last, hlast⟩ := Option.ne_none_iff_exists'.mp (mt List.max?_eq_none_iff.mp hne)
    obtain ⟨first, hfirst⟩ := Option.ne_none_iff_exists'.mp (mt List.min?_eq_none_iff.mp hne)
    rw [hlast, origin, hfirst] at h
    cases h
  · intro h
    rw [h]
    rfl

/-- In time order the first packet has the first capture time. -/
theorem origin_flowPackets {summary : Summary} {first : Packet} {rest : List Packet}
    (h : InOrder Packet.ts (first :: rest)) :
    origin ((first :: rest).map (flowPacket summary first.ts)) = some first.ts := by
  have htimes : captureTimes ((first :: rest).map (flowPacket summary first.ts)) =
      (first :: rest).map Packet.ts := by
    rw [captureTimes, List.filterMap_map, ← List.filterMap_eq_map]
    rfl
  rw [origin, htimes, List.min?_eq_some_iff]
  refine ⟨List.mem_map_of_mem List.mem_cons_self, fun ts hts => ?_⟩
  obtain ⟨p, hp, rfl⟩ := List.mem_map.mp hts
  rcases List.mem_cons.mp hp with rfl | hp
  · exact le_rfl
  · exact (List.pairwise_cons.mp h).1 p hp

theorem streamClock_accountingInput {packets : List Packet} {stream : ℕ}
    (h : InOrder Packet.ts (streamPackets packets stream)) :
    StreamClock (accountingInput packets stream) := by
  cases hstream : streamPackets packets stream with
  | nil =>
    rw [accountingInput, hstream]
    refine ⟨.nil, fun p hp => ?_, fun p hp => ?_, fun endMs hend => ?_⟩
    · cases hp
    · cases hp
    · cases hend
  | cons first rest =>
    have hclock := accountingInput_onClock hstream
    have horigin : origin (accountingInput packets stream) = some first.ts := by
      rw [hstream] at h
      rw [accountingInput, hstream]
      exact origin_flowPackets h
    refine ⟨?_, fun p hp => ?_, fun p hp => ?_, fun endMs hend => ?_⟩
    · rw [hstream] at h
      rw [accountingInput, hstream]
      refine List.pairwise_map.mpr (h.imp fun {p q} hpq => roundTo_mono 3 ?_)
      exact mul_le_mul_of_nonneg_right (sub_le_sub_right hpq _) (by norm_num)
    · obtain ⟨ts, -, htime⟩ := hclock p hp
      rw [htime]
      exact roundTo_milli 3 _
    · obtain ⟨ts, hts, htime⟩ := hclock p hp
      simp only [windowTimeMs, hts, horigin, htime]
    · obtain ⟨last, hlast⟩ : ∃ last,
          (captureTimes (accountingInput packets stream)).max? = some last := by
        rw [← Option.ne_none_iff_exists', Ne, List.max?_eq_none_iff]
        intro hnone
        rw [captureEnd_eq_none_iff.mpr hnone] at hend
        cases hend
      rw [captureEnd, hlast, horigin] at hend
      obtain rfl := Option.some.inj hend
      obtain ⟨hmem, hmax⟩ := List.max?_eq_some_iff.mp hlast
      constructor
      · obtain ⟨p, hp, hts⟩ := List.mem_filterMap.mp hmem
        obtain ⟨ts, hts', htime⟩ := hclock p hp
        rw [hts] at hts'
        obtain rfl := Option.some.inj hts'
        exact ⟨p, hp, htime⟩
      · intro p hp
        obtain ⟨ts, hts, htime⟩ := hclock p hp
        rw [htime]
        refine roundTo_mono 3 ?_
        have hle := hmax ts (List.mem_filterMap.mpr ⟨p, hp, hts⟩)
        linarith

theorem streamClock_dropTs {group : List FlowPacket} (h : StreamClock group) :
    StreamClock (group.map FlowPacket.dropTs) where
  inOrder := List.pairwise_map.mpr h.inOrder
  milli := by
    intro p hp
    obtain ⟨q, hq, rfl⟩ := List.mem_map.mp hp
    exact h.milli q hq
  same := by
    intro p hp
    obtain ⟨q, -, rfl⟩ := List.mem_map.mp hp
    rfl
  ends := by
    intro endMs hend
    rw [captureEnd_dropTs] at hend
    cases hend

theorem TimeOrderedStream.clock {group : List FlowPacket} (h : TimeOrderedStream group) :
    StreamClock group := by
  obtain ⟨packets, stream, horder, rfl | rfl⟩ := h
  · exact streamClock_accountingInput horder
  · exact streamClock_dropTs (streamClock_accountingInput horder)

/-! ## Stalls on the stream's clock -/

/-- The later packet opens the window that the earlier one's endpoint has closed. -/
def Reopening (closed p : FlowPacket) : Prop :=
  p.direction.side = closed.direction.side ∧ reopens p = true ∧ closed.timeMs < p.timeMs

/-- The recovery is the first reopening. -/
theorem StreamClock.recovery {group : List FlowPacket} (h : StreamClock group) {closed : FlowPacket}
    {r : ℚ} (hr : recoveryAfter group closed.direction.side closed.timeMs (origin group) = some r) :
    (∃ p ∈ group, Reopening closed p ∧ p.timeMs = r) ∧
      ∀ p ∈ group, Reopening closed p → r ≤ p.timeMs := by
  obtain ⟨q, hfind, htime⟩ := Option.map_eq_some_iff.mp hr
  have hq := List.mem_of_find?_eq_some hfind
  have hspec := List.find?_some hfind
  obtain ⟨hside, hlater, hopens⟩ := of_decide_eq_true hspec
  rw [h.same q hq] at htime hlater
  subst htime
  refine ⟨⟨q, hq, ⟨hside, hopens, hlater⟩, rfl⟩, fun p hp hreopening => ?_⟩
  obtain ⟨hpside, hpopens, hplater⟩ := hreopening
  refine find?_le h.inOrder hfind hp (decide_eq_true ⟨hpside, ?_, hpopens⟩)
  rw [h.same p hp]
  exact hplater

theorem StreamClock.no_recovery {group : List FlowPacket} (h : StreamClock group)
    {closed : FlowPacket}
    (hr : recoveryAfter group closed.direction.side closed.timeMs (origin group) = none) :
    ∀ p ∈ group, ¬ Reopening closed p := by
  rintro p hp ⟨hside, hopens, hlater⟩
  have hclosed := recoveryAfter_eq_none_iff.mp hr p hp hside (by rw [h.same p hp]; exact hlater)
  rw [hclosed] at hopens
  cases hopens

/-- The packet closes its endpoint's window in the middle of the flow. -/
def Closes (p : FlowPacket) : Prop := isStall p = true ∧ p.syn = false

/-- A stall starts where a packet closes the window, and recovers where its endpoint opens it. -/
theorem StreamClock.stall_start {group : List FlowPacket} (h : StreamClock group) {side : Side}
    {s : Stall} (hs : s ∈ sideStalls group side) :
    ∃ closed ∈ group, Closes closed ∧ closed.direction.side = side ∧ s.startMs = closed.timeMs ∧
      s.recoveredAt = recoveryAfter group closed.direction.side closed.timeMs (origin group) := by
  obtain ⟨p, hp, hside, hstart, hrecovered⟩ := sideStalls_sound hs
  obtain ⟨hmem, hcloses⟩ := mem_stallPackets.mp hp
  rw [h.same p hmem] at hstart
  rw [hstart, ← hside] at hrecovered
  exact ⟨p, hmem, hcloses, hside, hstart, hrecovered⟩

/-- A packet that closes the window is within a stall of its endpoint. -/
theorem StreamClock.closes_within {group : List FlowPacket} (h : StreamClock group)
    {closed : FlowPacket} (hmem : closed ∈ group) (hcloses : Closes closed) :
    ∃ s ∈ sideStalls group closed.direction.side, s.startMs ≤ closed.timeMs ∧
      ∀ r, s.recoveredAt = some r → closed.timeMs < r := by
  obtain ⟨s, hs, hle, hlt⟩ := sideStalls_complete (mem_stallPackets.mpr ⟨hmem, hcloses⟩)
  rw [h.same closed hmem] at hle hlt
  exact ⟨s, hs, hle, hlt⟩

/-! ## Gaps inside stalls -/

/-- Before the gap an endpoint closes its window, and it does not open it before the gap is over. The
stall is one that is reported: it lasts for `MIN_STALL_MS`, or nothing ends it and its end is
unknown. -/
def StalledAcross (group : List FlowPacket) (before : FlowPacket) : Prop :=
  ∃ closed ∈ group, Closes closed ∧ closed.timeMs ≤ before.timeMs ∧
    (∀ p ∈ group, Reopening closed p →
      before.timeMs < p.timeMs ∧ closed.timeMs + minStallMs ≤ p.timeMs) ∧
    ((∃ p ∈ group, Reopening closed p) ∨ captureTimes group = [] ∨
      ∃ p ∈ group, closed.timeMs + minStallMs ≤ p.timeMs)

/-- The end of the capture on the stream's clock. -/
def lastMs (group : List FlowPacket) : Option ℚ := (group.map FlowPacket.timeMs).max?

/-- The end of an episode's span: the recovery, or else the end of the capture. -/
def spanEnd (group : List FlowPacket) (e : Episode) : Option ℚ :=
  if e.recovered then e.durationMs.map (e.startMs + ·) else lastMs group

theorem le_lastMs {group : List FlowPacket} {stop : ℚ} (h : lastMs group = some stop) :
    (∃ p ∈ group, p.timeMs = stop) ∧ ∀ p ∈ group, p.timeMs ≤ stop := by
  obtain ⟨hmem, hmax⟩ := List.max?_eq_some_iff.mp h
  obtain ⟨p, hp, htime⟩ := List.mem_map.mp hmem
  exact ⟨⟨p, hp, htime⟩, fun q hq => hmax _ (List.mem_map_of_mem hq)⟩

/-- The difference of two times has three decimals. -/
theorem StreamClock.roundTo_sub {group : List FlowPacket} (h : StreamClock group)
    {p q : FlowPacket} (hp : p ∈ group) (hq : q ∈ group) :
    roundTo 3 (p.timeMs - q.timeMs) = p.timeMs - q.timeMs := by
  obtain ⟨n, hn⟩ := h.milli p hp
  obtain ⟨m, hm⟩ := h.milli q hq
  apply roundTo_of_milli (n := n - m)
  rw [hn, hm]
  push_cast
  ring

/-- What the report of a stall says on the stream's clock. -/
theorem StreamClock.episode_spec {group : List FlowPacket} (h : StreamClock group)
    {closed : FlowPacket} (hmem : closed ∈ group) {s : Stall} (hstart : s.startMs = closed.timeMs)
    (hrecovered : s.recoveredAt =
      recoveryAfter group closed.direction.side closed.timeMs (origin group))
    (side : Side) (index : ℕ) :
    let e := episodeOf side (captureEnd group) index s
    (∀ p ∈ group, Reopening closed p → (∀ q ∈ group, Reopening closed q → p.timeMs ≤ q.timeMs) →
      spanEnd group e = some p.timeMs ∧
        (e.reported = true ↔ closed.timeMs + minStallMs ≤ p.timeMs)) ∧
    ((∀ p ∈ group, ¬ Reopening closed p) → spanEnd group e = lastMs group ∧
      (e.reported = true ↔ captureTimes group = [] ∨
        ∃ p ∈ group, closed.timeMs + minStallMs ≤ p.timeMs)) := by
  cases hr : recoveryAfter group closed.direction.side closed.timeMs (origin group) with
  | some r =>
    rw [hr] at hrecovered
    obtain ⟨⟨q, hq, hreopening, rfl⟩, hleast⟩ := h.recovery hr
    refine ⟨fun p hp hpopens hpleast => ?_, fun hnone => absurd hreopening (hnone q hq)⟩
    have hsame : p.timeMs = q.timeMs := le_antisymm (hpleast q hq hreopening) (hleast p hp hpopens)
    simp only [episodeOf, spanEnd, Episode.reported, hrecovered, hstart, Option.map_some,
      h.roundTo_sub hq hmem, hsame, decide_eq_true_eq, Option.isSome_some, if_true]
    exact ⟨by rw [add_sub_cancel], by rw [le_sub_iff_add_le']⟩
  | none =>
    rw [hr] at hrecovered
    refine ⟨fun p hp hpopens _ => absurd hpopens (h.no_recovery hr p hp), fun _ => ⟨?_, ?_⟩⟩
    · simp [spanEnd, episodeOf, hrecovered]
    · cases hend : captureEnd group with
      | none => simp [Episode.reported, episodeOf, hrecovered, captureEnd_eq_none_iff.mp hend]
      | some endMs =>
        obtain ⟨⟨q, hq, rfl⟩, hlast⟩ := h.ends endMs hend
        have hne : captureTimes group ≠ [] := by
          intro hnil
          rw [captureEnd_eq_none_iff.mpr hnil] at hend
          cases hend
        simp only [Episode.reported, episodeOf, hrecovered, hstart, Option.map_some,
          h.roundTo_sub hq hmem, decide_eq_true_eq, hne, false_or]
        constructor
        · intro hlong
          exact ⟨q, hq, by linarith⟩
        · rintro ⟨p, hp, hlong⟩
          have hle := hlast p hp
          linarith

/-- Where an episode starts and where its span ends. -/
theorem StreamClock.mem_episodes {group : List FlowPacket} (h : StreamClock group) {e : Episode}
    (he : e ∈ episodes group) : ∃ closed ∈ group, Closes closed ∧ e.startMs = closed.timeMs ∧
      ((∃ p ∈ group, Reopening closed p ∧
          (∀ q ∈ group, Reopening closed q → p.timeMs ≤ q.timeMs) ∧
          spanEnd group e = some p.timeMs ∧ closed.timeMs + minStallMs ≤ p.timeMs) ∨
        ((∀ p ∈ group, ¬ Reopening closed p) ∧ spanEnd group e = lastMs group ∧
          (captureTimes group = [] ∨ ∃ p ∈ group, closed.timeMs + minStallMs ≤ p.timeMs))) := by
  obtain ⟨hreported, side, index, s, hs, rfl⟩ := Analysis.mem_episodes he
  obtain ⟨closed, hmem, hcloses, -, hstart, hrecovered⟩ := h.stall_start hs
  obtain ⟨hends, hopen⟩ := h.episode_spec hmem hstart hrecovered side index
  refine ⟨closed, hmem, hcloses, hstart, ?_⟩
  cases hr : recoveryAfter group closed.direction.side closed.timeMs (origin group) with
  | some r =>
    obtain ⟨⟨p, hp, hreopening, rfl⟩, hleast⟩ := h.recovery hr
    obtain ⟨hspan, hlong⟩ := hends p hp hreopening hleast
    exact .inl ⟨p, hp, hreopening, hleast, hspan, hlong.mp hreported⟩
  | none =>
    obtain ⟨hspan, hlong⟩ := hopen (h.no_recovery hr)
    exact .inr ⟨h.no_recovery hr, hspan, hlong.mp hreported⟩

/-- No packet lies inside a gap. -/
theorem outside_gap {group : List FlowPacket} {before after p : FlowPacket}
    (h : (before, after) ∈ laterPairs group) (hp : p ∈ group) :
    p.timeMs ≤ before.timeMs ∨ after.timeMs ≤ p.timeMs :=
  adjacent_split (inOrder_sortOn FlowPacket.timeMs group) (List.mem_of_mem_filter h)
    (mem_sortOn.mpr hp)

/-- A gap overlaps the span of an episode exactly when it is inside: the span starts and ends at
packets. -/
theorem StreamClock.overlap_iff {group : List FlowPacket} (h : StreamClock group)
    {before after : FlowPacket} (hpair : (before, after) ∈ laterPairs group) {e : Episode}
    (he : e ∈ episodes group) {stop : ℚ} (hstop : spanEnd group e = some stop) :
    max before.timeMs e.startMs < min after.timeMs stop ↔
      e.startMs ≤ before.timeMs ∧ after.timeMs ≤ stop := by
  obtain ⟨-, -, hlt⟩ := mem_laterPairs hpair
  obtain ⟨closed, hmem, -, hstart, hends⟩ := h.mem_episodes he
  have hend : ∃ p ∈ group, p.timeMs = stop := by
    rcases hends with ⟨p, hp, -, -, hspan, -⟩ | ⟨-, hspan, -⟩
    · rw [hspan] at hstop
      exact ⟨p, hp, Option.some.inj hstop⟩
    · exact (le_lastMs (hspan ▸ hstop)).1
  obtain ⟨p, hp, rfl⟩ := hend
  rw [hstart, max_lt_iff, lt_min_iff, lt_min_iff]
  constructor
  · rintro ⟨⟨-, hbefore⟩, hafter, -⟩
    refine ⟨?_, ?_⟩
    · rcases outside_gap hpair hmem with hle | hge
      · exact hle
      · exact absurd hafter (not_lt.mpr hge)
    · rcases outside_gap hpair hp with hle | hge
      · exact absurd hbefore (not_lt.mpr hle)
      · exact hge
  · rintro ⟨hbefore, hafter⟩
    exact ⟨⟨hlt, hlt.trans_le hafter⟩, hbefore.trans_lt hlt,
      hbefore.trans_lt (hlt.trans_le hafter)⟩

/-- A gap is stalled across exactly when it is inside the span of an episode. -/
theorem StreamClock.stalledAcross_iff {group : List FlowPacket} (h : StreamClock group)
    {before after : FlowPacket} (hpair : (before, after) ∈ laterPairs group) :
    StalledAcross group before ↔ ∃ e ∈ episodes group, ∃ stop, spanEnd group e = some stop ∧
      e.startMs ≤ before.timeMs ∧ after.timeMs ≤ stop := by
  obtain ⟨-, hafter, hlt⟩ := mem_laterPairs hpair
  constructor
  · rintro ⟨closed, hmem, hcloses, hle, hreopenings, hlasts⟩
    obtain ⟨s, hs, hsle, hslt⟩ := h.closes_within hmem hcloses
    obtain ⟨first, hfirst, -, hside, hstart, hrecovered⟩ := h.stall_start hs
    have hspec := h.episode_spec hfirst hstart hrecovered closed.direction.side
    rw [hstart] at hsle
    -- the stall has the reopenings that come after `closed`
    have hlater : ∀ p, Reopening closed p → Reopening first p := fun p ⟨hp, hopens, hplt⟩ =>
      ⟨hp.trans hside.symm, hopens, hsle.trans_lt hplt⟩
    cases hr : recoveryAfter group first.direction.side first.timeMs (origin group) with
    | some r =>
      obtain ⟨⟨p, hp, hreopening, rfl⟩, hleast⟩ := h.recovery hr
      have hpclosed : Reopening closed p :=
        ⟨hreopening.1.trans hside, hreopening.2.1, hslt _ (hrecovered.trans hr)⟩
      obtain ⟨hbefore, hlong⟩ := hreopenings p hp hpclosed
      obtain ⟨index, he⟩ := exists_mem_episodes hs fun index =>
        ((hspec index).1 p hp hreopening hleast).2.mpr (by linarith)
      refine ⟨_, he, p.timeMs, ((hspec index).1 p hp hreopening hleast).1, ?_, ?_⟩
      · exact hstart.le.trans (hsle.trans hle)
      · exact (outside_gap hpair hp).resolve_left (not_le.mpr hbefore)
    | none =>
      have hnone := h.no_recovery hr
      have hunended : captureTimes group = [] ∨ ∃ p ∈ group, first.timeMs + minStallMs ≤ p.timeMs := by
        rcases hlasts with ⟨p, hp, hreopening⟩ | hunknown | ⟨p, hp, hlong⟩
        · exact absurd (hlater p hreopening) (hnone p hp)
        · exact .inl hunknown
        · exact .inr ⟨p, hp, by linarith⟩
      obtain ⟨index, he⟩ := exists_mem_episodes hs fun index =>
        ((hspec index).2 hnone).2.mpr hunended
      obtain ⟨stop, hstop⟩ : ∃ stop, lastMs group = some stop := by
        rw [← Option.ne_none_iff_exists', lastMs, Ne, List.max?_eq_none_iff, List.map_eq_nil_iff]
        exact List.ne_nil_of_mem hmem
      refine ⟨_, he, stop, ((hspec index).2 hnone).1.trans hstop, ?_, (le_lastMs hstop).2 after hafter⟩
      exact hstart.le.trans (hsle.trans hle)
  · rintro ⟨e, he, stop, hstop, hle, hge⟩
    obtain ⟨closed, hmem, hcloses, hstart, hends⟩ := h.mem_episodes he
    rw [hstart] at hle
    refine ⟨closed, hmem, hcloses, hle, ?_⟩
    rcases hends with ⟨p, hp, hreopening, hleast, hspan, hlong⟩ | ⟨hnone, -, hlasts⟩
    · rw [hspan] at hstop
      obtain rfl := Option.some.inj hstop
      refine ⟨fun q hq hqopens => ?_, .inl ⟨p, hp, hreopening⟩⟩
      have hqle := hleast q hq hqopens
      exact ⟨hlt.trans_le (hge.trans hqle), hlong.trans hqle⟩
    · exact ⟨fun q hq hqopens => absurd hqopens (hnone q hq), .inr hlasts⟩

/-! ## Agreement -/

/-- No gap that smart skip labels as compressed overlaps with positive length the span of an episode
that the window analysis reports. -/
def StallsRespected (group : List FlowPacket) (speed : ℚ) : Prop :=
  ∀ g ∈ (analyzeGaps group .smart speed playbackTriggerS).gaps, g.label.isSome = true →
    ∀ e ∈ (receiverWindowAnalysis group).episodes, ∀ stop, spanEnd group e = some stop →
      ¬ max g.startMs e.startMs < min g.endMs stop

/-- On a stream in time order the two analyses agree exactly when something at the ends explains each
gap that is long enough to compress and that an endpoint is stalled across. -/
theorem stalls_respected_iff {group : List FlowPacket} (h : TimeOrderedStream group) (speed : ℚ) :
    StallsRespected group speed ↔ ∀ before after, (before, after) ∈ laterPairs group →
      playbackTriggerS ≤ playbackS speed before after → StalledAcross group before →
      Explained group before after := by
  have hclock := h.clock
  have htimes : ∀ {before after}, (before, after) ∈ laterPairs group →
      roundTo 3 before.timeMs = before.timeMs ∧ roundTo 3 after.timeMs = after.timeMs := by
    intro before after hpair
    obtain ⟨hbefore, hafter, -⟩ := mem_laterPairs hpair
    obtain ⟨n, hn⟩ := hclock.milli before hbefore
    obtain ⟨m, hm⟩ := hclock.milli after hafter
    exact ⟨roundTo_of_milli hn, roundTo_of_milli hm⟩
  rw [StallsRespected, receiverWindowAnalysis_episodes, analyzeGaps_gaps]
  constructor
  · intro hrespected before after hpair hlong hstalled
    by_contra hunexplained
    obtain ⟨e, he, stop, hstop, hinside⟩ := (hclock.stalledAcross_iff hpair).mp hstalled
    obtain ⟨-, hlabel⟩ := gapOf_smart speed playbackTriggerS hpair
    refine hrespected _ (List.mem_map_of_mem hpair) ?_ e he stop hstop ?_
    · rw [Option.isSome_iff_ne_none, Ne, hlabel]
      rintro (hexplained | hshort)
      · exact hunexplained hexplained
      · exact absurd hlong (not_le.mpr hshort)
    · obtain ⟨hbefore, hafter⟩ := htimes hpair
      have hover := (hclock.overlap_iff hpair he hstop).mpr hinside
      rw [← hbefore, ← hafter] at hover
      exact hover
  · intro hexplained g hg hlabelled e he stop hstop hover
    obtain ⟨⟨before, after⟩, hpair, rfl⟩ := List.mem_map.mp hg
    obtain ⟨-, hlabel⟩ := gapOf_smart speed playbackTriggerS hpair
    rw [Option.isSome_iff_ne_none, Ne, hlabel, not_or, not_lt] at hlabelled
    obtain ⟨hunexplained, hlong⟩ := hlabelled
    obtain ⟨hbefore, hafter⟩ := htimes hpair
    change max (roundTo 3 before.timeMs) _ < min (roundTo 3 after.timeMs) _ at hover
    rw [hbefore, hafter] at hover
    have hinside := (hclock.overlap_iff hpair he hstop).mp hover
    exact hunexplained (hexplained before after hpair hlong
      ((hclock.stalledAcross_iff hpair).mpr ⟨e, he, stop, hstop, hinside⟩))

/-- A client that closes its window and opens it eleven seconds later; the server is heard of twice in
between. -/
def quietStall : List Packet :=
  [ { plainAck with window := 0, ts := 0 },
    { serverAck with frame := 2, ts := 1 },
    { serverAck with frame := 3, ts := 10 },
    { plainAck with frame := 4, ts := 11 } ]

/-- Nine seconds of an eleven-second stall are compressed as idle: the window is still closed, but the
packets at the ends of the gap are the server's. -/
theorem stall_compressed :
    TimeOrderedStream (accountingInput quietStall 0) ∧
    ((analyzeGaps (accountingInput quietStall 0) .smart 1 playbackTriggerS).gaps[1]?).map
      (fun g => (g.startMs, g.endMs, g.label)) =
        some (1000, 10000, some "Idle interval compressed · 9.0 s") ∧
    (receiverWindowAnalysis (accountingInput quietStall 0)).episodes.map Episode.told =
      [⟨0, some 11000, 1, true⟩] ∧
    ¬ StallsRespected (accountingInput quietStall 0) 1 := by
  have hgap : ((analyzeGaps (accountingInput quietStall 0) .smart 1
      playbackTriggerS).gaps[1]?).map (fun g => (g.startMs, g.endMs, g.label)) =
        some (1000, 10000, some "Idle interval compressed · 9.0 s") := by decide +kernel
  have hepisodes : (receiverWindowAnalysis (accountingInput quietStall 0)).episodes.map
      Episode.told = [⟨0, some 11000, 1, true⟩] := by decide +kernel
  refine ⟨⟨quietStall, 0, ?_, .inl rfl⟩, hgap, hepisodes, fun hrespected => ?_⟩
  · have horder : (streamPackets quietStall 0).Pairwise fun a b => a.ts ≤ b.ts := by
      decide +kernel
    exact horder
  · obtain ⟨g, hg, hvalues⟩ := Option.map_eq_some_iff.mp hgap
    simp only [Prod.mk.injEq] at hvalues
    obtain ⟨hstart, hend, hlabel⟩ := hvalues
    obtain ⟨e, he, htold⟩ := List.mem_map.mp (hepisodes ▸ List.mem_singleton_self _)
    obtain ⟨hestart, heduration, -, herecovered⟩ := Told.mk.inj htold
    have hspan : spanEnd (accountingInput quietStall 0) e = some 11000 := by
      rw [spanEnd, herecovered, if_pos rfl, heduration, hestart, Option.map_some, zero_add]
    refine hrespected g (List.mem_of_getElem? hg) (hlabel ▸ rfl) e he 11000 hspan ?_
    rw [hstart, hend, hestart]
    norm_num

/-- A stall with nothing between its two ends. -/
def bareStall : List Packet :=
  [ { plainAck with window := 0, ts := 0 }, { plainAck with frame := 2, ts := 11 } ]

/-- The only gap starts with the closed window, which explains it. -/
theorem stalls_respected_iff_bare : StallsRespected (accountingInput bareStall 0) 1 := by
  have horder : (streamPackets bareStall 0).Pairwise fun a b => a.ts ≤ b.ts := by decide +kernel
  have hclosed : ∀ ab ∈ laterPairs (accountingInput bareStall 0),
      ∃ p ∈ gapWindow (accountingInput bareStall 0) ab.1 ab.2,
        p.windowPresent = true ∧ p.window = 0 := by decide +kernel
  apply (stalls_respected_iff ⟨bareStall, 0, horder, .inl rfl⟩ 1).mpr
  intro before after hpair _ _
  exact .inl (hclosed (before, after) hpair)

end PacketTrain.Analysis
