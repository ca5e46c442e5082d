import PacketTrain.Browser.Player
import PacketTrain.Laws.Analysis.GapLabels
import PacketTrain.Laws.Analysis.Handshake
import PacketTrain.Laws.Decode.OnePass
import PacketTrain.Lib.Fallible
import PacketTrain.Lib.System

/-!
# What the player does

The flows of bootstrap answers are flows that the player can take (`exists_replayFlow_bootstrap`).

Over every order of turns, with ticks of any length, skips that end late and replay models that come late.
`Kept` is the invariant of every run: the clock stays in the range of the flow, which is that of the
animations of its records, and a skip under way has its end under way. `player_keeps` reads it off.

A skip that ends after the player was stopped and started again, or a replay model of another flow, moves the
clock over packets. `Undisturbed` leaves these out, `Smooth` is the invariant then, and `skips_pass_nothing`
says that a skip passes over no packet.
-/

namespace PacketTrain.Browser

open Analysis Decode Fallible PacketTrain.System

/-! ## The flows of the server -/

/-- The page has the flow of an answer. -/
structure ReplayFlow.Shows (flow : ReplayFlow) (answer : FlowAnswer) : Prop where
  packets : flow.packets = answer.detail.packets
  captureSide : flow.captureSide = answer.handshake.captureSide
  rttMs : flow.rttMs = answer.handshake.rttMs
  playback : flow.playback = answer.playback

theorem detailOf_eq_ok {packets : List Packet} {selected : ℕ} {detail : StreamDetail}
    {handshake : HandshakeDetail} (h : detailOf packets selected = .ok (detail, handshake)) :
    streamDetail packets selected = some detail ∧ streamHandshake packets selected = some handshake := by
  rw [detailOf] at h
  split at h
  · next hdetail hhandshake =>
    cases h
    exact ⟨hdetail, hhandshake⟩
  · cases h

/-- The legs of a handshake are in the order of the capture, and only samples above zero are looked at. -/
theorem rtt_nonneg {packets : List Packet} {selected : ℕ} {handshake : HandshakeDetail}
    (h : streamHandshake packets selected = some handshake) {rtt : ℚ} (hrtt : handshake.rttMs = some rtt) :
    0 ≤ rtt := by
  cases hstream : streamPackets packets selected with
  | nil =>
    rw [(handshake_of_nil hstream).1] at h
    cases h
  | cons first rest =>
    rw [streamHandshake_eq hstream] at h
    cases h
    obtain ⟨exact, hof, rfl⟩ := Option.map_eq_some_iff.mp hrtt
    have hnonneg : 0 ≤ exact := by
      generalize (positionEvidence _ _ _).side = side at hof
      cases side with
      | none =>
        rw [rttOf] at hof
        split at hof
        · next rtt hget =>
          cases hof
          have hmem := mem_sortOn.mp (List.mem_of_getElem? hget)
          exact (of_decide_eq_true (List.mem_filter.mp hmem).2).1.le
        · cases hof
      | some side =>
        cases side with
        | client =>
          obtain ⟨syn, hsyn, hof⟩ := Option.bind_eq_some_iff.mp hof
          obtain ⟨synack, hsynack, hof⟩ := Option.bind_eq_some_iff.mp hof
          cases hof
          rw [hsyn, synackOf_eq_some] at hsynack
          obtain ⟨-, -, -, hlater⟩ := hsynack.1
          exact sub_nonneg_of_le hlater.le
        | server =>
          obtain ⟨third, hthird, hof⟩ := Option.bind_eq_some_iff.mp hof
          obtain ⟨synack, hsynack, hof⟩ := Option.bind_eq_some_iff.mp hof
          cases hof
          rw [hsynack, thirdOf_eq_some] at hthird
          obtain ⟨-, -, -, hlater⟩ := hthird.1
          exact sub_nonneg_of_le hlater.le
    have hzero : roundTo 2 0 = 0 := by decide +kernel
    exact hzero ▸ roundTo_mono 2 hnonneg

/-- Every answer that has a flow has one that the player can take. -/
theorem exists_replayFlow {packets : List Packet} {selected : ℕ} {detail : StreamDetail}
    {handshake : HandshakeDetail} (h : detailOf packets selected = .ok (detail, handshake)) (mode : Mode)
    (speed : ℚ) :
    ∃ flow : ReplayFlow, flow.Shows ⟨detail, handshake, some (timeline detail.packets mode speed)⟩ := by
  obtain ⟨hdetail, hhandshake⟩ := detailOf_eq_ok h
  have hne : detail.packets ≠ [] := by
    rw [streamDetail] at hdetail
    split at hdetail
    · cases hdetail
    · next first rest hstream =>
      cases hdetail
      rw [accountingInput, hstream]
      exact List.cons_ne_nil _ _
  exact ⟨{
    packets := detail.packets
    captureSide := handshake.captureSide
    rttMs := handshake.rttMs
    playback := some (timeline detail.packets mode speed)
    packets_ne_nil := hne
    rtt_nonneg := fun _ hrtt => rtt_nonneg hhandshake hrtt
    playback_eq := fun _ hmodel => ⟨mode, speed, (Option.some.inj hmodel).symm⟩ }, rfl, rfl, rfl, rfl⟩

/-- So the page can play what a bootstrap answer shows. -/
theorem exists_replayFlow_bootstrap {maxPackets : ℕ} {quantize : ℚ → ℚ} {includeStreams : Bool}
    {index : IndexState} {run : TsharkRun} {selected : ℕ} {answer : BootstrapAnswer}
    (h : bootstrap maxPackets quantize includeStreams index run selected = .ok (.answered answer)) :
    ∃ flow : ReplayFlow, flow.Shows answer.flow := by
  obtain ⟨-, h⟩ := bootstrap_eq_answered.mp h
  simp only [bootstrapAnswer, bind_eq_ok, ite_error_eq_ok, Except.ok.injEq] at h
  obtain ⟨_, -, _, -, packets, -, _, -, -, ⟨detail, handshake⟩, hdetail, rfl⟩ := h
  exact exists_replayFlow hdetail _ _

/-! ## The range of the clock -/

/-- What every turn keeps. -/
structure Player.Kept (p : Player) : Prop where
  ordered : p.timeStart ≤ p.duration
  clock : p.timeStart ≤ p.clock ∧ p.clock ≤ p.duration
  /-- Only an enabled player plays. -/
  timer : p.timer = true → p.enabled = true
  /-- A skip under way ends: the timer is set, and the timeout that ends the skip is under way. -/
  skipping : p.skipping = true → p.timer = true ∧ p.waiting ≠ []
  travel : p.enabled = true → 0 ≤ p.travel
  /-- The records of the flow are those of the animation. -/
  events : p.enabled = true → ∀ flow, p.flow = some flow →
    p.events = flow.packets.map fun q : FlowPacket => ⟨q.frame, startOf p.captureSide p.travel q⟩
  /-- The range begins with the first animation of a record, or at zero when that is earlier. -/
  first : p.enabled = true → ∀ flow, p.flow = some flow →
    IsLeast (insert 0 {t | ∃ q ∈ flow.packets, startOf p.captureSide p.travel q = t}) p.timeStart
  /-- It ends with the last. -/
  last : p.enabled = true → ∀ flow, p.flow = some flow →
    IsGreatest {t | ∃ q ∈ flow.packets, endOf p.captureSide p.travel q = t} p.duration

theorem startOf_le {captureSide : Option Side} {travel : ℚ} (h : 0 ≤ travel) (q : FlowPacket) :
    startOf captureSide travel q ≤ q.timeMs := by
  rw [startOf]
  split <;> linarith

theorem le_endOf {captureSide : Option Side} {travel : ℚ} (h : 0 ≤ travel) (q : FlowPacket) :
    q.timeMs ≤ endOf captureSide travel q := by
  rw [endOf]
  split <;> linarith

/-- `loadPlayback` touches the replay model and its requests only. -/
theorem loadPlayback_eq (p : Player) : ∃ playback loading,
    p.loadPlayback = { p with playback := playback, loading := loading } := by
  rw [Player.loadPlayback]
  repeat' split
  all_goals exact ⟨_, _, rfl⟩

/-- The first of the starts, or zero. -/
theorem isLeast_starts (packets : List FlowPacket) (captureSide : Option Side) (travel : ℚ) :
    IsLeast (insert 0 {t | ∃ q ∈ packets, startOf captureSide travel q = t})
      (min 0 ((packets.map (startOf captureSide travel)).min?.getD 0)) := by
  cases hmin : (packets.map (startOf captureSide travel)).min? with
  | none =>
    have hnil := List.map_eq_nil_iff.mp (List.min?_eq_none_iff.mp hmin)
    subst hnil
    simp
  | some first =>
    obtain ⟨hmem, hleast⟩ := List.min?_eq_some_iff.mp hmin
    obtain ⟨q, hq, hfirst⟩ := List.mem_map.mp hmem
    constructor
    · rcases min_choice 0 first with hzero | hmin
      · exact .inl hzero
      · exact .inr ⟨q, hq, hfirst.trans hmin.symm⟩
    · rintro t (rfl | ⟨q', hq', rfl⟩)
      · exact min_le_left _ _
      · exact (min_le_right _ _).trans (hleast _ (List.mem_map_of_mem hq'))

/-- The last of the ends. -/
theorem isGreatest_ends {packets : List FlowPacket} (hne : packets ≠ []) (captureSide : Option Side)
    (travel : ℚ) :
    IsGreatest {t | ∃ q ∈ packets, endOf captureSide travel q = t}
      ((packets.map (endOf captureSide travel)).max?.getD 0) := by
  cases hmax : (packets.map (endOf captureSide travel)).max? with
  | none => exact absurd (List.map_eq_nil_iff.mp (List.max?_eq_none_iff.mp hmax)) hne
  | some last =>
    obtain ⟨hmem, hgreatest⟩ := List.max?_eq_some_iff.mp hmax
    obtain ⟨q, hq, hlast⟩ := List.mem_map.mp hmem
    refine ⟨⟨q, hq, hlast⟩, ?_⟩
    rintro t ⟨q', hq', rfl⟩
    exact hgreatest _ (List.mem_map_of_mem hq')

/-- The round-trip time that is built with is above zero. -/
theorem pos_of_buildRtt {rttOverride rtt : ℚ} {flow : ReplayFlow}
    (h : buildRtt rttOverride flow = some rtt) : 0 < rtt := by
  rw [buildRtt] at h
  split at h
  · next hpos =>
    cases h
    exact hpos
  · obtain ⟨hrtt, hne⟩ := Option.filter_eq_some_iff.mp h
    exact lt_of_le_of_ne (flow.rtt_nonneg rtt hrtt) (Ne.symm (of_decide_eq_true hne))

namespace Player.Kept

variable {p : Player}

theorem initial : Player.initial.Kept where
  ordered := by norm_num [Player.initial]
  clock := by norm_num [Player.initial]
  timer := fun h => absurd h Bool.false_ne_true
  skipping := fun h => absurd h Bool.false_ne_true
  travel := fun h => absurd h Bool.false_ne_true
  events := fun h => absurd h Bool.false_ne_true
  first := fun h => absurd h Bool.false_ne_true
  last := fun h => absurd h Bool.false_ne_true

theorem setTime (h : p.Kept) (t : ℚ) : (p.setTime t).Kept where
  ordered := h.ordered
  clock := ⟨le_max_left _ _, max_le h.ordered (min_le_left _ _)⟩
  timer := h.timer
  skipping := h.skipping
  travel := h.travel
  events := h.events
  first := h.first
  last := h.last

theorem stop (h : p.Kept) : p.stop.Kept where
  ordered := h.ordered
  clock := h.clock
  timer := fun ht => absurd ht Bool.false_ne_true
  skipping := fun hs => absurd hs Bool.false_ne_true
  travel := h.travel
  events := h.events
  first := h.first
  last := h.last

theorem loadPlayback (h : p.Kept) : p.loadPlayback.Kept := by
  rw [Player.loadPlayback]
  repeat' split
  all_goals exact { h with }

theorem disabled (hordered : p.timeStart ≤ p.duration)
    (hclock : p.timeStart ≤ p.clock ∧ p.clock ≤ p.duration) (htimer : p.timer = false)
    (hskipping : p.skipping = false) : { p with enabled := false }.Kept where
  ordered := hordered
  clock := hclock
  timer := fun ht => absurd (htimer.symm.trans ht) Bool.false_ne_true
  skipping := fun hs => absurd (hskipping.symm.trans hs) Bool.false_ne_true
  travel := fun hen => absurd hen Bool.false_ne_true
  events := fun hen => absurd hen Bool.false_ne_true
  first := fun hen => absurd hen Bool.false_ne_true
  last := fun hen => absurd hen Bool.false_ne_true

/-- Every record lies in the range. -/
theorem range (h : p.Kept) (henabled : p.enabled = true) (flow : ReplayFlow) (hflow : p.flow = some flow)
    (q : FlowPacket) (hq : q ∈ flow.packets) :
    p.timeStart ≤ startOf p.captureSide p.travel q ∧ q.timeMs ≤ p.duration :=
  ⟨(h.first henabled flow hflow).2 (Set.mem_insert_of_mem _ ⟨q, hq, rfl⟩),
    (le_endOf (h.travel henabled) q).trans ((h.last henabled flow hflow).2 ⟨q, hq, rfl⟩)⟩

/-- What `build` computes is the range of the flow. -/
theorem arm {flow : ReplayFlow} (hflow : p.flow = some flow) (htimer : p.timer = false)
    (hskipping : p.skipping = false) {travel : ℚ} (htravel : 0 ≤ travel) : (p.arm flow travel).Kept := by
  obtain ⟨first, hfirst⟩ := List.exists_mem_of_ne_nil _ flow.packets_ne_nil
  have hleast := isLeast_starts flow.packets p.captureSide travel
  have hgreatest := isGreatest_ends flow.packets_ne_nil p.captureSide travel
  have hordered := (hleast.2 (Set.mem_insert_of_mem _ ⟨first, hfirst, rfl⟩)).trans
    ((startOf_le htravel first).trans
      ((le_endOf htravel first).trans (hgreatest.2 ⟨first, hfirst, rfl⟩)))
  exact
    { ordered := hordered
      clock := ⟨le_max_left _ _, max_le hordered (min_le_left _ _)⟩
      timer := fun ht => absurd (htimer.symm.trans ht) Bool.false_ne_true
      skipping := fun hs => absurd (hskipping.symm.trans hs) Bool.false_ne_true
      travel := fun _ => htravel
      events := by
        intro _ flow' hflow'
        cases hflow.symm.trans hflow'
        rfl
      first := by
        intro _ flow' hflow'
        cases hflow.symm.trans hflow'
        exact hleast
      last := by
        intro _ flow' hflow'
        cases hflow.symm.trans hflow'
        exact hgreatest }

theorem build (hordered : p.timeStart ≤ p.duration)
    (hclock : p.timeStart ≤ p.clock ∧ p.clock ≤ p.duration) {flow : ReplayFlow}
    (hflow : p.flow = some flow) (autoSpeed : ℚ) : (p.build flow autoSpeed).Kept := by
  rw [Player.build]
  obtain ⟨playback, loading, hload⟩ := loadPlayback_eq
    { p.stop with captureSide := p.side.or flow.captureSide, events := [], speed := autoSpeed }
  generalize hq : Player.loadPlayback _ = q at hload
  have hflow' : q.flow = some flow := by rw [hload]; exact hflow
  have htimer : q.timer = false := by rw [hload]; rfl
  have hskipping : q.skipping = false := by rw [hload]; rfl
  split
  · next rtt hside hrtt => exact arm hflow' htimer hskipping (half_pos (pos_of_buildRtt hrtt)).le
  · refine disabled ?_ ?_ htimer hskipping
    · rw [hload]; exact hordered
    · rw [hload]; exact hclock

/-- A tick enters an interval, and the end of the skip is under way; or it moves the clock, and may stop. -/
theorem tick (h : p.Kept) (htimer : p.timer = true) (delta : ℚ) : (p.tick delta).Kept := by
  rw [Player.tick]
  cases p.gapAhead (p.clock + delta) with
  | some gap =>
    exact { h.setTime gap.startMs with
      timer := fun _ => h.timer htimer
      skipping := fun _ => ⟨htimer, List.append_ne_nil_of_right_ne_nil _ (List.cons_ne_nil _ _)⟩ }
  | none =>
    dsimp only
    split
    · exact (h.setTime _).stop
    · exact h.setTime _

/-- The end of a skip. Where the timer is not set there is no skip to end. -/
theorem skipEnds (h : p.Kept) (k : ℕ) (gap : Skip) :
    (Player.skipEnds gap { p with waiting := p.waiting.eraseIdx k }).Kept := by
  rw [Player.skipEnds]
  split
  · exact { h.setTime gap.endMs with skipping := fun hs => absurd hs Bool.false_ne_true }
  · next htimer =>
    exact { h with skipping := fun hs => absurd (h.skipping hs).1 htimer }

theorem play (h : p.Kept) (henabled : p.enabled = true) : p.play.Kept := by
  have hset : ∀ {q : Player}, q.Kept → q.enabled = true → { q with timer := true }.Kept := fun hq hen =>
    { hq with timer := fun _ => hen, skipping := fun hs => ⟨rfl, (hq.skipping hs).2⟩ }
  rw [Player.play]
  split
  · exact h.stop
  · dsimp only
    split
    · exact hset (h.setTime _) henabled
    · exact hset h henabled

/-- THE STEP: every turn keeps the invariant. -/
theorem turn (h : p.Kept) {p' : Player} {t : PlayTurn} (hturn : p.turn t = some p') : p'.Kept := by
  cases t with
  | install flow autoSpeed =>
    cases flow with
    | none =>
      cases Option.some.inj hturn
      exact { h with events := by simp, first := by simp, last := by simp }
    | some flow =>
      cases Option.some.inj hturn
      exact build (p := { p with flow := some flow }) h.ordered h.clock rfl autoSpeed
  | options side rttOverride autoSpeed =>
    cases hflow : p.flow with
    | none =>
      simp only [Player.turn, hflow] at hturn
      cases Option.some.inj hturn
      exact { h with events := by simp, first := by simp, last := by simp }
    | some flow =>
      simp only [Player.turn, hflow] at hturn
      cases Option.some.inj hturn
      exact build (p := { p with flow := some flow, side := side, rttOverride := rttOverride })
        h.ordered h.clock rfl autoSpeed
  | leave =>
    cases Option.some.inj hturn
    exact disabled (p := { p.stop with flow := none, selection := none }) h.ordered h.clock rfl rfl
  | load =>
    cases Option.some.inj hturn
    exact h.stop
  | play =>
    obtain ⟨henabled, hturn⟩ := Option.ite_none_right_eq_some.mp hturn
    cases Option.some.inj hturn
    exact h.play henabled
  | tick delta =>
    obtain ⟨⟨htimer, -⟩, hturn⟩ := Option.ite_none_right_eq_some.mp hturn
    cases Option.some.inj hturn
    exact h.tick htimer delta
  | skipEnds k =>
    cases hgap : p.waiting[k]? with
    | none => simp only [Player.turn, hgap, reduceCtorEq] at hturn
    | some gap =>
      simp only [Player.turn, hgap] at hturn
      cases Option.some.inj hturn
      exact h.skipEnds k gap
  | step =>
    obtain ⟨-, hturn⟩ := Option.ite_none_right_eq_some.mp hturn
    cases Option.some.inj hturn
    exact h.stop.setTime _
  | scrub t =>
    cases Option.some.inj hturn
    exact h.stop.setTime t
  | packet q =>
    cases Option.some.inj hturn
    exact h.stop.setTime _
  | mark q =>
    cases Option.some.inj hturn
    exact (h.setTime _).stop
  | phase startMs durationMs =>
    cases Option.some.inj hturn
    exact { h.stop.setTime (max p.timeStart startMs) with }
  | drag lo hi =>
    cases Option.some.inj hturn
    exact { h with }
  | drop lo hi =>
    cases Option.some.inj hturn
    exact { h.setTime lo with }
  | clear =>
    cases Option.some.inj hturn
    exact { h with }
  | expand startMs =>
    cases Option.some.inj hturn
    exact { h with }
  | mode mode =>
    cases Option.some.inj hturn
    exact loadPlayback { h with }
  | speed speed =>
    cases Option.some.inj hturn
    exact loadPlayback { h with }
  | model k ok =>
    cases hrequest : p.loading[k]? with
    | none => simp only [Player.turn, hrequest, reduceCtorEq] at hturn
    | some request =>
      simp only [Player.turn, hrequest] at hturn
      cases Option.some.inj hturn
      exact { h with }

end Player.Kept

/-! ## Ticks -/

/-- A gap ahead lies beyond the clock and within the tick. -/
theorem lt_of_nextCompressedAfter {playback : Option Timeline} {t : ℚ} {gap : Skip}
    (h : nextCompressedAfter playback t = some gap) :
    t < gap.startMs ∧ ∃ model, playback = some model ∧ gap ∈ skipsOf model := by
  cases playback with
  | none => cases h
  | some model =>
    have hmem := mem_sortOn.mp (List.mem_of_head? h)
    obtain ⟨hgap, hlt⟩ := List.mem_filter.mp hmem
    exact ⟨of_decide_eq_true hlt, model, rfl, hgap⟩

theorem of_gapAhead {p : Player} {next : ℚ} {gap : Skip} (h : p.gapAhead next = some gap) :
    p.skipping = false ∧ nextCompressedAfter p.playback p.clock = some gap ∧ gap.startMs ≤ next := by
  rw [Player.gapAhead] at h
  split at h
  · cases h
  · next hskipping =>
    obtain ⟨hgap, hreach⟩ := Option.filter_eq_some_iff.mp h
    exact ⟨Bool.eq_false_iff.mpr hskipping, hgap, (of_decide_eq_true hreach).2⟩

/-- A tick moves the clock forward, and by no more than the time that passed. -/
theorem clock_tick {p : Player} (h : p.Kept) {delta : ℚ} (hdelta : 0 ≤ delta) :
    p.clock ≤ (p.tick delta).clock ∧ (p.tick delta).clock ≤ p.clock + delta := by
  have hset : ∀ t, p.clock ≤ t → t ≤ p.clock + delta →
      p.clock ≤ (p.setTime t).clock ∧ (p.setTime t).clock ≤ p.clock + delta := by
    intro t hlo hhi
    exact ⟨(le_min h.clock.2 hlo).trans (le_max_right _ _),
      max_le (h.clock.1.trans (hlo.trans hhi)) ((min_le_right _ _).trans hhi)⟩
  rw [Player.tick]
  cases hgap : p.gapAhead (p.clock + delta) with
  | some gap =>
    obtain ⟨-, hnext, hreach⟩ := of_gapAhead hgap
    exact hset _ (lt_of_nextCompressedAfter hnext).1.le hreach
  | none =>
    have hplain := hset (p.clock + delta) (le_add_of_nonneg_right hdelta) le_rfl
    dsimp only
    split
    · exact hplain
    · exact hplain

/-- THE PLAYER over every order of turns: the clock stays in the range of the flow, a tick moves it forward
by no more than the time that passed, and a skip under way has its end under way. It takes the flow of every
bootstrap answer. -/
theorem player_keeps {turns : List PlayTurn} {p : Player}
    (hrun : run Player.turn Player.initial turns = some p) :
    p.Kept ∧
      (∀ delta p', p.turn (.tick delta) = some p' → p.clock ≤ p'.clock ∧ p'.clock ≤ p.clock + delta) ∧
      ∀ maxPackets quantize includeStreams index tshark selected answer,
        bootstrap maxPackets quantize includeStreams index tshark selected = .ok (.answered answer) →
        ∃ flow : ReplayFlow, flow.Shows answer.flow ∧
          ∀ autoSpeed, ∃ p', p.turn (.install (some flow) autoSpeed) = some p' ∧ p'.Kept := by
  have hkept : p.Kept :=
    reachable_induction Player.Kept (fun _ _ _ h hturn => h.turn hturn) Player.Kept.initial ⟨turns, hrun⟩
  refine ⟨hkept, fun delta p' hturn => ?_, fun _ _ _ _ _ _ answer hanswer => ?_⟩
  · obtain ⟨⟨-, hdelta⟩, hturn⟩ := Option.ite_none_right_eq_some.mp hturn
    cases Option.some.inj hturn
    exact clock_tick hkept hdelta
  · obtain ⟨flow, hshows⟩ := exists_replayFlow_bootstrap hanswer
    exact ⟨flow, hshows, fun autoSpeed => ⟨_, rfl, hkept.turn (t := .install (some flow) autoSpeed) rfl⟩⟩

/-- Ten quiet seconds, captured near the server. -/
def quietFlow : ReplayFlow where
  packets := quietStream
  captureSide := some .server
  rttMs := some 50
  playback := some (timeline quietStream .smart 1)
  packets_ne_nil := by decide
  rtt_nonneg := fun _ h => Option.some.inj h ▸ by norm_num
  playback_eq := fun _ h => ⟨.smart, 1, (Option.some.inj h).symm⟩

/-- The player enters the quiet interval. -/
def quietSession : List PlayTurn := [.install (some quietFlow) 1, .play, .tick 10, .tick 20, .tick 5]

/-- What the examples of this module look at: the clock, and whether the player plays and skips. -/
def shownOf (p : Player) : ℚ × Bool × Bool := (p.clock, p.timer, p.skipping)

theorem exists_run_quietSession : ∃ p, run Player.turn Player.initial quietSession = some p ∧
    shownOf p = (5, true, true) ∧ p.flow.map ReplayFlow.packets = some quietStream := by
  have hsome : ((run Player.turn Player.initial quietSession).any fun p =>
      shownOf p = (5, true, true) ∧ p.flow.map ReplayFlow.packets = some quietStream) = true := by
    decide +kernel
  obtain ⟨p, hp, hq⟩ := (Option.any_eq_true _ _).mp hsome
  exact ⟨p, hp, of_decide_eq_true hq⟩

/-- The law at work: in the middle of a skip, and with an answer of the server to come. -/
theorem player_keeps_quiet : ∃ p, run Player.turn Player.initial quietSession = some p ∧
    shownOf p = (5, true, true) ∧ p.Kept ∧
    (∀ delta p', p.turn (.tick delta) = some p' → p.clock ≤ p'.clock ∧ p'.clock ≤ p.clock + delta) ∧
    ∃ answer, bootstrap 2 id true .unsupported bothRun 0 = .ok (.answered answer) ∧
      ∃ flow : ReplayFlow, flow.Shows answer.flow ∧
        ∀ autoSpeed, ∃ p', p.turn (.install (some flow) autoSpeed) = some p' ∧ p'.Kept := by
  obtain ⟨p, hrun, hshown, -⟩ := exists_run_quietSession
  obtain ⟨answer, hanswer, -⟩ : ∃ answer, bootstrap 2 id true .unsupported bothRun 0 =
      .ok (.answered answer) ∧ (BootstrapReply.answered answer).shown = some ([0], [1]) :=
    exists_answered (by decide +kernel)
  obtain ⟨hkept, htick, htakes⟩ := player_keeps hrun
  exact ⟨p, hrun, hshown, hkept, htick, answer, hanswer, htakes _ _ _ _ _ _ answer hanswer⟩

/-! ## Skips -/

/-- An interval of two milliseconds or more between two packets, with none strictly inside. -/
def Skip.Quiet (packets : List FlowPacket) (gap : Skip) : Prop :=
  ∃ before ∈ packets, ∃ after ∈ packets, gap.startMs = roundTo 3 before.timeMs ∧
    gap.endMs = roundTo 3 after.timeMs ∧ before.timeMs + 2 ≤ after.timeMs ∧
    ∀ q ∈ packets, q.timeMs ≤ before.timeMs ∨ after.timeMs ≤ q.timeMs

/-- A gap with a label is long at every speed: the speed counts as a thousandth at least. -/
theorem two_le_of_label {packets : List FlowPacket} {mode : Mode} {speed : ℚ}
    {ab : FlowPacket × FlowPacket} (hmode : mode ≠ .faithful)
    (h : (gapBetween packets mode speed playbackTriggerS ab).label.isSome = true) :
    ab.1.timeMs + 2 ≤ ab.2.timeMs := by
  obtain ⟨htrigger, -⟩ := (isSome_gapBetween hmode).mp h
  have hspeed : (1 : ℚ) / 1000 ≤ max speed (1 / 1000) := le_max_right _ _
  have hpos : (0 : ℚ) < max speed (1 / 1000) := lt_of_lt_of_le (by norm_num) hspeed
  rw [playbackS, playbackTriggerS, le_div_iff₀ hpos, capturedS] at htrigger
  linarith

/-- The replay compresses quiet intervals only. -/
theorem quiet_of_mem_skipsOf {packets : List FlowPacket} {mode : Mode} {speed : ℚ} {gap : Skip}
    (h : gap ∈ skipsOf (timeline packets mode speed)) : gap.Quiet packets := by
  obtain ⟨segment, hsegment, hskip⟩ := List.mem_filterMap.mp h
  obtain ⟨p, -, hsegment⟩ := List.mem_flatMap.mp hsegment
  rcases List.mem_cons.mp hsegment with rfl | hsegment
  · cases hskip
  obtain ⟨entry, hentry, hof⟩ := Option.bind_eq_some_iff.mp (Option.mem_toList.mp hsegment)
  obtain ⟨hentry, -⟩ := byStart_eq_some hentry
  rw [analyzeGaps_gaps] at hentry
  obtain ⟨ab, hab, rfl⟩ := List.mem_map.mp hentry
  obtain ⟨label, hlabel, rfl⟩ := Option.map_eq_some_iff.mp hof
  cases hskip
  obtain ⟨hbefore, hafter, -⟩ := mem_laterPairs hab
  have hmode : mode ≠ .faithful := by
    rintro rfl
    cases hlabel
  have hlong := two_le_of_label hmode (Option.isSome_iff_exists.mpr ⟨label, hlabel⟩)
  refine ⟨ab.1, hbefore, ab.2, hafter, ?_, ?_, hlong, ?_⟩
  · cases mode with
    | faithful => exact absurd rfl hmode
    | smart => rfl
    | fast => rfl
  · cases mode with
    | faithful => exact absurd rfl hmode
    | smart => rfl
    | fast => rfl
  · intro q hq
    exact adjacent_split (inOrder_sortOn _ _) (List.mem_filter.mp hab).1 (mem_sortOn.mpr hq)

/-- The range of a quiet interval on the clock of a flow that is built. -/
theorem Skip.Quiet.range {p : Player} (h : p.Kept) (henabled : p.enabled = true) {flow : ReplayFlow}
    (hflow : p.flow = some flow) {gap : Skip} (hquiet : gap.Quiet flow.packets) :
    gap.startMs ≤ p.duration ∧ gap.startMs ≤ gap.endMs := by
  obtain ⟨before, -, after, hafter, hstart, hend, hlong, -⟩ := hquiet
  have hduration := (h.range henabled flow hflow after hafter).2
  have herr := (abs_le.mp (abs_roundTo_sub_le 3 before.timeMs)).2
  refine ⟨?_, ?_⟩
  · rw [hstart]
    norm_num at herr
    linarith
  · rw [hstart, hend]
    exact roundTo_mono 3 (by linarith)

/-- A turn that leaves a skip alone: nothing starts the player or moves its clock while the end of a skip is
under way, and a replay model is that of the flow on the page. -/
def Undisturbed (p : Player) : PlayTurn → Prop
  | .play => p.timer = true ∨ p.waiting = []
  | .drop .. => p.timer = true → p.waiting = []
  | .model k _ => ∀ request ∈ p.loading[k]?,
      p.flow.map ReplayFlow.packets = some request.flow.packets
  | _ => True

instance (p : Player) : DecidablePred (Undisturbed p) := fun t => by
  cases t <;> dsimp only [Undisturbed] <;> infer_instance

/-- The replay model is of the flow. -/
def Player.OwnModel (p : Player) : Prop :=
  ∀ flow model, p.flow = some flow → p.playback = some model →
    ∃ mode speed, model = timeline flow.packets mode speed

/-- What undisturbed turns keep besides. -/
structure Player.Smooth (p : Player) : Prop extends p.Kept where
  model : p.OwnModel
  /-- While the player plays, the skip whose end is under way is the one it is in. -/
  waiting : p.timer = true → p.waiting = [] ∧ p.skipping = false ∨
    ∃ gap, p.waiting = [gap] ∧ p.skipping = true ∧
      ∀ flow, p.flow = some flow → gap.Quiet flow.packets ∧ gap.startMs ≤ p.clock

theorem ownModel_loadPlayback (p : Player) : p.loadPlayback.OwnModel := by
  rw [Player.loadPlayback]
  cases hflow : p.flow with
  | none =>
    intro flow model _ hplayback
    cases hplayback
  | some flow =>
    dsimp only
    cases hbuilt : flow.playback with
    | none =>
      intro flow' model _ hplayback
      cases hplayback
    | some built =>
      dsimp only
      split
      · intro flow' model hflow' hplayback
        cases Option.some.inj hplayback
        cases Option.some.inj hflow'
        exact flow.playback_eq _ hbuilt
      · intro flow' model _ hplayback
        cases hplayback

theorem build_eq (p : Player) (flow : ReplayFlow) (autoSpeed : ℚ) :
    (p.build flow autoSpeed).timer = false ∧ ∃ q : Player,
      (p.build flow autoSpeed).flow = q.loadPlayback.flow ∧
        (p.build flow autoSpeed).playback = q.loadPlayback.playback := by
  rw [Player.build]
  obtain ⟨playback, loading, hload⟩ := loadPlayback_eq
    { p.stop with captureSide := p.side.or flow.captureSide, events := [], speed := autoSpeed }
  generalize hq : Player.loadPlayback _ = q at hload
  have htimer : q.timer = false := by rw [hload]; rfl
  split
  · exact ⟨htimer, _, (congrArg Player.flow hq).symm, (congrArg Player.playback hq).symm⟩
  · exact ⟨htimer, _, (congrArg Player.flow hq).symm, (congrArg Player.playback hq).symm⟩

namespace Player.Smooth

variable {p : Player}

theorem initial : Player.initial.Smooth where
  toKept := Player.Kept.initial
  model := fun _ _ hflow => absurd hflow.symm (Option.some_ne_none _)
  waiting := fun htimer => absurd htimer Bool.false_ne_true

/-- A player that does not play. -/
theorem stopped (hkept : p.Kept) (hmodel : p.OwnModel) (htimer : p.timer = false) : p.Smooth where
  toKept := hkept
  model := hmodel
  waiting := fun ht => absurd (htimer.symm.trans ht) Bool.false_ne_true

/-- A player without a flow plays on with what it has. -/
theorem withoutFlow (h : p.Smooth) {q : Player} (hkept : q.Kept) (hflow : q.flow = none)
    (htimer : q.timer = p.timer) (hskipping : q.skipping = p.skipping)
    (hwaiting : q.waiting = p.waiting) : q.Smooth := by
  have hnone : ∀ flow, q.flow ≠ some flow := by
    intro flow hsome
    cases hflow.symm.trans hsome
  refine { hkept with model := fun flow _ hsome => absurd hsome (hnone flow), waiting := fun ht => ?_ }
  rcases h.waiting (htimer.symm.trans ht) with ⟨hempty, hidle⟩ | ⟨gap, hone, hskip, -⟩
  · exact .inl ⟨hwaiting.trans hempty, hskipping.trans hidle⟩
  · exact .inr ⟨gap, hwaiting.trans hone, hskipping.trans hskip, fun flow hsome => absurd hsome (hnone flow)⟩

theorem build {flow : ReplayFlow} {autoSpeed : ℚ} (hkept : (p.build flow autoSpeed).Kept) :
    (p.build flow autoSpeed).Smooth := by
  obtain ⟨htimer, q, hflow, hplayback⟩ := build_eq p flow autoSpeed
  refine stopped hkept (fun flow' model hflow' hplayback' => ?_) htimer
  exact ownModel_loadPlayback q flow' model (hflow ▸ hflow') (hplayback ▸ hplayback')

theorem loadPlayback (h : p.Smooth) : p.loadPlayback.Smooth := by
  obtain ⟨playback, loading, hload⟩ := loadPlayback_eq p
  have hmodel := ownModel_loadPlayback p
  have hkept := h.toKept.loadPlayback
  rw [hload] at hmodel hkept ⊢
  exact { hkept with model := hmodel, waiting := h.waiting }

theorem tick (h : p.Smooth) (htimer : p.timer = true) {delta : ℚ} (hdelta : 0 ≤ delta) :
    (p.tick delta).Smooth := by
  have hkept := h.toKept.tick htimer delta
  have hclock := (clock_tick h.toKept hdelta).1
  rw [Player.tick] at hkept hclock ⊢
  cases hgap : p.gapAhead (p.clock + delta) with
  | some gap =>
    rw [hgap] at hkept
    obtain ⟨hskipping, hnext, -⟩ := of_gapAhead hgap
    refine { hkept with model := h.model, waiting := fun _ => .inr ⟨gap, ?_, rfl, ?_⟩ }
    · rcases h.waiting htimer with ⟨hwaiting, -⟩ | ⟨_, -, hskip, -⟩
      · exact congrArg (· ++ [gap]) hwaiting
      · exact absurd (hskipping.symm.trans hskip) Bool.false_ne_true
    · intro flow hflow
      obtain ⟨-, model, hplayback, hmem⟩ := lt_of_nextCompressedAfter hnext
      obtain ⟨mode, speed, rfl⟩ := h.model flow model hflow hplayback
      have hquiet := quiet_of_mem_skipsOf hmem
      have hrange := hquiet.range h.toKept (h.timer htimer) hflow
      exact ⟨hquiet, (le_min hrange.1 le_rfl).trans (le_max_right _ _)⟩
  | none =>
    rw [hgap] at hkept hclock
    dsimp only at hkept hclock ⊢
    by_cases hlimit : (p.setTime (p.clock + delta)).limit ≤ (p.setTime (p.clock + delta)).clock
    · rw [if_pos hlimit] at hkept ⊢
      exact stopped hkept h.model rfl
    · rw [if_neg hlimit] at hkept hclock ⊢
      refine { hkept with model := h.model, waiting := fun _ => ?_ }
      rcases h.waiting htimer with hidle | ⟨gap, hwaiting, hskip, hof⟩
      · exact .inl hidle
      · exact .inr ⟨gap, hwaiting, hskip, fun flow hflow =>
          ⟨(hof flow hflow).1, (hof flow hflow).2.trans hclock⟩⟩

theorem skipEnds (h : p.Smooth) {k : ℕ} {gap : Skip} (hgap : p.waiting[k]? = some gap) :
    (Player.skipEnds gap { p with waiting := p.waiting.eraseIdx k }).Smooth := by
  have hkept := h.toKept.skipEnds k gap
  rw [Player.skipEnds] at hkept ⊢
  by_cases htimer : p.timer = true
  · rw [if_pos htimer] at hkept ⊢
    refine { hkept with model := h.model, waiting := fun _ => .inl ⟨?_, rfl⟩ }
    rcases h.waiting htimer with ⟨hwaiting, -⟩ | ⟨only, hwaiting, -, -⟩
    · exact (congrArg (·.eraseIdx k) hwaiting).trans rfl
    · have hk : k = 0 := by
        rw [hwaiting] at hgap
        have hlt := (List.getElem?_eq_some_iff.mp hgap).1
        rw [List.length_singleton] at hlt
        omega
      rw [hk, hwaiting]
      rfl
  · rw [if_neg htimer] at hkept ⊢
    exact stopped hkept h.model (Bool.eq_false_iff.mpr htimer)

/-- THE STEP: every undisturbed turn keeps it. -/
theorem turn (h : p.Smooth) {p' : Player} {t : PlayTurn} (hguard : Undisturbed p t)
    (hturn : p.turn t = some p') : p'.Smooth := by
  have hkept := h.toKept.turn hturn
  cases t with
  | install flow autoSpeed =>
    cases flow with
    | none =>
      cases Option.some.inj hturn
      exact withoutFlow h hkept rfl rfl rfl rfl
    | some flow =>
      cases Option.some.inj hturn
      exact build hkept
  | options side rttOverride autoSpeed =>
    cases hflow : p.flow with
    | none =>
      simp only [Player.turn, hflow] at hturn
      cases Option.some.inj hturn
      exact withoutFlow h hkept rfl rfl rfl rfl
    | some flow =>
      simp only [Player.turn, hflow] at hturn
      cases Option.some.inj hturn
      exact build hkept
  | leave =>
    cases Option.some.inj hturn
    exact stopped hkept (fun _ _ hflow => absurd hflow.symm (Option.some_ne_none _)) rfl
  | load =>
    cases Option.some.inj hturn
    exact stopped hkept h.model rfl
  | play =>
    obtain ⟨-, hturn⟩ := Option.ite_none_right_eq_some.mp hturn
    cases Option.some.inj hturn
    rw [Player.play] at hkept ⊢
    by_cases htimer : p.timer = true
    · rw [if_pos htimer] at hkept ⊢
      exact stopped hkept h.model rfl
    · rw [if_neg htimer] at hkept ⊢
      -- nothing is waiting, so no skip is under way
      have hwaiting := hguard.resolve_left htimer
      have hskipping : p.skipping = false := by
        refine Bool.eq_false_iff.mpr fun hskip => ?_
        exact (h.skipping hskip).2 hwaiting
      dsimp only at hkept ⊢
      by_cases hend : p.duration ≤ p.clock
      · rw [if_pos hend] at hkept ⊢
        exact { hkept with model := h.model, waiting := fun _ => .inl ⟨hwaiting, hskipping⟩ }
      · rw [if_neg hend] at hkept ⊢
        exact { hkept with model := h.model, waiting := fun _ => .inl ⟨hwaiting, hskipping⟩ }
  | tick delta =>
    obtain ⟨⟨htimer, hdelta⟩, hturn⟩ := Option.ite_none_right_eq_some.mp hturn
    cases Option.some.inj hturn
    exact h.tick htimer hdelta
  | skipEnds k =>
    cases hgap : p.waiting[k]? with
    | none => simp only [Player.turn, hgap, reduceCtorEq] at hturn
    | some gap =>
      simp only [Player.turn, hgap] at hturn
      cases Option.some.inj hturn
      exact h.skipEnds hgap
  | step =>
    obtain ⟨-, hturn⟩ := Option.ite_none_right_eq_some.mp hturn
    cases Option.some.inj hturn
    exact stopped hkept h.model rfl
  | scrub t =>
    cases Option.some.inj hturn
    exact stopped hkept h.model rfl
  | packet q =>
    cases Option.some.inj hturn
    exact stopped hkept h.model rfl
  | mark q =>
    cases Option.some.inj hturn
    exact stopped hkept h.model rfl
  | phase startMs durationMs =>
    cases Option.some.inj hturn
    exact stopped hkept h.model rfl
  | drag lo hi =>
    cases Option.some.inj hturn
    exact { hkept with model := h.model, waiting := h.waiting }
  | drop lo hi =>
    cases Option.some.inj hturn
    refine { hkept with model := h.model, waiting := fun htimer => .inl ⟨hguard htimer, ?_⟩ }
    exact Bool.eq_false_iff.mpr fun hskip => (h.skipping hskip).2 (hguard htimer)
  | clear =>
    cases Option.some.inj hturn
    exact { hkept with model := h.model, waiting := h.waiting }
  | expand startMs =>
    cases Option.some.inj hturn
    exact { hkept with model := h.model, waiting := h.waiting }
  | mode mode =>
    cases Option.some.inj hturn
    exact loadPlayback { h with }
  | speed speed =>
    cases Option.some.inj hturn
    exact loadPlayback { h with }
  | model k ok =>
    cases hrequest : p.loading[k]? with
    | none => simp only [Player.turn, hrequest, reduceCtorEq] at hturn
    | some request =>
      simp only [Player.turn, hrequest] at hturn
      cases Option.some.inj hturn
      refine { hkept with model := fun flow model hflow hplayback => ?_, waiting := h.waiting }
      have hsame := hguard request hrequest
      rw [show p.flow = some flow from hflow, Option.map_some] at hsame
      cases ok with
      | false => cases hplayback
      | true => exact ⟨request.mode, request.speed, by
          rw [Option.some.inj hsame]
          exact (Option.some.inj hplayback).symm⟩

end Player.Smooth

/-! ## What a skip passes over -/

/-- The end of a skip passes over no packet of the flow, up to the half microsecond that rounding the ends
of an interval may cost. -/
def PassesNothing (p : Player) (t : PlayTurn) : Prop :=
  ∀ k p', t = .skipEnds k → p.turn t = some p' → ∀ flow, p.flow = some flow → ∀ q ∈ flow.packets,
    ¬(p.clock + 1 / 2000 < q.timeMs ∧ q.timeMs + 1 / 2000 < p'.clock)

/-- A clock at the start of a quiet interval or later passes over nothing on the way to its end. -/
theorem Skip.Quiet.passes {packets : List FlowPacket} {gap : Skip} (h : gap.Quiet packets) {clock : ℚ}
    (hclock : gap.startMs ≤ clock) {q : FlowPacket} (hq : q ∈ packets) :
    ¬(clock + 1 / 2000 < q.timeMs ∧ q.timeMs + 1 / 2000 < gap.endMs) := by
  rintro ⟨hlo, hhi⟩
  obtain ⟨before, -, after, -, hstart, hend, -, hempty⟩ := h
  have hbefore := (abs_le.mp (abs_roundTo_sub_le 3 before.timeMs)).1
  have hafter := (abs_le.mp (abs_roundTo_sub_le 3 after.timeMs)).2
  norm_num at hbefore hafter
  rw [hstart] at hclock
  rw [hend] at hhi
  rcases hempty q hq with hle | hge
  · linarith
  · linarith

theorem passesNothing_of_smooth {p : Player} (h : p.Smooth) (t : PlayTurn) : PassesNothing p t := by
  rintro k p' rfl hturn flow hflow q hq ⟨hlo, hhi⟩
  cases hgap : p.waiting[k]? with
  | none => simp only [Player.turn, hgap, reduceCtorEq] at hturn
  | some gap =>
    simp only [Player.turn, hgap] at hturn
    cases Option.some.inj hturn
    rw [Player.skipEnds] at hhi
    split at hhi
    · next htimer =>
      rcases h.waiting htimer with ⟨hwaiting, -⟩ | ⟨only, hwaiting, -, hof⟩
      · rw [hwaiting] at hgap
        cases hgap
      · have hsame : gap = only := by
          have hmem := List.mem_of_getElem? hgap
          rw [hwaiting] at hmem
          exact List.mem_singleton.mp hmem
        obtain ⟨hquiet, hclock⟩ := hof flow hflow
        rw [← hsame] at hquiet hclock
        refine hquiet.passes hclock hq ⟨hlo, ?_⟩
        -- the clock lands on the end of the interval, or below it at the edge of the range
        rcases lt_max_iff.mp hhi with hedge | hmin
        · have hedge : q.timeMs + 1 / 2000 < p.timeStart := hedge
          have := h.clock.1
          linarith
        · exact hmin.trans_le (min_le_right _ _)
    · have hhi : q.timeMs + 1 / 2000 < p.clock := hhi
      linarith

/-- THE SKIPS of an undisturbed session pass over no packet: what the player does not show it plays. -/
theorem skips_pass_nothing {turns : List PlayTurn} {p : Player}
    (hrun : run Player.turn Player.initial turns = some p)
    (hguard : Along Player.turn Undisturbed Player.initial turns) :
    Along Player.turn PassesNothing Player.initial turns :=
  along_of_invariant (fun _ t _ h hg hturn => ⟨h.turn hg hturn, passesNothing_of_smooth h t⟩)
    Player.Smooth.initial hguard hrun

theorem undisturbed_quietSession : Along Player.turn Undisturbed Player.initial quietSession := by
  decide +kernel

/-- The law at work: the skip goes on to the end of the interval. -/
theorem skips_pass_nothing_quiet :
    Along Player.turn PassesNothing Player.initial (quietSession ++ [.skipEnds 0]) ∧
      (run Player.turn Player.initial (quietSession ++ [.skipEnds 0])).map shownOf =
        some (10000, true, false) := by
  have hshown : (run Player.turn Player.initial (quietSession ++ [.skipEnds 0])).map shownOf =
      some (10000, true, false) := by decide +kernel
  obtain ⟨p, hrun, -⟩ := Option.map_eq_some_iff.mp hshown
  exact ⟨skips_pass_nothing hrun (by decide +kernel), hshown⟩

end PacketTrain.Browser
