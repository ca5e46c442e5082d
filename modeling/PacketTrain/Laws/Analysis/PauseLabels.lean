import PacketTrain.Laws.Analysis.StallRefs
import PacketTrain.Laws.Analysis.Tiling

/-!
# Pauses called stalls

`stream_phases` calls a pause a stall when a zero window was captured in it or in the second before it.
It does not keep the windows of the two endpoints, so a window that was closed for longer is missed, and
one that was reopened before the pause, or is closed only after it, is taken for closed.
`pause_labels_iff` says for which packets the label is right all the same.
-/

namespace PacketTrain.Analysis

/-! ## The windows at a time -/

/-- The last packet but a SYN with which an endpoint advertised its window by a time. -/
def lastWindow (ordered : List FlowPacket) (side : Side) (t : ℚ) : Option FlowPacket :=
  (ordered.filter fun p =>
    p.timeMs ≤ t ∧ p.direction.side = side ∧ p.windowPresent = true ∧ p.syn = false).getLast?

instance (holds : Side → Prop) [DecidablePred holds] : Decidable (∃ side, holds side) :=
  decidable_of_iff (holds .client ∨ holds .server) (by
    constructor
    · intro h
      rcases h with h | h
      · exact ⟨_, h⟩
      · exact ⟨_, h⟩
    · intro ⟨side, h⟩
      cases side with
      | client => exact .inl h
      | server => exact .inr h)

/-- The window of an endpoint is closed at a time. -/
def ClosedAt (ordered : List FlowPacket) (t : ℚ) : Prop :=
  ∃ side, ∃ p ∈ lastWindow ordered side t, p.window = 0

instance (ordered : List FlowPacket) (t : ℚ) : Decidable (ClosedAt ordered t) :=
  inferInstanceAs (Decidable (∃ side, ∃ p ∈ lastWindow ordered side t, p.window = 0))

/-- It was advertised as closed in the second before. -/
def ClosedLately (ordered : List FlowPacket) (t : ℚ) : Prop :=
  ∃ side, ∃ p ∈ lastWindow ordered side t, p.window = 0 ∧ t - stallLookbackMs ≤ p.timeMs

/-- It was last advertised as closed more than a second before. -/
def ClosedLong (ordered : List FlowPacket) (t : ℚ) : Prop :=
  ∃ side, ∃ p ∈ lastWindow ordered side t, p.window = 0 ∧ p.timeMs < t - stallLookbackMs

/-- A zero window that does not say how things are at the start of a pause: one at the end of the pause,
or one in the second before the pause that was on a SYN or has been reopened. -/
def StrayZero (ordered : List FlowPacket) (pauseStart pauseEnd : ℚ) : Prop :=
  ∃ p ∈ ordered, isStall p = true ∧
    (p.timeMs = pauseEnd ∨
      pauseStart - stallLookbackMs ≤ p.timeMs ∧ p.timeMs ≤ pauseStart ∧
        (p.syn = true ∨ ∃ q ∈ lastWindow ordered p.direction.side pauseStart, q.window ≠ 0))

section

variable {ordered : List FlowPacket} {pauseStart pauseEnd : ℚ}

theorem lastWindow_spec {side : Side} {t : ℚ} {p : FlowPacket} (h : p ∈ lastWindow ordered side t) :
    p ∈ ordered ∧ p.timeMs ≤ t ∧ p.direction.side = side ∧ p.windowPresent = true ∧ p.syn = false := by
  have hmem := List.mem_filter.mp (List.mem_of_getLast? h)
  exact ⟨hmem.1, of_decide_eq_true hmem.2⟩

/-- A packet that advertises a window has the last one of its endpoint at or after it. -/
theorem exists_lastWindow (hordered : InOrder FlowPacket.timeMs ordered) {p : FlowPacket} {t : ℚ}
    (hp : p ∈ ordered) (hle : p.timeMs ≤ t) (hpresent : p.windowPresent = true) (hsyn : p.syn = false) :
    ∃ q ∈ lastWindow ordered p.direction.side t, p.timeMs ≤ q.timeMs := by
  have hmem : p ∈ ordered.filter fun q =>
      q.timeMs ≤ t ∧ q.direction.side = p.direction.side ∧ q.windowPresent = true ∧ q.syn = false :=
    List.mem_filter.mpr ⟨hp, decide_eq_true ⟨hle, rfl, hpresent, hsyn⟩⟩
  obtain ⟨q, hq⟩ := Option.ne_none_iff_exists'.mp (mt List.getLast?_eq_none_iff.mp (List.ne_nil_of_mem hmem))
  refine ⟨q, hq, ?_⟩
  obtain ⟨init, hinit⟩ := List.getLast?_eq_some_iff.mp hq
  have hsorted := hordered.sublist (List.filter_sublist (l := ordered) (p := fun q =>
    q.timeMs ≤ t ∧ q.direction.side = p.direction.side ∧ q.windowPresent = true ∧ q.syn = false))
  rw [hinit] at hmem hsorted
  rcases List.mem_append.mp hmem with hmem | hmem
  · exact (List.pairwise_append.mp hsorted).2.2 p hmem q List.mem_cons_self
  · rw [List.mem_singleton.mp hmem]

theorem closedAt_iff (ordered : List FlowPacket) (t : ℚ) :
    ClosedAt ordered t ↔ ClosedLately ordered t ∨ ClosedLong ordered t := by
  constructor
  · intro ⟨side, p, hp, hzero⟩
    rcases le_or_gt (t - stallLookbackMs) p.timeMs with hlate | hlong
    · exact .inl ⟨side, p, hp, hzero, hlate⟩
    · exact .inr ⟨side, p, hp, hzero, hlong⟩
  · intro h
    rcases h with ⟨side, p, hp, hzero, -⟩ | ⟨side, p, hp, hzero, -⟩
    · exact ⟨side, p, hp, hzero⟩
    · exact ⟨side, p, hp, hzero⟩

/-- The zero windows that the source finds for a pause are a window closed lately or a stray one. -/
theorem closedWindows_ne_nil_iff (hordered : InOrder FlowPacket.timeMs ordered)
    (hlt : pauseStart < pauseEnd)
    (hpause : ∀ p ∈ ordered, p.timeMs ≤ pauseStart ∨ pauseEnd ≤ p.timeMs) :
    closedWindows ordered pauseStart pauseEnd ≠ [] ↔
      ClosedLately ordered pauseStart ∨ StrayZero ordered pauseStart pauseEnd := by
  have hmem : ∀ {p}, p ∈ closedWindows ordered pauseStart pauseEnd ↔ p ∈ ordered ∧ isStall p = true ∧
      pauseStart - stallLookbackMs ≤ p.timeMs ∧ p.timeMs ≤ pauseEnd := by
    intro p
    rw [closedWindows, List.mem_filter, decide_eq_true_eq]
  constructor
  · intro hne
    obtain ⟨p, hp⟩ := List.exists_mem_of_ne_nil _ hne
    obtain ⟨hp, hstall, hlate, hend⟩ := hmem.mp hp
    rcases hpause p hp with hbefore | hafter
    · cases hsyn : p.syn with
      | true => exact .inr ⟨p, hp, hstall, .inr ⟨hlate, hbefore, .inl hsyn⟩⟩
      | false =>
        have hpresent : p.windowPresent = true := by
          rw [isStall, Bool.and_eq_true] at hstall
          exact hstall.1
        obtain ⟨q, hq, hle⟩ := exists_lastWindow hordered hp hbefore hpresent hsyn
        by_cases hzero : q.window = 0
        · exact .inl ⟨_, q, hq, hzero, hlate.trans hle⟩
        · exact .inr ⟨p, hp, hstall, .inr ⟨hlate, hbefore, .inr ⟨q, hq, hzero⟩⟩⟩
    · exact .inr ⟨p, hp, hstall, .inl (hend.antisymm hafter)⟩
  · intro h
    have hlookback : pauseStart - stallLookbackMs ≤ pauseStart := by
      rw [stallLookbackMs]
      linarith
    rcases h with ⟨side, p, hp, hzero, hlate⟩ | ⟨p, hp, hstall, hwhen⟩
    · obtain ⟨hp, hle, -, hpresent, -⟩ := lastWindow_spec hp
      have hstall : isStall p = true := by rw [isStall, hpresent, Bool.true_and, decide_eq_true hzero]
      exact List.ne_nil_of_mem (hmem.mpr ⟨hp, hstall, hlate, hle.trans hlt.le⟩)
    · rcases hwhen with hend | ⟨hlate, hle, -⟩
      · exact List.ne_nil_of_mem (hmem.mpr ⟨hp, hstall, by linarith, hend.le⟩)
      · exact List.ne_nil_of_mem (hmem.mpr ⟨hp, hstall, hlate, hle.trans hlt.le⟩)

end

/-! ## The pauses of the table -/

/-- The pauses of the table are those between the runs, in order. -/
theorem pauses_phasesFrom (ordered : List FlowPacket) (episodes : List Episode) (index : ℕ)
    (lookback : List FlowPacket) (runs : List Run) :
    List.Forall₂ (fun phase times => ∃ i, phase = pausePhase ordered episodes i times.1 times.2)
      ((phasesFrom ordered episodes index lookback runs).filter (·.label.isPause))
      ((adjacent runs).map fun runs => (runs.1.stop, runs.2.start)) := by
  induction runs generalizing index lookback with
  | nil => exact .nil
  | cons run runs ih =>
    have hrun := isPause_classifyRun lookback run (peerAckIndex ordered)
    have hskip : ¬ (runPhase index run (classifyRun lookback run (peerAckIndex ordered))).label.isPause =
        true := by
      rw [runPhase, hrun]
      exact Bool.false_ne_true
    cases runs with
    | nil =>
      rw [phasesFrom, @List.filter_cons_of_neg Phase (·.label.isPause) _ _ hskip]
      exact .nil
    | cons next rest =>
      have hpause := (reports_pausePhase ordered episodes (index + 1) run.stop next.start).kind
      rw [phasesFrom, @List.filter_cons_of_neg Phase (·.label.isPause) _ _ hskip,
        @List.filter_cons_of_pos Phase (·.label.isPause) _ _ hpause, adjacent_cons_cons]
      exact .cons ⟨_, rfl⟩ (ih _ _)

/-- They are those of the quiet neighbours, in order. -/
theorem pauses_streamPhases (packets : List FlowPacket) (episodes : List Episode) :
    List.Forall₂
      (fun phase ab => ∃ i, phase =
        pausePhase (sortOn FlowPacket.timeMs packets) episodes i ab.1.timeMs ab.2.timeMs)
      ((streamPhases packets episodes).phases.filter (·.label.isPause)) (pauses packets) := by
  have hruns := pauses_phasesFrom (sortOn FlowPacket.timeMs packets) episodes 0 [] (activity packets)
  rw [adjacent_activity] at hruns
  rw [phases_eq]
  exact List.forall₂_map_right_iff.mp hruns

/-- A pause is called a stall when the source finds a zero window for it. -/
theorem label_pausePhase_iff (ordered : List FlowPacket) (episodes : List Episode) (index : ℕ)
    {pauseStart pauseEnd : ℚ} (hlt : pauseStart < pauseEnd) :
    (pausePhase ordered episodes index pauseStart pauseEnd).label = .receiverWindowStall ↔
      closedWindows ordered pauseStart pauseEnd ≠ [] := by
  rw [pausePhase, windowStall, if_neg (not_le_of_gt hlt)]
  cases closedWindows ordered pauseStart pauseEnd with
  | nil =>
    apply iff_of_false
    · simp only
      split
      · intro h
        cases h
      · intro h
        cases h
    · exact fun h => h rfl
  | cons first rest => exact iff_of_true rfl (List.cons_ne_nil _ _)

/-- Every pause of the table, in order, is called a stall exactly when some endpoint's window is closed
at its start. -/
def PausesLabelled (packets : List FlowPacket) (episodes : List Episode) : Prop :=
  List.Forall₂
    (fun phase ab => phase.label = .receiverWindowStall ↔
      ClosedAt (sortOn FlowPacket.timeMs packets) ab.1.timeMs)
    ((streamPhases packets episodes).phases.filter (·.label.isPause)) (pauses packets)

/-- The pauses are labelled right exactly when each either has a window closed in the second before it,
or has a window closed for longer if and only if it has a stray zero window. -/
theorem pause_labels_iff (packets : List FlowPacket) (episodes : List Episode) :
    PausesLabelled packets episodes ↔ ∀ ab ∈ pauses packets,
      ClosedLately (sortOn FlowPacket.timeMs packets) ab.1.timeMs ∨
        (StrayZero (sortOn FlowPacket.timeMs packets) ab.1.timeMs ab.2.timeMs ↔
          ClosedLong (sortOn FlowPacket.timeMs packets) ab.1.timeMs) := by
  have hordered := inOrder_sortOn FlowPacket.timeMs packets
  apply forall₂_iff_of_forall₂ (pauses_streamPhases packets episodes)
  intro phase ab hab ⟨index, hphase⟩
  obtain ⟨hadjacent, hquiet⟩ := List.mem_filter.mp hab
  have hlt := lt_of_quiet hquiet
  have hpause : ∀ p ∈ sortOn FlowPacket.timeMs packets, p.timeMs ≤ ab.1.timeMs ∨ ab.2.timeMs ≤ p.timeMs :=
    fun p hp => adjacent_split hordered hadjacent hp
  rw [hphase, label_pausePhase_iff _ _ _ hlt, closedWindows_ne_nil_iff hordered hlt hpause, closedAt_iff]
  tauto

/-- What a table with the right labels says of its only pause. -/
theorem PausesLabelled.only {packets : List FlowPacket} {episodes : List Episode}
    (h : PausesLabelled packets episodes) {label : PhaseLabel} {t : ℚ}
    (hlabel : ((streamPhases packets episodes).phases.filter (·.label.isPause)).map (·.label) = [label])
    (hstart : (pauses packets).map (·.1.timeMs) = [t]) :
    label = .receiverWindowStall ↔ ClosedAt (sortOn FlowPacket.timeMs packets) t := by
  have hlabels : List.Forall₂
      (fun label t => label = .receiverWindowStall ↔ ClosedAt (sortOn FlowPacket.timeMs packets) t)
      (((streamPhases packets episodes).phases.filter (·.label.isPause)).map (·.label))
      ((pauses packets).map (·.1.timeMs)) :=
    List.forall₂_map_left_iff.mpr (List.forall₂_map_right_iff.mpr h)
  rw [hlabel, hstart] at hlabels
  cases hlabels with
  | cons honly _ => exact honly

/-- A client that closes its window, a second packet, and a pause of over three seconds. -/
def closedBefore (second : Fields) (direction : Direction) (timeMs : ℚ) : List FlowPacket :=
  [ { plainAck with window := 0, ts := none, timeMs := 0, direction := .out },
    { second with frame := 2, ts := none, timeMs := timeMs, direction := direction },
    { plainAck with frame := 3, ts := none, timeMs := 5000, direction := .out } ]

/-- A window that has been closed for a second and a half makes no stall of the pause, and one that has
been reopened after half a second does. -/
theorem pauses_mislabelled :
    ((streamPhases (closedBefore serverAck .in_ 1500) []).phases.filter (·.label.isPause)).map (·.label) =
        [.payloadPause] ∧
      ClosedAt (sortOn FlowPacket.timeMs (closedBefore serverAck .in_ 1500)) 1500 ∧
      ¬ PausesLabelled (closedBefore serverAck .in_ 1500) [] ∧
    ((streamPhases (closedBefore plainAck .out 500) []).phases.filter (·.label.isPause)).map (·.label) =
        [.receiverWindowStall] ∧
      ¬ ClosedAt (sortOn FlowPacket.timeMs (closedBefore plainAck .out 500)) 500 ∧
      ¬ PausesLabelled (closedBefore plainAck .out 500) [] := by
  have hmissed : ((streamPhases (closedBefore serverAck .in_ 1500) []).phases.filter
      (·.label.isPause)).map (·.label) = [.payloadPause] := by decide +kernel
  have hclosed : ClosedAt (sortOn FlowPacket.timeMs (closedBefore serverAck .in_ 1500)) 1500 := by
    decide +kernel
  have hstart : (pauses (closedBefore serverAck .in_ 1500)).map (·.1.timeMs) = [1500] := by decide +kernel
  have hcalled : ((streamPhases (closedBefore plainAck .out 500) []).phases.filter
      (·.label.isPause)).map (·.label) = [.receiverWindowStall] := by decide +kernel
  have hopen : ¬ ClosedAt (sortOn FlowPacket.timeMs (closedBefore plainAck .out 500)) 500 := by
    decide +kernel
  have hstart' : (pauses (closedBefore plainAck .out 500)).map (·.1.timeMs) = [500] := by decide +kernel
  refine ⟨hmissed, hclosed, ?_, hcalled, hopen, ?_⟩
  · intro h
    have hstall := (h.only hmissed hstart).mpr hclosed
    cases hstall
  · intro h
    exact hopen ((h.only hcalled hstart').mp rfl)

end PacketTrain.Analysis
