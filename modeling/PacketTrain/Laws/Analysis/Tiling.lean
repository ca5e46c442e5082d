import PacketTrain.Laws.Analysis.Phases

/-!
# The phases tile the stream

Read without its labels, the table of `stream_phases` is a row of tiles: a run of packets, the quiet
after it, the next run. The tiles meet, hold every packet once in time order, and are cut where the quiet
is longer than the threshold and nowhere else.

The bounds of a tile are exact. The table shows them rounded, each bound of two neighbours once, so
what meets exactly meets in the table too.
-/

namespace PacketTrain.Analysis

/-- What a phase covers. -/
inductive Tile
  | activity (run : Run)
  | pause (start stop : ℚ)
deriving DecidableEq, Repr

def Tile.start : Tile → ℚ
  | .activity run => run.start
  | .pause start _ => start

def Tile.stop : Tile → ℚ
  | .activity run => run.stop
  | .pause _ stop => stop

def Tile.packets : Tile → List FlowPacket
  | .activity run => run.packets
  | .pause _ _ => []

def Tile.isPause : Tile → Bool
  | .activity _ => false
  | .pause _ _ => true

/-- The labels of a quiet interval. -/
def PhaseLabel.isPause : PhaseLabel → Bool
  | .payloadPause | .idle | .receiverWindowStall => true
  | _ => false

/-- A row of tiles covers a stream. -/
structure Tiling (packets : List FlowPacket) (tiles : List Tile) : Prop where
  /-- Every packet stands in one tile, in stable time order. -/
  frames : tiles.flatMap Tile.packets = sortOn FlowPacket.timeMs packets
  /-- Activity, pause, activity, ..., activity. -/
  alternate : ∀ ab ∈ adjacent tiles, ab.2.isPause = !ab.1.isPause
  opens : ∀ tile ∈ tiles.head?, tile.isPause = false
  closes : ∀ tile ∈ tiles.getLast?, tile.isPause = false
  meet : ∀ ab ∈ adjacent tiles, ab.2.start = ab.1.stop
  first : tiles.head?.map Tile.start = (packets.map (·.timeMs)).min?
  last : tiles.getLast?.map Tile.stop = (packets.map (·.timeMs)).max?
  /-- A run goes from its first packet to its last. -/
  bounds : ∀ tile ∈ tiles, tile.isPause = false →
    tile.packets.head?.map (·.timeMs) = some tile.start ∧
      tile.packets.getLast?.map (·.timeMs) = some tile.stop
  within : ∀ tile ∈ tiles, ∀ ab ∈ adjacent tile.packets,
    (ab.2.timeMs - ab.1.timeMs) / 1000 ≤ thresholds.idleGapS
  longer : ∀ tile ∈ tiles, tile.isPause = true →
    thresholds.idleGapS < (tile.stop - tile.start) / 1000

/-- A phase reports a tile, its times rounded to microseconds. -/
structure Phase.Reports (phase : Phase) (tile : Tile) : Prop where
  kind : phase.label.isPause = tile.isPause
  startMs : phase.startMs = roundTo 3 tile.start
  endMs : phase.endMs = roundTo 3 tile.stop
  durationMs : phase.durationMs = roundTo 3 (tile.stop - tile.start)
  packets : phase.packets = tile.packets.length
  frames : phase.frames = tile.packets.map (·.frame)

/-- A table numbers its phases from zero and reports a tiling. -/
def Tiled (packets : List FlowPacket) (phases : List Phase) : Prop :=
  phases.map (·.index) = List.range phases.length ∧
    ∃ tiles, Tiling packets tiles ∧ List.Forall₂ Phase.Reports phases tiles

/-! ## Runs -/

/-- A run has a packet, goes from its first one to its last, and has no quiet inside. -/
structure Run.Unbroken (run : Run) : Prop where
  first : run.packets.head?.map (·.timeMs) = some run.start
  last : run.packets.getLast?.map (·.timeMs) = some run.stop
  within : ∀ ab ∈ adjacent run.packets, quiet ab.1.timeMs ab.2.timeMs = false

theorem Run.unbroken_opening (p : FlowPacket) : (Run.opening p).Unbroken :=
  ⟨rfl, rfl, fun ab hab => by cases hab⟩

theorem Run.Unbroken.extend {run : Run} (h : run.Unbroken) {p : FlowPacket}
    (hp : quiet run.stop p.timeMs = false) : (run.extend p).Unbroken := by
  constructor
  · have hne : run.packets ≠ [] := by
      intro hnil
      have hfirst := h.first
      rw [hnil] at hfirst
      cases hfirst
    rw [Run.extend, List.head?_append_of_ne_nil _ hne]
    exact h.first
  · rw [Run.extend, List.getLast?_concat]
    rfl
  · intro ab hab
    rcases mem_adjacent_concat hab with hab | ⟨hlast, hsnd⟩
    · exact h.within ab hab
    · have hstop := h.last
      rw [hlast] at hstop
      have hstop : ab.1.timeMs = run.stop := Option.some.inj hstop
      rwa [hstop, hsnd]

theorem unbroken_runsFrom {current : Run} (h : current.Unbroken) (packets : List FlowPacket) :
    ∀ run ∈ runsFrom current packets, run.Unbroken := by
  induction packets generalizing current with
  | nil =>
    intro run hrun
    rwa [List.mem_singleton.mp hrun]
  | cons p packets ih =>
    intro run hrun
    rw [runsFrom] at hrun
    split at hrun
    · rcases List.mem_cons.mp hrun with rfl | hrun
      · exact h
      · exact ih (Run.unbroken_opening p) run hrun
    · next hquiet => exact ih (h.extend (eq_false_of_ne_true hquiet)) run hrun

theorem unbroken_activity {packets : List FlowPacket} {run : Run} (h : run ∈ activity packets) :
    run.Unbroken := by
  rw [activity] at h
  split at h
  · cases h
  · exact unbroken_runsFrom (Run.unbroken_opening _) _ run h

/-! ## The row of tiles -/

/-- The runs, and between two runs the quiet. -/
def tiles (runs : List Run) : List Tile :=
  interleave Tile.activity (fun ab => some (Tile.pause ab.1.stop ab.2.start)) runs

theorem mem_tiles {runs : List Run} {tile : Tile} (h : tile ∈ tiles runs) :
    (∃ run ∈ runs, tile = .activity run) ∨
      ∃ ab ∈ adjacent runs, tile = .pause ab.1.stop ab.2.start := by
  rcases mem_interleave h with hrun | ⟨ab, hab, htile⟩
  · exact .inl hrun
  · exact .inr ⟨ab, hab, (Option.some.inj htile).symm⟩

theorem flatMap_tiles (runs : List Run) :
    (tiles runs).flatMap Tile.packets = runs.flatMap Run.packets := by
  induction runs with
  | nil => rfl
  | cons run runs ih =>
    cases runs with
    | nil => rfl
    | cons next rest =>
      rw [List.flatMap_cons, ← ih]
      rfl

/-- The first run begins with the first packet and the last one ends with the last. -/
theorem activity_ends (packets : List FlowPacket) :
    (activity packets).head?.map Run.start =
        (sortOn FlowPacket.timeMs packets).head?.map (·.timeMs) ∧
      (activity packets).getLast?.map Run.stop =
        (sortOn FlowPacket.timeMs packets).getLast?.map (·.timeMs) := by
  rw [← flatMap_activity]
  have hall : ∀ run ∈ activity packets, run.Unbroken := fun run => unbroken_activity
  generalize activity packets = runs at hall
  constructor
  · cases runs with
    | nil => rfl
    | cons run rest =>
      have hrun := (hall run List.mem_cons_self).first
      cases hpackets : run.packets with
      | nil =>
        rw [hpackets] at hrun
        cases hrun
      | cons p tail =>
        rw [hpackets] at hrun
        rw [List.flatMap_cons, hpackets]
        exact hrun.symm
  · induction runs using List.reverseRecOn with
    | nil => rfl
    | append_singleton rest run _ =>
      have hrun := (hall run (by simp)).last
      rw [List.flatMap_append, List.flatMap_singleton, List.getLast?_concat, List.getLast?_append]
      cases hlast : run.packets.getLast? with
      | none =>
        rw [hlast] at hrun
        cases hrun
      | some p =>
        rw [hlast] at hrun
        exact hrun.symm

theorem tiling_activity (packets : List FlowPacket) : Tiling packets (tiles (activity packets)) where
  frames := by rw [flatMap_tiles, flatMap_activity]
  alternate := by
    intro ab hab
    obtain ⟨runs, -, rfl | rfl⟩ := mem_adjacent_interleave hab <;> rfl
  opens := by
    intro tile htile
    rw [tiles, head?_interleave] at htile
    obtain ⟨run, -, rfl⟩ := Option.map_eq_some_iff.mp htile
    rfl
  closes := by
    intro tile htile
    rw [tiles, getLast?_interleave] at htile
    obtain ⟨run, -, rfl⟩ := Option.map_eq_some_iff.mp htile
    rfl
  meet := by
    intro ab hab
    obtain ⟨runs, -, rfl | rfl⟩ := mem_adjacent_interleave hab <;> rfl
  first := by
    rw [tiles, head?_interleave, Option.map_map, min?_map_eq]
    exact (activity_ends packets).1
  last := by
    rw [tiles, getLast?_interleave, Option.map_map, max?_map_eq]
    exact (activity_ends packets).2
  bounds := by
    intro tile htile hactive
    rcases mem_tiles htile with ⟨run, hrun, rfl⟩ | ⟨ab, -, rfl⟩
    · exact ⟨(unbroken_activity hrun).first, (unbroken_activity hrun).last⟩
    · cases hactive
  within := by
    intro tile htile ab hab
    rcases mem_tiles htile with ⟨run, hrun, rfl⟩ | ⟨runs, -, rfl⟩
    · have hquiet := (unbroken_activity hrun).within ab hab
      exact not_lt.mp (of_decide_eq_false hquiet)
    · cases hab
  longer := by
    intro tile htile hpause
    rcases mem_tiles htile with ⟨run, -, rfl⟩ | ⟨runs, hruns, rfl⟩
    · cases hpause
    · have htimes : (runs.1.stop, runs.2.start) ∈
          (adjacent (activity packets)).map fun runs => (runs.1.stop, runs.2.start) :=
        List.mem_map_of_mem hruns
      rw [adjacent_activity] at htimes
      obtain ⟨ab, hab, heq⟩ := List.mem_map.mp htimes
      have hquiet := of_decide_eq_true (List.mem_filter.mp hab).2
      rwa [(Prod.mk.inj heq).1, (Prod.mk.inj heq).2] at hquiet

/-! ## The table -/

theorem isPause_classifyRun (lookback : List FlowPacket) (run : Run)
    (peerAcks : AckKey → List (ℚ × ℤ)) :
    (classifyRun lookback run peerAcks).label.isPause = false := by
  have hprobe : ∀ verdict, zeroWindowProbe lookback run.packets peerAcks = some verdict →
      verdict.label.isPause = false := by
    intro verdict h
    simp only [zeroWindowProbe] at h
    split at h
    · cases h
    · cases h
    · obtain rfl := Option.some.inj h
      rfl
  rw [classifyRun]
  split
  · simp only [payloadVerdict, apply_ite RunVerdict.label, apply_ite PhaseLabel.isPause]
    simp only [PhaseLabel.isPause, ite_self]
  · rw [controlVerdict]
    split
    · rfl
    · split
      · rfl
      · cases h : zeroWindowProbe lookback run.packets peerAcks with
        | none => rfl
        | some verdict => exact hprobe verdict h

theorem reports_runPhase {index : ℕ} {run : Run} {verdict : RunVerdict}
    (h : verdict.label.isPause = false) : (runPhase index run verdict).Reports (.activity run) :=
  ⟨h, rfl, rfl, rfl, rfl, rfl⟩

theorem reports_pausePhase (ordered : List FlowPacket) (episodes : List Episode) (index : ℕ)
    (pauseStart pauseEnd : ℚ) :
    (pausePhase ordered episodes index pauseStart pauseEnd).Reports (.pause pauseStart pauseEnd) := by
  rw [pausePhase]
  cases windowStall ordered pauseStart pauseEnd with
  | none =>
    refine ⟨?_, rfl, rfl, rfl, rfl, rfl⟩
    simp only [apply_ite PhaseLabel.isPause]
    exact ite_self true
  | some stall => exact ⟨rfl, rfl, rfl, rfl, rfl, rfl⟩

theorem index_pausePhase (ordered : List FlowPacket) (episodes : List Episode) (index : ℕ)
    (pauseStart pauseEnd : ℚ) :
    (pausePhase ordered episodes index pauseStart pauseEnd).index = index := by
  rw [pausePhase]
  cases windowStall ordered pauseStart pauseEnd <;> rfl

theorem reports_phasesFrom (ordered : List FlowPacket) (episodes : List Episode) (index : ℕ)
    (lookback : List FlowPacket) (runs : List Run) :
    List.Forall₂ Phase.Reports (phasesFrom ordered episodes index lookback runs) (tiles runs) := by
  induction runs generalizing index lookback with
  | nil => exact .nil
  | cons run runs ih =>
    have hrun := isPause_classifyRun lookback run (peerAckIndex ordered)
    cases runs with
    | nil => exact .cons (reports_runPhase hrun) .nil
    | cons next rest =>
      exact .cons (reports_runPhase hrun) (.cons (reports_pausePhase _ _ _ _ _) (ih _ _))

theorem map_index_phasesFrom (ordered : List FlowPacket) (episodes : List Episode) (index : ℕ)
    (lookback : List FlowPacket) (runs : List Run) :
    (phasesFrom ordered episodes index lookback runs).map (·.index) =
      List.range' index (phasesFrom ordered episodes index lookback runs).length := by
  induction runs generalizing index lookback with
  | nil => rfl
  | cons run runs ih =>
    cases runs with
    | nil => rfl
    | cons next rest =>
      rw [phasesFrom, List.map_cons, List.map_cons, ih, index_pausePhase, List.length_cons,
        List.length_cons, List.range'_succ, List.range'_succ]
      rfl

/-- The phases of any packets, in whatever order they come, tile the stream. -/
theorem streamPhases_tiled (packets : List FlowPacket) (episodes : List Episode) :
    Tiled packets (streamPhases packets episodes).phases := by
  rw [phases_eq]
  constructor
  · rw [map_index_phasesFrom, List.range_eq_range']
  · exact ⟨_, tiling_activity packets, reports_phasesFrom _ _ _ _ _⟩

end PacketTrain.Analysis
