import PacketTrain.Analysis.Phases

/-!
# Runs and pauses

`_activity` cuts the packets, in time order, where the time between two neighbours is quiet. So the
table of `stream_phases` has a run for each piece and a pause for each cut, and only a pause carries a
stall.
-/

namespace PacketTrain.Analysis

/-! ## Runs -/

/-- The runs hold the packets, in order. -/
theorem flatMap_runsFrom (current : Run) (packets : List FlowPacket) :
    (runsFrom current packets).flatMap Run.packets = current.packets ++ packets := by
  induction packets generalizing current with
  | nil => simp [runsFrom]
  | cons p packets ih =>
    rw [runsFrom]
    split
    · rw [List.flatMap_cons, ih]
      rfl
    · rw [ih, Run.extend, List.append_assoc]
      rfl

theorem flatMap_activity (packets : List FlowPacket) :
    (activity packets).flatMap Run.packets = sortOn FlowPacket.timeMs packets := by
  rw [activity]
  split
  · next hnil => rw [hnil, List.flatMap_nil]
  · next p rest hcons => rw [hcons, flatMap_runsFrom, Run.opening, List.singleton_append]

theorem mem_of_activity {packets : List FlowPacket} {run : Run} {p : FlowPacket}
    (hrun : run ∈ activity packets) (hp : p ∈ run.packets) : p ∈ packets := by
  have hmem : p ∈ (activity packets).flatMap Run.packets := List.mem_flatMap.mpr ⟨run, hrun, hp⟩
  rwa [flatMap_activity, mem_sortOn] at hmem

/-! ## Pauses -/

/-- The neighbours in time with quiet between them. -/
def pauses (packets : List FlowPacket) : List (FlowPacket × FlowPacket) :=
  (adjacent (sortOn FlowPacket.timeMs packets)).filter fun ab => quiet ab.1.timeMs ab.2.timeMs

/-- The first of the runs begins where the current one does. -/
theorem exists_runsFrom (current : Run) (packets : List FlowPacket) :
    ∃ run rest, runsFrom current packets = run :: rest ∧ run.start = current.start := by
  induction packets generalizing current with
  | nil => exact ⟨current, [], rfl, rfl⟩
  | cons p packets ih =>
    rw [runsFrom]
    split
    · exact ⟨current, _, rfl, rfl⟩
    · exact ih (current.extend p)

/-- Between two runs is the time between two quiet neighbours. -/
theorem adjacent_runsFrom {current : Run} {last : FlowPacket} (h : last.timeMs = current.stop)
    (packets : List FlowPacket) :
    (adjacent (runsFrom current packets)).map (fun runs => (runs.1.stop, runs.2.start)) =
      ((adjacent (last :: packets)).filter fun ab => quiet ab.1.timeMs ab.2.timeMs).map
        fun ab => (ab.1.timeMs, ab.2.timeMs) := by
  induction packets generalizing current last with
  | nil => rfl
  | cons p packets ih =>
    rw [runsFrom, adjacent_cons_cons]
    split
    · next hquiet =>
      have hrest := @ih (.opening p) p rfl
      obtain ⟨run, rest, hruns, hstart⟩ := exists_runsFrom (.opening p) packets
      rw [List.filter_cons_of_pos (by rwa [h]), List.map_cons, ← hrest, hruns, adjacent_cons_cons,
        List.map_cons, hstart, h]
      rfl
    · next hquiet =>
      rw [List.filter_cons_of_neg (by rwa [h])]
      exact @ih (current.extend p) p rfl

theorem adjacent_activity (packets : List FlowPacket) :
    (adjacent (activity packets)).map (fun runs => (runs.1.stop, runs.2.start)) =
      (pauses packets).map fun ab => (ab.1.timeMs, ab.2.timeMs) := by
  rw [activity, pauses]
  split
  · next hnil =>
    rw [hnil]
    rfl
  · next p rest hcons =>
    rw [hcons]
    exact adjacent_runsFrom rfl rest

/-! ## The table -/

section

variable {ordered : List FlowPacket} {episodes : List Episode} {index : ℕ} {lookback : List FlowPacket}
  {runs : List Run}

/-- A phase with a stall is the pause between two runs. -/
theorem exists_pause_of_stall {phase : Phase} {stall : PauseStall}
    (hphase : phase ∈ phasesFrom ordered episodes index lookback runs)
    (hstall : phase.windowStall = some stall) :
    ∃ ab ∈ adjacent runs, ∃ i, phase = pausePhase ordered episodes i ab.1.stop ab.2.start := by
  induction runs generalizing index lookback with
  | nil => cases hphase
  | cons run runs ih =>
    cases runs with
    | nil =>
      obtain rfl := List.mem_singleton.mp hphase
      cases hstall
    | cons next rest =>
      rw [phasesFrom] at hphase
      rcases List.mem_cons.mp hphase with rfl | hphase
      · cases hstall
      · rcases List.mem_cons.mp hphase with rfl | hphase
        · exact ⟨(run, next), List.mem_cons_self, _, rfl⟩
        · obtain ⟨ab, hab, hpause⟩ := ih hphase
          exact ⟨ab, List.mem_cons_of_mem _ hab, hpause⟩

/-- Between two runs stands their pause. -/
theorem exists_mem_phasesFrom {ab : Run × Run} (hab : ab ∈ adjacent runs) :
    ∃ i, pausePhase ordered episodes i ab.1.stop ab.2.start ∈
      phasesFrom ordered episodes index lookback runs := by
  induction runs generalizing index lookback with
  | nil => cases hab
  | cons run runs ih =>
    cases runs with
    | nil => cases hab
    | cons next rest =>
      rw [phasesFrom]
      rcases List.mem_cons.mp hab with rfl | hab
      · exact ⟨index + 1, List.mem_cons_of_mem _ List.mem_cons_self⟩
      · obtain ⟨i, hi⟩ := @ih (index + 2) run.tail hab
        exact ⟨i, List.mem_cons_of_mem _ (List.mem_cons_of_mem _ hi)⟩

end

theorem phases_eq (packets : List FlowPacket) (episodes : List Episode) :
    (streamPhases packets episodes).phases =
      phasesFrom (sortOn FlowPacket.timeMs packets) episodes 0 [] (activity packets) := by
  have hsort := sortOn_eq_self (inOrder_sortOn FlowPacket.timeMs packets)
  have hactivity : activity (sortOn FlowPacket.timeMs packets) = activity packets := by
    rw [activity, hsort, activity]
  rw [streamPhases]
  split
  · next hempty =>
    rw [activity, List.isEmpty_iff.mp hempty]
    rfl
  · rw [hactivity]

/-- In the table a phase with a stall is the pause of two quiet neighbours. -/
theorem exists_pause {packets : List FlowPacket} {episodes : List Episode} {phase : Phase}
    {stall : PauseStall} (hphase : phase ∈ (streamPhases packets episodes).phases)
    (hstall : phase.windowStall = some stall) :
    ∃ ab ∈ pauses packets, ∃ index, phase =
      pausePhase (sortOn FlowPacket.timeMs packets) episodes index ab.1.timeMs ab.2.timeMs := by
  rw [phases_eq] at hphase
  obtain ⟨runs, hruns, index, rfl⟩ := exists_pause_of_stall hphase hstall
  have htimes : (runs.1.stop, runs.2.start) ∈
      (adjacent (activity packets)).map fun runs => (runs.1.stop, runs.2.start) :=
    List.mem_map_of_mem hruns
  rw [adjacent_activity] at htimes
  obtain ⟨ab, hab, heq⟩ := List.mem_map.mp htimes
  refine ⟨ab, hab, index, ?_⟩
  rw [(Prod.mk.inj heq).1, (Prod.mk.inj heq).2]

/-- Two quiet neighbours have their pause in the table. -/
theorem pause_mem {packets : List FlowPacket} (episodes : List Episode) {ab : FlowPacket × FlowPacket}
    (hab : ab ∈ pauses packets) :
    ∃ index, pausePhase (sortOn FlowPacket.timeMs packets) episodes index ab.1.timeMs ab.2.timeMs ∈
      (streamPhases packets episodes).phases := by
  have htimes : (ab.1.timeMs, ab.2.timeMs) ∈
      (pauses packets).map fun ab => (ab.1.timeMs, ab.2.timeMs) := List.mem_map_of_mem hab
  rw [← adjacent_activity] at htimes
  obtain ⟨runs, hruns, heq⟩ := List.mem_map.mp htimes
  rw [phases_eq, ← (Prod.mk.inj heq).1, ← (Prod.mk.inj heq).2]
  exact exists_mem_phasesFrom hruns

end PacketTrain.Analysis
