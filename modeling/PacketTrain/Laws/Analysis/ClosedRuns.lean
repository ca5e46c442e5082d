import PacketTrain.Laws.Analysis.Window

/-!
# Stalls as runs of closed windows

Read in order, the windows that an endpoint advertises are zero or not, and the zero ones fall into
runs, each up to the next window that is not zero. `_episodes` finds its stalls another way: it looks,
by time, for the first window that is not zero after the first zero one. `sideStalls_runs_iff` says
that in a list in time order the two are the same exactly when no window of an endpoint reopens at the
very time at which it was closed.
-/

namespace PacketTrain.Analysis

/-! ## Runs -/

/-- A run of zero windows, and the window that ends it. -/
structure ClosedRun where
  first : FlowPacket
  probes : List FlowPacket
  reopening : Option FlowPacket
deriving DecidableEq, Repr

/-- The window advertisements of one endpoint: the zero ones but for a SYN, and those that are not
zero. -/
def windowsOf (group : List FlowPacket) (side : Side) : List FlowPacket :=
  group.filter fun p => p.direction.side = side ∧ (isStall p ∧ p.syn = false ∨ reopens p)

/-- The runs of zero windows among some advertisements, `current` not yet ended. -/
def closedRuns (current : Option ClosedRun) : List FlowPacket → List ClosedRun
  | [] => current.toList
  | p :: rest =>
    if reopens p then
      (current.map fun run => { run with reopening := some p }).toList ++ closedRuns none rest
    else
      match current with
      | none => closedRuns (some ⟨p, [], none⟩) rest
      | some run => closedRuns (some { run with probes := run.probes ++ [p] }) rest

/-- The stall that a run is. -/
def ClosedRun.stall (origin : Option ℚ) (run : ClosedRun) : Stall :=
  stallOf ⟨windowTimeMs run.first origin, run.first⟩
    (run.probes.map fun p => ⟨windowTimeMs p origin, p⟩) (run.reopening.map (windowTimeMs · origin))

/-- The zero windows that were not on a SYN, with their times. -/
def timedZeros (origin : Option ℚ) (windows : List FlowPacket) : List Timed :=
  (windows.filter (isStall ·)).map fun p => ⟨windowTimeMs p origin, p⟩

theorem not_reopens_of_isStall {p : FlowPacket} (h : isStall p = true) : reopens p = false := by
  simp only [isStall, Bool.and_eq_true, decide_eq_true_eq] at h
  rw [reopens, h.2, Bool.and_eq_false_iff]
  exact .inr (decide_eq_false (lt_irrefl 0))

/-- A run that is not ended goes on to the next window that is not zero. -/
theorem closedRuns_some (run : ClosedRun) (hopen : run.reopening = none) (windows : List FlowPacket) :
    closedRuns (some run) windows =
      { run with
        probes := run.probes ++ windows.takeWhile (!reopens ·)
        reopening := (windows.dropWhile (!reopens ·)).head? } ::
      closedRuns none (windows.dropWhile (!reopens ·)) := by
  induction windows generalizing run with
  | nil =>
    rw [closedRuns, Option.toList_some, List.takeWhile_nil, List.dropWhile_nil, List.append_nil,
      List.head?_nil, ← hopen]
    rfl
  | cons p windows ih =>
    by_cases hp : reopens p = true
    · rw [closedRuns, if_pos hp, List.takeWhile_cons_of_neg (by simp [hp]),
        List.dropWhile_cons_of_neg (by simp [hp]), List.append_nil, closedRuns, if_pos hp]
      rfl
    · rw [closedRuns, if_neg hp, ih { run with probes := run.probes ++ [p] } hopen,
        List.takeWhile_cons_of_pos (by simpa using hp),
        List.dropWhile_cons_of_pos (by simpa using hp), List.append_assoc]
      rfl

/-! ## The search by time -/

section

variable {group : List FlowPacket} {side : Side} {base : Option ℚ}

theorem mem_windowsOf {p : FlowPacket} :
    p ∈ windowsOf group side ↔ p ∈ group ∧ p.direction.side = side ∧
      (isStall p = true ∧ p.syn = false ∨ reopens p = true) := by
  rw [windowsOf, List.mem_filter, decide_eq_true_eq]

/-- What does not reopen is a zero window. -/
theorem isStall_of_not_reopens {p : FlowPacket} (hp : p ∈ windowsOf group side)
    (hnot : reopens p ≠ true) : isStall p = true :=
  ((mem_windowsOf.mp hp).2.2.resolve_right hnot).1

/-- The zero windows of an endpoint are its stall packets. -/
theorem filter_windowsOf :
    (windowsOf group side).filter (isStall ·) =
      (stallPackets group).filter (·.direction.side = side) := by
  rw [windowsOf, stallPackets, List.filter_filter, List.filter_filter, List.filter_filter]
  apply List.filter_congr
  intro p _
  cases hstall : isStall p with
  | false => simp
  | true =>
    rw [Bool.true_and, not_reopens_of_isStall hstall]
    cases p.syn <;> simp

/-- In time order the recovery after an advertisement is looked for among those that follow it. -/
theorem recoveryAfter_eq_find? {pre post : List FlowPacket} {z : FlowPacket}
    (hwindows : windowsOf group side = pre ++ z :: post)
    (hordered : InOrder (windowTimeMs · base) (windowsOf group side)) :
    recoveryAfter group side (windowTimeMs z base) base =
      (post.find? fun p => windowTimeMs z base < windowTimeMs p base ∧ reopens p).map
        (windowTimeMs · base) := by
  have hfind : (group.find? fun p =>
      p.direction.side = side ∧ windowTimeMs z base < windowTimeMs p base ∧ reopens p) =
      (windowsOf group side).find? fun p => windowTimeMs z base < windowTimeMs p base ∧ reopens p := by
    rw [windowsOf, List.find?_filter]
    congr 1
    funext p
    by_cases hp : reopens p = true <;> simp [hp]
  have hnone : (pre ++ [z]).find? (fun p =>
      windowTimeMs z base < windowTimeMs p base ∧ reopens p) = none := by
    rw [List.find?_eq_none]
    intro p hp
    rw [decide_eq_true_eq]
    rintro ⟨hlater, -⟩
    rcases List.mem_append.mp hp with hp | hp
    · rw [hwindows] at hordered
      exact absurd ((List.pairwise_append.mp hordered).2.2 p hp z List.mem_cons_self) (not_le.mpr hlater)
    · rw [List.mem_singleton.mp hp] at hlater
      exact lt_irrefl _ hlater
  have hsplit : pre ++ z :: post = (pre ++ [z]) ++ post := by simp
  rw [recoveryAfter, hfind, hwindows, hsplit, List.find?_append, hnone, Option.none_or]

/-- A zero window comes strictly before a window that is not zero. -/
def ClosesBefore (origin : Option ℚ) (p q : FlowPacket) : Prop :=
  isStall p = true → reopens q = true → windowTimeMs p origin < windowTimeMs q origin

theorem timedZeros_append (windows windows' : List FlowPacket) :
    timedZeros base (windows ++ windows') = timedZeros base windows ++ timedZeros base windows' := by
  rw [timedZeros, List.filter_append, List.map_append]
  rfl

theorem timedZeros_cons_reopens {q : FlowPacket} (hq : reopens q = true) (windows : List FlowPacket) :
    timedZeros base (q :: windows) = timedZeros base windows := by
  rw [timedZeros, List.filter_cons_of_neg]
  · rfl
  · intro hstall
    rw [not_reopens_of_isStall hstall] at hq
    cases hq

/-- The recovery after a zero window is the end of its run when that is later. -/
theorem recoveryAfter_run {pre run rest : List FlowPacket} {z q : FlowPacket}
    (hwindows : windowsOf group side = pre ++ z :: (run ++ q :: rest))
    (hordered : InOrder (windowTimeMs · base) (windowsOf group side))
    (hclosed : ∀ p ∈ run, reopens p ≠ true) (hq : reopens q = true)
    (hlater : windowTimeMs z base < windowTimeMs q base) :
    recoveryAfter group side (windowTimeMs z base) base = some (windowTimeMs q base) := by
  have hnone : run.find? (fun p => windowTimeMs z base < windowTimeMs p base ∧ reopens p) = none := by
    rw [List.find?_eq_none]
    intro p hp
    rw [decide_eq_true_eq]
    exact fun hboth => hclosed p hp hboth.2
  rw [recoveryAfter_eq_find? hwindows hordered, List.find?_append, hnone, Option.none_or,
    List.find?_cons_of_pos]
  · rfl
  · exact decide_eq_true ⟨hlater, hq⟩

/-- No zero window from the end of a run on is before that end. -/
theorem takeWhile_isProbe_reopens {q : FlowPacket} {rest : List FlowPacket}
    (hordered : InOrder (windowTimeMs · base) (q :: rest)) (hq : reopens q = true) :
    (timedZeros base (q :: rest)).takeWhile (isProbe (some (windowTimeMs q base))) = [] := by
  rw [timedZeros_cons_reopens hq, List.takeWhile_eq_nil_iff]
  intro hpos hprobe
  obtain ⟨p, hp, heq⟩ := List.mem_map.mp (List.get_mem (timedZeros base rest) ⟨0, hpos⟩)
  rw [← heq] at hprobe
  have hle : windowTimeMs q base ≤ windowTimeMs p base :=
    (List.pairwise_cons.mp hordered).1 p (List.mem_filter.mp hp).1
  exact absurd (of_decide_eq_true hprobe) (not_lt.mpr hle)

/-- The search by time finds the run of a zero window exactly when the run closes before the window
that ends it. -/
theorem run_eq_iff {pre run rest : List FlowPacket} {z q : FlowPacket}
    (hwindows : windowsOf group side = pre ++ z :: (run ++ q :: rest))
    (hordered : InOrder (windowTimeMs · base) (windowsOf group side))
    (hclosed : ∀ p ∈ run, reopens p ≠ true) (hq : reopens q = true) {reopening : Option ℚ}
    (hreopening : recoveryAfter group side (windowTimeMs z base) base = reopening) :
    (reopening = some (windowTimeMs q base) ∧
      (timedZeros base (run ++ q :: rest)).takeWhile (isProbe reopening) = timedZeros base run) ↔
      ∀ p ∈ z :: run, windowTimeMs p base < windowTimeMs q base := by
  constructor
  · intro ⟨hrecovered, hprobes⟩ p hp
    rw [hrecovered] at hreopening hprobes
    rcases List.mem_cons.mp hp with rfl | hp
    · obtain ⟨_, -, -, -, -, hlater⟩ := recoveryAfter_eq_some hreopening
      exact hlater
    · have hwindow : p ∈ windowsOf group side := by
        rw [hwindows]
        simp [hp]
      have hstall := isStall_of_not_reopens hwindow (hclosed p hp)
      have htimed : (⟨windowTimeMs p base, p⟩ : Timed) ∈ timedZeros base run :=
        List.mem_map_of_mem (List.mem_filter.mpr ⟨hp, hstall⟩)
      rw [← hprobes] at htimed
      have hprobe := List.mem_takeWhile_imp htimed
      exact of_decide_eq_true hprobe
  · intro hearlier
    have hrecovered : reopening = some (windowTimeMs q base) := by
      rw [← hreopening, recoveryAfter_run hwindows hordered hclosed hq (hearlier z List.mem_cons_self)]
    refine ⟨hrecovered, ?_⟩
    have hall : ∀ t ∈ timedZeros base run, isProbe (some (windowTimeMs q base)) t = true := by
      intro t ht
      obtain ⟨p, hp, rfl⟩ := List.mem_map.mp ht
      exact decide_eq_true (hearlier p (List.mem_cons_of_mem _ (List.mem_filter.mp hp).1))
    have hend : (timedZeros base (q :: rest)).takeWhile (isProbe (some (windowTimeMs q base))) = [] := by
      have hsub : List.Sublist (q :: rest) (windowsOf group side) := by
        rw [hwindows]
        exact (List.sublist_append_right run _).trans
          ((List.sublist_cons_self z _).trans (List.sublist_append_right pre _))
      exact takeWhile_isProbe_reopens (List.Pairwise.sublist hsub hordered) hq
    rw [hrecovered, timedZeros_append, List.takeWhile_append_of_pos hall, hend, List.append_nil]

/-- Up to the end of its first run a list closes before it reopens exactly when that run does. -/
theorem pairwise_closesBefore_iff {z q : FlowPacket} {run rest : List FlowPacket}
    (hordered : InOrder (windowTimeMs · base) (z :: (run ++ q :: rest)))
    (hstalls : ∀ p ∈ z :: run, isStall p = true) (hq : reopens q = true) :
    (z :: (run ++ q :: rest)).Pairwise (ClosesBefore base) ↔
      (∀ p ∈ z :: run, windowTimeMs p base < windowTimeMs q base) ∧
        (q :: rest).Pairwise (ClosesBefore base) := by
  rw [← List.cons_append] at hordered ⊢
  rw [List.pairwise_append]
  constructor
  · intro ⟨_, hrest, hcross⟩
    exact ⟨fun p hp => hcross p hp q List.mem_cons_self (hstalls p hp) hq, hrest⟩
  · intro ⟨hearlier, hrest⟩
    refine ⟨?_, hrest, ?_⟩
    · apply List.pairwise_of_forall_mem_list
      intro p _ p' hp' _ hreopens
      rw [not_reopens_of_isStall (hstalls p' hp')] at hreopens
      cases hreopens
    · intro p hp r hr _ _
      apply (hearlier p hp).trans_le
      rcases List.mem_cons.mp hr with rfl | hr
      · exact le_rfl
      · exact (List.pairwise_cons.mp (hordered.sublist (List.sublist_append_right _ _))).1 r hr

theorem timedZeros_cons_closed {z : FlowPacket} (hz : isStall z = true) (windows : List FlowPacket) :
    timedZeros base (z :: windows) = ⟨windowTimeMs z base, z⟩ :: timedZeros base windows := by
  rw [timedZeros, List.filter_cons_of_pos hz, List.map_cons]
  rfl

/-- The last run of a list is the run of its first window when none reopens. -/
theorem closedRuns_last {z : FlowPacket} {run : List FlowPacket}
    (hclosed : ∀ p ∈ z :: run, reopens p ≠ true) : closedRuns none (z :: run) = [⟨z, run, none⟩] := by
  have htake : run.takeWhile (!reopens ·) = run := by
    rw [List.takeWhile_eq_self_iff]
    intro p hp
    simpa using hclosed p (List.mem_cons_of_mem _ hp)
  have hdrop : run.dropWhile (!reopens ·) = [] := by
    rw [List.dropWhile_eq_nil_iff]
    intro p hp
    simpa using hclosed p (List.mem_cons_of_mem _ hp)
  rw [closedRuns, if_neg (hclosed z List.mem_cons_self), closedRuns_some _ rfl, htake, hdrop]
  rfl

/-- The first run of a list ends at the first window that is not zero. -/
theorem closedRuns_first {z q : FlowPacket} {run rest : List FlowPacket}
    (hclosed : ∀ p ∈ z :: run, reopens p ≠ true) (hq : reopens q = true) :
    closedRuns none (z :: (run ++ q :: rest)) = ⟨z, run, some q⟩ :: closedRuns none (q :: rest) := by
  have hrun : ∀ p ∈ run, (!reopens p) = true := by
    intro p hp
    simpa using hclosed p (List.mem_cons_of_mem _ hp)
  have hend : (!reopens q) = false := by rw [hq, Bool.not_true]
  have htake : (run ++ q :: rest).takeWhile (!reopens ·) = run := by
    rw [List.takeWhile_append_of_pos hrun, List.takeWhile_cons, hend]
    exact List.append_nil run
  have hdrop : (run ++ q :: rest).dropWhile (!reopens ·) = q :: rest := by
    rw [List.dropWhile_append_of_pos hrun, List.dropWhile_cons, hend]
    rfl
  rw [closedRuns, if_neg (hclosed z List.mem_cons_self), closedRuns_some _ rfl, htake, hdrop]
  rfl

/-- The stall that the loop finds first is the first run exactly when that run closes before the window
that ends it. -/
theorem stallLoop_run_iff {pre run rest : List FlowPacket} {z q : FlowPacket} {fuel : ℕ}
    (hwindows : windowsOf group side = pre ++ z :: (run ++ q :: rest))
    (hordered : InOrder (windowTimeMs · base) (windowsOf group side))
    (hclosed : ∀ p ∈ z :: run, reopens p ≠ true) (hq : reopens q = true)
    (ih : stallLoop group side base fuel (timedZeros base (q :: rest)) =
      (closedRuns none (q :: rest)).map (ClosedRun.stall base) ↔
        (q :: rest).Pairwise (ClosesBefore base)) :
    stallLoop group side base (fuel + 1) (timedZeros base (z :: (run ++ q :: rest))) =
      (closedRuns none (z :: (run ++ q :: rest))).map (ClosedRun.stall base) ↔
        (z :: (run ++ q :: rest)).Pairwise (ClosesBefore base) := by
  have hstalls : ∀ p ∈ z :: run, isStall p = true := by
    intro p hp
    apply @isStall_of_not_reopens group side p _ (hclosed p hp)
    rw [hwindows, ← List.cons_append]
    exact List.mem_append_right pre (List.mem_append_left _ hp)
  have hrun := fun p hp => hclosed p (List.mem_cons_of_mem z hp)
  have hrunStalls := fun p hp => hstalls p (List.mem_cons_of_mem z hp)
  have hrunTimed : timedZeros base run = run.map fun p => ⟨windowTimeMs p base, p⟩ := by
    rw [timedZeros, List.filter_eq_self.mpr hrunStalls]
  have hfirst := run_eq_iff hwindows hordered hrun hq rfl
  have hordered' : InOrder (windowTimeMs · base) (z :: (run ++ q :: rest)) := by
    rw [hwindows] at hordered
    exact (List.pairwise_append.mp hordered).2.1
  rw [pairwise_closesBefore_iff hordered' hstalls hq, ← hfirst, ← ih,
    timedZeros_cons_closed (hstalls z List.mem_cons_self), stallLoop, closedRuns_first hclosed hq,
    List.map_cons, List.cons_eq_cons]
  generalize recoveryAfter group side (windowTimeMs z base) base = reopening
  have hsplit := (@List.takeWhile_append_dropWhile _ (isProbe reopening)
    (timedZeros base (run ++ q :: rest))).trans (timedZeros_append run (q :: rest))
  constructor
  · intro h
    obtain ⟨hhead, htail⟩ := h
    have hreopening : reopening = some (windowTimeMs q base) := congrArg Stall.recoveredAt hhead
    have hlength : ((timedZeros base (run ++ q :: rest)).takeWhile (isProbe reopening)).length =
        (timedZeros base run).length := by
      simpa [stallOf, ClosedRun.stall, hrunTimed] using congrArg Stall.probes hhead
    obtain ⟨hprobes, hdrop⟩ := List.append_inj hsplit hlength
    rw [hdrop] at htail
    exact ⟨⟨hreopening, hprobes⟩, htail⟩
  · intro h
    obtain ⟨⟨hreopening, hprobes⟩, htail⟩ := h
    rw [hprobes] at hsplit
    rw [hprobes, List.append_cancel_left hsplit, hrunTimed, hreopening]
    exact ⟨rfl, htail⟩

/-- Where no window reopens, the loop gives the one run. -/
theorem stallLoop_last {pre run : List FlowPacket} {z : FlowPacket} {fuel : ℕ}
    (hwindows : windowsOf group side = pre ++ z :: run)
    (hordered : InOrder (windowTimeMs · base) (windowsOf group side))
    (hclosed : ∀ p ∈ z :: run, reopens p ≠ true) :
    stallLoop group side base (fuel + 1) (timedZeros base (z :: run)) =
      [ClosedRun.stall base ⟨z, run, none⟩] := by
  have hstalls : ∀ p ∈ z :: run, isStall p = true := by
    intro p hp
    apply @isStall_of_not_reopens group side p _ (hclosed p hp)
    rw [hwindows]
    exact List.mem_append_right pre hp
  have hrunStalls := fun p hp => hstalls p (List.mem_cons_of_mem z hp)
  have hnone : recoveryAfter group side (windowTimeMs z base) base = none := by
    rw [recoveryAfter_eq_find? hwindows hordered, Option.map_eq_none_iff, List.find?_eq_none]
    intro p hp
    rw [decide_eq_true_eq]
    exact fun hboth => hclosed p (List.mem_cons_of_mem z hp) hboth.2
  have htake : (timedZeros base run).takeWhile (isProbe none) = timedZeros base run :=
    List.takeWhile_eq_self_iff.mpr fun _ _ => rfl
  have hdrop : (timedZeros base run).dropWhile (isProbe none) = [] :=
    List.dropWhile_eq_nil_iff.mpr fun _ _ => rfl
  rw [timedZeros_cons_closed (hstalls z List.mem_cons_self), stallLoop, hnone, htake, hdrop, stallLoop,
    timedZeros, List.filter_eq_self.mpr hrunStalls]
  rfl

/-- The windows up to the first that reopens. -/
theorem exists_run (windows : List FlowPacket) : ∃ run rest, windows = run ++ rest ∧
    (∀ p ∈ run, reopens p ≠ true) ∧ ∀ q ∈ rest.head?, reopens q = true := by
  refine ⟨windows.takeWhile (!reopens ·), windows.dropWhile (!reopens ·),
    List.takeWhile_append_dropWhile.symm, ?_, ?_⟩
  · intro p hp
    simpa using List.mem_takeWhile_imp hp
  · intro q hq
    have hnot := List.head?_dropWhile_not (!reopens ·) windows
    rw [hq] at hnot
    simpa using hnot

/-- In time order the loop gives the runs of the windows it is given exactly when each zero window
comes strictly before the windows that follow it and are not zero. -/
theorem stallLoop_eq_iff {pre windows : List FlowPacket} {fuel : ℕ}
    (hwindows : windowsOf group side = pre ++ windows)
    (hordered : InOrder (windowTimeMs · base) (windowsOf group side))
    (hfuel : (timedZeros base windows).length ≤ fuel) :
    stallLoop group side base fuel (timedZeros base windows) =
      (closedRuns none windows).map (ClosedRun.stall base) ↔ windows.Pairwise (ClosesBefore base) := by
  induction hn : windows.length using Nat.strong_induction_on generalizing pre windows fuel with
  | _ n ih =>
    cases windows with
    | nil => simp [timedZeros, stallLoop, closedRuns]
    | cons z windows =>
      by_cases hz : reopens z = true
      · -- a window that is not zero ends nothing here and starts nothing
        have hrest : windowsOf group side = (pre ++ [z]) ++ windows := by simp [hwindows]
        have hlength : windows.length < n := by
          rw [← hn]
          exact Nat.lt_succ_self _
        rw [timedZeros_cons_reopens hz] at hfuel ⊢
        rw [closedRuns, if_pos hz, Option.map_none, Option.toList_none, List.nil_append,
          ih _ hlength hrest hfuel rfl, List.pairwise_cons, and_iff_right]
        intro q _ hstall
        rw [not_reopens_of_isStall hstall] at hz
        cases hz
      · have hsub : ∀ p ∈ z :: windows, p ∈ windowsOf group side := by
          intro p hp
          rw [hwindows]
          exact List.mem_append_right pre hp
        have hzstall := isStall_of_not_reopens (hsub z List.mem_cons_self) hz
        obtain ⟨fuel, rfl⟩ : ∃ m, fuel = m + 1 := by
          rw [timedZeros_cons_closed hzstall, List.length_cons] at hfuel
          exact ⟨fuel - 1, by omega⟩
        obtain ⟨run, rest, rfl, hrun, hrest⟩ := exists_run windows
        have hclosed : ∀ p ∈ z :: run, reopens p ≠ true := List.forall_mem_cons.mpr ⟨hz, hrun⟩
        cases rest with
        | nil =>
          rw [List.append_nil] at hwindows hn hfuel hsub ⊢
          apply iff_of_true
          · rw [closedRuns_last hclosed, stallLoop_last hwindows hordered hclosed, List.map_singleton]
          · apply List.pairwise_of_forall_mem_list
            intro p _ p' hp' _ hreopens
            exact absurd hreopens (hclosed p' hp')
        | cons q rest =>
          have hq := hrest q rfl
          have hrest : windowsOf group side = (pre ++ z :: run) ++ q :: rest := by simp [hwindows]
          have hlength : (q :: rest).length < n := by
            rw [← hn, List.length_cons, List.length_cons, List.length_append, List.length_cons]
            omega
          apply stallLoop_run_iff hwindows hordered hclosed hq
          apply ih _ hlength hrest _ rfl
          rw [timedZeros_cons_closed hzstall, timedZeros_append, List.length_cons, List.length_append]
            at hfuel
          omega

end

/-! ## The stalls of an endpoint -/

/-- The packets are in time order, by their capture times or by what stands in for them. -/
def InTime (group : List FlowPacket) : Prop := InOrder (windowTimeMs · (origin group)) group

instance (group : List FlowPacket) : Decidable (InTime group) :=
  inferInstanceAs (Decidable (group.Pairwise fun p q =>
    windowTimeMs p (origin group) ≤ windowTimeMs q (origin group)))

/-- Capture times that do not decrease are a time order. -/
theorem inTime_of_stamped {group : List FlowPacket} (hstamped : Stamped group)
    (hordered : (captureTimes group).Pairwise (· ≤ ·)) : InTime group := by
  rw [captureTimes, List.pairwise_filterMap] at hordered
  apply hordered.imp_of_mem
  intro p q hp hq hle
  obtain ⟨first, last, horigin, -, -⟩ := capture_bounds hstamped (List.ne_nil_of_mem hp)
  obtain ⟨a, ha⟩ := Option.isSome_iff_exists.mp (hstamped p hp)
  obtain ⟨b, hb⟩ := Option.isSome_iff_exists.mp (hstamped q hq)
  have hab := hle a ha b hb
  simp only [windowTimeMs, ha, hb, horigin]
  apply roundTo_mono
  linarith

/-- The stalls of an endpoint are the runs of its closed windows: they have its zero windows between
them, and one is over before the next starts. -/
structure ClosedPeriods (group : List FlowPacket) (side : Side) : Prop where
  stalls : sideStalls group side =
    (closedRuns none (windowsOf group side)).map (ClosedRun.stall (origin group))
  zeros : ((closedRuns none (windowsOf group side)).flatMap fun run => run.first :: run.probes) =
    (stallPackets group).filter (·.direction.side = side)
  apart : (sideStalls group side).Pairwise fun s t => ∃ r, s.recoveredAt = some r ∧ r ≤ t.startMs

/-- The runs have the zero windows between them, in order. -/
theorem flatMap_closedRuns (current : Option ClosedRun) (windows : List FlowPacket) :
    ((closedRuns current windows).flatMap fun run => run.first :: run.probes) =
      (current.toList.flatMap fun run => run.first :: run.probes) ++ windows.filter (!reopens ·) := by
  induction windows generalizing current with
  | nil => rw [closedRuns, List.filter_nil, List.append_nil]
  | cons p windows ih =>
    by_cases hp : reopens p = true
    · rw [List.filter_cons_of_neg (by simp [hp])]
      cases current <;> simp [closedRuns, hp, ih]
    · rw [List.filter_cons_of_pos (by simpa using hp)]
      cases current <;> simp [closedRuns, hp, ih]

section

variable {group : List FlowPacket}

/-- The zero windows of an endpoint, with their times, in time order. -/
theorem inOrder_timedZeros (htime : InTime group) (side : Side) :
    InOrder Timed.timeMs (timedZeros (origin group) (windowsOf group side)) := by
  apply List.pairwise_map.mpr
  exact (htime.sublist List.filter_sublist).sublist List.filter_sublist

theorem sideStalls_eq_stallLoop (htime : InTime group) (side : Side) :
    sideStalls group side = stallLoop group side (origin group)
      (timedZeros (origin group) (windowsOf group side)).length
      (timedZeros (origin group) (windowsOf group side)) := by
  have htimed : ((stallPackets group).filter (·.direction.side = side)).map
      (fun p => (⟨windowTimeMs p (origin group), p⟩ : Timed)) =
      timedZeros (origin group) (windowsOf group side) := by
    rw [timedZeros, filter_windowsOf]
  rw [sideStalls, stallsOf, htimed, sortOn_eq_self (inOrder_timedZeros htime side)]

/-- The runs of an endpoint have its zero windows between them. -/
theorem flatMap_closedRuns_windowsOf (group : List FlowPacket) (side : Side) :
    ((closedRuns none (windowsOf group side)).flatMap fun run => run.first :: run.probes) =
      (stallPackets group).filter (·.direction.side = side) := by
  rw [flatMap_closedRuns, ← filter_windowsOf]
  apply List.filter_congr
  intro p hp
  cases hreopens : reopens p with
  | false => rw [isStall_of_not_reopens hp (by simp [hreopens]), Bool.not_false]
  | true =>
    cases hstall : isStall p with
    | false => rfl
    | true =>
      rw [not_reopens_of_isStall hstall] at hreopens
      cases hreopens

theorem pairwise_windowsOf_iff (group : List FlowPacket) (side : Side) (origin : Option ℚ) :
    (windowsOf group side).Pairwise (ClosesBefore origin) ↔ group.Pairwise fun p q =>
      p.direction.side = side → q.direction.side = side → isStall p = true → p.syn = false →
        reopens q = true → windowTimeMs p origin < windowTimeMs q origin := by
  rw [windowsOf, List.pairwise_filter]
  apply List.Pairwise.iff
  intro p q
  simp only [decide_eq_true_eq, ClosesBefore]
  constructor
  · intro h hp hq hstall hsyn hreopens
    exact h ⟨hp, .inl ⟨hstall, hsyn⟩⟩ ⟨hq, .inr hreopens⟩ hstall hreopens
  · intro h ⟨hp, hkind⟩ ⟨hq, _⟩ hstall hreopens
    rcases hkind with ⟨_, hsyn⟩ | hpreopens
    · exact h hp hq hstall hsyn hreopens
    · rw [not_reopens_of_isStall hstall] at hpreopens
      cases hpreopens

end

/-- The stalls of an endpoint are the runs of its closed windows exactly when none of its windows
reopens at the time of a zero window before it. -/
theorem sideStalls_runs_iff {group : List FlowPacket} (htime : InTime group) (side : Side) :
    ClosedPeriods group side ↔ group.Pairwise fun p q =>
      p.direction.side = side → q.direction.side = side → isStall p = true → p.syn = false →
        reopens q = true → windowTimeMs p (origin group) < windowTimeMs q (origin group) := by
  have hordered : InOrder (windowTimeMs · (origin group)) (windowsOf group side) :=
    htime.sublist List.filter_sublist
  have hloop := sideStalls_eq_stallLoop htime side
  have hiff := stallLoop_eq_iff (List.nil_append _).symm hordered le_rfl
  rw [← hloop] at hiff
  rw [← pairwise_windowsOf_iff, ← hiff]
  constructor
  · intro h
    exact h.stalls
  · intro h
    exact ⟨h, flatMap_closedRuns_windowsOf group side, sideStalls_apart group side⟩

/-- A client that closes its window and opens it again, twice; the first time after `gap` seconds. -/
def closedTwice (gap : ℚ) : List FlowPacket :=
  [ { plainAck with window := 0, ts := some 1, timeMs := 0, direction := .out },
    { plainAck with frame := 2, ts := some (1 + gap), timeMs := 1000 * gap, direction := .out },
    { plainAck with frame := 3, window := 0, ts := some 3, timeMs := 2000, direction := .out },
    { plainAck with frame := 4, ts := some 4, timeMs := 3000, direction := .out } ]

/-- The client is closed twice. A window that opens at the time at which it was closed ends no stall:
there is one stall, of both zero windows. -/
theorem reopenedAtOnce_one_stall :
    InTime (closedTwice 0) ∧
      (sideStalls (closedTwice 0) .client).map (fun s => (s.startMs, s.probes, s.recoveredAt)) =
        [(0, 2, some 3000)] ∧
      ((closedRuns none (windowsOf (closedTwice 0) .client)).map (ClosedRun.stall (some 1))).map
        (fun s => (s.startMs, s.probes, s.recoveredAt)) =
        [(0, 1, some 0), (2000, 1, some 3000)] ∧
      ¬ ClosedPeriods (closedTwice 0) .client := by
  refine ⟨?_, ?_, ?_, fun h => absurd h.stalls ?_⟩ <;> decide +kernel

theorem sideStalls_runs_iff_apart :
    ClosedPeriods (closedTwice 1) .client ∧
      (sideStalls (closedTwice 1) .client).map (fun s => (s.startMs, s.probes, s.recoveredAt)) =
        [(0, 1, some 1000), (2000, 1, some 3000)] := by
  have htime : InTime (closedTwice 1) :=
    inTime_of_stamped (show ∀ p ∈ closedTwice 1, p.ts.isSome = true by decide) (by decide +kernel)
  constructor
  · apply (sideStalls_runs_iff htime .client).mpr
    decide +kernel
  · decide +kernel

end PacketTrain.Analysis
