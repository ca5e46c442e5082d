import PacketTrain.Laws.Browser.Player

/-!
# Playing to the end

What a player that is left alone does, and what the step button does. `play_ends_iff`: each turn of playing
uses up some of `toPlay`, a pass through the range for every interval ahead, so playing ends, unless the
selected range ends beyond the flow. `steps_meet_records`: a press goes to the first record ahead, so the
presses meet them all.
-/

namespace PacketTrain.Browser

open Analysis PacketTrain.System

/-! ## The end of playing -/

/-- A turn of playing: a tick of some length or more, or the end of a skip. -/
def Plays (least : ℚ) (_ : Player) : PlayTurn → Prop
  | .tick delta => least ≤ delta
  | .skipEnds _ => True
  | _ => False

/-- The intervals beyond a time. -/
def skipsBeyond (playback : Option Timeline) (t : ℚ) : ℕ :=
  match playback with
  | none => 0
  | some model => (skipsOf model).countP fun gap => t < gap.startMs

/-- Ticks from a time to the end of the range. -/
def ticksLeft (least duration t : ℚ) : ℕ := ⌈(duration - t) / least⌉₊

/-- Ticks through the whole range. -/
def Player.ticks (least : ℚ) (p : Player) : ℕ := ticksLeft least p.duration p.timeStart

/-- What playing uses up: each interval ahead costs a pass through the range at most. -/
def Player.toPlay (least : ℚ) (p : Player) : ℕ :=
  (p.ticks least + 2) * skipsBeyond p.playback ((p.waiting.head?.map Skip.startMs).getD p.clock) +
    (p.ticks least + 1) * p.waiting.length + ticksLeft least p.duration p.clock

theorem skipsBeyond_anti (playback : Option Timeline) {t t' : ℚ} (h : t ≤ t') :
    skipsBeyond playback t' ≤ skipsBeyond playback t := by
  cases playback with
  | none => exact le_rfl
  | some model =>
    refine List.countP_mono_left fun gap _ hgap => ?_
    exact decide_eq_true (h.trans_lt (of_decide_eq_true hgap))

theorem skipsBeyond_lt {playback : Option Timeline} {t : ℚ} {gap : Skip}
    (h : nextCompressedAfter playback t = some gap) :
    skipsBeyond playback gap.startMs < skipsBeyond playback t := by
  obtain ⟨hlt, model, rfl, hmem⟩ := lt_of_nextCompressedAfter h
  exact countP_lt_of_imp (fun _ _ hbeyond => hlt.trans hbeyond) hmem hlt (lt_irrefl _)

theorem ticksLeft_anti {least : ℚ} (hleast : 0 < least) (duration : ℚ) {t t' : ℚ} (h : t ≤ t') :
    ticksLeft least duration t' ≤ ticksLeft least duration t :=
  Nat.ceil_mono (div_le_div_of_nonneg_right (by linarith) hleast.le)

theorem ticksLeft_lt {least duration t t' : ℚ} (hleast : 0 < least) (hend : t' < duration)
    (h : t + least ≤ t') : ticksLeft least duration t' < ticksLeft least duration t := by
  have hpos : 0 ≤ (duration - t') / least := div_nonneg (by linarith) hleast.le
  have hstep : (duration - t') / least + 1 ≤ (duration - t) / least := by
    rw [div_add_one hleast.ne']
    exact div_le_div_of_nonneg_right (by linarith) hleast.le
  exact Nat.lt_ceil.mpr ((Nat.ceil_lt_add_one hpos).trans_le hstep)

section

variable {p : Player} {least : ℚ}

/-- A clock that is set below the end of the range is not cut off there. -/
theorem le_setTime_of_lt {t : ℚ} (h : (p.setTime t).clock < p.duration) : t ≤ (p.setTime t).clock := by
  rcases le_total p.duration t with hcut | hinside
  · have hend : p.duration ≤ (p.setTime t).clock := (le_min le_rfl hcut).trans (le_max_right _ _)
    exact absurd h (not_lt_of_ge hend)
  · exact (le_min hinside le_rfl).trans (le_max_right _ _)

theorem toPlay_tick (h : p.Smooth) (htimer : p.timer = true) (hlimit : p.limit ≤ p.duration)
    (hleast : 0 < least) {delta : ℚ} (hdelta : least ≤ delta) (halive : (p.tick delta).timer = true) :
    (p.tick delta).toPlay least < p.toPlay least := by
  have hclock := (clock_tick h.toKept (hleast.le.trans hdelta)).1
  rw [Player.tick] at halive hclock ⊢
  cases hgap : p.gapAhead (p.clock + delta) with
  | some gap =>
    rw [hgap] at hclock
    obtain ⟨hskipping, hnext, -⟩ := of_gapAhead hgap
    rcases h.waiting htimer with ⟨hwaiting, -⟩ | ⟨_, -, hskip, -⟩
    · have hfewer := Nat.mul_le_mul_left (p.ticks least + 2) (Nat.succ_le_of_lt (skipsBeyond_lt hnext))
      have hticks := ticksLeft_anti hleast p.duration hclock
      rw [Nat.mul_succ] at hfewer
      simp only [Player.toPlay, Player.ticks, Player.setTime, hwaiting, List.nil_append, List.head?_nil,
        List.head?_cons, Option.map_none, Option.map_some, Option.getD_none, Option.getD_some,
        List.length_nil, List.length_singleton] at hfewer hticks ⊢
      omega
    · exact absurd (hskipping.symm.trans hskip) Bool.false_ne_true
  | none =>
    rw [hgap] at halive hclock
    dsimp only at halive hclock ⊢
    by_cases hstops : (p.setTime (p.clock + delta)).limit ≤ (p.setTime (p.clock + delta)).clock
    · rw [if_pos hstops] at halive
      exact absurd halive Bool.false_ne_true
    · rw [if_neg hstops] at hclock ⊢
      have hbelow : (p.setTime (p.clock + delta)).clock < p.duration :=
        (lt_of_not_ge hstops).trans_le hlimit
      have hmoved : p.clock + least ≤ (p.setTime (p.clock + delta)).clock := by
        have hreached := le_setTime_of_lt hbelow
        linarith
      have hfewer := ticksLeft_lt hleast hbelow hmoved
      have hbeyond : skipsBeyond p.playback ((p.waiting.head?.map Skip.startMs).getD
          (p.setTime (p.clock + delta)).clock) ≤
          skipsBeyond p.playback ((p.waiting.head?.map Skip.startMs).getD p.clock) := by
        cases p.waiting.head? with
        | none => exact skipsBeyond_anti _ hclock
        | some gap => exact le_rfl
      have hproduct := Nat.mul_le_mul_left (p.ticks least + 2) hbeyond
      change (p.ticks least + 2) * skipsBeyond p.playback ((p.waiting.head?.map Skip.startMs).getD
        (p.setTime (p.clock + delta)).clock) + (p.ticks least + 1) * p.waiting.length +
        ticksLeft least p.duration (p.setTime (p.clock + delta)).clock < p.toPlay least
      rw [Player.toPlay]
      omega

theorem toPlay_skipEnds (h : p.Smooth) (htimer : p.timer = true) {flow : ReplayFlow}
    (hflow : p.flow = some flow) (hleast : 0 < least) {k : ℕ} {gap : Skip}
    (hgap : p.waiting[k]? = some gap) :
    (Player.skipEnds gap { p with waiting := p.waiting.eraseIdx k }).toPlay least < p.toPlay least := by
  rcases h.waiting htimer with ⟨hwaiting, -⟩ | ⟨only, hwaiting, -, hof⟩
  · rw [hwaiting] at hgap
    cases hgap
  · rw [hwaiting] at hgap
    obtain ⟨hk, hsame⟩ := List.getElem?_eq_some_iff.mp hgap
    rw [List.length_singleton] at hk
    obtain rfl : k = 0 := by omega
    obtain rfl : only = gap := hsame
    obtain ⟨hquiet, -⟩ := hof flow hflow
    obtain ⟨hstart, hend⟩ := hquiet.range h.toKept (h.timer htimer) hflow
    have hlanding : only.startMs ≤ (p.setTime only.endMs).clock :=
      (le_min hstart hend).trans (le_max_right _ _)
    have hbeyond := Nat.mul_le_mul_left (p.ticks least + 2) (skipsBeyond_anti p.playback hlanding)
    have hticks := ticksLeft_anti hleast p.duration (h.toKept.setTime only.endMs).clock.1
    rw [Player.skipEnds, if_pos htimer]
    simp only [Player.toPlay, Player.ticks, Player.setTime, hwaiting, List.eraseIdx_zero, List.tail_cons,
      List.head?_nil, List.head?_cons, Option.map_none, Option.map_some, Option.getD_none,
      Option.getD_some, List.length_nil, List.length_singleton] at hbeyond hticks ⊢
    omega

theorem keeps_of_plays {p' : Player} {t : PlayTurn} (hplays : Plays least p t) (hturn : p.turn t = some p') :
    Undisturbed p t ∧ p'.flow = p.flow ∧ p'.limit = p.limit ∧ p'.duration = p.duration := by
  cases t with
  | tick delta =>
    obtain ⟨-, hturn⟩ := Option.ite_none_right_eq_some.mp hturn
    cases Option.some.inj hturn
    rw [Player.tick]
    cases p.gapAhead (p.clock + delta) with
    | some gap => exact ⟨trivial, rfl, rfl, rfl⟩
    | none =>
      dsimp only
      split
      · exact ⟨trivial, rfl, rfl, rfl⟩
      · exact ⟨trivial, rfl, rfl, rfl⟩
  | skipEnds k =>
    cases hgap : p.waiting[k]? with
    | none => simp only [Player.turn, hgap, reduceCtorEq] at hturn
    | some gap =>
      simp only [Player.turn, hgap] at hturn
      cases Option.some.inj hturn
      rw [Player.skipEnds]
      split
      · exact ⟨trivial, rfl, rfl, rfl⟩
      · exact ⟨trivial, rfl, rfl, rfl⟩
  | _ => exact hplays.elim

/-- One turn of playing uses something up, unless it stops the player. -/
theorem toPlay_lt (h : p.Smooth) {flow : ReplayFlow} (hflow : p.flow = some flow)
    (hlimit : p.limit ≤ p.duration) (hleast : 0 < least) {t : PlayTurn} {p' : Player}
    (hplays : Plays least p t) (hturn : p.turn t = some p') (halive : p'.timer = true) :
    p.timer = true ∧ p'.toPlay least < p.toPlay least := by
  cases t with
  | tick delta =>
    obtain ⟨⟨htimer, -⟩, hturn⟩ := Option.ite_none_right_eq_some.mp hturn
    cases Option.some.inj hturn
    exact ⟨htimer, toPlay_tick h htimer hlimit hleast hplays halive⟩
  | skipEnds k =>
    cases hgap : p.waiting[k]? with
    | none => simp only [Player.turn, hgap, reduceCtorEq] at hturn
    | some gap =>
      simp only [Player.turn, hgap] at hturn
      cases Option.some.inj hturn
      have htimer : p.timer = true := by
        rw [Player.skipEnds] at halive
        split at halive
        · next htimer => exact htimer
        · exact halive
      exact ⟨htimer, toPlay_skipEnds h htimer hflow hleast hgap⟩
  | _ => exact hplays.elim

/-- A player that has stopped is where it had to stop. -/
theorem limit_of_stopped {p' : Player} {t : PlayTurn} (hplays : Plays least p t)
    (h : p.timer = false → p.limit ≤ p.clock) (hturn : p.turn t = some p') (hstopped : p'.timer = false) :
    p'.limit ≤ p'.clock := by
  cases t with
  | tick delta =>
    obtain ⟨⟨htimer, -⟩, hturn⟩ := Option.ite_none_right_eq_some.mp hturn
    cases Option.some.inj hturn
    rw [Player.tick] at hstopped ⊢
    cases hgap : p.gapAhead (p.clock + delta) with
    | some gap =>
      rw [hgap] at hstopped
      exact absurd (hstopped.symm.trans htimer) Bool.false_ne_true
    | none =>
      rw [hgap] at hstopped
      dsimp only at hstopped ⊢
      by_cases hstops : (p.setTime (p.clock + delta)).limit ≤ (p.setTime (p.clock + delta)).clock
      · rw [if_pos hstops]
        exact hstops
      · rw [if_neg hstops] at hstopped
        exact absurd (hstopped.symm.trans htimer) Bool.false_ne_true
  | skipEnds k =>
    cases hgap : p.waiting[k]? with
    | none => simp only [Player.turn, hgap, reduceCtorEq] at hturn
    | some gap =>
      simp only [Player.turn, hgap] at hturn
      cases Option.some.inj hturn
      rw [Player.skipEnds] at hstopped ⊢
      split at hstopped
      · next htimer => exact absurd (hstopped.symm.trans htimer) Bool.false_ne_true
      · next htimer =>
        rw [if_neg htimer]
        exact h hstopped
  | _ => exact hplays.elim

/-- Where playing stops beyond the range, a tick does not stop it. -/
theorem tick_goes_on (h : p.Kept) (htimer : p.timer = true) (hlimit : p.duration < p.limit) (delta : ℚ) :
    (p.tick delta).timer = true := by
  rw [Player.tick]
  cases p.gapAhead (p.clock + delta) with
  | some gap => exact htimer
  | none =>
    have hbelow : (p.setTime (p.clock + delta)).clock < (p.setTime (p.clock + delta)).limit :=
      (h.setTime (p.clock + delta)).clock.2.trans_lt hlimit
    dsimp only
    rw [if_neg (not_le_of_gt hbelow)]
    exact htimer

/-- So there are runs of any length. -/
theorem exists_run_of_limit (n : ℕ) (h : p.Kept) (htimer : p.timer = true) (hlimit : p.duration < p.limit)
    (hleast : 0 < least) : ∃ p', run Player.turn p (List.replicate n (.tick least)) = some p' ∧
      p'.timer = true ∧ Along Player.turn (Plays least) p (List.replicate n (.tick least)) := by
  induction n generalizing p with
  | zero => exact ⟨p, rfl, htimer, trivial⟩
  | succ n ih =>
    have hturn : p.turn (.tick least) = some (p.tick least) := if_pos ⟨htimer, hleast.le⟩
    have hplays : Plays least p (.tick least) := le_rfl
    obtain ⟨-, -, hlimit', hduration'⟩ := keeps_of_plays hplays hturn
    obtain ⟨p', hrun, htimer', halong⟩ := ih (h.tick htimer least) (tick_goes_on h htimer hlimit least)
      (by rw [hlimit', hduration']; exact hlimit)
    refine ⟨p', run_cons.mpr ⟨_, hturn, hrun⟩, htimer', hplays, fun q hq => ?_⟩
    cases Option.some.inj (hturn.symm.trans hq)
    exact halong

end

/-- THE END OF PLAYING: a player that is left alone stops within a bounded number of turns, and where it has
to, exactly when the selected range ends within the flow. -/
theorem play_ends_iff {turns : List PlayTurn} {p : Player}
    (hrun : run Player.turn Player.initial turns = some p)
    (hguard : Along Player.turn Undisturbed Player.initial turns) {flow : ReplayFlow}
    (hflow : p.flow = some flow) (htimer : p.timer = true) {least : ℚ} (hleast : 0 < least) :
    (p.limit ≤ p.duration ↔ ∃ bound, ∀ more p', Along Player.turn (Plays least) p more →
      run Player.turn p more = some p' → p'.timer = true → more.length ≤ bound) ∧
    ∀ more p', Along Player.turn (Plays least) p more → run Player.turn p more = some p' →
      p'.timer = false → p'.limit ≤ p'.clock := by
  have hsmooth : p.Smooth :=
    along_induction Player.Smooth (fun _ _ _ h hg hturn => h.turn hg hturn) Player.Smooth.initial hguard hrun
  refine ⟨⟨fun hlimit => ⟨p.toPlay least, fun more p' halong hmore halive => ?_⟩, ?_⟩, ?_⟩
  · have hbound := length_le_of_measure
      (fun q : Player => q.Smooth ∧ q.flow = some flow ∧ q.limit ≤ q.duration)
      (fun q : Player => q.timer = true) (Player.toPlay least) (fun q t q' hq hplays hturn => ?_)
      ⟨hsmooth, hflow, hlimit⟩ halong hmore halive
    · omega
    · obtain ⟨hundisturbed, hflow', hlimit', hduration'⟩ := keeps_of_plays hplays hturn
      obtain ⟨hs, hf, hl⟩ := hq
      exact ⟨⟨hs.turn hundisturbed hturn, hflow'.trans hf, by rw [hlimit', hduration']; exact hl⟩,
        toPlay_lt hs hf hl hleast hplays hturn⟩
  · rintro ⟨bound, hbound⟩
    by_contra hbeyond
    obtain ⟨p', hmore, halive, halong⟩ :=
      exists_run_of_limit (bound + 1) hsmooth.toKept htimer (lt_of_not_ge hbeyond) hleast
    have hle := hbound _ p' halong hmore halive
    rw [List.length_replicate] at hle
    omega
  · intro more p' halong hmore
    exact along_induction (fun q => q.timer = false → q.limit ≤ q.clock)
      (fun _ _ _ hq hplays hturn => limit_of_stopped hplays hq hturn)
      (fun hstopped => absurd (hstopped.symm.trans htimer) Bool.false_ne_true) halong hmore

/-- The law at work: what is left of the quiet stream ends, at its last packet. -/
theorem play_ends_quiet : ∃ p, run Player.turn Player.initial quietSession = some p ∧
    p.limit = 10000 ∧ ((p.limit ≤ p.duration ↔ ∃ bound, ∀ more p', Along Player.turn (Plays 1) p more →
      run Player.turn p more = some p' → p'.timer = true → more.length ≤ bound) ∧
    ∀ more p', Along Player.turn (Plays 1) p more → run Player.turn p more = some p' →
      p'.timer = false → p'.limit ≤ p'.clock) := by
  have hlimit : ((run Player.turn Player.initial quietSession).map Player.limit) = some 10000 := by
    decide +kernel
  obtain ⟨p, hrun, hshown, hpackets⟩ := exists_run_quietSession
  rw [hrun] at hlimit
  obtain ⟨flow, hflow, -⟩ := Option.map_eq_some_iff.mp hpackets
  exact ⟨p, hrun, Option.some.inj hlimit, play_ends_iff hrun undisturbed_quietSession hflow
    (congrArg (fun shown => shown.2.1) hshown) one_pos⟩

/-! ## Steps -/

/-- The player after some presses of the step button. -/
def Player.afterSteps (p : Player) (n : ℕ) : Player := Player.stepOn^[n] p

section

variable {p : Player}

theorem nextEvent_eq_none (h : p.nextEvent = none) {e : Event} (he : e ∈ p.events) :
    e.start ≤ p.clock + 1 / 10000 := by
  have hempty := List.head?_eq_none_iff.mp h
  by_contra hlater
  have hmem : e ∈ sortOn Event.start (p.events.filter fun e => p.clock + 1 / 10000 < e.start) :=
    mem_sortOn.mpr (List.mem_filter.mpr ⟨he, decide_eq_true (lt_of_not_ge hlater)⟩)
  rw [hempty] at hmem
  cases hmem

theorem nextEvent_eq_some {e : Event} (h : p.nextEvent = some e) :
    e ∈ p.events ∧ p.clock + 1 / 10000 < e.start ∧
      ∀ e' ∈ p.events, p.clock + 1 / 10000 < e'.start → e.start ≤ e'.start := by
  obtain ⟨rest, hsorted⟩ := List.head?_eq_some_iff.mp h
  obtain ⟨he, hlater⟩ := List.mem_filter.mp (mem_sortOn.mp (List.mem_of_head? h))
  refine ⟨he, of_decide_eq_true hlater, fun e' he' hlater' => ?_⟩
  have horder := inOrder_sortOn Event.start (p.events.filter fun e => p.clock + 1 / 10000 < e.start)
  have hmem : e' ∈ sortOn Event.start (p.events.filter fun e => p.clock + 1 / 10000 < e.start) :=
    mem_sortOn.mpr (List.mem_filter.mpr ⟨he', decide_eq_true hlater'⟩)
  rw [hsorted] at horder hmem
  rcases List.mem_cons.mp hmem with rfl | hrest
  · exact le_rfl
  · exact (List.pairwise_cons.mp horder).1 e' hrest

/-- The records ahead of the clock. -/
def Player.eventsAhead (p : Player) : ℕ := p.events.countP fun e => p.clock + 1 / 10000 < e.start

/-- A press goes to the next record, which no longer lies ahead then. -/
theorem clock_stepOn (h : p.Kept) (hevents : ∀ e ∈ p.events, p.timeStart ≤ e.start ∧ e.start ≤ p.duration) :
    (∃ e ∈ p.events, p.stepOn.clock = e.start ∧ p.clock + 1 / 10000 < e.start ∧
      (∀ e' ∈ p.events, p.clock + 1 / 10000 < e'.start → e.start ≤ e'.start) ∧
      p.stepOn.eventsAhead < p.eventsAhead) ∨
    p.stepOn.clock = p.duration ∧ p.eventsAhead = 0 ∧ p.stepOn.eventsAhead = 0 := by
  have hfixed : ∀ t, p.timeStart ≤ t → t ≤ p.duration → max p.timeStart (min p.duration t) = t := by
    intro t hlo hhi
    rw [min_eq_right hhi, max_eq_right hlo]
  cases hnext : p.nextEvent with
  | some e =>
    obtain ⟨he, hlater, hfirst⟩ := nextEvent_eq_some hnext
    have hclock : p.stepOn.clock = e.start := by
      have hstop : p.stop.nextEvent = some e := hnext
      rw [Player.stepOn, hstop]
      exact hfixed e.start (hevents e he).1 (hevents e he).2
    refine .inl ⟨e, he, hclock, hlater, hfirst, ?_⟩
    refine countP_lt_of_imp (fun e' _ hahead => ?_) he hlater ?_
    · rw [hclock] at hahead
      linarith
    · rw [hclock]
      linarith
  | none =>
    have hclock : p.stepOn.clock = p.duration := by
      have hstop : p.stop.nextEvent = none := hnext
      rw [Player.stepOn, hstop]
      exact hfixed p.duration h.ordered le_rfl
    refine .inr ⟨hclock, ?_, ?_⟩
    · refine List.countP_eq_zero.mpr fun e he hahead => ?_
      exact not_lt_of_ge (nextEvent_eq_none hnext he) (of_decide_eq_true hahead)
    · refine List.countP_eq_zero.mpr fun e he hahead => ?_
      have hahead := of_decide_eq_true hahead
      have hinside := (hevents e he).2
      rw [hclock] at hahead
      linarith

/-- What presses leave as it is. -/
theorem afterSteps_keeps (h : p.Kept) (n : ℕ) : (p.afterSteps n).Kept ∧
    (p.afterSteps n).events = p.events ∧ (p.afterSteps n).timeStart = p.timeStart ∧
    (p.afterSteps n).duration = p.duration := by
  induction n generalizing p with
  | zero => exact ⟨h, rfl, rfl, rfl⟩
  | succ n ih => exact ih (h.stop.setTime _)

/-- Every record from the clock on is met, by as many presses as there are records ahead. -/
theorem exists_afterSteps (h : p.Kept)
    (hevents : ∀ e ∈ p.events, p.timeStart ≤ e.start ∧ e.start ≤ p.duration) {e : Event}
    (he : e ∈ p.events) (hclock : p.clock ≤ e.start) :
    ∃ n ≤ p.eventsAhead, (p.afterSteps n).clock ≤ e.start ∧
      e.start ≤ (p.afterSteps n).clock + 1 / 10000 := by
  generalize hcount : p.eventsAhead = count
  induction count using Nat.strong_induction_on generalizing p with
  | _ count ih =>
    by_cases hmet : e.start ≤ p.clock + 1 / 10000
    · exact ⟨0, Nat.zero_le _, hclock, hmet⟩
    · rcases clock_stepOn h hevents with ⟨next, -, hnext, -, hfirst, hfewer⟩ | ⟨-, hzero, -⟩
      · have hreached : p.stepOn.clock ≤ e.start := hnext ▸ hfirst e he (lt_of_not_ge hmet)
        obtain ⟨n, hn, hlo, hhi⟩ :=
          ih p.stepOn.eventsAhead (hcount ▸ hfewer) (h.stop.setTime _) hevents he hreached rfl
        exact ⟨n + 1, by omega, hlo, hhi⟩
      · have hahead := List.countP_eq_zero.mp hzero e he
        exact absurd (decide_eq_true (lt_of_not_ge hmet)) hahead

/-- And the press after that goes to the end, where the clock stays. -/
theorem clock_afterSteps (h : p.Kept)
    (hevents : ∀ e ∈ p.events, p.timeStart ≤ e.start ∧ e.start ≤ p.duration) {n : ℕ}
    (hn : p.eventsAhead < n) : (p.afterSteps n).clock = p.duration := by
  induction n generalizing p with
  | zero => exact absurd hn (Nat.not_lt_zero _)
  | succ n ih =>
    rcases clock_stepOn h hevents with ⟨_, -, -, -, -, hfewer⟩ | ⟨hend, -, hzero⟩
    · exact ih (h.stop.setTime _) hevents (by omega)
    · cases n with
      | zero => exact hend
      | succ n => exact ih (h.stop.setTime _) hevents (by omega)

theorem run_steps (henabled : p.enabled = true) (n : ℕ) :
    run Player.turn p (List.replicate n .step) = some (p.afterSteps n) := by
  induction n generalizing p with
  | zero => rfl
  | succ n ih => exact run_cons.mpr ⟨p.stepOn, if_pos henabled, ih henabled⟩

end

/-- THE STEP BUTTON, pressed again and again: it meets every record of the flow from the clock on, to a tenth
of a microsecond, only ever goes to a record or to the end, and gets there. -/
theorem steps_meet_records {turns : List PlayTurn} {p : Player}
    (hrun : run Player.turn Player.initial turns = some p) (henabled : p.enabled = true)
    {flow : ReplayFlow} (hflow : p.flow = some flow) :
    (∀ n, run Player.turn p (List.replicate n .step) = some (p.afterSteps n)) ∧
    (∀ q ∈ flow.packets, p.clock ≤ startOf p.captureSide p.travel q →
      ∃ n ≤ flow.packets.length, (p.afterSteps n).clock ≤ startOf p.captureSide p.travel q ∧
        startOf p.captureSide p.travel q ≤ (p.afterSteps n).clock + 1 / 10000) ∧
    (∀ n, (p.afterSteps (n + 1)).clock = p.duration ∨
      ∃ q ∈ flow.packets, (p.afterSteps (n + 1)).clock = startOf p.captureSide p.travel q ∧
        (p.afterSteps n).clock + 1 / 10000 < startOf p.captureSide p.travel q) ∧
    ∀ n, flow.packets.length < n → (p.afterSteps n).clock = p.duration := by
  have hkept : p.Kept :=
    reachable_induction Player.Kept (fun _ _ _ h hturn => h.turn hturn) Player.Kept.initial ⟨turns, hrun⟩
  have hrecords := hkept.events henabled flow hflow
  have hevents : ∀ e ∈ p.events, p.timeStart ≤ e.start ∧ e.start ≤ p.duration := by
    intro e he
    rw [hrecords] at he
    obtain ⟨q, hq, rfl⟩ := List.mem_map.mp he
    obtain ⟨hlo, hhi⟩ := hkept.range henabled flow hflow q hq
    exact ⟨hlo, (startOf_le (hkept.travel henabled) q).trans hhi⟩
  have hahead : p.eventsAhead ≤ flow.packets.length := by
    have hle := List.countP_le_length (p := fun e => p.clock + 1 / 10000 < e.start) (l := p.events)
    rwa [congrArg List.length hrecords, List.length_map] at hle
  refine ⟨run_steps henabled, fun q hq hclock => ?_, fun n => ?_, fun n hn => ?_⟩
  · have he : (⟨q.frame, startOf p.captureSide p.travel q⟩ : Event) ∈ p.events := by
      rw [hrecords]
      exact List.mem_map_of_mem hq
    obtain ⟨n, hn, hmet⟩ := exists_afterSteps hkept hevents he hclock
    exact ⟨n, hn.trans hahead, hmet⟩
  · obtain ⟨hkept', hsame, hstart, hduration⟩ := afterSteps_keeps hkept n
    have hnext : p.afterSteps (n + 1) = (p.afterSteps n).stepOn := Function.iterate_succ_apply' _ _ _
    have hinside : ∀ e ∈ (p.afterSteps n).events,
        (p.afterSteps n).timeStart ≤ e.start ∧ e.start ≤ (p.afterSteps n).duration := by
      rw [hsame, hstart, hduration]
      exact hevents
    rw [hnext]
    rcases clock_stepOn hkept' hinside with ⟨e, he, hclock, hlater, -⟩ | ⟨hend, -⟩
    · rw [hsame, hrecords] at he
      obtain ⟨q, hq, rfl⟩ := List.mem_map.mp he
      exact .inr ⟨q, hq, hclock, hlater⟩
    · exact .inl (hend.trans hduration)
  · exact clock_afterSteps hkept hevents (hahead.trans_lt hn)

/-- The law at work: from the middle of the quiet interval, two presses. -/
theorem steps_meet_records_quiet : ∃ p, run Player.turn Player.initial quietSession = some p ∧
    (p.afterSteps 1).clock = 9975 ∧ (p.afterSteps 2).clock = 10000 ∧
    ∃ flow, p.flow = some flow ∧ ∀ q ∈ flow.packets, p.clock ≤ startOf p.captureSide p.travel q →
      ∃ n ≤ flow.packets.length, (p.afterSteps n).clock ≤ startOf p.captureSide p.travel q ∧
        startOf p.captureSide p.travel q ≤ (p.afterSteps n).clock + 1 / 10000 := by
  have hsteps : ((run Player.turn Player.initial quietSession).any fun p => p.enabled = true ∧
      (p.afterSteps 1).clock = 9975 ∧ (p.afterSteps 2).clock = 10000) = true := by decide +kernel
  obtain ⟨p, hrun, -, hpackets⟩ := exists_run_quietSession
  rw [hrun] at hsteps
  obtain ⟨henabled, hfirst, hsecond⟩ := of_decide_eq_true hsteps
  obtain ⟨flow, hflow, -⟩ := Option.map_eq_some_iff.mp hpackets
  exact ⟨p, hrun, hfirst, hsecond, flow, hflow, (steps_meet_records hrun henabled hflow).2.1⟩

end PacketTrain.Browser
