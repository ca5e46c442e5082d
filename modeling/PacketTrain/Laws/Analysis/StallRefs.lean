import PacketTrain.Laws.Analysis.Closings
import PacketTrain.Laws.Analysis.Phases

/-!
# Stall references

A stalled pause points at an episode of `receiver_window_analysis` by the episode's number. The stalls
are numbered as they are found, endpoint by endpoint, and the short ones are dropped and the rest sorted
afterwards; the episode is matched by time and not by the endpoint. `stall_references_iff` says when the
references are right nevertheless, in terms of when the two endpoints close their windows and for how
long (`Meets`, `Numbered`).
-/

namespace PacketTrain.Analysis

/-! ## Numbers and positions -/

/-- The order of the episodes in the response: by start, and then as found. -/
def Episode.Before (e e' : Episode) : Prop :=
  e.startMs < e'.startMs ∨ e.startMs = e'.startMs ∧ e.index < e'.index

instance : DecidableRel Episode.Before := fun _ _ => inferInstanceAs (Decidable (_ ∨ _ ∧ _))

theorem Episode.Before.asymm (e e' : Episode) (h : e.Before e') : ¬ e'.Before e := by
  rintro (hlt | ⟨heq, hlt⟩) <;> rcases h with h | ⟨h, h'⟩
  · exact lt_asymm h hlt
  · exact hlt.ne' h
  · exact h.ne' heq
  · exact lt_asymm h' hlt

/-- As many stalls are numbered before an episode and dropped or sorted behind it as are numbered after
it and sorted before it. -/
def KeepsNumber (found : List Episode) (e : Episode) : Prop :=
  (found.countP fun x => x.index < e.index ∧ (x.reported = false ∨ e.startMs < x.startMs)) =
    found.countP fun x => e.index < x.index ∧ x.reported = true ∧ x.startMs < e.startMs

instance (found : List Episode) (e : Episode) : Decidable (KeepsNumber found e) :=
  inferInstanceAs (Decidable (_ = _))

theorem pairwise_episodes (group : List FlowPacket) : (episodes group).Pairwise Episode.Before :=
  pairwise_sortOn Episode.startMs ((pairwise_allEpisodes group).filter _)

theorem getElem?_allEpisodes {group : List FlowPacket} {e : Episode} (he : e ∈ allEpisodes group) :
    (allEpisodes group)[e.index]? = some e := by
  obtain ⟨i, hi⟩ := List.getElem?_of_mem he
  have hindex : ((allEpisodes group).map Episode.index)[i]? = some e.index := by
    rw [List.getElem?_map, hi, Option.map_some]
  rw [map_index_allEpisodes, List.getElem?_range (List.getElem?_eq_some_iff.mp hi).1] at hindex
  rwa [← Option.some.inj hindex]

/-- Two stalls do not bear one number. -/
theorem index_inj {group : List FlowPacket} {e e' : Episode} (he : e ∈ allEpisodes group)
    (he' : e' ∈ allEpisodes group) (h : e.index = e'.index) : e = e' := by
  have hsame := getElem?_allEpisodes he
  rw [h, getElem?_allEpisodes he'] at hsame
  exact (Option.some.inj hsame).symm

theorem mem_allEpisodes {group : List FlowPacket} {e : Episode} (h : e ∈ episodes group) :
    e ∈ allEpisodes group ∧ e.reported = true := List.mem_filter.mp (mem_sortOn.mp h)

/-- The number counts the stalls found before: those dropped or sorted behind, and the others. -/
theorem index_eq_count {group : List FlowPacket} {e : Episode} (he : e ∈ allEpisodes group) :
    e.index =
      ((allEpisodes group).countP fun x =>
        x.index < e.index ∧ (x.reported = false ∨ e.startMs < x.startMs)) +
      (allEpisodes group).countP fun x =>
        x.index < e.index ∧ x.reported = true ∧ x.startMs ≤ e.startMs := by
  have hnumber : (allEpisodes group).countP (fun x => x.index < e.index) = e.index :=
    countP_of_getElem? (fun _ _ => lt_asymm) (pairwise_allEpisodes group) (getElem?_allEpisodes he)
  refine hnumber.symm.trans (countP_eq_add (fun x _ => ?_) ?_)
  · cases x.reported
    · simp
    · simp [← and_or_left, lt_or_ge]
  · rintro x - ⟨-, hdropped | hbehind⟩ ⟨-, hreported, hle⟩
    · rw [hdropped] at hreported
      cases hreported
    · exact absurd hle (not_le_of_gt hbehind)

/-- The position counts the episodes before: those found after, and the others. -/
theorem position_eq_count {group : List FlowPacket} {e : Episode} (he : e ∈ allEpisodes group) :
    (episodes group).countP (fun x => x.Before e) =
      ((allEpisodes group).countP fun x =>
        e.index < x.index ∧ x.reported = true ∧ x.startMs < e.startMs) +
      (allEpisodes group).countP fun x =>
        x.index < e.index ∧ x.reported = true ∧ x.startMs ≤ e.startMs := by
  have hrank : (episodes group).countP (fun x => x.Before e) =
      (allEpisodes group).countP fun x => x.Before e ∧ x.reported = true := by
    rw [episodes, (perm_sortOn _ _).countP_eq, List.countP_filter]
    simp
  refine hrank.trans (countP_eq_add (fun x hx => ?_) ?_)
  · constructor
    · rintro ⟨hlt | ⟨heq, hlt⟩, hreported⟩
      · rcases lt_trichotomy x.index e.index with hbefore | hsame | hafter
        · exact .inr ⟨hbefore, hreported, hlt.le⟩
        · rw [index_inj hx he hsame] at hlt
          exact absurd hlt (lt_irrefl _)
        · exact .inl ⟨hafter, hreported, hlt⟩
      · exact .inr ⟨hlt, hreported, heq.le⟩
    · rintro (⟨-, hreported, hlt⟩ | ⟨hbefore, hreported, hle⟩)
      · exact ⟨.inl hlt, hreported⟩
      · refine ⟨?_, hreported⟩
        rcases lt_or_eq_of_le hle with hlt | heq
        · exact .inl hlt
        · exact .inr ⟨heq, hbefore⟩
  · intro x _ hafter hbefore
    exact absurd hbefore.1 (lt_asymm hafter.1)

/-- An episode stands at its number exactly when it keeps it. -/
theorem getElem?_index_iff {group : List FlowPacket} {e : Episode} (he : e ∈ episodes group) :
    (episodes group)[e.index]? = some e ↔ KeepsNumber (allEpisodes group) e := by
  obtain ⟨hall, -⟩ := mem_allEpisodes he
  have hnumber := index_eq_count hall
  have hposition : ∀ {i}, (episodes group)[i]? = some e →
      (episodes group).countP (fun x => x.Before e) = i := fun hi =>
    countP_of_getElem? Episode.Before.asymm (pairwise_episodes group) hi
  rw [position_eq_count hall] at hposition
  rw [KeepsNumber]
  constructor
  · intro hi
    have hi := hposition hi
    omega
  · intro hkeeps
    obtain ⟨i, hi⟩ := List.getElem?_of_mem he
    have hcount := hposition hi
    have heq : e.index = i := by omega
    rwa [heq]

/-! ## Numbers and closings -/

/-- A closing keeps its number. For the endpoint met first: as many of its earlier stalls are too short to
report as stalls of the other endpoint are reported and start before. For the other endpoint: no earlier
stall of its own is too short, and every stall of the endpoint met first is reported and starts by
then. -/
def Numbered (group : List FlowPacket) (side : Side) (t : ℚ) : Prop :=
  if FoundFirst group side then
    ((closings group side).filter fun s => s < t ∧ ¬ Lasting group side s).card =
      ((closings group side.other).filter fun s => s < t ∧ Lasting group side.other s).card
  else
    (∀ s ∈ closings group side, s < t → Lasting group side s) ∧
      ∀ s ∈ closings group side.other, s ≤ t ∧ Lasting group side.other s

instance (group : List FlowPacket) (side : Side) : DecidablePred (Numbered group side) := fun _ =>
  inferInstanceAs (Decidable (if FoundFirst group side then _ else _))

theorem Side.ne_iff_eq_other {a b : Side} : a ≠ b ↔ a = b.other := by
  cases a <;> cases b <;> decide

@[simp] theorem Side.other_ne (a : Side) : a.other ≠ a := by
  cases a <;> decide

/-- Before an episode of the endpoint met first come the earlier ones of that endpoint. -/
theorem index_lt_iff_of_first {group : List FlowPacket} {x e : Episode} (hx : x ∈ allEpisodes group)
    (he : e ∈ allEpisodes group) (hfirst : FoundFirst group e.direction) :
    x.index < e.index ↔ x.direction = e.direction ∧ x.startMs < e.startMs := by
  rw [index_lt_iff hx he]
  refine or_iff_left fun h => h.1 ?_
  exact Option.some.inj (h.2.symm.trans hfirst)

/-- After it come its later ones and those of the other endpoint. -/
theorem lt_index_iff_of_first {group : List FlowPacket} {x e : Episode} (hx : x ∈ allEpisodes group)
    (he : e ∈ allEpisodes group) (hfirst : FoundFirst group e.direction) :
    e.index < x.index ↔
      x.direction = e.direction ∧ e.startMs < x.startMs ∨ x.direction = e.direction.other := by
  rw [index_lt_iff he hx, ← Side.ne_iff_eq_other]
  simp only [FoundBefore, Episode.closing, and_iff_left hfirst, ne_eq, eq_comm]

/-- Before an episode of the other endpoint come its earlier ones and those of the endpoint met first. -/
theorem index_lt_iff_of_second {group : List FlowPacket} {x e : Episode} (hx : x ∈ allEpisodes group)
    (he : e ∈ allEpisodes group) (hfirst : FoundFirst group e.direction.other) :
    x.index < e.index ↔
      x.direction = e.direction ∧ x.startMs < e.startMs ∨ x.direction = e.direction.other := by
  rw [index_lt_iff hx he]
  refine or_congr_right ?_
  rw [← Side.ne_iff_eq_other]
  refine and_iff_left_of_imp fun hne => ?_
  rwa [show x.closing.1 = e.direction.other from Side.ne_iff_eq_other.mp hne]

/-- Some endpoint is met first where there is a stall. -/
theorem foundFirst_other {group : List FlowPacket} {side : Side} (h : ¬ FoundFirst group side)
    {t : ℚ} (ht : t ∈ closings group side) : FoundFirst group side.other := by
  obtain ⟨s, hs, -⟩ := mem_closings.mp ht
  obtain ⟨p, hp, -⟩ := sideStalls_sound hs
  unfold FoundFirst at h ⊢
  cases hstalls : stallPackets group with
  | nil =>
    rw [hstalls] at hp
    cases hp
  | cons first rest =>
    rw [hstalls] at h
    have hne : first.direction.side ≠ side := fun heq => h (congrArg some heq)
    exact congrArg some (Side.ne_iff_eq_other.mp hne)

theorem reported_eq_false_iff {group : List FlowPacket} {x : Episode} (hx : x ∈ allEpisodes group) :
    x.reported = false ↔ ¬ Lasting group x.direction x.startMs := by
  rw [← reported_iff hx, Bool.not_eq_true]

theorem keepsNumber_iff_of_first {group : List FlowPacket} {e : Episode} (he : e ∈ allEpisodes group)
    (hfirst : FoundFirst group e.direction) :
    KeepsNumber (allEpisodes group) e ↔ Numbered group e.direction e.startMs := by
  rw [KeepsNumber, Numbered, if_pos hfirst, ← countP_allEpisodes, ← countP_allEpisodes]
  refine Eq.congr (List.countP_congr fun x hx => ?_) (List.countP_congr fun x hx => ?_)
  · simp only [decide_eq_true_eq, index_lt_iff_of_first hx he hfirst, reported_eq_false_iff hx]
    constructor
    · rintro ⟨⟨hside, hlt⟩, hdropped | hlater⟩
      · exact ⟨hside, hlt, hside ▸ hdropped⟩
      · exact absurd hlater (lt_asymm hlt)
    · rintro ⟨hside, hlt, hdropped⟩
      exact ⟨⟨hside, hlt⟩, .inl (hside ▸ hdropped)⟩
  · simp only [decide_eq_true_eq, lt_index_iff_of_first hx he hfirst, reported_iff hx]
    constructor
    · rintro ⟨⟨-, hlater⟩ | hother, hreported, hlt⟩
      · exact absurd hlt (lt_asymm hlater)
      · exact ⟨hother, hlt, hother ▸ hreported⟩
    · rintro ⟨hother, hlt, hreported⟩
      exact ⟨.inr hother, hother ▸ hreported, hlt⟩

theorem keepsNumber_iff_of_second {group : List FlowPacket} {e : Episode} (he : e ∈ allEpisodes group)
    (hfirst : ¬ FoundFirst group e.direction) :
    KeepsNumber (allEpisodes group) e ↔ Numbered group e.direction e.startMs := by
  have hother := foundFirst_other hfirst (closing_mem he)
  have hbefore : ∀ x ∈ allEpisodes group, x.index < e.index ↔
      x.direction = e.direction ∧ x.startMs < e.startMs ∨ x.direction = e.direction.other :=
    fun x hx => index_lt_iff_of_second hx he hother
  -- nothing that is numbered after it starts before it
  have hnone : (allEpisodes group).countP (fun x =>
      e.index < x.index ∧ x.reported = true ∧ x.startMs < e.startMs) = 0 := by
    rw [List.countP_eq_zero]
    intro x hx h
    obtain ⟨hlater, -, hlt⟩ := of_decide_eq_true h
    refine lt_asymm hlater ((hbefore x hx).mpr ?_)
    by_cases hside : x.direction = e.direction
    · exact .inl ⟨hside, hlt⟩
    · exact .inr (Side.ne_iff_eq_other.mp hside)
  rw [KeepsNumber, Numbered, if_neg hfirst, hnone, List.countP_eq_zero]
  simp only [decide_eq_true_eq, not_and, not_or, Bool.not_eq_false, not_lt]
  constructor
  · intro h
    refine ⟨fun s hs hlt => ?_, fun s hs => ?_⟩ <;>
      obtain ⟨x, hx, hclosing⟩ := exists_closing_iff.mpr hs <;>
      have hside : x.direction = _ := congrArg Prod.fst hclosing <;>
      have hstart : x.startMs = s := congrArg Prod.snd hclosing
    · have hreported := (h x hx ((hbefore x hx).mpr (.inl ⟨hside, hstart.trans_lt hlt⟩))).1
      rwa [reported_iff hx, hside, hstart] at hreported
    · obtain ⟨hreported, hle⟩ := h x hx ((hbefore x hx).mpr (.inr hside))
      rw [reported_iff hx, hside, hstart] at hreported
      exact ⟨hstart ▸ hle, hreported⟩
  · rintro ⟨hown, hall⟩ x hx hlt
    rw [reported_iff hx]
    rcases (hbefore x hx).mp hlt with ⟨hside, hearlier⟩ | hside
    · have hin := closing_mem hx
      rw [hside] at hin ⊢
      exact ⟨hown _ hin hearlier, hearlier.le⟩
    · have hin := closing_mem hx
      rw [hside] at hin ⊢
      exact (hall _ hin).symm

/-- THE NUMBER of an episode is kept exactly when that of its closing is. -/
theorem keepsNumber_iff {group : List FlowPacket} {e : Episode} (he : e ∈ allEpisodes group) :
    KeepsNumber (allEpisodes group) e ↔ Numbered group e.direction e.startMs := by
  by_cases hfirst : FoundFirst group e.direction
  · exact keepsNumber_iff_of_first he hfirst
  · exact keepsNumber_iff_of_second he hfirst

/-! ## Pauses and their episodes -/

/-- Of the stalls that are reported and overlap a pause, the one that starts first. -/
structure EarliestOverlap (packets : List FlowPacket) (pauseStart pauseEnd : ℚ) (e : Episode) : Prop where
  mem : e ∈ allEpisodes packets
  reported : e.reported = true
  overlaps : e.overlaps pauseStart pauseEnd = true
  earliest : ∀ x ∈ allEpisodes packets, x.reported = true → x.overlaps pauseStart pauseEnd = true →
    x = e ∨ e.Before x

theorem find?_overlaps_iff {packets : List FlowPacket} {pauseStart pauseEnd : ℚ} {e : Episode} :
    (episodes packets).find? (·.overlaps pauseStart pauseEnd) = some e ↔
      EarliestOverlap packets pauseStart pauseEnd e := by
  have hmem : ∀ {x}, x ∈ episodes packets ↔ x ∈ allEpisodes packets ∧ x.reported = true := by
    intro x
    rw [episodes, mem_sortOn, List.mem_filter]
  rw [find?_eq_some_iff_of_pairwise Episode.Before.asymm (pairwise_episodes packets)]
  constructor
  · rintro ⟨he, hoverlaps, hfirst⟩
    obtain ⟨hall, hreported⟩ := hmem.mp he
    exact ⟨hall, hreported, hoverlaps, fun x hx hrep hover => hfirst x (hmem.mpr ⟨hx, hrep⟩) hover⟩
  · intro h
    refine ⟨hmem.mpr ⟨h.mem, h.reported⟩, h.overlaps, fun x hx hover => ?_⟩
    obtain ⟨hall, hreported⟩ := hmem.mp hx
    exact h.earliest x hall hreported hover

theorem overlaps_iff {e : Episode} {pauseStart pauseEnd : ℚ} :
    e.overlaps pauseStart pauseEnd = true ↔
      e.startMs ≤ pauseEnd ∧ ∀ duration, e.durationMs = some duration → pauseStart ≤ e.startMs + duration := by
  rw [Episode.overlaps]
  cases e.durationMs <;> simp

theorem lt_of_quiet {before after : ℚ} (h : quiet before after = true) : before < after := by
  have hgap : thresholds.idleGapS < (after - before) / 1000 := of_decide_eq_true h
  simp only [thresholds] at hgap
  linarith

/-- The stall of a pause names the sender of the first closed window. -/
theorem windowStall_eq_some {ordered : List FlowPacket} {pauseStart pauseEnd : ℚ} {stall : WindowStall}
    (h : windowStall ordered pauseStart pauseEnd = some stall) :
    ∃ closed, (closedWindows ordered pauseStart pauseEnd).head? = some closed ∧
      closed.src = stall.advertiser := by
  rw [windowStall] at h
  split at h
  · cases h
  · cases hclosed : closedWindows ordered pauseStart pauseEnd with
    | nil =>
      rw [hclosed] at h
      cases h
    | cons closed rest =>
      rw [hclosed] at h
      cases h
      exact ⟨closed, rfl, rfl⟩

theorem exists_windowStall {ordered : List FlowPacket} {pauseStart pauseEnd : ℚ} {closed : FlowPacket}
    (hlt : pauseStart < pauseEnd)
    (hclosed : (closedWindows ordered pauseStart pauseEnd).head? = some closed) :
    ∃ stall, windowStall ordered pauseStart pauseEnd = some stall := by
  rw [windowStall, if_neg (not_le_of_gt hlt)]
  obtain ⟨rest, hrest⟩ := List.head?_eq_some_iff.mp hclosed
  rw [hrest]
  exact ⟨_, rfl⟩

theorem pausePhase_windowStall (ordered : List FlowPacket) (episodes : List Episode) (index : ℕ)
    (pauseStart pauseEnd : ℚ) :
    (pausePhase ordered episodes index pauseStart pauseEnd).windowStall =
      (windowStall ordered pauseStart pauseEnd).map fun stall =>
        ⟨stall, (episodes.find? (·.overlaps pauseStart pauseEnd)).map
          (·.reference (roundTo 3 (pauseEnd - pauseStart)))⟩ := by
  rw [pausePhase]
  cases windowStall ordered pauseStart pauseEnd <;> rfl

theorem pausePhase_times (ordered : List FlowPacket) (episodes : List Episode) (index : ℕ)
    (pauseStart pauseEnd : ℚ) :
    (pausePhase ordered episodes index pauseStart pauseEnd).startMs = roundTo 3 pauseStart ∧
      (pausePhase ordered episodes index pauseStart pauseEnd).endMs = roundTo 3 pauseEnd ∧
      (pausePhase ordered episodes index pauseStart pauseEnd).durationMs =
        roundTo 3 (pauseEnd - pauseStart) := by
  rw [pausePhase]
  cases windowStall ordered pauseStart pauseEnd <;> exact ⟨rfl, rfl, rfl⟩

/-! ## Sound references -/

/-- The times of the packets have three decimals. -/
def Milli (packets : List FlowPacket) : Prop := ∀ p ∈ packets, roundTo 3 p.timeMs = p.timeMs

theorem milli_accountingInput (packets : List Packet) (stream : ℕ) :
    Milli (accountingInput packets stream) := by
  intro p hp
  obtain ⟨firstTs, hclock⟩ := exists_onClock packets stream
  obtain ⟨ts, -, htime⟩ := hclock p hp
  obtain ⟨n, hn⟩ := roundTo_milli 3 ((ts - firstTs) * 1000)
  exact roundTo_of_milli (htime.trans hn)

/-- What the reference of a stalled pause says of an episode: it stands at that position, it is the one
described, it overlaps the pause, and its endpoint sent the zero window whose sender the pause calls the
advertiser. -/
structure Refers (packets : List FlowPacket) (pause : Phase) (stall : PauseStall) (ref : EpisodeRef)
    (e : Episode) : Prop where
  position : (receiverWindowAnalysis packets).episodes[ref.episodeIndex]? = some e
  described : ref = e.reference pause.durationMs
  overlaps : e.startMs ≤ pause.endMs ∧
    ∀ duration, e.durationMs = some duration → pause.startMs ≤ e.startMs + duration
  advertised : ∃ closed,
    (closedWindows (sortOn FlowPacket.timeMs packets) pause.startMs pause.endMs).head? = some closed ∧
      closed.src = stall.advertiser ∧ closed.direction.side = e.direction

/-- Every reference of the table refers. -/
def StallReferencesSound (packets : List FlowPacket) : Prop :=
  ∀ pause ∈ (streamPhases packets (receiverWindowAnalysis packets).episodes).phases,
    ∀ stall, pause.windowStall = some stall → ∀ ref, stall.episode = some ref →
      ∃ e, Refers packets pause stall ref e

/-- The first stall that overlaps a pause keeps its number, and the first closed window in the pause or
shortly before it is of the same endpoint. -/
def KeepsReference (packets : List FlowPacket) (pauseStart pauseEnd : ℚ) : Prop :=
  ∀ closed e, (closedWindows (sortOn FlowPacket.timeMs packets) pauseStart pauseEnd).head? = some closed →
    EarliestOverlap packets pauseStart pauseEnd e →
      KeepsNumber (allEpisodes packets) e ∧ closed.direction.side = e.direction

/-- The references of the table are sound exactly when every pause keeps its reference. -/
theorem stallReferencesSound_iff {packets : List FlowPacket} (h : Milli packets) :
    StallReferencesSound packets ↔
      ∀ ab ∈ pauses packets, KeepsReference packets ab.1.timeMs ab.2.timeMs := by
  have htimes : ∀ ab ∈ pauses packets,
      roundTo 3 ab.1.timeMs = ab.1.timeMs ∧ roundTo 3 ab.2.timeMs = ab.2.timeMs := by
    intro ab hab
    obtain ⟨hbefore, hafter⟩ := mem_of_adjacent (a := ab.1) (b := ab.2) (List.mem_of_mem_filter hab)
    exact ⟨h _ (mem_sortOn.mp hbefore), h _ (mem_sortOn.mp hafter)⟩
  rw [StallReferencesSound, receiverWindowAnalysis_episodes]
  constructor
  · intro hsound ab hab closed e hclosed hearliest
    have hlt := lt_of_quiet (List.mem_filter.mp hab).2
    obtain ⟨index, hpause⟩ := pause_mem (episodes packets) hab
    obtain ⟨stall, hstall⟩ := exists_windowStall hlt hclosed
    obtain ⟨hstart, hend, -⟩ := pausePhase_times (sortOn FlowPacket.timeMs packets) (episodes packets) index
      ab.1.timeMs ab.2.timeMs
    have hfields := pausePhase_windowStall (sortOn FlowPacket.timeMs packets) (episodes packets) index
      ab.1.timeMs ab.2.timeMs
    rw [hstall, find?_overlaps_iff.mpr hearliest] at hfields
    obtain ⟨e', hrefers⟩ := hsound _ hpause _ hfields _ rfl
    obtain ⟨closed', hclosed', -, hside⟩ := hrefers.advertised
    rw [hstart, hend, (htimes ab hab).1, (htimes ab hab).2, hclosed] at hclosed'
    obtain rfl := Option.some.inj hclosed'
    have hposition := hrefers.position
    rw [receiverWindowAnalysis_episodes] at hposition
    -- the episode described bears the number of the one at the position
    have heq : e = e' := index_inj hearliest.mem (mem_allEpisodes (List.mem_of_getElem? hposition)).1
      (congrArg EpisodeRef.episodeIndex hrefers.described)
    rw [← heq] at hposition hside
    exact ⟨(getElem?_index_iff (List.mem_of_getElem? hposition)).mp hposition, hside⟩
  · intro hkeeps pause hpause stall hstall ref href
    obtain ⟨ab, hab, index, rfl⟩ := exists_pause hpause hstall
    obtain ⟨hstart, hend, hduration⟩ := pausePhase_times (sortOn FlowPacket.timeMs packets)
      (episodes packets) index ab.1.timeMs ab.2.timeMs
    rw [pausePhase_windowStall] at hstall
    obtain ⟨window, hwindow, rfl⟩ := Option.map_eq_some_iff.mp hstall
    obtain ⟨e, he, rfl⟩ := Option.map_eq_some_iff.mp href
    obtain ⟨closed, hclosed, hadvertiser⟩ := windowStall_eq_some hwindow
    have hearliest := find?_overlaps_iff.mp he
    obtain ⟨hnumber, hside⟩ := hkeeps ab hab closed e hclosed hearliest
    refine ⟨e, ?_, ?_, ?_, closed, ?_, hadvertiser, hside⟩
    · rw [receiverWindowAnalysis_episodes]
      exact (getElem?_index_iff (List.mem_of_find?_eq_some he)).mpr hnumber
    · rw [hduration]
    · rw [hstart, hend, (htimes ab hab).1, (htimes ab hab).2]
      exact overlaps_iff.mp hearliest.overlaps
    · rwa [hstart, hend, (htimes ab hab).1, (htimes ab hab).2]

/-! ## References and closings -/

/-- At a time the endpoint closes its window, for long enough that the stall is reported, and the stall
overlaps a pause. -/
structure Meets (group : List FlowPacket) (side : Side) (pauseStart pauseEnd t : ℚ) : Prop where
  closes : t ∈ closings group side
  lasting : Lasting group side t
  starts : t ≤ pauseEnd
  reaches : ∀ duration ∈ closedFor group side t, pauseStart ≤ t + duration

theorem meets_of_overlaps {group : List FlowPacket} {e : Episode} {pauseStart pauseEnd : ℚ}
    (he : e ∈ allEpisodes group) (hreported : e.reported = true)
    (hoverlaps : e.overlaps pauseStart pauseEnd = true) :
    Meets group e.direction pauseStart pauseEnd e.startMs := by
  obtain ⟨hstarts, hreaches⟩ := overlaps_iff.mp hoverlaps
  rw [durationMs_eq he] at hreaches
  exact ⟨closing_mem he, (reported_iff he).mp hreported, hstarts, hreaches⟩

theorem Meets.exists_episode {group : List FlowPacket} {side : Side} {pauseStart pauseEnd t : ℚ}
    (h : Meets group side pauseStart pauseEnd t) :
    ∃ e ∈ allEpisodes group, e.direction = side ∧ e.startMs = t ∧ e.reported = true ∧
      e.overlaps pauseStart pauseEnd = true := by
  obtain ⟨e, he, hclosing⟩ := exists_closing_iff.mpr h.closes
  obtain rfl : e.direction = side := congrArg Prod.fst hclosing
  obtain rfl : e.startMs = t := congrArg Prod.snd hclosing
  refine ⟨e, he, rfl, rfl, (reported_iff he).mpr h.lasting, overlaps_iff.mpr ⟨h.starts, ?_⟩⟩
  rw [durationMs_eq he]
  exact h.reaches

theorem Meets.exists_earliest {group : List FlowPacket} {side : Side} {pauseStart pauseEnd t : ℚ}
    (h : Meets group side pauseStart pauseEnd t) : ∃ e, EarliestOverlap group pauseStart pauseEnd e := by
  obtain ⟨e, he, -, -, hreported, hoverlaps⟩ := h.exists_episode
  have hsome : ((episodes group).find? (·.overlaps pauseStart pauseEnd)).isSome = true :=
    List.find?_isSome.mpr ⟨e, mem_sortOn.mpr (List.mem_filter.mpr ⟨he, hreported⟩), hoverlaps⟩
  obtain ⟨first, hfirst⟩ := Option.isSome_iff_exists.mp hsome
  exact ⟨first, find?_overlaps_iff.mp hfirst⟩

theorem EarliestOverlap.meets {group : List FlowPacket} {pauseStart pauseEnd : ℚ} {e : Episode}
    (h : EarliestOverlap group pauseStart pauseEnd e) :
    Meets group e.direction pauseStart pauseEnd e.startMs :=
  meets_of_overlaps h.mem h.reported h.overlaps

theorem EarliestOverlap.startMs_le {group : List FlowPacket} {pauseStart pauseEnd : ℚ} {e : Episode}
    (h : EarliestOverlap group pauseStart pauseEnd e) {side : Side} {t : ℚ}
    (ht : Meets group side pauseStart pauseEnd t) : e.startMs ≤ t := by
  obtain ⟨e', he', -, rfl, hreported, hoverlaps⟩ := ht.exists_episode
  rcases h.earliest e' he' hreported hoverlaps with rfl | hlt | ⟨heq, -⟩
  · exact le_rfl
  · exact hlt.le
  · exact heq.le

/-- Of the closings that meet a pause an endpoint's first comes before all of the other endpoint, and
keeps its number. -/
structure Leads (group : List FlowPacket) (side : Side) (pauseStart pauseEnd : ℚ) : Prop where
  before : ∀ t', Meets group side.other pauseStart pauseEnd t' →
    ∃ t, Meets group side pauseStart pauseEnd t ∧ (t < t' ∨ t = t' ∧ FoundFirst group side)
  numbered : ∀ t, Meets group side pauseStart pauseEnd t →
    (∀ s, Meets group side pauseStart pauseEnd s → t ≤ s) → Numbered group side t

/-- The first zero window in a pause or in the second before it. -/
def FirstZeroWindow (packets : List FlowPacket) (pauseStart pauseEnd : ℚ) (z : FlowPacket) : Prop :=
  (sortOn FlowPacket.timeMs packets).find? (fun p =>
    isStall p ∧ pauseStart - stallLookbackMs ≤ p.timeMs ∧ p.timeMs ≤ pauseEnd) = some z

/-- The endpoint of the earliest stall leads, when the stall keeps its number. -/
theorem EarliestOverlap.leads {group : List FlowPacket} {pauseStart pauseEnd : ℚ} {e : Episode}
    (h : EarliestOverlap group pauseStart pauseEnd e) (hnumber : KeepsNumber (allEpisodes group) e) :
    Leads group e.direction pauseStart pauseEnd := by
  refine ⟨fun t' h' => ⟨e.startMs, h.meets, ?_⟩, fun t ht hfirst => ?_⟩
  · obtain ⟨e', he', hother, rfl, hreported, hoverlaps⟩ := h'.exists_episode
    rcases h.earliest e' he' hreported hoverlaps with rfl | hlt | ⟨heq, hlt⟩
    · exact absurd hother.symm (Side.other_ne _)
    · exact .inl hlt
    · refine .inr ⟨heq, ?_⟩
      rcases (index_lt_iff h.mem he').mp hlt with ⟨hsame, -⟩ | ⟨-, hfound⟩
      · exact absurd (hother.symm.trans hsame.symm) (Side.other_ne _)
      · exact hfound
  · obtain rfl : t = e.startMs := le_antisymm (hfirst _ h.meets) (h.startMs_le ht)
    exact (keepsNumber_iff h.mem).mp hnumber

/-- An endpoint that leads is that of the earliest stall. -/
theorem Leads.side_eq {group : List FlowPacket} {side : Side} {pauseStart pauseEnd : ℚ} {e : Episode}
    (h : Leads group side pauseStart pauseEnd) (hearliest : EarliestOverlap group pauseStart pauseEnd e) :
    side = e.direction := by
  by_contra hne
  have hmeets := hearliest.meets
  rw [Side.ne_iff_eq_other.mp (Ne.symm hne)] at hmeets
  obtain ⟨t, ht, hearlier⟩ := h.before _ hmeets
  obtain ⟨e', he', rfl, rfl, hreported, hoverlaps⟩ := ht.exists_episode
  have hbefore : e'.Before e :=
    hearlier.imp id fun ⟨heq, hfound⟩ => ⟨heq, (index_lt_iff he' hearliest.mem).mpr (.inr ⟨hne, hfound⟩)⟩
  rcases hearliest.earliest e' he' hreported hoverlaps with rfl | hlater
  · exact hne rfl
  · exact Episode.Before.asymm _ _ hlater hbefore

/-- THE REFERENCE of a pause is kept exactly when the endpoint of its first zero window leads. -/
theorem keepsReference_iff {packets : List FlowPacket} {pauseStart pauseEnd : ℚ} :
    KeepsReference packets pauseStart pauseEnd ↔ ∀ z, FirstZeroWindow packets pauseStart pauseEnd z →
      Leads packets z.direction.side pauseStart pauseEnd := by
  unfold KeepsReference FirstZeroWindow
  simp only [closedWindows, List.head?_filter]
  refine forall_congr' fun z => ?_
  constructor
  · intro hkeeps hz
    by_cases hsome : ∃ e, EarliestOverlap packets pauseStart pauseEnd e
    · obtain ⟨e, hearliest⟩ := hsome
      obtain ⟨hnumber, hside⟩ := hkeeps e hz hearliest
      exact hside ▸ hearliest.leads hnumber
    · exact ⟨fun _ h' => absurd h'.exists_earliest hsome, fun _ h _ => absurd h.exists_earliest hsome⟩
  · intro hleads e hz hearliest
    have hside := (hleads hz).side_eq hearliest
    have hleads := hside ▸ hleads hz
    exact ⟨(keepsNumber_iff hearliest.mem).mpr
      (hleads.numbered _ hearliest.meets fun _ hs => hearliest.startMs_le hs), hside⟩

/-- The references of the table are sound exactly when at every pause the endpoint of its first zero
window leads. -/
theorem stall_references_iff {packets : List FlowPacket} (h : Milli packets) :
    StallReferencesSound packets ↔ ∀ ab ∈ pauses packets, ∀ z,
      FirstZeroWindow packets ab.1.timeMs ab.2.timeMs z →
        Leads packets z.direction.side ab.1.timeMs ab.2.timeMs := by
  rw [stallReferencesSound_iff h]
  exact forall₂_congr fun _ _ => keepsReference_iff

/-- What a sound table says of its `n`-th phase. -/
theorem StallReferencesSound.nth {packets : List FlowPacket} (h : StallReferencesSound packets) (n : ℕ)
    (startMs endMs : ℚ) (index : ℕ)
    (hphase : ((streamPhases packets (receiverWindowAnalysis packets).episodes).phases[n]?.bind fun pause =>
      pause.windowStall.bind fun stall => stall.episode.map fun ref =>
        (pause.startMs, pause.endMs, ref.episodeIndex)) = some (startMs, endMs, index)) :
    ∃ e closed, (receiverWindowAnalysis packets).episodes[index]? = some e ∧
      (closedWindows (sortOn FlowPacket.timeMs packets) startMs endMs).head? = some closed ∧
        closed.direction.side = e.direction := by
  obtain ⟨pause, hpause, hbind⟩ := Option.bind_eq_some_iff.mp hphase
  obtain ⟨stall, hstall, hmap⟩ := Option.bind_eq_some_iff.mp hbind
  obtain ⟨ref, href, heq⟩ := Option.map_eq_some_iff.mp hmap
  cases heq
  obtain ⟨e, hrefers⟩ := h pause (List.mem_of_getElem? hpause) stall hstall ref href
  obtain ⟨closed, hclosed, -, hside⟩ := hrefers.advertised
  exact ⟨e, closed, hrefers.position, hclosed, hside⟩

/-- The client's window is closed for 5 ms and then for four seconds. -/
def briefStall : List Packet :=
  [ { plainAck with window := 0, ts := 0 },
    { plainAck with frame := 2, ts := 1 / 200 },
    { plainAck with frame := 3, window := 0, ts := 1 },
    { plainAck with frame := 4, ts := 5 } ]

/-- The server's window is closed while the client's is. -/
def twoStalls : List Packet :=
  [ { plainAck with window := 0, ts := 0 },
    { serverAck with frame := 2, window := 0, ts := 4 },
    { serverAck with frame := 3, ts := 9 },
    { plainAck with frame := 4, ts := 10 } ]

/-- The only episode of the first is number 1, and position 1 is past the end. The second pause of the
other is the server's, and its reference is the client's episode. -/
theorem stall_references_stray :
    ¬ StallReferencesSound (accountingInput briefStall 0) ∧
      ¬ StallReferencesSound (accountingInput twoStalls 0) := by
  constructor
  · intro h
    obtain ⟨e, -, hposition, -⟩ := h.nth 1 1000 5000 1 (by decide +kernel)
    have hpast : (receiverWindowAnalysis (accountingInput briefStall 0)).episodes[1]? = none := by
      decide +kernel
    rw [hpast] at hposition
    cases hposition
  · intro h
    obtain ⟨e, closed, hposition, hclosed, hside⟩ := h.nth 3 4000 9000 0 (by decide +kernel)
    have hclient := congrArg (Option.map Episode.direction) hposition
    have hserver := congrArg (Option.map fun p : FlowPacket => p.direction.side) hclosed
    rw [Option.map_some, ← hside] at hclient
    have hsides := hserver.trans hclient.symm
    revert hsides
    decide +kernel

/-- The client's window is closed for four seconds. -/
def oneStall : List Packet :=
  [ { plainAck with window := 0, ts := 1 }, { plainAck with frame := 2, ts := 5 } ]

/-- One stall is number 0 and stands at position 0. -/
theorem stall_references_iff_one :
    StallReferencesSound (accountingInput oneStall 0) ∧
      (streamPhases (accountingInput oneStall 0)
        (receiverWindowAnalysis (accountingInput oneStall 0)).episodes).phases.filterMap (fun pause =>
          pause.windowStall.bind fun stall => stall.episode.map EpisodeRef.episodeIndex) = [0] := by
  refine ⟨(stall_references_iff (milli_accountingInput oneStall 0)).mpr ?_, by decide +kernel⟩
  intro ab _ z hz
  have hclient : ∀ p ∈ accountingInput oneStall 0, p.direction.side = .client := by decide +kernel
  have hserver : closings (accountingInput oneStall 0) .server = ∅ := by decide +kernel
  have hnumbered : ∀ t ∈ closings (accountingInput oneStall 0) .client,
      Numbered (accountingInput oneStall 0) .client t := by
    decide +kernel
  rw [hclient z (mem_sortOn.mp (List.mem_of_find?_eq_some hz))]
  refine ⟨fun t' h' => ?_, fun t h _ => hnumbered t h.closes⟩
  have hin := h'.closes
  rw [show Side.client.other = .server from rfl, hserver] at hin
  cases hin

end PacketTrain.Analysis
