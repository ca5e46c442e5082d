import Mathlib.Data.Finset.Card
import PacketTrain.Laws.Analysis.Window

/-!
# When an endpoint closes its window

`_episodes` finds the stalls of an endpoint one after another, each from where the last one ended. What it
finds can be told from the packets: the endpoint closes its window at a zero window when all those before
it were reopened by then (`mem_closings`). So can the number of an episode: the numbers go through the
closings of the endpoint met first, in time order, and then through those of the other (`index_lt_iff`).
-/

namespace PacketTrain.Analysis

/-! ## Closings -/

/-- Every zero window that the endpoint advertised before a time is reopened by then. -/
def Reopened (group : List FlowPacket) (side : Side) (t : ℚ) : Prop :=
  ∀ z ∈ stallPackets group, z.direction.side = side → windowTimeMs z (origin group) < t →
    ∃ r ∈ recoveryAfter group side (windowTimeMs z (origin group)) (origin group), r ≤ t

instance (group : List FlowPacket) (side : Side) : DecidablePred (Reopened group side) := fun _ =>
  inferInstanceAs (Decidable (∀ z ∈ _, _))

/-- The times at which an endpoint closes its window: it advertises a zero window, and its window was not
closed until then. -/
def closings (group : List FlowPacket) (side : Side) : Finset ℚ :=
  (((stallPackets group).filter (·.direction.side = side)).map
    (windowTimeMs · (origin group))).toFinset.filter (Reopened group side)

/-- For how long the window stays closed from a time on: until the endpoint reopens it or the capture
ends. Without capture times the end of the capture is unknown. -/
def closedFor (group : List FlowPacket) (side : Side) (t : ℚ) : Option ℚ :=
  ((recoveryAfter group side t (origin group)).or (captureEnd group)).map fun stop =>
    roundTo 3 (stop - t)

/-- The window stays closed for long enough that the stall is reported, or for an unknown time. -/
def Lasting (group : List FlowPacket) (side : Side) (t : ℚ) : Prop :=
  ∀ duration ∈ closedFor group side t, minStallMs ≤ duration

instance (group : List FlowPacket) (side : Side) : DecidablePred (Lasting group side) := fun _ =>
  inferInstanceAs (Decidable (∀ duration ∈ _, _))

/-- An endpoint starts a stall later than another of its own when it starts it later. -/
theorem pairwise_startMs {group : List FlowPacket} {side : Side} :
    (sideStalls group side).Pairwise fun s t =>
      s.startMs < t.startMs ∧ ∃ r, s.recoveredAt = some r ∧ r ≤ t.startMs := by
  refine (sideStalls_apart group side).imp_of_mem fun {s t} hs _ hapart => ⟨?_, hapart⟩
  obtain ⟨r, hr, hle⟩ := hapart
  obtain ⟨p, -, -, -, hrecovered⟩ := sideStalls_sound hs
  obtain ⟨_, -, -, -, -, hlater⟩ := recoveryAfter_eq_some (hrecovered.symm.trans hr)
  exact hlater.trans_le hle

/-- THE CLOSINGS of an endpoint are the starts of its stalls. -/
theorem mem_closings {group : List FlowPacket} {side : Side} {t : ℚ} :
    t ∈ closings group side ↔ ∃ s ∈ sideStalls group side, s.startMs = t := by
  have hadvertised : t ∈ (((stallPackets group).filter (·.direction.side = side)).map
      (windowTimeMs · (origin group))).toFinset ↔
        ∃ z ∈ stallPackets group, z.direction.side = side ∧ windowTimeMs z (origin group) = t := by
    simp [and_assoc]
  rw [closings, Finset.mem_filter, hadvertised]
  constructor
  · rintro ⟨⟨z, hz, rfl, rfl⟩, hreopened⟩
    obtain ⟨s, hs, hle, hbefore⟩ := sideStalls_complete hz
    rcases lt_or_eq_of_le hle with hlt | heq
    · -- the stall that the zero window belongs to is over by then
      obtain ⟨p, hp, hside, hstart, hrecovered⟩ := sideStalls_sound hs
      rw [hstart] at hlt hrecovered
      obtain ⟨r, hr, hrt⟩ := hreopened p hp hside hlt
      exact absurd (hbefore r (hrecovered.trans hr)) (not_lt_of_ge hrt)
    · exact ⟨s, hs, heq⟩
  · rintro ⟨s, hs, rfl⟩
    obtain ⟨p, hp, hside, hstart, -⟩ := sideStalls_sound hs
    refine ⟨⟨p, hp, hside, hstart.symm⟩, fun z hz hzside hlt => ?_⟩
    obtain ⟨s', hs', hle, hbefore⟩ := sideStalls_complete hz
    rw [hzside] at hs'
    obtain ⟨_, -, -, -, hrecovered⟩ := sideStalls_sound hs'
    have hstarts : s'.startMs < s.startMs := hle.trans_lt hlt
    -- an earlier stall of the endpoint is over by then
    obtain ⟨r, hr, hle'⟩ := of_pairwise_and (fun _ _ => lt_asymm) pairwise_startMs hs' hs hstarts
    refine ⟨r, ?_, hle'⟩
    rw [recoveryAfter_within hle fun r hr => hbefore r (hrecovered.trans hr), ← hrecovered]
    exact hr

/-! ## Episodes and closings -/

/-- The endpoint sent the first of the zero windows. Its stalls are found before those of the other. -/
def FoundFirst (group : List FlowPacket) (side : Side) : Prop :=
  (stallPackets group).head?.map (·.direction.side) = some side

instance (group : List FlowPacket) : DecidablePred (FoundFirst group) := fun _ =>
  inferInstanceAs (Decidable (_ = _))

/-- The order in which the stalls are found. -/
def FoundBefore (group : List FlowPacket) (c d : Side × ℚ) : Prop :=
  c.1 = d.1 ∧ c.2 < d.2 ∨ c.1 ≠ d.1 ∧ FoundFirst group c.1

theorem FoundBefore.asymm {group : List FlowPacket} (c d : Side × ℚ) (h : FoundBefore group c d) :
    ¬ FoundBefore group d c := by
  rintro (⟨heq', hlt'⟩ | ⟨hne', hfirst'⟩) <;> rcases h with ⟨heq, hlt⟩ | ⟨hne, hfirst⟩
  · exact lt_asymm hlt hlt'
  · exact hne heq'.symm
  · exact hne' heq.symm
  · exact hne (Option.some.inj (hfirst.symm.trans hfirst'))

/-- The endpoint of an episode, and when it closed its window. -/
def Episode.closing (e : Episode) : Side × ℚ := (e.direction, e.startMs)

theorem map_closing_allEpisodes (group : List FlowPacket) :
    (allEpisodes group).map Episode.closing =
      (sidesOf (stallPackets group)).flatMap fun side =>
        (sideStalls group side).map fun s => (side, s.startMs) := by
  have hfound : (allEpisodes group).map Episode.closing =
      (((sidesOf (stallPackets group)).flatMap fun side =>
        (sideStalls group side).map fun s => (side, s)).zipIdx.map Prod.fst).map
          fun e => (e.1, e.2.startMs) := by
    rw [allEpisodes, List.map_map, List.map_map]
    rfl
  rw [hfound, List.zipIdx_map_fst, List.map_flatMap]
  simp only [List.map_map]
  rfl

/-- The episodes of an endpoint, before the short ones are dropped, are its closings. -/
theorem exists_closing_iff {group : List FlowPacket} {side : Side} {t : ℚ} :
    (∃ e ∈ allEpisodes group, e.closing = (side, t)) ↔ t ∈ closings group side := by
  rw [← List.mem_map, map_closing_allEpisodes, List.mem_flatMap, mem_closings]
  simp only [List.mem_map, Prod.mk.injEq]
  constructor
  · rintro ⟨_, -, s, hs, rfl, rfl⟩
    exact ⟨s, hs, rfl⟩
  · rintro ⟨s, hs, rfl⟩
    obtain ⟨p, hp, hside, -⟩ := sideStalls_sound hs
    exact ⟨side, mem_sidesOf.mpr ⟨p, hp, hside⟩, s, hs, rfl, rfl⟩

theorem closing_mem {group : List FlowPacket} {e : Episode} (he : e ∈ allEpisodes group) :
    e.startMs ∈ closings group e.direction := exists_closing_iff.mp ⟨e, he, rfl⟩

/-- An episode goes on for as long as the window stays closed. -/
theorem durationMs_eq {group : List FlowPacket} {e : Episode} (he : e ∈ allEpisodes group) :
    e.durationMs = closedFor group e.direction e.startMs := by
  obtain ⟨side, index, s, hs, rfl⟩ := exists_stall he
  obtain ⟨p, -, -, -, hrecovered⟩ := sideStalls_sound hs
  show (episodeOf side (captureEnd group) index s).durationMs = closedFor group side s.startMs
  rw [closedFor, ← hrecovered, episodeOf]
  cases s.recoveredAt with
  | some r => rfl
  | none => cases captureEnd group <;> rfl

theorem reported_iff {group : List FlowPacket} {e : Episode} (he : e ∈ allEpisodes group) :
    e.reported = true ↔ Lasting group e.direction e.startMs := by
  rw [Episode.reported, Lasting, ← durationMs_eq he]
  cases e.durationMs <;> simp

/-- The stalls are numbered as they are found. -/
theorem map_index_allEpisodes (group : List FlowPacket) :
    (allEpisodes group).map Episode.index = List.range (allEpisodes group).length := by
  rw [allEpisodes, List.map_map, List.length_map, List.length_zipIdx, List.range_eq_range',
    ← List.zipIdx_map_snd 0]
  rfl

theorem pairwise_allEpisodes (group : List FlowPacket) :
    (allEpisodes group).Pairwise fun e e' => e.index < e'.index := by
  apply List.pairwise_map.mp
  rw [map_index_allEpisodes]
  exact List.pairwise_lt_range

theorem pairwise_sidesOf (group : List FlowPacket) :
    (sidesOf (stallPackets group)).Pairwise fun a b => a ≠ b ∧ FoundFirst group a := by
  unfold FoundFirst
  cases stallPackets group with
  | nil => exact .nil
  | cons first rest =>
    rw [sidesOf]
    split
    · apply List.pairwise_pair.mpr
      refine ⟨?_, rfl⟩
      cases first.direction.side <;> decide
    · exact List.pairwise_singleton _ _

theorem pairwise_closing (group : List FlowPacket) :
    (allEpisodes group).Pairwise fun e e' => FoundBefore group e.closing e'.closing := by
  apply List.pairwise_map.mp
  rw [map_closing_allEpisodes, List.pairwise_flatMap]
  refine ⟨fun side _ => ?_, (pairwise_sidesOf group).imp fun {a b} hab => ?_⟩
  · exact List.pairwise_map.mpr (pairwise_startMs.imp fun hst => .inl ⟨rfl, hst.1⟩)
  · intro c hc d hd
    obtain ⟨_, -, rfl⟩ := List.mem_map.mp hc
    obtain ⟨_, -, rfl⟩ := List.mem_map.mp hd
    exact .inr hab

/-- THE NUMBERS go through the closings of the endpoint met first, and then through the other's. -/
theorem index_lt_iff {group : List FlowPacket} {e e' : Episode} (he : e ∈ allEpisodes group)
    (he' : e' ∈ allEpisodes group) :
    e.index < e'.index ↔ FoundBefore group e.closing e'.closing := by
  have hboth := (pairwise_allEpisodes group).and (pairwise_closing group)
  constructor
  · exact of_pairwise_and (r := fun e e' : Episode => e.index < e'.index) (fun _ _ => lt_asymm) hboth he he'
  · exact of_pairwise_and (r := fun e e' => FoundBefore group e.closing e'.closing)
      (fun _ _ => FoundBefore.asymm _ _) (hboth.imp And.symm) he he'

/-- The episodes of a kind are as many as the closings of the kind. -/
theorem countP_allEpisodes (group : List FlowPacket) (side : Side) (q : ℚ → Prop) [DecidablePred q] :
    ((allEpisodes group).countP fun e => e.direction = side ∧ q e.startMs) =
      ((closings group side).filter q).card := by
  have hnodup : (((allEpisodes group).filter fun e => e.direction = side ∧ q e.startMs).map
      Episode.startMs).Nodup := by
    apply List.pairwise_map.mpr
    refine ((pairwise_closing group).filter _).imp_of_mem fun {e e'} he he' hbefore heq => ?_
    obtain ⟨-, he⟩ := List.mem_filter.mp he
    obtain ⟨-, he'⟩ := List.mem_filter.mp he'
    have hside := (of_decide_eq_true he).1.trans (of_decide_eq_true he').1.symm
    rcases hbefore with ⟨-, hlt⟩ | ⟨hne, -⟩
    · exact hlt.ne heq
    · exact hne hside
  rw [List.countP_eq_length_filter, ← List.length_map Episode.startMs,
    ← List.toFinset_card_of_nodup hnodup]
  congr 1
  ext t
  simp only [List.mem_toFinset, List.mem_map, List.mem_filter, decide_eq_true_eq, Finset.mem_filter,
    ← exists_closing_iff, Episode.closing, Prod.mk.injEq]
  constructor
  · rintro ⟨e, ⟨he, hside, hq⟩, rfl⟩
    exact ⟨⟨e, he, hside, rfl⟩, hq⟩
  · rintro ⟨⟨e, he, hside, rfl⟩, hq⟩
    exact ⟨e, ⟨he, hside, hq⟩, rfl⟩

end PacketTrain.Analysis
