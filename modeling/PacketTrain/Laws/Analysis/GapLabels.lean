import PacketTrain.Laws.Analysis.Timeline

/-!
# Which gaps get a label

A gap is labelled when its replay at the selected speed reaches the trigger. `analyze_gaps` divides by a
speed of at least a thousandth, and a tenth of that is a speed too. `labelledAsStated_iff` says that this
shows exactly where a gap reaches the trigger at the selected speed and not at a thousandth.
-/

namespace PacketTrain.Analysis

/-- The stated rule for the gap of two neighbours. -/
structure LabelRule (mode : Mode) (speed trigger : ℚ) (ab : FlowPacket × FlowPacket) (gap : Gap) :
    Prop where
  frames : gap.frames = (ab.1.frame, ab.2.frame)
  labelled : gap.label.isSome = true ↔
    trigger ≤ capturedS ab.1 ab.2 / speed ∧ (gap.compressible = true ∨ mode = .fast)
  /-- A gap that is not idle is named as a wait. -/
  named : ∀ label, gap.label = some label → gap.compressible = false →
    label = "Transport wait compressed · " ++ fixed1 (capturedS ab.1 ab.2) ++ " s (" ++
      gap.reason.text ++ ")"

/-- Every label of the first gap is a label of the second. -/
def Gap.LabelKept (gap gap' : Gap) : Prop := gap.label.isSome = true → gap'.label.isSome = true

/-- The gaps of an analysis have the labels that are stated, and so a slower replay keeps them, and so
does fast mode. -/
structure LabelledAsStated (packets : List FlowPacket) (mode : Mode) (speed trigger : ℚ) : Prop where
  gaps : List.Forall₂ (LabelRule mode speed trigger) (laterPairs packets)
    (analyzeGaps packets mode speed trigger).gaps
  slower : ∀ slower, speedMin ≤ slower → slower ≤ speed →
    List.Forall₂ Gap.LabelKept (analyzeGaps packets mode speed trigger).gaps
      (analyzeGaps packets mode slower trigger).gaps
  fast : List.Forall₂ Gap.LabelKept (analyzeGaps packets .smart speed trigger).gaps
    (analyzeGaps packets .fast speed trigger).gaps

/-- The classifier takes the gap for idle. -/
def Compressible (packets : List FlowPacket) (ab : FlowPacket × FlowPacket) : Prop :=
  (gapReason (sortOn FlowPacket.timeMs packets) ab.1 ab.2
    (outstandingBytes (sortOn FlowPacket.timeMs packets))).1 = true

/-- The speed is not below a thousandth, or no gap that may be compressed reaches the trigger at this
speed and does not at a thousandth. -/
def ClampUnseen (packets : List FlowPacket) (mode : Mode) (speed trigger : ℚ) : Prop :=
  1 / 1000 ≤ speed ∨ ∀ ab ∈ laterPairs packets, Compressible packets ab ∨ mode = .fast →
    ¬(trigger * speed ≤ capturedS ab.1 ab.2 ∧ capturedS ab.1 ab.2 < trigger / 1000)

section

variable {packets : List FlowPacket} {mode : Mode} {speed trigger : ℚ} {ab : FlowPacket × FlowPacket}

theorem compressible_gapBetween (hmode : mode ≠ .faithful) :
    (gapBetween packets mode speed trigger ab).compressible = true ↔ Compressible packets ab := by
  cases mode with
  | faithful => exact absurd rfl hmode
  | smart => rfl
  | fast => rfl

theorem label_gapBetween (hmode : mode ≠ .faithful) :
    (gapBetween packets mode speed trigger ab).label =
      gapLabel mode (gapBetween packets mode speed trigger ab).compressible
        (playbackS speed ab.1 ab.2 < trigger) (gapBetween packets mode speed trigger ab).reason
        (capturedS ab.1 ab.2) := by
  cases mode with
  | faithful => exact absurd rfl hmode
  | smart => rfl
  | fast => rfl

theorem isSome_gapLabel (compressible tooShort : Bool) (reason : GapReason) (captured : ℚ) :
    (gapLabel mode compressible tooShort reason captured).isSome = true ↔
      tooShort = false ∧ (compressible = true ∨ mode = .fast) := by
  rw [gapLabel]
  cases compressible <;> cases tooShort <;> cases mode <;> simp

/-- The code's own rule: the replay time is that of a speed of at least a thousandth. -/
theorem isSome_gapBetween (hmode : mode ≠ .faithful) :
    (gapBetween packets mode speed trigger ab).label.isSome = true ↔
      trigger ≤ playbackS speed ab.1 ab.2 ∧ (Compressible packets ab ∨ mode = .fast) := by
  rw [label_gapBetween hmode, isSome_gapLabel, compressible_gapBetween hmode, decide_eq_false_iff_not,
    not_lt]

theorem named_gapBetween (hmode : mode ≠ .faithful) {label : String}
    (hlabel : (gapBetween packets mode speed trigger ab).label = some label)
    (hwait : (gapBetween packets mode speed trigger ab).compressible = false) :
    label = "Transport wait compressed · " ++ fixed1 (capturedS ab.1 ab.2) ++ " s (" ++
      (gapBetween packets mode speed trigger ab).reason.text ++ ")" := by
  rw [label_gapBetween hmode, hwait, gapLabel] at hlabel
  simp only [Bool.false_and, Bool.false_eq_true, if_false] at hlabel
  split at hlabel
  · exact (Option.some.inj hlabel).symm
  · cases hlabel

/-- A slower replay takes longer. -/
theorem playbackS_anti {slower : ℚ} (hslower : slower ≤ speed) (hpos : 0 < capturedS ab.1 ab.2) :
    playbackS speed ab.1 ab.2 ≤ playbackS slower ab.1 ab.2 := by
  rw [playbackS, playbackS]
  apply div_le_div_of_nonneg_left hpos.le
  · exact lt_max_of_lt_right (by norm_num)
  · exact max_le_max_right _ hslower

/-- At a speed below a thousandth the trigger is compared with the replay at a thousandth. -/
theorem trigger_le_iff (hspeed : 0 < speed) (hpos : 0 < capturedS ab.1 ab.2) :
    (trigger ≤ playbackS speed ab.1 ab.2 ↔ trigger ≤ capturedS ab.1 ab.2 / speed) ↔
      1 / 1000 ≤ speed ∨
        ¬(trigger * speed ≤ capturedS ab.1 ab.2 ∧ capturedS ab.1 ab.2 < trigger / 1000) := by
  rcases le_or_gt (1 / 1000) speed with hle | hlt
  · rw [playbackS, max_eq_left hle]
    exact iff_of_true Iff.rfl (.inl hle)
  · have hplayback : trigger ≤ playbackS speed ab.1 ab.2 ↔ trigger / 1000 ≤ capturedS ab.1 ab.2 := by
      rw [playbackS, max_eq_right hlt.le, le_div_iff₀ (by norm_num), mul_one_div]
    have hslow : trigger / 1000 ≤ capturedS ab.1 ab.2 → trigger * speed ≤ capturedS ab.1 ab.2 := by
      intro h
      nlinarith
    rw [hplayback, le_div_iff₀ hspeed, or_iff_right hlt.not_ge, not_and, not_lt]
    exact ⟨Iff.mpr, fun h => ⟨hslow, h⟩⟩

/-- A gap has the stated label when the two replay times say the same of it, or it is preserved. -/
theorem labelRule_iff (hspeed : 0 < speed) (hmode : mode ≠ .faithful) (hpos : 0 < capturedS ab.1 ab.2) :
    LabelRule mode speed trigger ab (gapBetween packets mode speed trigger ab) ↔
      (Compressible packets ab ∨ mode = .fast → 1 / 1000 ≤ speed ∨
        ¬(trigger * speed ≤ capturedS ab.1 ab.2 ∧ capturedS ab.1 ab.2 < trigger / 1000)) := by
  have hlabelled : ((gapBetween packets mode speed trigger ab).label.isSome = true ↔
      trigger ≤ capturedS ab.1 ab.2 / speed ∧
        ((gapBetween packets mode speed trigger ab).compressible = true ∨ mode = .fast)) ↔
      (Compressible packets ab ∨ mode = .fast →
        (trigger ≤ playbackS speed ab.1 ab.2 ↔ trigger ≤ capturedS ab.1 ab.2 / speed)) := by
    rw [isSome_gapBetween hmode, compressible_gapBetween hmode, and_congr_left_iff]
  rw [← trigger_le_iff hspeed hpos, ← hlabelled]
  constructor
  · exact LabelRule.labelled
  · intro h
    exact ⟨frames_gapBetween ab trigger, h, fun label => named_gapBetween hmode⟩

theorem labelRule_gaps_iff (hspeed : 0 < speed) (hmode : mode ≠ .faithful) :
    List.Forall₂ (LabelRule mode speed trigger) (laterPairs packets)
        (analyzeGaps packets mode speed trigger).gaps ↔ ClampUnseen packets mode speed trigger := by
  have hpos : ∀ ab ∈ laterPairs packets, 0 < capturedS ab.1 ab.2 := by
    intro ab hab
    exact of_decide_eq_true (List.mem_filter.mp hab).2
  rw [analyzeGaps_gaps, List.forall₂_map_right_iff, List.forall₂_same, ClampUnseen]
  by_cases hclamp : 1 / 1000 ≤ speed
  · apply iff_of_true
    · intro ab hab
      exact (labelRule_iff hspeed hmode (hpos ab hab)).mpr fun _ => .inl hclamp
    · exact .inl hclamp
  · rw [or_iff_right hclamp]
    apply forall₂_congr
    intro ab hab
    rw [labelRule_iff hspeed hmode (hpos ab hab), or_iff_right hclamp]

/-- The gaps have the stated labels exactly when the replay at a thousandth is not seen. -/
theorem labelledAsStated_iff (hmin : speedMin ≤ speed) (_hmax : speed ≤ speedMax)
    (hmode : mode ≠ .faithful) :
    LabelledAsStated packets mode speed trigger ↔ ClampUnseen packets mode speed trigger := by
  have hspeed : 0 < speed := lt_of_lt_of_le (by norm_num [speedMin]) hmin
  have hpos : ∀ ab ∈ laterPairs packets, 0 < capturedS ab.1 ab.2 := by
    intro ab hab
    exact of_decide_eq_true (List.mem_filter.mp hab).2
  rw [← labelRule_gaps_iff hspeed hmode]
  constructor
  · exact LabelledAsStated.gaps
  · intro hgaps
    refine ⟨hgaps, ?_, ?_⟩
    · intro slower _ hslower
      rw [analyzeGaps_gaps, analyzeGaps_gaps, List.forall₂_map_left_iff, List.forall₂_map_right_iff,
        List.forall₂_same]
      intro ab hab hlabel
      rw [isSome_gapBetween hmode] at hlabel ⊢
      exact ⟨hlabel.1.trans (playbackS_anti hslower (hpos ab hab)), hlabel.2⟩
    · rw [analyzeGaps_gaps, analyzeGaps_gaps, List.forall₂_map_left_iff, List.forall₂_map_right_iff,
        List.forall₂_same]
      intro ab _ hlabel
      rw [isSome_gapBetween Mode.noConfusion] at hlabel ⊢
      exact ⟨hlabel.1, .inr rfl⟩

end

/-- Two acknowledgements a millisecond apart. -/
def millisecondApart : List FlowPacket :=
  [ { plainAck with ts := none, timeMs := 0, direction := .out },
    { serverAck with frame := 2, ts := none, timeMs := 1, direction := .in_ } ]

/-- At a ten-thousandth the millisecond takes ten seconds to replay and is not compressed. -/
theorem millisecond_unlabelled : speedMin ≤ (1 / 10000 : ℚ) ∧ (1 / 10000 : ℚ) ≤ speedMax ∧
    ¬LabelledAsStated millisecondApart .smart (1 / 10000) playbackTriggerS := by
  refine ⟨by decide +kernel, by decide +kernel, ?_⟩
  intro h
  have hpair : ∃ ab ∈ laterPairs millisecondApart,
      (gapReason (sortOn FlowPacket.timeMs millisecondApart) ab.1 ab.2
          (outstandingBytes (sortOn FlowPacket.timeMs millisecondApart))).1 = true ∧
        playbackTriggerS * (1 / 10000) ≤ capturedS ab.1 ab.2 ∧
          capturedS ab.1 ab.2 < playbackTriggerS / 1000 := by decide +kernel
  obtain ⟨ab, hab, hidle, hreached⟩ := hpair
  rcases (labelRule_gaps_iff (by norm_num) Mode.noConfusion).mp h.gaps with hspeed | hunseen
  · norm_num at hspeed
  · exact hunseen ab hab (.inl hidle) hreached

/-- The law at work: at the speed of the capture the labels are those that are stated; at half a thousandth
the millisecond reaches the trigger, and at a thousandth it does not. -/
theorem labelledAsStated_iff_normal :
    LabelledAsStated millisecondApart .fast 1 playbackTriggerS ∧
      ¬ClampUnseen millisecondApart .fast (1 / 2000) playbackTriggerS ∧
      ¬LabelledAsStated millisecondApart .fast (1 / 2000) playbackTriggerS := by
  have hseen : ¬ClampUnseen millisecondApart .fast (1 / 2000) playbackTriggerS := by
    rintro (hspeed | hunseen)
    · norm_num at hspeed
    · have hpair : ∃ ab ∈ laterPairs millisecondApart,
          playbackTriggerS * (1 / 2000) ≤ capturedS ab.1 ab.2 ∧
            capturedS ab.1 ab.2 < playbackTriggerS / 1000 := by decide +kernel
      obtain ⟨ab, hab, hreached⟩ := hpair
      exact hunseen ab hab (.inr rfl) hreached
  have hlaw : ∀ speed, speedMin ≤ speed → speed ≤ speedMax →
      (LabelledAsStated millisecondApart .fast speed playbackTriggerS ↔
        ClampUnseen millisecondApart .fast speed playbackTriggerS) := fun _ hmin hmax =>
    labelledAsStated_iff hmin hmax Mode.noConfusion
  exact ⟨(hlaw 1 (by decide +kernel) (by decide +kernel)).mpr (.inl (by norm_num)), hseen,
    fun hlabelled => hseen ((hlaw _ (by decide +kernel) (by decide +kernel)).mp hlabelled)⟩

end PacketTrain.Analysis
