import PacketTrain.Analysis.Accounting
import PacketTrain.Laws.Analysis.Detail
import PacketTrain.Laws.Analysis.Shift

/-!
# The window history

A window field that is present is a point of the history, and the points of a connection are scaled when
both of its SYNs carry the option. `scaled_window` leaves a zero window out as if the field were absent,
and reads the option of one direction without the other. `scaledWindow_iff` says that these are the only
two ways to go wrong.
-/

namespace PacketTrain.Analysis

/-- The window-scale option of a direction, from the first of its SYNs that carries one. -/
def scaleOption (packets : List FlowPacket) (direction : Direction) : Option ℤ :=
  (packets.find? fun p => p.syn ∧ p.direction = direction ∧ 0 ≤ p.wscale).map (·.wscale)

/-- The shift of a direction once both sides have offered one. -/
def negotiatedShift (packets : List FlowPacket) (direction : Direction) : ℤ :=
  match scaleOption packets direction, scaleOption packets direction.reverse with
  | some shift, some _ => shift
  | _, _ => 0

/-- The point of a window field. -/
structure WindowPoint.Shows (packets : List FlowPacket) (p : FlowPacket) (point : WindowPoint) : Prop where
  timeMs : point.timeMs = p.timeMs
  direction : point.direction = p.direction
  raw : point.raw = p.window
  syn : p.syn = true → point.scaled = none
  scaled : p.syn = false →
    point.scaled = some (p.window <<< (negotiatedShift packets p.direction).toNat)

/-- A SYN of the direction was captured. -/
def OpenedBy (packets : List FlowPacket) (direction : Direction) : Prop :=
  ∃ p ∈ packets, p.syn = true ∧ p.direction = direction

/-! ## Shifts -/

theorem scaleOption_eq_some {packets : List FlowPacket} {direction : Direction} {shift : ℤ}
    (h : scaleOption packets direction = some shift) : 0 ≤ shift := by
  obtain ⟨p, hp, rfl⟩ := Option.map_eq_some_iff.mp h
  have htest := List.find?_some hp
  exact (of_decide_eq_true htest).2.2

/-- When a SYN was captured the shift of its direction is what the option says, zero without it. -/
theorem windowScale_eq {packets : List FlowPacket} {fromClient : Bool}
    (hopened : OpenedBy packets (wanted fromClient)) :
    windowScale packets fromClient = some ((scaleOption packets (wanted fromClient)).getD 0) := by
  obtain ⟨p, hp, hsyn, hdirection⟩ := hopened
  have hsyns : p ∈ packets.filter fun p => p.syn ∧ p.direction = wanted fromClient :=
    List.mem_filter.mpr ⟨hp, decide_eq_true ⟨hsyn, hdirection⟩⟩
  have hfind : (packets.filter fun p => p.syn ∧ p.direction = wanted fromClient).find?
      (fun p => 0 ≤ p.wscale) =
        packets.find? fun p => p.syn ∧ p.direction = wanted fromClient ∧ 0 ≤ p.wscale := by
    rw [List.find?_filter]
    congr 1
    funext q
    simp only [Bool.decide_and, Bool.decide_eq_true, Bool.and_assoc]
  rw [windowScale, hfind, scaleOption]
  cases packets.find? fun p => p.syn ∧ p.direction = wanted fromClient ∧ 0 ≤ p.wscale with
  | some q => rfl
  | none => exact if_neg fun hempty => List.ne_nil_of_mem hsyns (List.isEmpty_iff.mp hempty)

/-- What the code shifts the windows of a direction by. -/
def codeShift (packets : List FlowPacket) (direction : Direction) : ℤ :=
  (scaleOption packets direction).getD 0

section

variable {packets : List FlowPacket}

theorem windowPoint_eq (hopened : ∀ direction, OpenedBy packets direction) (p : FlowPacket) :
    let point := windowPoint (windowScale packets true) (windowScale packets false) p
    point.timeMs = p.timeMs ∧ point.direction = p.direction ∧ point.raw = p.window ∧
      point.scaled =
        if p.syn then none else some (p.window <<< (codeShift packets p.direction).toNat) := by
  have hout : windowScale packets true = some (codeShift packets .out) := windowScale_eq (hopened _)
  have hin : windowScale packets false = some (codeShift packets .in_) := windowScale_eq (hopened _)
  rw [hout, hin]
  refine ⟨rfl, rfl, rfl, ?_⟩
  simp only [windowPoint]
  cases p.direction <;> cases p.syn <;> rfl

/-- The shift of the code is the negotiated one, except that it needs no option of the other side. -/
theorem codeShift_eq (direction : Direction) :
    codeShift packets direction = negotiatedShift packets direction ∨
      scaleOption packets direction.reverse = none ∧ negotiatedShift packets direction = 0 ∧
        scaleOption packets direction = some (codeShift packets direction) := by
  rw [codeShift, negotiatedShift]
  cases scaleOption packets direction with
  | none => exact .inl rfl
  | some shift =>
    cases scaleOption packets direction.reverse with
    | none => exact .inr ⟨rfl, rfl, rfl⟩
    | some other => exact .inl rfl

theorem shiftLeft_eq_self {window shift : ℕ} (hwindow : window ≠ 0) :
    window <<< shift = window <<< 0 ↔ shift = 0 := by
  constructor
  · intro h
    rw [Nat.shiftLeft_eq, Nat.shiftLeft_zero] at h
    have hone := Nat.eq_of_mul_eq_mul_left (Nat.pos_of_ne_zero hwindow) (h.trans (mul_one window).symm)
    exact (Nat.pow_eq_one.mp hone).resolve_left (by decide)
  · intro h
    rw [h]

/-- A packet whose direction alone offers a shift, and which is shifted by it. -/
def Overscaled (packets : List FlowPacket) (p : FlowPacket) : Prop :=
  p.syn = false ∧ p.window ≠ 0 ∧ scaleOption packets p.direction.reverse = none ∧
    ∃ shift, scaleOption packets p.direction = some shift ∧ shift ≠ 0

theorem shows_windowPoint_iff (hopened : ∀ direction, OpenedBy packets direction) {p : FlowPacket}
    (hwindow : p.window ≠ 0) :
    (windowPoint (windowScale packets true) (windowScale packets false) p).Shows packets p ↔
      ¬Overscaled packets p := by
  obtain ⟨htime, hdirection, hraw, hscaled⟩ := windowPoint_eq hopened p
  constructor
  · intro hshows hover
    obtain ⟨hsyn, -, hother, shift, hshift, hne⟩ := hover
    have hzero : negotiatedShift packets p.direction = 0 := by
      rw [negotiatedShift, hshift, hother]
    have hpoint := hshows.scaled hsyn
    rw [hscaled, hsyn, hzero, codeShift, hshift] at hpoint
    have hnat : shift.toNat = 0 := (shiftLeft_eq_self hwindow).mp (Option.some.inj hpoint)
    have hpos := scaleOption_eq_some hshift
    omega
  · intro hover
    refine ⟨htime, hdirection, hraw, ?_, ?_⟩
    · intro hsyn
      rw [hscaled, hsyn]
      rfl
    · intro hsyn
      rw [hscaled, hsyn]
      rcases @codeShift_eq packets p.direction with hshift | ⟨hother, hzero, hshift⟩
      · rw [hshift]
        rfl
      · have hcode : codeShift packets p.direction = 0 := by
          by_contra hne
          exact hover ⟨hsyn, hwindow, hother, _, hshift, hne⟩
        rw [hcode, hzero]
        rfl

/-! ## The history -/

/-- Two tests of a list select the same entries when the first selects no other and as many. -/
theorem filter_eq_of_length {α : Type} {p q : α → Bool} {l : List α} (himp : ∀ x ∈ l, p x → q x)
    (hlength : (l.filter p).length = (l.filter q).length) : l.filter p = l.filter q := by
  have hsub : (l.filter p).Sublist (l.filter q) := by
    have hboth : l.filter p = (l.filter q).filter p := by
      rw [List.filter_filter]
      apply List.filter_congr
      intro x hx
      cases hp : p x with
      | false => rfl
      | true => rw [himp x hx hp, Bool.and_self]
    rw [hboth]
    exact List.filter_sublist
  exact hsub.eq_of_length hlength

/-- The history shows every window field as negotiated exactly when the fields that are present are
those that are not zero, and no packet is shifted by an option that the other side did not send. -/
theorem scaledWindow_iff (hopened : ∀ direction, OpenedBy packets direction) :
    List.Forall₂ (fun p point => WindowPoint.Shows packets p point)
        (packets.filter (·.windowPresent)) (scaledWindow packets).history ↔
      (∀ p ∈ packets, p.windowPresent = true ↔ p.window ≠ 0) ∧ ∀ p ∈ packets, ¬Overscaled packets p := by
  rw [scaledWindow, List.forall₂_map_right_iff]
  constructor
  · intro h
    have hnonzero : ∀ p ∈ packets, p.windowPresent → decide (p.window ≠ 0) := by
      intro p hp hpresent
      obtain ⟨q, hq, hshows⟩ := exists_of_forall₂ h (List.mem_filter.mpr ⟨hp, hpresent⟩)
      have hwindow : q.window = p.window := hshows.raw
      rw [← hwindow]
      exact (List.mem_filter.mp hq).2
    have hfilter := filter_eq_of_length hnonzero h.length_eq
    rw [hfilter, List.forall₂_same] at h
    constructor
    · intro p hp
      have hmem : p ∈ packets.filter (·.windowPresent) ↔ p ∈ packets.filter fun p => p.window ≠ 0 := by
        rw [hfilter]
      simpa only [List.mem_filter, hp, true_and, decide_eq_true_eq] using hmem
    · intro p hp hover
      have hmem : p ∈ packets.filter fun p => p.window ≠ 0 :=
        List.mem_filter.mpr ⟨hp, decide_eq_true hover.2.1⟩
      exact (shows_windowPoint_iff hopened hover.2.1).mp (h p hmem) hover
  · intro h
    obtain ⟨hpresent, hover⟩ := h
    have hfilter : packets.filter (·.windowPresent) = packets.filter fun p => p.window ≠ 0 := by
      apply List.filter_congr
      intro p hp
      rw [Bool.eq_iff_iff, decide_eq_true_eq]
      exact hpresent p hp
    rw [hfilter, List.forall₂_same]
    intro p hp
    obtain ⟨hp, hwindow⟩ := List.mem_filter.mp hp
    exact (shows_windowPoint_iff hopened (of_decide_eq_true hwindow)).mpr (hover p hp)

end

/-- A handshake with the window-scale option on the client's side or on both, and a segment of the
client with some window. -/
def handshaken (serverShift : ℤ) (window : ℕ) : List FlowPacket :=
  [ { plainAck with
      syn := true, ackFlag := false, wscale := 7, window := 64240, windowPresent := true,
      ts := some 0, timeMs := 0, direction := .out },
    { serverAck with
      syn := true, wscale := serverShift, window := 65535, windowPresent := true,
      ts := some 1, timeMs := 1000, direction := .in_ },
    { plainAck with
      window := window, windowPresent := true, ts := some 2, timeMs := 2000, direction := .out } ]

theorem opened_handshaken (serverShift : ℤ) (window : ℕ) (direction : Direction) :
    OpenedBy (handshaken serverShift window) direction := by
  cases direction with
  | out => exact ⟨_, List.mem_cons_self, rfl, rfl⟩
  | in_ => exact ⟨_, List.mem_cons_of_mem _ List.mem_cons_self, rfl, rfl⟩

/-- A closed window is not in the history. -/
theorem closedWindow_left_out : ¬((∀ direction, OpenedBy (handshaken 7 0) direction) →
    List.Forall₂ (fun p point => WindowPoint.Shows (handshaken 7 0) p point)
      ((handshaken 7 0).filter (·.windowPresent)) (scaledWindow (handshaken 7 0)).history) := by
  intro h
  have hlength := (h (opened_handshaken 7 0)).length_eq
  exact absurd hlength (by decide +kernel)

/-- The law at work: with the option on both sides the history is right; with the client's alone its last
segment is shifted, and the history is not. -/
theorem scaledWindow_iff_unscaled :
    List.Forall₂ (fun p point => WindowPoint.Shows (handshaken 7 100) p point)
        ((handshaken 7 100).filter (·.windowPresent)) (scaledWindow (handshaken 7 100)).history ∧
      (∃ p ∈ handshaken (-1) 100, Overscaled (handshaken (-1) 100) p) ∧
      ¬List.Forall₂ (fun p point => WindowPoint.Shows (handshaken (-1) 100) p point)
        ((handshaken (-1) 100).filter (·.windowPresent)) (scaledWindow (handshaken (-1) 100)).history := by
  have hover : ∃ p ∈ handshaken (-1) 100, Overscaled (handshaken (-1) 100) p := by
    have hlast : ∃ p ∈ handshaken (-1) 100, p.syn = false ∧ p.window ≠ 0 ∧
        scaleOption (handshaken (-1) 100) p.direction.reverse = none ∧
        scaleOption (handshaken (-1) 100) p.direction = some 7 := by decide +kernel
    obtain ⟨p, hp, hsyn, hwindow, hother, hshift⟩ := hlast
    exact ⟨p, hp, hsyn, hwindow, hother, 7, hshift, by decide⟩
  refine ⟨(scaledWindow_iff (opened_handshaken 7 100)).mpr ⟨by decide +kernel, ?_⟩, hover, fun hright => ?_⟩
  · rintro p hp ⟨-, -, hother, -⟩
    have hboth : ∀ p ∈ handshaken 7 100, scaleOption (handshaken 7 100) p.direction.reverse ≠ none := by
      decide +kernel
    exact hboth p hp hother
  · obtain ⟨p, hp, hover⟩ := hover
    exact ((scaledWindow_iff (opened_handshaken (-1) 100)).mp hright).2 p hp hover

end PacketTrain.Analysis
