import PacketTrain.Laws.Analysis.InitialSequence
import PacketTrain.Laws.Analysis.Tiling

/-!
# Window probes

A window probe is sent against a closed window of the other endpoint. `_zero_window_probe` looks for
probing segments and for closed windows and does not ask who sent which, so an endpoint that closes its
own window in an idle acknowledgement is reported as probing it. `probes_at_peer_iff` names the runs of
which this is the whole evidence.
-/

namespace PacketTrain.Analysis

/-! ## Probes of a peer -/

def Fields.sender (p : Fields) : String × ℕ := (p.src, p.sport)

def Fields.receiver (p : Fields) : String × ℕ := (p.dst, p.dport)

/-- The last acknowledgement that the receiver of a packet had sent to its sender by then. -/
def latestAck (ordered : List FlowPacket) (p : FlowPacket) : Option ℤ :=
  (ordered.filter fun q => q.ackFlag ∧ q.sender = p.receiver ∧ q.receiver = p.sender ∧
    q.timeMs ≤ p.timeMs).getLast?.map (·.ack)

/-- A segment without payload, at or one below what its receiver has acknowledged, and a closed window
of that receiver. -/
structure PeerProbe (ordered : List FlowPacket) (p closed : FlowPacket) : Prop where
  ackFlag : p.ackFlag = true
  empty : p.length = 0
  acknowledged : ∃ ack, latestAck ordered p = some ack ∧
    ((ack - p.seq) % 2 ^ 32 = 0 ∨ (ack - p.seq) % 2 ^ 32 = 1)
  present : closed.windowPresent = true
  zero : closed.window = 0
  peer : closed.sender = p.receiver
  other : closed.sender ≠ p.sender

/-- What `stream_phases` gives the run at a position to look back on. -/
def lookbackOf (runs : List Run) : ℕ → List FlowPacket
  | 0 => []
  | i + 1 => (runs[i]?.map Run.tail).getD []

/-- Every phase that is called a window probe is a run with a probe of a peer. -/
def ProbesAtPeer (packets : List FlowPacket) (phases : List Phase) : Prop :=
  ∀ (j : ℕ) (phase : Phase), phases[j]? = some phase → phase.label = .zeroWindowProbe →
    ∃ (i : ℕ) (run : Run), j = 2 * i ∧ (activity packets)[i]? = some run ∧
      phase.frames = run.packets.map (·.frame) ∧
        ∃ p ∈ run.packets, ∃ closed ∈ run.packets ++ lookbackOf (activity packets) i,
          PeerProbe (sortOn FlowPacket.timeMs packets) p closed

/-- No payload, no opening SYN, no FIN and no RST. -/
def Run.Bare (run : Run) : Prop :=
  ∀ p ∈ run.packets, p.length = 0 ∧ ¬(p.syn = true ∧ p.ackFlag = false) ∧ p.fin = false ∧ p.rst = false

/-- There are probing segments and closed windows, and one endpoint sent all of both. -/
def OneSided (ordered lookback packets : List FlowPacket) : Prop :=
  packets.filter (probes (peerAckIndex ordered)) ≠ [] ∧ (packets ++ lookback).filter isStall ≠ [] ∧
    ∃ side, (∀ p ∈ packets.filter (probes (peerAckIndex ordered)), p.sender = side) ∧
      ∀ closed ∈ (packets ++ lookback).filter isStall, closed.sender = side

/-! ## The label of a run -/

theorem acknowledgedFor_peerAckIndex (ordered : List FlowPacket) (p : FlowPacket) :
    acknowledgedFor (peerAckIndex ordered) p = latestAck ordered p := by
  have hfilter : ∀ q ∈ ordered,
      (decide (q.timeMs ≤ p.timeMs) && decide (q.ackFlag = true ∧
        (⟨q.src, q.sport, q.dst, q.dport⟩ : AckKey) = ⟨p.dst, p.dport, p.src, p.sport⟩)) =
      decide (q.ackFlag = true ∧ q.sender = p.receiver ∧ q.receiver = p.sender ∧
        q.timeMs ≤ p.timeMs) := by
    intro q _
    rw [← Bool.decide_and, decide_eq_decide, AckKey.mk.injEq, Fields.sender, Fields.receiver,
      Prod.mk.injEq, Fields.receiver, Fields.sender, Prod.mk.injEq]
    tauto
  rw [acknowledgedFor, ackAt, peerAckIndex, latestAck, List.filter_map, List.filter_filter,
    List.getLast?_map, Option.map_map, ← List.filter_congr hfilter]
  rfl

theorem behind_iff (seq ack : ℤ) :
    behind seq ack = true ↔ (ack - seq) % 2 ^ 32 = 0 ∨ (ack - seq) % 2 ^ 32 = 1 := by
  rw [behind, Bool.or_eq_true]
  exact or_congr decide_eq_true_iff decide_eq_true_iff

theorem probes_iff (ordered : List FlowPacket) (p : FlowPacket) :
    probes (peerAckIndex ordered) p = true ↔ p.ackFlag = true ∧ p.length = 0 ∧
      ∃ ack, latestAck ordered p = some ack ∧
        ((ack - p.seq) % 2 ^ 32 = 0 ∨ (ack - p.seq) % 2 ^ 32 = 1) := by
  rw [probes, acknowledgedFor_peerAckIndex, Bool.and_eq_true, Bool.and_eq_true, and_assoc,
    decide_eq_true_eq, Option.any_eq_true]
  simp only [behind_iff]

theorem isSome_zeroWindowProbe (lookback packets : List FlowPacket)
    (peerAcks : AckKey → List (ℚ × ℤ)) :
    (zeroWindowProbe lookback packets peerAcks).isSome = true ↔
      packets.filter (probes peerAcks) ≠ [] ∧ (packets ++ lookback).filter isStall ≠ [] := by
  rw [zeroWindowProbe, List.filter_append]
  cases packets.filter (probes peerAcks) with
  | nil => simp
  | cons p probing =>
    cases packets.filter isStall with
    | nil => cases lookback.filter isStall <;> simp
    | cons first rest => simp

theorem label_zeroWindowProbe {lookback packets : List FlowPacket}
    {peerAcks : AckKey → List (ℚ × ℤ)} {verdict : RunVerdict}
    (h : zeroWindowProbe lookback packets peerAcks = some verdict) :
    verdict.label = .zeroWindowProbe := by
  simp only [zeroWindowProbe] at h
  split at h
  · cases h
  · cases h
  · obtain rfl := Option.some.inj h
    rfl

theorem label_payloadVerdict (run : Run) : (payloadVerdict run).label ≠ .zeroWindowProbe := by
  simp only [payloadVerdict, apply_ite RunVerdict.label, ne_eq]
  split_ifs <;> exact not_false

/-- A run without payload, SYN, FIN or RST is called a window probe when it has both halves. -/
theorem label_classifyRun_iff (lookback : List FlowPacket) (run : Run)
    (peerAcks : AckKey → List (ℚ × ℤ)) :
    (classifyRun lookback run peerAcks).label = .zeroWindowProbe ↔
      run.Bare ∧ run.packets.filter (probes peerAcks) ≠ [] ∧
        (run.packets ++ lookback).filter isStall ≠ [] := by
  rw [← isSome_zeroWindowProbe]
  have hbare : run.Bare ↔ run.packets.any (0 < ·.length) = false ∧
      run.packets.any (fun p => p.syn ∧ !p.ackFlag) = false ∧
        run.packets.any (fun p => p.fin ∨ p.rst) = false := by
    simp only [Run.Bare, List.any_eq_false, decide_eq_true_eq, Bool.not_eq_true']
    grind
  rw [hbare, classifyRun, controlVerdict]
  cases run.packets.any (0 < ·.length) with
  | true => simp only [if_true, label_payloadVerdict, Bool.true_eq_false, false_and]
  | false =>
    cases run.packets.any fun p => p.syn ∧ !p.ackFlag with
    | true => simp
    | false =>
      cases run.packets.any fun p => p.fin ∨ p.rst with
      | true => simp
      | false =>
        cases hprobe : zeroWindowProbe lookback run.packets peerAcks with
        | none => simp
        | some verdict => simp [label_zeroWindowProbe hprobe]

/-! ## The runs of the table -/

section

variable {ordered : List FlowPacket} {episodes : List Episode} {index : ℕ} {lookback : List FlowPacket}
  {runs : List Run}

/-- A run has its phase at twice its position, labelled with what it looks back on. -/
theorem getElem?_phasesFrom {i : ℕ} {run : Run} (hrun : runs[i]? = some run) :
    (phasesFrom ordered episodes index lookback runs)[2 * i]? = some (runPhase (index + 2 * i) run
      (classifyRun (if i = 0 then lookback else lookbackOf runs i) run (peerAckIndex ordered))) := by
  induction runs generalizing index lookback i with
  | nil => cases hrun
  | cons first runs ih =>
    cases i with
    | zero =>
      obtain rfl := Option.some.inj hrun
      cases runs <;> rfl
    | succ i =>
      cases runs with
      | nil => cases hrun
      | cons next rest =>
        have hlook : (if i = 0 then first.tail else lookbackOf (next :: rest) i) =
            lookbackOf (first :: next :: rest) (i + 1) := by cases i <;> rfl
        have hrest := @ih (index + 2) first.tail i hrun
        have hindex : index + 2 * (i + 1) = index + 2 + 2 * i := by omega
        rw [if_neg (Nat.succ_ne_zero i), hindex, ← hlook, ← hrest]
        rfl

/-- A phase at an odd position is a pause. -/
theorem isPause_phasesFrom {j : ℕ} {phase : Phase}
    (hphase : (phasesFrom ordered episodes index lookback runs)[2 * j + 1]? = some phase) :
    phase.label.isPause = true := by
  induction runs generalizing index lookback j with
  | nil => cases hphase
  | cons first runs ih =>
    cases runs with
    | nil => cases hphase
    | cons next rest =>
      cases j with
      | zero =>
        obtain rfl := Option.some.inj hphase
        exact (reports_pausePhase ordered episodes (index + 1) first.stop next.start).kind
      | succ j => exact ih hphase

theorem length_phasesFrom :
    (phasesFrom ordered episodes index lookback runs).length = 2 * runs.length - 1 := by
  induction runs generalizing index lookback with
  | nil => rfl
  | cons first runs ih =>
    cases runs with
    | nil => rfl
    | cons next rest =>
      rw [phasesFrom, List.length_cons, List.length_cons, ih]
      simp only [List.length_cons]
      omega

end

/-- A phase that is called a window probe is the phase of a run. -/
theorem exists_run_of_probe {packets : List FlowPacket} {episodes : List Episode} {j : ℕ}
    {phase : Phase} (hphase : (streamPhases packets episodes).phases[j]? = some phase)
    (hlabel : phase.label = .zeroWindowProbe) :
    ∃ (i : ℕ) (run : Run), j = 2 * i ∧ (activity packets)[i]? = some run ∧
      phase = runPhase (2 * i) run (classifyRun (lookbackOf (activity packets) i) run
        (peerAckIndex (sortOn FlowPacket.timeMs packets))) := by
  rw [phases_eq] at hphase
  obtain ⟨i, rfl | rfl⟩ := Nat.even_or_odd' j
  · have hlt : i < (activity packets).length := by
      have hj := (List.getElem?_eq_some_iff.mp hphase).1
      rw [length_phasesFrom] at hj
      omega
    have hrun := List.getElem?_eq_getElem hlt
    have hlook : (if i = 0 then [] else lookbackOf (activity packets) i) =
        lookbackOf (activity packets) i := by cases i <;> rfl
    rw [getElem?_phasesFrom hrun, hlook, Nat.zero_add] at hphase
    exact ⟨i, _, rfl, hrun, (Option.some.inj hphase).symm⟩
  · have hpause := isPause_phasesFrom hphase
    rw [hlabel] at hpause
    cases hpause

/-- The phase of a run. -/
theorem phase_of_run {packets : List FlowPacket} (episodes : List Episode) {i : ℕ} {run : Run}
    (hrun : (activity packets)[i]? = some run) :
    (streamPhases packets episodes).phases[2 * i]? =
      some (runPhase (2 * i) run (classifyRun (lookbackOf (activity packets) i) run
        (peerAckIndex (sortOn FlowPacket.timeMs packets)))) := by
  have hlook : (if i = 0 then [] else lookbackOf (activity packets) i) =
      lookbackOf (activity packets) i := by cases i <;> rfl
  rw [phases_eq, getElem?_phasesFrom hrun, hlook, Nat.zero_add]

/-! ## Who probes whom -/

theorem mem_of_lookbackOf {packets : List FlowPacket} {i : ℕ} {p : FlowPacket}
    (hp : p ∈ lookbackOf (activity packets) i) : p ∈ packets := by
  cases i with
  | zero => cases hp
  | succ i =>
    rw [lookbackOf] at hp
    cases hrun : (activity packets)[i]? with
    | none =>
      rw [hrun] at hp
      cases hp
    | some run =>
      rw [hrun] at hp
      exact mem_of_activity (List.mem_of_getElem? hrun) (List.mem_of_mem_drop hp)

/-- Of two endpoints a packet goes from the one that did not send another packet to the one that did,
or the other way. -/
theorem Fields.Between.sender_eq {p q : Fields} {a b : String × ℕ} (hp : p.Between a b)
    (hq : q.Between a b) (hne : q.sender ≠ p.sender) : q.sender = p.receiver := by
  rcases hp with ⟨hfrom, hto⟩ | ⟨hfrom, hto⟩ <;> rcases hq with ⟨hfrom', -⟩ | ⟨hfrom', -⟩
  · exact absurd (hfrom'.trans hfrom.symm) hne
  · exact hfrom'.trans hto.symm
  · exact hfrom'.trans hto.symm
  · exact absurd (hfrom'.trans hfrom.symm) hne

/-- Two halves that are not all from one endpoint hold a closed window and a segment from the other
endpoint. -/
theorem exists_peerProbe_iff {ordered lookback packets : List FlowPacket} {a b : String × ℕ}
    (hbetween : ∀ p ∈ packets ++ lookback, p.Between a b)
    (hprobing : packets.filter (probes (peerAckIndex ordered)) ≠ [])
    (hclosed : (packets ++ lookback).filter isStall ≠ []) :
    (∃ p ∈ packets, ∃ closed ∈ packets ++ lookback, PeerProbe ordered p closed) ↔
      ¬OneSided ordered lookback packets := by
  have hpair : ∀ p ∈ packets.filter (probes (peerAckIndex ordered)),
      ∀ closed ∈ (packets ++ lookback).filter isStall, closed.sender ≠ p.sender →
        ∃ p ∈ packets, ∃ closed ∈ packets ++ lookback, PeerProbe ordered p closed := by
    intro p hp closed hclosed hne
    obtain ⟨hp, hprobes⟩ := List.mem_filter.mp hp
    obtain ⟨hclosed, hstall⟩ := List.mem_filter.mp hclosed
    obtain ⟨hack, hempty, hacked⟩ := (probes_iff ordered p).mp hprobes
    obtain ⟨hpresent, hzero⟩ := Bool.and_eq_true_iff.mp hstall
    exact ⟨p, hp, closed, hclosed, hack, hempty, hacked, hpresent, of_decide_eq_true hzero,
      (hbetween p (List.mem_append_left _ hp)).sender_eq (hbetween closed hclosed) hne, hne⟩
  constructor
  · intro hprobe hone
    obtain ⟨p, hp, closed, hmem, hprobe⟩ := hprobe
    obtain ⟨-, -, side, hsegments, hwindows⟩ := hone
    have hprobes := (probes_iff ordered p).mpr ⟨hprobe.ackFlag, hprobe.empty, hprobe.acknowledged⟩
    have hstall : isStall closed = true :=
      Bool.and_eq_true_iff.mpr ⟨hprobe.present, decide_eq_true hprobe.zero⟩
    apply hprobe.other
    rw [hsegments p (List.mem_filter.mpr ⟨hp, hprobes⟩),
      hwindows closed (List.mem_filter.mpr ⟨hmem, hstall⟩)]
  · intro hmixed
    obtain ⟨first, hfirst⟩ := List.exists_mem_of_ne_nil _ hprobing
    by_contra hnone
    -- every closed window comes from each of the probing endpoints, so there is one
    have hsame : ∀ p ∈ packets.filter (probes (peerAckIndex ordered)),
        ∀ closed ∈ (packets ++ lookback).filter isStall, closed.sender = p.sender := by
      intro p hp closed hc
      by_contra hne
      exact hnone (hpair p hp closed hc hne)
    obtain ⟨closed, hc⟩ := List.exists_mem_of_ne_nil _ hclosed
    apply hmixed
    refine ⟨hprobing, hclosed, closed.sender, ?_, ?_⟩
    · intro p hp
      exact (hsame p hp closed hc).symm
    · intro other hother
      rw [hsame first hfirst other hother, hsame first hfirst closed hc]

/-- Probes are reported of a peer exactly when no run without payload, SYN, FIN or RST has all its
probing segments and all its closed windows from one endpoint. -/
theorem probes_at_peer_iff {packets : List FlowPacket} {a b : String × ℕ} (episodes : List Episode)
    (hbetween : ∀ p ∈ packets, p.Between a b) :
    ProbesAtPeer packets (streamPhases packets episodes).phases ↔
      ∀ (i : ℕ) (run : Run), (activity packets)[i]? = some run → run.Bare →
        ¬OneSided (sortOn FlowPacket.timeMs packets) (lookbackOf (activity packets) i) run.packets := by
  have hruns : ∀ {i : ℕ} {run : Run}, (activity packets)[i]? = some run →
      ∀ p ∈ run.packets ++ lookbackOf (activity packets) i, p.Between a b := by
    intro i run hrun p hp
    rcases List.mem_append.mp hp with hp | hp
    · exact hbetween p (mem_of_activity (List.mem_of_getElem? hrun) hp)
    · exact hbetween p (mem_of_lookbackOf hp)
  constructor
  · intro hreported i run hrun hbare hone
    have hlabel := (label_classifyRun_iff (lookbackOf (activity packets) i) run
      (peerAckIndex (sortOn FlowPacket.timeMs packets))).mpr ⟨hbare, hone.1, hone.2.1⟩
    obtain ⟨i', run', hi, hrun', -, hprobe⟩ := hreported _ _ (phase_of_run episodes hrun) hlabel
    obtain rfl : i = i' := by omega
    obtain rfl := Option.some.inj (hrun.symm.trans hrun')
    exact (exists_peerProbe_iff (hruns hrun) hone.1 hone.2.1).mp hprobe hone
  · intro hmixed j phase hphase hlabel
    obtain ⟨i, run, rfl, hrun, rfl⟩ := exists_run_of_probe hphase hlabel
    obtain ⟨hbare, hprobing, hclosed⟩ := (label_classifyRun_iff _ _ _).mp hlabel
    exact ⟨i, run, rfl, hrun, rfl,
      (exists_peerProbe_iff (hruns hrun) hprobing hclosed).mpr (hmixed i run hrun hbare)⟩

/-- The server closes its window and the client probes it. -/
def probed : List FlowPacket :=
  [ { serverAck with ack := 1001, window := 0, ts := some 0, timeMs := 0, direction := .in_ },
    { plainAck with seq := 1000, window := 500, ts := some (1 / 10), timeMs := 100, direction := .out } ]

/-- The window of the client is full. It acknowledges what the server sends. -/
def idleAck : List FlowPacket :=
  [ { serverAck with ack := 1000, window := 500, ts := some 0, timeMs := 0, direction := .in_ },
    { plainAck with seq := 1000, window := 0, ts := some (1 / 10), timeMs := 100, direction := .out } ]

/-- The acknowledgement is reported as a probe, against the window of its own sender. -/
theorem idleAck_reported : ¬ProbesAtPeer idleAck (streamPhases idleAck []).phases := by
  intro h
  have hlabels : (streamPhases idleAck []).phases[0]?.map (·.label) = some .zeroWindowProbe := by
    decide +kernel
  obtain ⟨phase, hphase, hlabel⟩ := Option.map_eq_some_iff.mp hlabels
  obtain ⟨i, run, hi, hrun, -, p, hp, closed, hclosed, hprobe⟩ := h 0 phase hphase hlabel
  obtain rfl : i = 0 := by omega
  have hmem : ∀ q ∈ run.packets ++ lookbackOf (activity idleAck) 0, q ∈ idleAck := by
    intro q hq
    rw [lookbackOf, List.append_nil] at hq
    exact mem_of_activity (List.mem_of_getElem? hrun) hq
  have hnone : ∀ q ∈ idleAck, latestAck (sortOn FlowPacket.timeMs idleAck) q ≠ none → q.window = 0 := by
    decide +kernel
  have hone : ∀ q ∈ idleAck, q.window = 0 → q.sender = ("192.0.2.1", 50000) := by decide +kernel
  obtain ⟨ack, hack, -⟩ := hprobe.acknowledged
  have hzero := hnone p (hmem p (List.mem_append_left _ hp)) (by simp [hack])
  apply hprobe.other
  rw [hone p (hmem p (List.mem_append_left _ hp)) hzero,
    hone closed (hmem closed hclosed) hprobe.zero]

/-- The law at work: the client's segment is reported as a probe, and the only run has its probing segment
from the client and its closed window from the server. -/
theorem probes_at_peer_iff_probed :
    (streamPhases probed []).phases.map (·.label) = [.zeroWindowProbe] ∧
      ProbesAtPeer probed (streamPhases probed []).phases ∧
      ∀ (i : ℕ) (run : Run), (activity probed)[i]? = some run → run.Bare →
        ¬OneSided (sortOn FlowPacket.timeMs probed) (lookbackOf (activity probed) i) run.packets := by
  have hmixed : ∀ (i : ℕ) (run : Run), (activity probed)[i]? = some run → run.Bare →
      ¬OneSided (sortOn FlowPacket.timeMs probed) (lookbackOf (activity probed) i) run.packets := by
    rintro i run hrun - ⟨-, -, side, hprobes, hstalls⟩
    have htwo : ∀ run ∈ activity probed,
        ∃ p ∈ run.packets.filter (probes (peerAckIndex (sortOn FlowPacket.timeMs probed))),
          ∃ closed ∈ run.packets.filter isStall, p.sender ≠ closed.sender := by decide +kernel
    obtain ⟨p, hp, closed, hclosed, hne⟩ := htwo run (List.mem_of_getElem? hrun)
    obtain ⟨hclosed, hstall⟩ := List.mem_filter.mp hclosed
    have hside := hstalls closed (List.mem_filter.mpr ⟨List.mem_append_left _ hclosed, hstall⟩)
    exact hne ((hprobes p hp).trans hside.symm)
  have hlaw := probes_at_peer_iff [] (a := ("192.0.2.1", 50000)) (b := ("198.51.100.2", 443))
    (show ∀ p ∈ probed, p.Between _ _ by decide +kernel)
  exact ⟨by decide +kernel, hlaw.mpr hmixed, hmixed⟩

end PacketTrain.Analysis
