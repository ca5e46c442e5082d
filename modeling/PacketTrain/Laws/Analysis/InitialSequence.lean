import PacketTrain.Laws.Analysis.Phases
import PacketTrain.Laws.Analysis.Shift

/-!
# Reports and the initial sequence number

What is reported of a stream when its two sides open with other initial sequence numbers. The phase
table stays, since a window probe is told by a difference. A point of the outstanding series is made of
an acknowledgement number that is not zero, flag or no flag, and zero is an absolute number: the reports
are the same exactly when no acknowledgement number of the stream stands on it, before or after
(`sameReports_shifted_iff`).
-/

namespace PacketTrain.Analysis

/-- What the decoder promises of the packets of a stream: acknowledgement numbers have 32 bits, and a
packet from the receiver of another back to its sender goes the other way. -/
structure OfStream (packets : List FlowPacket) : Prop where
  ack_range : ∀ p ∈ packets, 0 ≤ p.ack ∧ p.ack < seqSpace
  mirrored : ∀ p ∈ packets, ∀ q ∈ packets, q.src = p.dst → q.sport = p.dport → q.dst = p.src →
    q.dport = p.sport → q.direction.reverse = p.direction

/-- The packet runs between two endpoints, one way or the other. -/
def Fields.Between (p : Fields) (a b : String × ℕ) : Prop :=
  (p.src, p.sport) = a ∧ (p.dst, p.dport) = b ∨ (p.src, p.sport) = b ∧ (p.dst, p.dport) = a

instance (p : Fields) (a b : String × ℕ) : Decidable (p.Between a b) :=
  inferInstanceAs (Decidable (_ ∨ _))

theorem orienting_mem (first : Packet) (rest : List Packet) : orienting first rest ∈ first :: rest := by
  rw [orienting]
  cases hfind : (first :: rest).find? fun p => p.syn ∧ !p.ackFlag with
  | none => exact List.mem_cons_self
  | some p => exact List.mem_of_find?_eq_some hfind

/-- `stream_detail` orients a stream by the endpoint that sends. -/
theorem ofStream_accountingInput {packets : List Packet} {stream : ℕ} {a b : String × ℕ} (hne : a ≠ b)
    (hbetween : ∀ p ∈ streamPackets packets stream, p.Between a b)
    (hrange : ∀ p ∈ streamPackets packets stream, 0 ≤ p.ack ∧ p.ack < seqSpace) :
    OfStream (accountingInput packets stream) := by
  cases hstream : streamPackets packets stream with
  | nil =>
    rw [accountingInput, hstream]
    refine ⟨fun p hp => ?_, fun p hp => ?_⟩
    · cases hp
    · cases hp
  | cons first rest =>
    rw [hstream] at hbetween hrange
    rw [accountingInput, hstream]
    have hclient : ((summaryOf first rest).client, (summaryOf first rest).clientPort) = a ∨
        ((summaryOf first rest).client, (summaryOf first rest).clientPort) = b :=
      (hbetween _ (orienting_mem first rest)).imp And.left And.left
    constructor
    · intro p' hp'
      obtain ⟨p, hp, rfl⟩ := List.mem_map.mp hp'
      exact hrange p hp
    · intro p' hp' q' hq' hsrc hsport _ _
      obtain ⟨p, hp, rfl⟩ := List.mem_map.mp hp'
      obtain ⟨q, -, rfl⟩ := List.mem_map.mp hq'
      have hback : (q.src, q.sport) = (p.dst, p.dport) := Prod.ext hsrc hsport
      simp only [flowPacket, hback]
      rcases hbetween p hp with ⟨hfrom, hto⟩ | ⟨hfrom, hto⟩ <;> rcases hclient with hclient | hclient <;>
        rw [hfrom, hto, hclient] <;> simp [hne, hne.symm, Direction.reverse]

/-! ## Phases -/

section

variable (k : Direction → ℤ) {packets : List FlowPacket}

def Run.shifted (run : Run) : Run := { run with packets := run.packets.map (Analysis.shifted k) }

theorem runsFrom_shifted (current : Run) (packets : List FlowPacket) :
    runsFrom (current.shifted k) (packets.map (shifted k)) =
      (runsFrom current packets).map (Run.shifted k) := by
  induction packets generalizing current with
  | nil => rfl
  | cons p packets ih =>
    have hextend : (current.extend p).shifted k = (current.shifted k).extend (shifted k p) := by
      simp only [Run.shifted, Run.extend, List.map_append, List.map_singleton, shifted_timeMs]
    have htime : quiet (current.shifted k).stop (shifted k p).timeMs = quiet current.stop p.timeMs := rfl
    rw [List.map_cons, runsFrom, runsFrom, htime]
    split
    · rw [List.map_cons, ← ih]
      rfl
    · rw [← hextend, ih]

theorem sortOn_shifted (packets : List FlowPacket) :
    sortOn FlowPacket.timeMs (packets.map (shifted k)) =
      (sortOn FlowPacket.timeMs packets).map (shifted k) := sortOn_map _ _ _

theorem activity_shifted (packets : List FlowPacket) :
    activity (packets.map (shifted k)) = (activity packets).map (Run.shifted k) := by
  rw [activity, sortOn_shifted, activity]
  cases sortOn FlowPacket.timeMs packets with
  | nil => rfl
  | cons p rest => exact runsFrom_shifted k (.opening p) rest

theorem behind_shift (seq ack d : ℤ) :
    behind ((seq + d) % seqSpace) ((ack + d) % seqSpace) = behind seq ack := by
  rw [behind, ← Int.sub_emod, add_sub_add_right_eq_sub, behind]

/-- What the peer has acknowledged moves with what the sender sends. -/
theorem acknowledgedFor_shifted (h : OfStream packets) {p : FlowPacket} (hp : p ∈ packets)
    {ordered : List FlowPacket} (hordered : ∀ q ∈ ordered, q ∈ packets) :
    acknowledgedFor (peerAckIndex (ordered.map (shifted k))) (shifted k p) =
      (acknowledgedFor (peerAckIndex ordered) p).map fun ack => (ack + k p.direction) % seqSpace := by
  have hindex : peerAckIndex (ordered.map (shifted k)) ⟨p.dst, p.dport, p.src, p.sport⟩ =
      (peerAckIndex ordered ⟨p.dst, p.dport, p.src, p.sport⟩).map
        (Prod.map id fun ack => (ack + k p.direction) % seqSpace) := by
    rw [peerAckIndex, List.filter_map, List.map_map, peerAckIndex, List.map_map]
    apply List.map_congr_left
    intro q hq
    obtain ⟨hmem, hkey⟩ := List.mem_filter.mp hq
    obtain ⟨hflag, hkey⟩ := of_decide_eq_true hkey
    obtain ⟨hsrc, hsport, hdst, hdport⟩ := AckKey.mk.inj hkey
    have hdirection := h.mirrored p hp q (hordered q hmem) hsrc hsport hdst hdport
    have hflag : q.ackFlag = true := hflag
    simp only [Function.comp_apply, Prod.map, id_eq, shifted, hflag, if_true, hdirection]
  rw [acknowledgedFor, acknowledgedFor, ackAt, ackAt]
  simp only [shifted_src, shifted_dst, shifted_sport, shifted_dport, shifted_timeMs, hindex]
  rw [List.filter_map, List.getLast?_map, Option.map_map, Option.map_map]
  rfl

theorem probes_shifted (h : OfStream packets) {p : FlowPacket} (hp : p ∈ packets)
    {ordered : List FlowPacket} (hordered : ∀ q ∈ ordered, q ∈ packets) :
    probes (peerAckIndex (ordered.map (shifted k))) (shifted k p) = probes (peerAckIndex ordered) p := by
  rw [probes, acknowledgedFor_shifted k h hp hordered, probes, Option.any_map]
  simp only [shifted_ackFlag, shifted_length]
  refine congrArg _ (congrFun (congrArg _ (funext fun ack => ?_)) _)
  exact behind_shift p.seq ack (k p.direction)

theorem frames_shifted (n : ℕ) (packets : List FlowPacket) :
    ((packets.map (shifted k)).take n).map (·.frame) = (packets.take n).map (·.frame) := by
  rw [← List.map_take, List.map_map]
  rfl

theorem filter_isStall_shifted (packets : List FlowPacket) :
    (packets.map (shifted k)).filter isStall = (packets.filter isStall).map (shifted k) := List.filter_map

theorem zeroWindowProbe_shifted (h : OfStream packets) {run ordered : List FlowPacket}
    (lookback : List FlowPacket) (hrun : ∀ p ∈ run, p ∈ packets)
    (hordered : ∀ p ∈ ordered, p ∈ packets) :
    zeroWindowProbe (lookback.map (shifted k)) (run.map (shifted k))
        (peerAckIndex (ordered.map (shifted k))) =
      zeroWindowProbe lookback run (peerAckIndex ordered) := by
  have hprobing : (run.map (shifted k)).filter (probes (peerAckIndex (ordered.map (shifted k)))) =
      (run.filter (probes (peerAckIndex ordered))).map (shifted k) := by
    rw [List.filter_map]
    refine congrArg _ (List.filter_congr fun p hp => ?_)
    exact probes_shifted k h (hrun p hp) hordered
  have hclosed : (if (run.filter isStall).isEmpty then (lookback.filter isStall).map (shifted k)
        else (run.filter isStall).map (shifted k)) =
      (if (run.filter isStall).isEmpty then lookback.filter isStall
        else run.filter isStall).map (shifted k) := (apply_ite _ _ _ _).symm
  simp only [zeroWindowProbe, hprobing, filter_isStall_shifted, List.isEmpty_map, hclosed]
  generalize run.filter (probes (peerAckIndex ordered)) = probing
  generalize (if (run.filter isStall).isEmpty then lookback.filter isStall
    else run.filter isStall) = closed
  cases probing with
  | nil => rfl
  | cons probe probing =>
    cases closed with
    | nil => rfl
    | cons first closed =>
      have hframes := frames_shifted k 20 (first :: closed)
      rw [List.map_cons] at hframes
      simp only [List.map_cons, List.length_cons, List.length_map, List.map_map, hframes]
      rfl

theorem controlVerdict_shifted (h : OfStream packets) {run ordered : List FlowPacket}
    (lookback : List FlowPacket) (hrun : ∀ p ∈ run, p ∈ packets)
    (hordered : ∀ p ∈ ordered, p ∈ packets) :
    controlVerdict (lookback.map (shifted k)) (run.map (shifted k))
        (peerAckIndex (ordered.map (shifted k))) =
      controlVerdict lookback run (peerAckIndex ordered) := by
  rw [controlVerdict, zeroWindowProbe_shifted k h lookback hrun hordered, List.any_map, List.any_map,
    controlVerdict]
  rfl

theorem payloadVerdict_shifted (run : Run) : payloadVerdict (run.shifted k) = payloadVerdict run := by
  have hbytes : ∀ packets : List FlowPacket,
      payloadBytes (packets.map (shifted k)) = payloadBytes packets := by
    intro packets
    rw [payloadBytes, List.map_map]
    rfl
  simp only [payloadVerdict, Run.shifted, List.filter_map, List.any_map, adjacent_map, List.countP_map, hbytes,
    List.length_map]
  rfl

theorem classifyRun_shifted (h : OfStream packets) {run : Run} {ordered : List FlowPacket}
    (lookback : List FlowPacket) (hrun : ∀ p ∈ run.packets, p ∈ packets)
    (hordered : ∀ p ∈ ordered, p ∈ packets) :
    classifyRun (lookback.map (shifted k)) (run.shifted k) (peerAckIndex (ordered.map (shifted k))) =
      classifyRun lookback run (peerAckIndex ordered) := by
  rw [classifyRun, payloadVerdict_shifted, classifyRun]
  simp only [Run.shifted, controlVerdict_shifted k h lookback hrun hordered, List.any_map]
  rfl

theorem windowStall_shifted (ordered : List FlowPacket) (pauseStart pauseEnd : ℚ) :
    windowStall (ordered.map (shifted k)) pauseStart pauseEnd =
      windowStall ordered pauseStart pauseEnd := by
  have hclosed : closedWindows (ordered.map (shifted k)) pauseStart pauseEnd =
      (closedWindows ordered pauseStart pauseEnd).map (shifted k) := List.filter_map
  rw [windowStall, hclosed, windowStall]
  cases closedWindows ordered pauseStart pauseEnd with
  | nil => rfl
  | cons first rest =>
    have hlast : ((first :: rest).map (shifted k)).getLastD (shifted k first) =
        shifted k ((first :: rest).getLastD first) := List.getLastD_map
    have hframes := frames_shifted k 20 (first :: rest)
    rw [List.map_cons] at hlast hframes
    simp only [List.map_cons, List.length_cons, List.length_map, hframes, hlast]
    rfl

theorem pausePhase_shifted (ordered : List FlowPacket) (episodes : List Episode) (index : ℕ)
    (pauseStart pauseEnd : ℚ) :
    pausePhase (ordered.map (shifted k)) episodes index pauseStart pauseEnd =
      pausePhase ordered episodes index pauseStart pauseEnd := by
  rw [pausePhase, windowStall_shifted, pausePhase]

theorem runPhase_shifted (index : ℕ) (run : Run) (verdict : RunVerdict) :
    runPhase index (run.shifted k) verdict = runPhase index run verdict := by
  simp only [runPhase, Run.shifted, List.length_map, List.map_map]
  rfl

theorem tail_shifted (run : Run) : (run.shifted k).tail = run.tail.map (shifted k) := by
  simp only [Run.tail, Run.shifted, List.length_map, List.map_drop]

theorem phasesFrom_shifted (h : OfStream packets) {ordered : List FlowPacket}
    (hordered : ∀ p ∈ ordered, p ∈ packets) (episodes : List Episode) (index : ℕ)
    (lookback : List FlowPacket) {runs : List Run} (hruns : ∀ run ∈ runs, ∀ p ∈ run.packets, p ∈ packets) :
    phasesFrom (ordered.map (shifted k)) episodes index (lookback.map (shifted k))
        (runs.map (Run.shifted k)) =
      phasesFrom ordered episodes index lookback runs := by
  induction runs generalizing index lookback with
  | nil => rfl
  | cons run runs ih =>
    have hhead := classifyRun_shifted k h lookback (hruns run List.mem_cons_self) hordered
    have hrest := ih (index + 2) run.tail fun next hnext => hruns next (List.mem_cons_of_mem _ hnext)
    cases runs with
    | nil => simp only [List.map_cons, List.map_nil, phasesFrom, hhead, runPhase_shifted]
    | cons next rest =>
      rw [List.map_cons, ← tail_shifted] at hrest
      simp only [List.map_cons, phasesFrom, hhead, runPhase_shifted, pausePhase_shifted, hrest]
      rfl

/-- The phase table does not depend on the initial sequence numbers. -/
theorem streamPhases_shifted (h : OfStream packets) (episodes : List Episode) :
    streamPhases (packets.map (shifted k)) episodes = streamPhases packets episodes := by
  have hordered : ∀ p ∈ sortOn FlowPacket.timeMs packets, p ∈ packets := fun p hp => mem_sortOn.mp hp
  have hruns : ∀ run ∈ activity (sortOn FlowPacket.timeMs packets), ∀ p ∈ run.packets, p ∈ packets :=
    fun run hrun p hp => hordered p (mem_of_activity hrun hp)
  have hphases := phasesFrom_shifted k h hordered episodes 0 [] hruns
  rw [streamPhases, sortOn_shifted, activity_shifted, List.isEmpty_map]
  simp only [streamPhases]
  rw [List.map_nil] at hphases
  rw [hphases]

end

/-! ## The outstanding series -/

/-- The series of a direction keeps its points when its numbers move on by `d`: where that is no multiple
of `2 ^ 32`, the other direction's acknowledgement numbers are not zero before or after, and there are
none without the ACK flag. -/
def KeepsAcks (packets : List FlowPacket) (fromClient : Bool) (d : ℤ) : Prop :=
  d % seqSpace = 0 ∨ ∀ p ∈ packets, p.direction = wanted (!fromClient) →
    if p.ackFlag then p.ack ≠ 0 ∧ (p.ack + d) % seqSpace ≠ 0 else p.ack = 0

section

variable {packets : List FlowPacket} {fromClient : Bool}

/-- Time and cumulative acknowledgement of a direction's points are those of its acknowledgements. -/
theorem map_outstandingOf (hsent : sentPackets packets fromClient ≠ []) :
    (outstandingOf packets fromClient).map (fun pt => (pt.timeMs, pt.cumulativeAck)) =
      (sortOn timestamp (ackPackets packets fromClient)).map fun ack =>
        (ack.timeMs, relative ack.ack (initialSequence packets fromClient)) := by
  rw [outstandingOf, if_neg (by simpa using hsent),
    outstandingLoop_eq (inOrder_sortOn _ _) (inOrder_sortOn _ _), List.map_map]
  rfl

theorem direction_of_mem_outstandingOf {pt : OutstandingPoint} (h : pt ∈ outstandingOf packets fromClient) :
    pt.direction = wanted fromClient := by
  rw [outstandingOf] at h
  split at h
  · cases h
  · rw [outstandingLoop_eq (inOrder_sortOn _ _) (inOrder_sortOn _ _)] at h
    obtain ⟨ack, -, rfl⟩ := List.mem_map.mp h
    rfl

/-- The points of a direction in the series. -/
theorem filter_direction_outstandingBytes (packets : List FlowPacket) (fromClient : Bool) :
    (outstandingBytes packets).filter (·.direction = wanted fromClient) =
      sortOn OutstandingPoint.timeMs (outstandingOf packets fromClient) := by
  have hown : ∀ side, (outstandingOf packets side).filter (·.direction = wanted fromClient) =
      if side = fromClient then outstandingOf packets side else [] := by
    intro side
    split
    · next heq =>
      apply List.filter_eq_self.mpr
      intro pt hpt
      rw [direction_of_mem_outstandingOf hpt, heq, decide_eq_true_eq]
    · next hne =>
      apply List.filter_eq_nil_iff.mpr
      intro pt hpt
      rw [direction_of_mem_outstandingOf hpt, decide_eq_true_eq]
      revert hne
      cases side <;> cases fromClient <;> decide
  rw [outstandingBytes, ← sortOn_filter, List.filter_append, hown, hown]
  cases fromClient <;> simp

/-- The points of one direction and one time, in the series of both. -/
theorem filter_outstandingBytes (packets : List FlowPacket) (fromClient : Bool) (time : ℚ) :
    ((outstandingBytes packets).filter (·.timeMs = time)).filter (·.direction = wanted fromClient) =
      (outstandingOf packets fromClient).filter (·.timeMs = time) := by
  rw [List.filter_comm, filter_direction_outstandingBytes, filter_sortOn]

/-- No acknowledgement of the series has the number zero. -/
theorem cumulativeAck_ne (hrange : ∀ p ∈ packets, 0 ≤ p.ack ∧ p.ack < seqSpace) {pt : OutstandingPoint}
    (hpt : pt ∈ outstandingOf packets fromClient) :
    pt.cumulativeAck ≠ relative 0 (initialSequence packets fromClient) := by
  intro heq
  rw [outstandingOf] at hpt
  split at hpt
  · cases hpt
  · rw [outstandingLoop_eq (inOrder_sortOn _ _) (inOrder_sortOn _ _)] at hpt
    obtain ⟨ack, hack, rfl⟩ := List.mem_map.mp hpt
    obtain ⟨hmem, -, hne⟩ := mem_ackPackets.mp (mem_sortOn.mp hack)
    obtain ⟨hlo, hhi⟩ := hrange ack hmem
    simp only [outstandingPoint, relative_eq, seqSpace] at heq hhi
    omega

/-- Every acknowledgement has its point. -/
theorem exists_point (hsent : sentPackets packets fromClient ≠ []) {ack : FlowPacket}
    (hack : ack ∈ ackPackets packets fromClient) :
    ∃ pt ∈ outstandingOf packets fromClient, pt.timeMs = ack.timeMs ∧
      pt.cumulativeAck = relative ack.ack (initialSequence packets fromClient) := by
  have hsorted : ack ∈ sortOn timestamp (ackPackets packets fromClient) := mem_sortOn.mpr hack
  have hmem := List.mem_map_of_mem (f := fun ack : FlowPacket =>
    (ack.timeMs, relative ack.ack (initialSequence packets fromClient))) hsorted
  rw [← map_outstandingOf hsent] at hmem
  obtain ⟨pt, hpt, heq⟩ := List.mem_map.mp hmem
  exact ⟨pt, hpt, (Prod.mk.inj heq).1, (Prod.mk.inj heq).2⟩

end

section

variable (k : Direction → ℤ) {packets : List FlowPacket} {fromClient : Bool}

theorem ack_range_shifted (hrange : ∀ p ∈ packets, 0 ≤ p.ack ∧ p.ack < seqSpace) :
    ∀ p ∈ packets.map (shifted k), 0 ≤ p.ack ∧ p.ack < seqSpace := by
  intro p hp
  obtain ⟨q, hq, rfl⟩ := List.mem_map.mp hp
  rw [shifted]
  dsimp only
  split
  · exact ⟨Int.emod_nonneg _ (by decide), Int.emod_lt_of_pos _ (by decide)⟩
  · exact hrange q hq

/-- What acknowledges before the shift does so after it. -/
theorem ackPackets_shifted
    (hkept : ∀ p ∈ packets, p.direction = wanted (!fromClient) → ((shifted k p).ack ≠ 0 ↔ p.ack ≠ 0)) :
    ackPackets (packets.map (shifted k)) fromClient = (ackPackets packets fromClient).map (shifted k) := by
  rw [ackPackets, List.filter_map, ackPackets]
  refine congrArg _ (List.filter_congr fun p hp => ?_)
  by_cases hdirection : p.direction = wanted (!fromClient)
  · simp only [Function.comp_apply, shifted_direction, hdirection, true_and, hkept p hp hdirection]
  · simp only [Function.comp_apply, shifted_direction, hdirection, false_and]

/-- The points of a direction stay when its acknowledgements and their relative numbers do. -/
theorem outstandingOf_shifted
    (hacks : ackPackets (packets.map (shifted k)) fromClient = (ackPackets packets fromClient).map (shifted k))
    (hrelative : ∀ p ∈ ackPackets packets fromClient,
      relative (shifted k p).ack (initialSequence (packets.map (shifted k)) fromClient) =
        relative p.ack (initialSequence packets fromClient)) :
    outstandingOf (packets.map (shifted k)) fromClient = outstandingOf packets fromClient := by
  have hsort : ∀ l : List FlowPacket,
      sortOn timestamp (l.map (shifted k)) = (sortOn timestamp l).map (shifted k) := sortOn_map _ _
  rw [outstandingOf, sentPackets_shifted, List.isEmpty_map, outstandingOf]
  split
  · rfl
  · rw [hacks, hsort, hsort, outstandingLoop_eq, outstandingLoop_eq (inOrder_sortOn _ _) (inOrder_sortOn _ _),
      List.map_map]
    · apply List.map_congr_left
      intro ack hack
      have hranges : ((sortOn timestamp (sentPackets packets fromClient)).map (shifted k) |>.filter
            fun p => timestamp p ≤ timestamp (shifted k ack)).map
              (sentRange (initialSequence (packets.map (shifted k)) fromClient)) =
          ((sortOn timestamp (sentPackets packets fromClient)).filter
            fun p => timestamp p ≤ timestamp ack).map (sentRange (initialSequence packets fromClient)) := by
        rw [List.filter_map, List.map_map]
        apply List.map_congr_left
        intro p hp
        obtain ⟨hmem, hsends⟩ := mem_sentPackets.mp (mem_sortOn.mp (List.mem_of_mem_filter hp))
        rw [Function.comp_apply, sentRange, relative_shifted k hmem hsends]
        rfl
      have hack := hrelative ack (mem_sortOn.mp hack)
      simp only [Function.comp_apply, outstandingPoint, hranges, hack, List.nil_append]
      rfl
    · rw [← hsort, ← hacks]
      exact inOrder_sortOn _ _
    · rw [← hsort]
      exact inOrder_sortOn _ _

theorem ack_shifted {p : FlowPacket} (h : p.direction = wanted (!fromClient)) :
    (shifted k p).ack = if p.ackFlag then (p.ack + k (wanted fromClient)) % seqSpace else p.ack := by
  rw [shifted, h]
  cases fromClient <;> rfl

theorem outstandingOf_of_keepsAcks (hrange : ∀ p ∈ packets, 0 ≤ p.ack ∧ p.ack < seqSpace)
    (hsent : ∃ p ∈ packets, SendsPayload fromClient p)
    (h : KeepsAcks packets fromClient (k (wanted fromClient))) :
    outstandingOf (packets.map (shifted k)) fromClient = outstandingOf packets fromClient := by
  obtain ⟨p, hp, hsends⟩ := hsent
  obtain ⟨base, hbase⟩ := exists_initialSequence hp hsends
  have hkept : ∀ q ∈ packets, q.direction = wanted (!fromClient) →
      ((shifted k q).ack ≠ 0 ↔ q.ack ≠ 0) := by
    intro q hq hdirection
    obtain ⟨hlo, hhi⟩ := hrange q hq
    rw [ack_shifted k hdirection]
    split
    · next hflag =>
      rcases h with hzero | hkeeps
      · simp only [seqSpace] at hzero hhi ⊢
        omega
      · have hq := hkeeps q hq hdirection
        rw [if_pos hflag] at hq
        exact iff_of_true hq.2 hq.1
    · exact Iff.rfl
  apply outstandingOf_shifted k (ackPackets_shifted k hkept)
  intro q hq
  obtain ⟨hmem, hdirection, hne⟩ := mem_ackPackets.mp hq
  rw [ack_shifted k hdirection, initialSequence_shifted, hbase, Option.map_some]
  split
  · exact relative_shift q.ack base _
  · next hflag =>
    rcases h with hzero | hkeeps
    · simp only [relative, seqSpace] at hzero ⊢
      omega
    · have hq := hkeeps q hmem hdirection
      rw [if_neg hflag] at hq
      exact absurd hq hne

/-- An acknowledgement number that is zero before or after would be a point on one side only. -/
theorem flagged_ne_zero (hrange : ∀ p ∈ packets, 0 ≤ p.ack ∧ p.ack < seqSpace)
    (hsent : ∃ p ∈ packets, SendsPayload fromClient p)
    (hpoints : ∀ pt, pt ∈ outstandingOf (packets.map (shifted k)) fromClient ↔
      pt ∈ outstandingOf packets fromClient)
    (hzero : k (wanted fromClient) % seqSpace ≠ 0) {p : FlowPacket} (hp : p ∈ packets)
    (hdirection : p.direction = wanted (!fromClient)) (hflag : p.ackFlag = true) :
    p.ack ≠ 0 ∧ (p.ack + k (wanted fromClient)) % seqSpace ≠ 0 := by
  obtain ⟨s, hs, hsends⟩ := hsent
  obtain ⟨base, hbase⟩ := exists_initialSequence hs hsends
  have hsent : sentPackets packets fromClient ≠ [] :=
    List.ne_nil_of_mem (mem_sentPackets.mpr ⟨hs, hsends⟩)
  have hnumber := ack_shifted k hdirection
  rw [if_pos hflag] at hnumber
  constructor
  · intro hack
    rw [hack, zero_add] at hnumber
    have hp' : shifted k p ∈ ackPackets (packets.map (shifted k)) fromClient :=
      mem_ackPackets.mpr ⟨List.mem_map_of_mem hp, hdirection, by rwa [hnumber]⟩
    have hsent' : sentPackets (packets.map (shifted k)) fromClient ≠ [] := by
      rwa [sentPackets_shifted, Ne, List.map_eq_nil_iff]
    obtain ⟨pt, hpt, -, hcumulative⟩ := exists_point hsent' hp'
    apply cumulativeAck_ne hrange ((hpoints pt).mp hpt)
    rw [hcumulative, hnumber, initialSequence_shifted, hbase, ← relative_shift 0 base, zero_add]
    rfl
  · intro hack
    have hne : p.ack ≠ 0 := by
      intro heq
      rw [heq, zero_add] at hack
      exact hzero hack
    obtain ⟨pt, hpt, -, hcumulative⟩ :=
      exists_point hsent (mem_ackPackets.mpr ⟨hp, hdirection, hne⟩)
    apply cumulativeAck_ne (ack_range_shifted k hrange) ((hpoints pt).mpr hpt)
    rw [hcumulative, initialSequence_shifted, hbase, ← relative_shift p.ack base, hack]
    rfl

/-- Where the acknowledgements are the same and the points are, the relative numbers are. -/
theorem relative_of_points (hsent : ∃ p ∈ packets, SendsPayload fromClient p)
    (hpoints : ∀ time, (outstandingOf (packets.map (shifted k)) fromClient).filter (·.timeMs = time) =
      (outstandingOf packets fromClient).filter (·.timeMs = time))
    (hacks : ackPackets (packets.map (shifted k)) fromClient = (ackPackets packets fromClient).map (shifted k))
    {p : FlowPacket} (hp : p ∈ ackPackets packets fromClient) :
    relative (shifted k p).ack (initialSequence (packets.map (shifted k)) fromClient) =
      relative p.ack (initialSequence packets fromClient) := by
  obtain ⟨s, hs, hsends⟩ := hsent
  have hsent : sentPackets packets fromClient ≠ [] :=
    List.ne_nil_of_mem (mem_sentPackets.mpr ⟨hs, hsends⟩)
  have hsent' : sentPackets (packets.map (shifted k)) fromClient ≠ [] := by
    rwa [sentPackets_shifted, Ne, List.map_eq_nil_iff]
  have hfilter : ∀ l : List OutstandingPoint,
      (l.filter (·.timeMs = p.timeMs)).map (fun pt => (pt.timeMs, pt.cumulativeAck)) =
        (l.map fun pt => (pt.timeMs, pt.cumulativeAck)).filter (·.1 = p.timeMs) := by
    intro l
    rw [List.filter_map]
    rfl
  -- both sides are now maps of one list, the acknowledgements at the time of `p`
  have hsame := congrArg (List.map fun pt => (pt.timeMs, pt.cumulativeAck)) (hpoints p.timeMs)
  rw [hfilter, hfilter, map_outstandingOf hsent', map_outstandingOf hsent, hacks, sortOn_map,
    List.map_map, List.filter_map, List.filter_map] at hsame
  have hmem : p ∈ (sortOn timestamp (ackPackets packets fromClient)).filter fun q => q.timeMs = p.timeMs :=
    List.mem_filter.mpr ⟨mem_sortOn.mpr hp, decide_eq_true rfl⟩
  exact (Prod.mk.inj (List.map_inj_left.mp hsame p hmem)).2

/-- A direction whose points stay keeps its acknowledgements. -/
theorem keepsAcks_of_points (hrange : ∀ p ∈ packets, 0 ≤ p.ack ∧ p.ack < seqSpace)
    (hsent : ∃ p ∈ packets, SendsPayload fromClient p)
    (hpoints : ∀ time, (outstandingOf (packets.map (shifted k)) fromClient).filter (·.timeMs = time) =
      (outstandingOf packets fromClient).filter (·.timeMs = time)) :
    KeepsAcks packets fromClient (k (wanted fromClient)) := by
  by_cases hzero : k (wanted fromClient) % seqSpace = 0
  · exact .inl hzero
  right
  have hmem : ∀ pt, pt ∈ outstandingOf (packets.map (shifted k)) fromClient ↔
      pt ∈ outstandingOf packets fromClient := by
    intro pt
    have hiff := congrArg (pt ∈ ·) (hpoints pt.timeMs)
    simpa using hiff
  intro p hp hdirection
  split
  · next hflag => exact flagged_ne_zero k hrange hsent hmem hzero hp hdirection hflag
  · next hflag =>
    by_contra hne
    have hkept : ∀ q ∈ packets, q.direction = wanted (!fromClient) →
        ((shifted k q).ack ≠ 0 ↔ q.ack ≠ 0) := by
      intro q hq hdirection
      rw [ack_shifted k hdirection]
      split
      · next hflag =>
        obtain ⟨hbefore, hafter⟩ := flagged_ne_zero k hrange hsent hmem hzero hq hdirection hflag
        exact iff_of_true hafter hbefore
      · exact Iff.rfl
    have hsame := relative_of_points k hsent hpoints (ackPackets_shifted k hkept)
      (mem_ackPackets.mpr ⟨hp, hdirection, hne⟩)
    -- the base moved and the number did not
    obtain ⟨s, hs, hsends⟩ := hsent
    obtain ⟨base, hbase⟩ := exists_initialSequence hs hsends
    rw [ack_shifted k hdirection, if_neg hflag, initialSequence_shifted, hbase] at hsame
    simp only [Option.map_some, relative, seqSpace] at hsame hzero
    omega

end

/-! ## All of it -/

/-- What is reported of two packet lists is the same: the unique payload of the two sides, the
outstanding series, the retransmission analysis, and the labels of the phases. -/
structure SameReports (packets packets' : List FlowPacket) : Prop where
  uniquePayload : (tcpAccounting packets').map TcpAccounting.uniquePayloadBytes =
    (tcpAccounting packets).map TcpAccounting.uniquePayloadBytes
  outstanding : outstandingBytes packets' = outstandingBytes packets
  retransmissions : retransmissionAnalysis packets' = retransmissionAnalysis packets
  labels : ∀ episodes, (streamPhases packets' episodes).phases.map Phase.label =
    (streamPhases packets episodes).phases.map Phase.label

/-- The reports are the same exactly when every direction with payload keeps its acknowledgements. -/
theorem sameReports_shifted_iff {packets : List FlowPacket} (h : OfStream packets) (k : Direction → ℤ) :
    SameReports packets (packets.map (shifted k)) ↔
      ∀ fromClient, (∃ p ∈ packets, SendsPayload fromClient p) →
        KeepsAcks packets fromClient (k (wanted fromClient)) := by
  constructor
  · intro hsame fromClient hsent
    apply keepsAcks_of_points k h.ack_range hsent
    intro time
    rw [← filter_outstandingBytes, hsame.outstanding, filter_outstandingBytes]
  · intro hkeeps
    have hpoints : ∀ fromClient,
        outstandingOf (packets.map (shifted k)) fromClient = outstandingOf packets fromClient := by
      intro fromClient
      by_cases hsent : ∃ p ∈ packets, SendsPayload fromClient p
      · exact outstandingOf_of_keepsAcks k h.ack_range hsent (hkeeps fromClient hsent)
      · have hnone : sentPackets packets fromClient = [] :=
          List.eq_nil_iff_forall_not_mem.mpr fun p hp => hsent ⟨p, mem_sentPackets.mp hp⟩
        rw [outstandingOf, sentPackets_shifted, outstandingOf, hnone]
        rfl
    refine ⟨uniquePayloadBytes_shifted k packets, ?_, retransmissionAnalysis_shifted k packets,
      fun episodes => ?_⟩
    · rw [outstandingBytes, hpoints, hpoints, outstandingBytes]
    · rw [streamPhases_shifted k h]

/-- A record that ends where the sequence numbers wrap, and its acknowledgement. -/
def ackedAtWrap : List FlowPacket :=
  [ { plainAck with seq := 2 ^ 32 - 10, length := 10, ts := some 1, timeMs := 0, direction := .out },
    { serverAck with frame := 2, ack := 0, ts := some 2, timeMs := 1000, direction := .in_ } ]

/-- The acknowledgement number is zero and makes no point; any other makes one. -/
theorem ackedAtWrap_changes :
    OfStream ackedAtWrap ∧ ¬ SameReports ackedAtWrap (ackedAtWrap.map (shifted fun _ => 1)) := by
  refine ⟨⟨by decide, by decide⟩, fun h => ?_⟩
  have hlength := congrArg List.length h.outstanding
  revert hlength
  decide +kernel

/-- The same record in a capture, acknowledged one byte short of the wrap. -/
def ackedBeforeWrap : List Packet :=
  [ { plainAck with seq := 2 ^ 32 - 10, length := 10, ts := 1 },
    { serverAck with frame := 2, ack := 2 ^ 32 - 1, ts := 2 } ]

/-- No number is zero before the shift or after it: the wrap itself changes nothing. -/
theorem sameReports_shifted_iff_wrap :
    SameReports (accountingInput ackedBeforeWrap 0)
      ((accountingInput ackedBeforeWrap 0).map (shifted fun _ => 5)) := by
  have hstream : OfStream (accountingInput ackedBeforeWrap 0) :=
    ofStream_accountingInput (a := ("192.0.2.1", 50000)) (b := ("198.51.100.2", 443)) (by decide)
      (by decide +kernel) (by decide +kernel)
  apply (sameReports_shifted_iff hstream _).mpr
  intro fromClient _
  right
  cases fromClient <;> decide +kernel

end PacketTrain.Analysis
