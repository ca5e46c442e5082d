import PacketTrain.Analysis.Window

/-!
# Phases

`packettrain/phases.py`, `stream_phases`. The packets of a stream, in time order, fall into runs of
activity with quiet intervals between them. A run is a phase, labelled from its own packets; a quiet
interval is a pause. A pause with a closed window in it, or shortly before it, is a stall, and points at
an episode of the receiver-window analysis.

Binary64 is modelled by exact rationals, and every limit is compared exactly. At a tie the source may go the
other way: the two seconds from 48.3 to 2048.3 ms are no pause here and measure a little more there, and a
pause that starts at 1048.2 ms looks back on a zero window at 48.2 ms here and does not there.

Left out: `transport_symptoms`.
-/

namespace PacketTrain.Analysis

structure Thresholds where
  version : String
  idleGapS : ℚ
  bulkMinBytes : ℕ
  bulkMinShare : ℚ
  smallMaxBytes : ℕ
  teardownTailS : ℚ
deriving DecidableEq, Repr

/-- `THRESHOLDS`. -/
def thresholds : Thresholds where
  version := "2026-09-26.1"
  idleGapS := 2
  bulkMinBytes := 65536
  bulkMinShare := 1 / 2
  smallMaxBytes := 4096
  teardownTailS := 5

inductive PhaseLabel
  | setup
  | teardown
  | zeroWindowProbe
  | controlExchange
  | bulkTransfer
  | smallExchange
  | payloadExchange
  | payloadPause
  | idle
  | receiverWindowStall
deriving DecidableEq, Repr

def PhaseLabel.text : PhaseLabel → String
  | .setup => "Setup"
  | .teardown => "Teardown"
  | .zeroWindowProbe => "Zero Window Probe"
  | .controlExchange => "Control exchange"
  | .bulkTransfer => "Bulk transfer"
  | .smallExchange => "Small exchange"
  | .payloadExchange => "Payload exchange"
  | .payloadPause => "Payload pause"
  | .idle => "Idle"
  | .receiverWindowStall => "Receiver-window stall"

/-! ## Runs -/

structure Run where
  packets : List FlowPacket
  start : ℚ
  stop : ℚ
deriving DecidableEq, Repr

/-- The time between two packets separates two runs. -/
def quiet (before after : ℚ) : Bool := thresholds.idleGapS < (after - before) / 1000

/-- The run of one packet. -/
def Run.opening (p : FlowPacket) : Run := ⟨[p], p.timeMs, p.timeMs⟩

/-- The run goes on. -/
def Run.extend (run : Run) (p : FlowPacket) : Run :=
  { run with packets := run.packets ++ [p], stop := p.timeMs }

/-- The loop of `_activity`. -/
def runsFrom (current : Run) : List FlowPacket → List Run
  | [] => [current]
  | p :: rest =>
    if quiet current.stop p.timeMs then current :: runsFrom (.opening p) rest
    else runsFrom (current.extend p) rest

/-- `_activity`. -/
def activity (packets : List FlowPacket) : List Run :=
  match sortOn FlowPacket.timeMs packets with
  | [] => []
  | p :: rest => runsFrom (.opening p) rest

/-! ## Window probes -/

/-- The sender of an acknowledgement and whom it is sent to. -/
structure AckKey where
  src : String
  sport : ℕ
  dst : String
  dport : ℕ
deriving DecidableEq, Repr

/-- `_peer_ack_index`: the acknowledgements under a key, with their times; none for a missing key. -/
def peerAckIndex (ordered : List FlowPacket) (key : AckKey) : List (ℚ × ℤ) :=
  (ordered.filter fun p => p.ackFlag ∧ (⟨p.src, p.sport, p.dst, p.dport⟩ : AckKey) = key).map fun p =>
    (p.timeMs, p.ack)

/-- `_ack_at`: the last acknowledgement of the list that is not later. -/
def ackAt (index : AckKey → List (ℚ × ℤ)) (key : AckKey) (timeMs : ℚ) : Option ℤ :=
  ((index key).filter fun entry => entry.1 ≤ timeMs).getLast?.map Prod.snd

/-- `_behind`. -/
def behind (seq ack : ℤ) : Bool :=
  let offset := (ack - seq) % seqSpace
  offset = 0 || offset = 1

/-- `acknowledged_for`: the key is mirrored. -/
def acknowledgedFor (peerAcks : AckKey → List (ℚ × ℤ)) (p : FlowPacket) : Option ℤ :=
  ackAt peerAcks ⟨p.dst, p.dport, p.src, p.sport⟩ p.timeMs

/-- A segment without payload, at or just below what the peer has acknowledged. -/
def probes (peerAcks : AckKey → List (ℚ × ℤ)) (p : FlowPacket) : Bool :=
  p.ackFlag && p.length = 0 && (acknowledgedFor peerAcks p).any (behind p.seq)

structure PhaseMetrics where
  payloadBytes : ℕ
  bitsPerSecond : Option ℚ
  retransmissionBytes : ℕ
  retransmissionPercent : ℚ
deriving DecidableEq, Repr

/-- What a run is called, and why. -/
structure RunVerdict where
  label : PhaseLabel
  direction : Option Direction := none
  evidence : List String
  alternatives : List String := []
  metrics : Option PhaseMetrics := none
  probeFrames : List ℕ := []
  windowFrames : List ℕ := []
deriving DecidableEq, Repr

/-- `_zero_window_probe`. -/
def zeroWindowProbe (lookback packets : List FlowPacket) (peerAcks : AckKey → List (ℚ × ℤ)) :
    Option RunVerdict :=
  let probing := packets.filter (probes peerAcks)
  let here := packets.filter isStall
  let closed := if here.isEmpty then lookback.filter isStall else here
  let source := if here.isEmpty then "the preceding segment" else "this phase"
  match probing, closed with
  | [], _ | _, [] => none
  | _, first :: _ =>
    some
      { label := .zeroWindowProbe
        evidence :=
          [ toString probing.length ++ " zero-length segment(s) re-sending the byte before the " ++
              "peer's acknowledge point",
            "peer advertised a closed window in " ++ source ] ++
          (if first.src = "" then [] else ["closed window advertised by " ++ first.src])
        alternatives :=
          [ "A closed window means the receiver had no buffer space; the probe " ++
              "is the sender checking whether that changed" ]
        probeFrames := probing.map (·.frame)
        windowFrames := (closed.take 20).map (·.frame) }

/-! ## Labels -/

/-- `_classify_run`, of a run without payload. -/
def controlVerdict (lookback packets : List FlowPacket) (peerAcks : AckKey → List (ℚ × ℤ)) :
    RunVerdict :=
  if packets.any fun p => p.syn ∧ !p.ackFlag then
    { label := .setup, evidence := ["SYN with no payload"] }
  else if packets.any fun p => p.fin ∨ p.rst then
    { label := .teardown, evidence := ["FIN or RST with no payload"] }
  else
    (zeroWindowProbe lookback packets peerAcks).getD
      { label := .controlExchange, evidence := ["No payload observed"] }

/-- The payload bytes of some packets. -/
def payloadBytes (packets : List FlowPacket) : ℕ := (packets.map (·.length)).sum

/-- `_classify_run`, of a run with payload. -/
def payloadVerdict (run : Run) : RunVerdict :=
  let payload := run.packets.filter (0 < ·.length)
  let outBytes := payloadBytes (run.packets.filter (·.direction = .out))
  let inBytes := payloadBytes (run.packets.filter (·.direction = .in_))
  let total := outBytes + inBytes
  let spanS := (run.stop - run.start) / 1000
  let share : ℚ := if total = 0 then 0 else (max outBytes inBytes : ℕ) / total
  let bitsPerSecond : Option ℚ := if 0 < spanS then some (total * 8 / spanS) else none
  let repeated := payloadBytes (payload.filter (·.retrans))
  let percent : ℚ := if total = 0 then 0 else repeated / total * 100
  let rateEvidence := grouped total ++ " payload bytes over " ++ fixed1 spanS ++ "s" ++
    match bitsPerSecond with
    | some rate => " (" ++ grouped (halfEven rate).toNat ++ " bit/s)"
    | none => " (rate unavailable: zero-duration observation)"
  let note := if repeated = 0 then [] else
    ["Retransmissions present: " ++ grouped repeated ++ " of " ++ grouped total ++ " captured " ++
      "payload bytes (" ++ fixed1 percent ++ "%) may be repeats"]
  let metrics : PhaseMetrics :=
    ⟨total, bitsPerSecond.map (roundTo 3), repeated, roundTo 3 percent⟩
  if thresholds.bulkMinBytes ≤ total ∧ thresholds.bulkMinShare ≤ share then
    { label := .bulkTransfer
      direction := some (if inBytes ≤ outBytes then .out else .in_)
      evidence := [rateEvidence, fixed0 (share * 100) ++ "% in one direction",
        toString payload.length ++ " payload records"]
      alternatives := (if run.packets.any (·.tlsRecord ≠ "") then
          ["Encrypted traffic; a bulk shape does not prove a file transfer"] else []) ++ note
      metrics := some metrics }
  else if total ≤ thresholds.smallMaxBytes then
    let turns := (adjacent run.packets).countP fun ab => ab.1.direction ≠ ab.2.direction
    { label := .smallExchange
      evidence := [rateEvidence, toString turns ++ " direction changes"]
      alternatives := note
      metrics := some metrics }
  else
    { label := .payloadExchange
      evidence := [rateEvidence]
      alternatives := note
      metrics := some metrics }

/-- `_classify_run`. -/
def classifyRun (lookback : List FlowPacket) (run : Run) (peerAcks : AckKey → List (ℚ × ℤ)) :
    RunVerdict :=
  if run.packets.any (0 < ·.length) then payloadVerdict run
  else controlVerdict lookback run.packets peerAcks

/-! ## Pauses -/

/-- `STALL_LOOKBACK_MS`. -/
def stallLookbackMs : ℚ := 1000

/-- The zero-window advertisements in a pause or shortly before it. -/
def closedWindows (ordered : List FlowPacket) (pauseStart pauseEnd : ℚ) : List FlowPacket :=
  ordered.filter fun p =>
    isStall p ∧ pauseStart - stallLookbackMs ≤ p.timeMs ∧ p.timeMs ≤ pauseEnd

structure WindowStall where
  advertisements : ℕ
  advertiser : String
  frames : List ℕ
  firstMs : ℚ
  lastMs : ℚ
deriving DecidableEq, Repr

/-- `_window_stall`. -/
def windowStall (ordered : List FlowPacket) (pauseStart pauseEnd : ℚ) : Option WindowStall :=
  if pauseEnd ≤ pauseStart then none
  else
    match closedWindows ordered pauseStart pauseEnd with
    | [] => none
    | first :: rest =>
      let hits := first :: rest
      some
        { advertisements := hits.length
          advertiser := first.src
          frames := (hits.take 20).map (·.frame)
          firstMs := roundTo 3 first.timeMs
          lastMs := roundTo 3 (hits.getLastD first).timeMs }

/-- An episode and a pause overlap; an episode of unknown length has no end. -/
def Episode.overlaps (e : Episode) (pauseStart pauseEnd : ℚ) : Bool :=
  e.startMs ≤ pauseEnd && e.durationMs.all fun duration => pauseStart ≤ e.startMs + duration

/-- `_matching_episode`. The source passes the advertiser and does not look at it. -/
def matchingEpisode (episodes : List Episode) (pauseStart pauseEnd : ℚ) (_advertiser : String) :
    Option Episode :=
  episodes.find? (·.overlaps pauseStart pauseEnd)

/-- What a stalled pause says of the episode it belongs to. -/
structure EpisodeRef where
  episodeIndex : ℕ
  episodeDurationMs : Option ℚ
  episodeProbes : ℕ
  episodeProbeGapsMs : List ℚ
  partOfLargerStall : Bool
deriving DecidableEq, Repr

/-- The reference to an episode, from a pause of some length. -/
def Episode.reference (e : Episode) (pauseMs : ℚ) : EpisodeRef where
  episodeIndex := e.index
  episodeDurationMs := e.durationMs
  episodeProbes := e.probes
  episodeProbeGapsMs := e.probeGapsMs
  partOfLargerStall := e.durationMs.any (pauseMs < ·)

/-- `window_stall`: the stall of a pause, with its episode if one matches. -/
structure PauseStall extends WindowStall where
  episode : Option EpisodeRef
deriving DecidableEq, Repr

/-- `_fmt_ms`. -/
def fmtMs : Option ℚ → String
  | none => "an unbounded time"
  | some value => if 1000 ≤ value then fixed1 (value / 1000) ++ "s" else fixed0 value ++ "ms"

/-! ## The table -/

structure Phase where
  index : ℕ
  label : PhaseLabel
  startMs : ℚ
  endMs : ℚ
  durationMs : ℚ
  packets : ℕ
  frames : List ℕ
  evidence : List String
  alternatives : List String
  direction : Option Direction
  metrics : Option PhaseMetrics
  windowStall : Option PauseStall
deriving DecidableEq, Repr

/-- The phase of a run. -/
def runPhase (index : ℕ) (run : Run) (verdict : RunVerdict) : Phase where
  index := index
  label := verdict.label
  startMs := roundTo 3 run.start
  endMs := roundTo 3 run.stop
  durationMs := roundTo 3 (run.stop - run.start)
  packets := run.packets.length
  frames := run.packets.map (·.frame)
  evidence := verdict.evidence
  alternatives := verdict.alternatives
  direction := verdict.direction
  metrics := verdict.metrics
  windowStall := none

/-- The phase of the quiet interval between two runs. -/
def pausePhase (ordered : List FlowPacket) (episodes : List Episode) (index : ℕ)
    (pauseStart pauseEnd : ℚ) : Phase :=
  let gapS := (pauseEnd - pauseStart) / 1000
  let pause : Phase :=
    { index := index
      label := if gapS < 30 then .payloadPause else .idle
      startMs := roundTo 3 pauseStart
      endMs := roundTo 3 pauseEnd
      durationMs := roundTo 3 (pauseEnd - pauseStart)
      packets := 0
      frames := []
      evidence := [fixed1 gapS ++ "s with no captured activity"]
      alternatives := ["An application pause and a network gap look the " ++
        "same at one capture point"]
      direction := none
      metrics := none
      windowStall := none }
  match windowStall ordered pauseStart pauseEnd with
  | none => pause
  | some stall =>
    let episode := matchingEpisode episodes pauseStart pauseEnd stall.advertiser
    { pause with
      label := .receiverWindowStall
      evidence := pause.evidence ++
        [ toString stall.advertisements ++ " zero-window advertisement(s) in or " ++
            "immediately before this pause, from " ++ stall.advertiser ] ++
        (episode.map fun e => "Part of receiver-window stall #" ++ toString e.index ++ ": " ++
            toString e.probes ++ " probe(s) over " ++ fmtMs e.durationMs).toList
      alternatives := ["Flow control is receiver-driven: the receiver had no buffer " ++
        "space. This is not congestion and not a network gap"]
      windowStall := some ⟨stall, episode.map (·.reference pause.durationMs)⟩ }

/-- `run["lookback"]` of the next run: the last four packets. -/
def Run.tail (run : Run) : List FlowPacket := run.packets.drop (run.packets.length - 4)

/-- The loop of `stream_phases`. -/
def phasesFrom (ordered : List FlowPacket) (episodes : List Episode) :
    ℕ → List FlowPacket → List Run → List Phase
  | _, _, [] => []
  | index, lookback, [run] =>
    [runPhase index run (classifyRun lookback run (peerAckIndex ordered))]
  | index, lookback, run :: next :: rest =>
    runPhase index run (classifyRun lookback run (peerAckIndex ordered)) ::
      pausePhase ordered episodes (index + 1) run.stop next.start ::
        phasesFrom ordered episodes (index + 2) run.tail (next :: rest)

structure PhaseTable where
  phases : List Phase
  thresholds : Thresholds
  limitation : Option String
deriving DecidableEq, Repr

/-- `stream_phases`. -/
def streamPhases (packets : List FlowPacket) (windowEpisodes : List Episode) : PhaseTable :=
  let ordered := sortOn FlowPacket.timeMs packets
  if ordered.isEmpty then ⟨[], thresholds, none⟩
  else
    { phases := phasesFrom ordered windowEpisodes 0 [] (activity ordered)
      thresholds := thresholds
      limitation := some ("Phase boundaries follow a disclosed idle threshold and " ++
        "are not unique. Encrypted streams can hide an application " ++
        "pause inside an apparent control exchange.") }

end PacketTrain.Analysis
