import PacketTrain.Analysis.Packet

/-!
# Receiver-window analysis

`packettrain/window_flow.py`. The zero windows that each endpoint advertises are grouped into
episodes. An episode runs from a zero window to the endpoint's next window that is not zero; the zero
windows in between are probes of the same stall.

Where the packets carry no capture time, `time_ms` stands in for it, the end of the capture is unknown,
and so is the duration of an episode that never ends.
-/

namespace PacketTrain.Analysis

/-- `MIN_STALL_MS`. -/
def minStallMs : ℚ := 10

/-- `UNRESOLVED_NOTE`. -/
def unresolvedNote : String := "capture ended while the window was still closed"

/-- `_time_ms`. -/
def windowTimeMs (p : FlowPacket) (origin : Option ℚ) : ℚ :=
  match p.ts, origin with
  | some ts, some origin => roundTo 3 ((ts - origin) * 1000)
  | _, _ => p.timeMs

/-- `_is_stall`: the window was explicitly advertised as zero. -/
def isStall (p : FlowPacket) : Bool := p.windowPresent && p.window = 0

/-- The packet explicitly advertises a window that is not zero. -/
def reopens (p : FlowPacket) : Bool := p.windowPresent && 0 < p.window

/-- `_recovery_after`: the first window that is not zero, after a time. -/
def recoveryAfter (group : List FlowPacket) (side : Side) (afterMs : ℚ) (origin : Option ℚ) :
    Option ℚ :=
  (group.find? fun p =>
    p.direction.side = side ∧ afterMs < windowTimeMs p origin ∧ reopens p).map (windowTimeMs · origin)

/-- An advertisement with its time. -/
structure Timed where
  timeMs : ℚ
  packet : FlowPacket
deriving DecidableEq, Repr

/-- A stall of one endpoint, before it is reported. -/
structure Stall where
  startMs : ℚ
  lastProbeMs : ℚ
  probes : ℕ
  probeTimesMs : List ℚ
  frames : List ℕ
  recoveredAt : Option ℚ
deriving DecidableEq, Repr

/-- The probes of a stall are the advertisements before it ends. -/
def isProbe (reopening : Option ℚ) (t : Timed) : Bool :=
  match reopening with
  | none => true
  | some reopening => t.timeMs < reopening

/-- The stall that `first` opens and `probes` continue. -/
def stallOf (first : Timed) (probes : List Timed) (reopening : Option ℚ) : Stall where
  startMs := first.timeMs
  lastProbeMs := ((first :: probes).map Timed.timeMs).getLastD first.timeMs
  probes := probes.length + 1
  probeTimesMs := (first :: probes).map fun t => roundTo 3 t.timeMs
  frames := ((first :: probes).map fun t => t.packet.frame).take 20
  recoveredAt := reopening

/-- The loop of `_episodes`; each round takes one advertisement or more, so their number bounds it. -/
def stallLoop (group : List FlowPacket) (side : Side) (origin : Option ℚ) :
    ℕ → List Timed → List Stall
  | _, [] => []
  | 0, _ :: _ => []
  | fuel + 1, first :: rest =>
    let reopening := recoveryAfter group side first.timeMs origin
    stallOf first (rest.takeWhile (isProbe reopening)) reopening ::
      stallLoop group side origin fuel (rest.dropWhile (isProbe reopening))

/-- `_episodes`. -/
def stallsOf (advertisements group : List FlowPacket) (side : Side) (origin : Option ℚ) :
    List Stall :=
  let timed := sortOn Timed.timeMs (advertisements.map fun p => ⟨windowTimeMs p origin, p⟩)
  stallLoop group side origin timed.length timed

/-- A stall as it is reported. -/
structure Episode where
  index : ℕ
  direction : Side
  constrainedDirection : Side
  startMs : ℚ
  durationMs : Option ℚ
  probes : ℕ
  probeTimesMs : List ℚ
  probeGapsMs : List ℚ
  probeBackoff : Bool
  recovered : Bool
  note : Option String
  frames : List ℕ
deriving DecidableEq, Repr

/-- The widening of the intervals between probes. -/
def backsOff (gaps : List ℚ) : Bool :=
  match gaps.head?, gaps.getLast? with
  | some first, some last => first < last
  | _, _ => false

/-- The report of one stall. -/
def episodeOf (side : Side) (captureEndMs : Option ℚ) (index : ℕ) (s : Stall) : Episode :=
  let gaps := (adjacent s.probeTimesMs).map fun ab => roundTo 3 (ab.2 - ab.1)
  let duration :=
    match s.recoveredAt with
    | some recovered => some (recovered - s.startMs)
    | none => captureEndMs.map (· - s.startMs)
  { index := index
    direction := side
    constrainedDirection := side.other
    startMs := s.startMs
    durationMs := duration.map (roundTo 3)
    probes := s.probes
    probeTimesMs := s.probeTimesMs
    probeGapsMs := gaps
    probeBackoff := backsOff gaps
    recovered := s.recoveredAt.isSome
    note := if s.recoveredAt.isSome then none else some unresolvedNote
    frames := s.frames }

/-- The stalls that are long enough to report, or of unknown length. -/
def Episode.reported (e : Episode) : Bool :=
  match e.durationMs with
  | none => true
  | some duration => minStallMs ≤ duration

/-- The fields that only an analysis with stalls has. -/
structure StallDetail where
  unresolved : ℕ
  clientScale : Option ℤ
  serverScale : Option ℤ
deriving DecidableEq, Repr

structure WindowAnalysis where
  basis : String
  episodes : List Episode
  episodeCount : ℕ
  totalStalledMs : ℚ
  stalledFraction : Option ℚ
  synZeroWindow : ℕ
  persistent : Bool
  detail : Option StallDetail
  doesNotProve : String
deriving DecidableEq, Repr

/-- The zero windows that count: those not on a SYN. -/
def stallPackets (group : List FlowPacket) : List FlowPacket :=
  (group.filter (isStall ·)).filter (!·.syn)

/-- The endpoints of a list of stall packets, in the order in which they are met. -/
def sidesOf (stalls : List FlowPacket) : List Side :=
  match stalls with
  | [] => []
  | first :: _ =>
    let side := first.direction.side
    side :: (if stalls.any (·.direction.side = side.other) then [side.other] else [])

/-- The end of the capture, from its first packet. -/
def captureEnd (group : List FlowPacket) : Option ℚ :=
  match (captureTimes group).max?, origin group with
  | some last, some first => some (roundTo 3 ((last - first) * 1000))
  | _, _ => none

/-- Every stall, endpoint by endpoint, numbered as it is found. -/
def allEpisodes (group : List FlowPacket) : List Episode :=
  let stalls := stallPackets group
  let found := (sidesOf stalls).flatMap fun side =>
    (stallsOf (stalls.filter (·.direction.side = side)) group side (origin group)).map fun s => (side, s)
  found.zipIdx.map fun e => episodeOf e.1.1 (captureEnd group) e.2 e.1.2

/-- The episodes of the response. -/
def episodes (group : List FlowPacket) : List Episode :=
  sortOn Episode.startMs ((allEpisodes group).filter Episode.reported)

/-- `receiver_window_analysis`. -/
def receiverWindowAnalysis (group : List FlowPacket) : WindowAnalysis :=
  let synZero := (group.filter fun p => isStall p ∧ p.syn).length
  if (stallPackets group).isEmpty then
    { basis := "explicitly advertised zero window on non-SYN segments"
      episodes := []
      episodeCount := 0
      totalStalledMs := 0
      stalledFraction := some 0
      synZeroWindow := synZero
      persistent := false
      detail := none
      doesNotProve := "Flow control is receiver-driven. A closed window says the receiver " ++
        "had no room, not that the network was congested." }
  else
    let found := episodes group
    let stalledMs := (found.filterMap Episode.durationMs).sum
    let unresolved := (found.filter (!·.recovered)).length
    { basis := "explicitly advertised zero window on non-SYN segments"
      episodes := found
      episodeCount := found.length
      totalStalledMs := roundTo 3 stalledMs
      stalledFraction :=
        match captureEnd group with
        | some flowMs => if 0 < flowMs then some (roundTo 4 (stalledMs / flowMs)) else none
        | none => none
      synZeroWindow := synZero
      persistent := unresolved ≠ 0 && (captureEnd group).isNone
      detail := some
        { unresolved := unresolved
          clientScale := windowScale group true
          serverScale := windowScale group false }
      doesNotProve := "Flow control is receiver-driven. A closed window says the receiver had " ++
        "no room, not that the network was congested. Duration is bounded by the " ++
        "capture; an episode still open at the last frame is not proven persistent." }

end PacketTrain.Analysis
