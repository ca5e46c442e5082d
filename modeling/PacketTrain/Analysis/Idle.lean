import PacketTrain.Analysis.Outstanding

/-!
# Idle gaps

`packettrain/idle.py`, `analyze_gaps` and `timeline`. Every interval between two neighbours in time is
classified, and the replay compresses those that are quiet and long enough at the selected speed.

Binary64 is modelled by exact rationals: a gap is compared with the trigger exactly. At a tie the source may
go the other way: from 48.2 to 2048.2 ms it measures a little less than two seconds.
-/

namespace PacketTrain.Analysis

/-- `SPEED_MIN`. -/
def speedMin : ℚ := 1 / 10000

/-- `SPEED_MAX`. -/
def speedMax : ℚ := 10000

inductive Mode
  | faithful
  | smart
  | fast
deriving DecidableEq, Repr

def Mode.text : Mode → String
  | .faithful => "faithful"
  | .smart => "smart"
  | .fast => "fast"

/-- `MODES["version"]`. -/
def modeVersion : String := "2026-09-26.1"

/-- `PLAYBACK_TRIGGER_S`. -/
def playbackTriggerS : ℚ := 2

/-- Why a gap is or is not compressible. -/
inductive GapReason
  | faithfulMode
  | zeroWindow
  | retransmission
  | handshakeRetry
  | unresolvedOutstanding
  | idle
deriving DecidableEq, Repr

/-- `TRANSPORT_WAIT_REASONS`, and the reason itself where the table has none. -/
def GapReason.text : GapReason → String
  | .faithfulMode => "faithful mode"
  | .zeroWindow => "a zero-window advertisement preceded the gap"
  | .retransmission => "a retransmission preceded the gap"
  | .handshakeRetry => "a handshake retry preceded the gap"
  | .unresolvedOutstanding => "payload was still unacknowledged across the gap"
  | .idle => "idle"

/-- `_outstanding_within`. -/
def outstandingWithin (series : List OutstandingPoint) (startMs endMs : ℚ) : Bool :=
  series.any fun pt => startMs ≤ pt.timeMs ∧ pt.timeMs ≤ endMs ∧ 0 < pt.outstanding

/-- The packets between the ends of a gap, both included. -/
def gapWindow (packets : List FlowPacket) (before after : FlowPacket) : List FlowPacket :=
  packets.filter fun p => before.timeMs ≤ p.timeMs ∧ p.timeMs ≤ after.timeMs

/-- `_gap_reason`. -/
def gapReason (packets : List FlowPacket) (before after : FlowPacket)
    (series : List OutstandingPoint) : Bool × GapReason :=
  let window := gapWindow packets before after
  let preceding := if window.isEmpty then [before] else window
  if preceding.any fun p => p.windowPresent ∧ p.window = 0 then (false, .zeroWindow)
  else if preceding.any fun p => p.retrans then (false, .retransmission)
  else if (preceding.any fun p => p.syn ∧ !p.ackFlag) ∧ !(preceding.any fun p => p.syn ∧ p.ackFlag)
  then (false, .handshakeRetry)
  else if outstandingWithin series before.timeMs after.timeMs then (false, .unresolvedOutstanding)
  else (true, .idle)

structure Gap where
  startMs : ℚ
  endMs : ℚ
  capturedS : ℚ
  /-- Absent in faithful mode, as `expandable` is. -/
  playbackS : Option ℚ
  compressible : Bool
  reason : GapReason
  label : Option String
  expandable : Bool
  frames : ℕ × ℕ
  preservedBecause : Option String
deriving DecidableEq, Repr

/-- The captured length of the interval between two packets, in seconds. -/
def capturedS (before after : FlowPacket) : ℚ := (after.timeMs - before.timeMs) / 1000

/-- The wall-clock cost of replaying it. -/
def playbackS (speed : ℚ) (before after : FlowPacket) : ℚ :=
  capturedS before after / max speed (1 / 1000)

/-- The label of a gap. -/
def gapLabel (mode : Mode) (compressible tooShort : Bool) (reason : GapReason) (captured : ℚ) :
    Option String :=
  if compressible && !tooShort then
    some ("Idle interval compressed · " ++ fixed1 captured ++ " s")
  else if !compressible && mode = .fast && !tooShort then
    some ("Transport wait compressed · " ++ fixed1 captured ++ " s (" ++ reason.text ++ ")")
  else none

/-- The entry of one interval. -/
def gapOf (mode : Mode) (speed trigger : ℚ) (ordered : List FlowPacket)
    (series : List OutstandingPoint) (before after : FlowPacket) : Gap :=
  match mode with
  | .faithful =>
    { startMs := before.timeMs
      endMs := after.timeMs
      capturedS := roundTo 3 (capturedS before after)
      playbackS := none
      compressible := false
      reason := .faithfulMode
      label := none
      expandable := false
      frames := (before.frame, after.frame)
      preservedBecause := none }
  | mode =>
    let (compressible, reason) := gapReason ordered before after series
    let tooShort : Bool := playbackS speed before after < trigger
    { startMs := roundTo 3 before.timeMs
      endMs := roundTo 3 after.timeMs
      capturedS := roundTo 3 (capturedS before after)
      playbackS := some (roundTo 3 (playbackS speed before after))
      compressible := compressible
      reason := reason
      label := gapLabel mode compressible tooShort reason (capturedS before after)
      expandable := true
      frames := (before.frame, after.frame)
      preservedBecause := if compressible then none else some reason.text }

structure GapAnalysis where
  mode : Mode
  modeVersion : String
  /-- Absent, as the trigger is, when there are fewer than two packets. -/
  speed : Option ℚ
  trigger : Option ℚ
  gaps : List Gap
  compressedCount : Option ℕ
  compressedSeconds : ℚ
  limitation : Option String
deriving DecidableEq, Repr

/-- The neighbours in time with time between them. -/
def laterPairs (packets : List FlowPacket) : List (FlowPacket × FlowPacket) :=
  (adjacent (sortOn FlowPacket.timeMs packets)).filter fun ab => 0 < capturedS ab.1 ab.2

/-- `analyze_gaps`. -/
def analyzeGaps (packets : List FlowPacket) (mode : Mode) (speed trigger : ℚ) : GapAnalysis :=
  let ordered := sortOn FlowPacket.timeMs packets
  if ordered.length < 2 then
    { mode := mode
      modeVersion := modeVersion
      speed := none
      trigger := none
      gaps := []
      compressedCount := none
      compressedSeconds := 0
      limitation := none }
  else
    let series := if mode = .faithful then [] else outstandingBytes ordered
    let gaps := (laterPairs packets).map fun ab => gapOf mode speed trigger ordered series ab.1 ab.2
    let compressed := ((laterPairs packets).filter fun ab =>
      (gapOf mode speed trigger ordered series ab.1 ab.2).label.isSome).map fun ab =>
        capturedS ab.1 ab.2
    { mode := mode
      modeVersion := modeVersion
      speed := some speed
      trigger := some trigger
      gaps := gaps
      compressedCount := some (gaps.countP (·.label.isSome))
      compressedSeconds := roundTo 3 compressed.sum
      limitation := some ("A compressed interval keeps its duration, boundaries and " ++
        "expansion option, and no packet or timestamp is changed. " ++
        "Qualified idle may still contain application delay, and a " ++
        "gap is preserved whenever visibility is insufficient to " ++ "classify it.") }

/-! ## The replay -/

/-- What the player walks: packets, and compressed intervals. -/
inductive PlaySegment
  | packet (frame : ℕ) (timeMs : ℚ)
  | compressed (label : String) (capturedS : ℚ) (expandable : Bool) (startMs endMs : ℚ)
deriving DecidableEq, Repr

/-- `by_start`: the gap that starts at a frame, the last one of several. -/
def byStart (gaps : List Gap) (frame : ℕ) : Option Gap :=
  gaps.reverse.find? fun gap => gap.frames.1 = frame

/-- The segment of a gap with a label. -/
def Gap.segment (gap : Gap) : Option PlaySegment :=
  gap.label.map fun label => .compressed label gap.capturedS true gap.startMs gap.endMs

structure Timeline where
  analysis : GapAnalysis
  segments : List PlaySegment
deriving DecidableEq, Repr

/-- `timeline`. -/
def timeline (packets : List FlowPacket) (mode : Mode) (speed : ℚ) : Timeline :=
  let analysis := analyzeGaps packets mode speed playbackTriggerS
  { analysis := analysis
    segments := (sortOn FlowPacket.timeMs packets).flatMap fun p =>
      .packet p.frame p.timeMs :: ((byStart analysis.gaps p.frame).bind Gap.segment).toList }

end PacketTrain.Analysis
