import PacketTrain.Analysis.Idle

/-!
# The player of the explorer page

`index.html`, the part of the script that moves the clock: `build`, `setTime`, `stop`, `nextCompressedAfter`,
`loadPlayback`, `selectPacket`, `setSelection`, `clearSelection` and the handlers of the play, step and scrub
controls, of the sequence chart and of the phase table. A step is again one turn of the script: something
the user does, one tick of the interval timer, the end of one skip, or an answer with a replay model.

A skip is a timeout of 800 ms that nothing clears: `stop` leaves it under way. And `loadPlayback` takes
its answer whatever the page shows by then.

The time between two ticks and the speed are given by the turn, and so is the speed that `applyAutoSpeed`
puts on the slider. Left out: what is drawn, and the status line.
-/

namespace PacketTrain.Browser

open Analysis

/-! ## The flow -/

/-- `flow`, as far as the player reads it. The server sends no flow without a packet, its round-trip times
are not negative, and a replay model it sends along is of the flow's own packets. -/
structure ReplayFlow where
  packets : List FlowPacket
  captureSide : Option Side
  rttMs : Option ℚ
  playback : Option Timeline
  packets_ne_nil : packets ≠ []
  rtt_nonneg : ∀ rtt, rttMs = some rtt → 0 ≤ rtt
  playback_eq : ∀ model, playback = some model → ∃ mode speed, model = timeline packets mode speed

/-- A compressed interval. -/
structure Skip where
  startMs : ℚ
  endMs : ℚ
deriving DecidableEq, Repr

def Skip.ofSegment : PlaySegment → Option Skip
  | .packet .. => none
  | .compressed _ _ _ startMs endMs => some ⟨startMs, endMs⟩

/-- The segments of the kind `compressed`. -/
def skipsOf (model : Timeline) : List Skip := model.segments.filterMap Skip.ofSegment

/-- A record of the animation. -/
structure Event where
  frame : ℕ
  start : ℚ
deriving DecidableEq, Repr

/-- A request of `loadPlayback` under way. -/
structure PlaybackRequest where
  flow : ReplayFlow
  mode : Mode
  speed : ℚ

structure Player where
  flow : Option ReplayFlow
  captureSide : Option Side
  /-- `$('side').value`, `none` for automatic, and `$('rttOverride').value`. -/
  side : Option Side
  rttOverride : ℚ
  /-- `$('pmode').value` and the speed on the slider. -/
  mode : Mode
  speed : ℚ
  travel : ℚ
  timeStart : ℚ
  duration : ℚ
  clock : ℚ
  events : List Event
  /-- The play and step buttons are not disabled. -/
  enabled : Bool
  timer : Bool
  skipping : Bool
  playback : Option Timeline
  expandedGaps : List ℚ
  /-- `selection.from` and `selection.to`. -/
  selection : Option (ℚ × ℚ)
  /-- The skips whose timeout is under way. -/
  waiting : List Skip
  loading : List PlaybackRequest

/-- The page before its first flow. -/
def Player.initial : Player where
  flow := none
  captureSide := none
  side := none
  rttOverride := 0
  mode := .smart
  speed := 1
  travel := 100
  timeStart := 0
  duration := 100
  clock := 0
  events := []
  enabled := false
  timer := false
  skipping := false
  playback := none
  expandedGaps := []
  selection := none
  waiting := []
  loading := []

/-! ## The functions of the script -/

/-- `setTime`. -/
def Player.setTime (t : ℚ) (p : Player) : Player :=
  { p with clock := max p.timeStart (min p.duration t) }

/-- `stop`. -/
def Player.stop (p : Player) : Player := { p with timer := false, skipping := false }

/-- `nextCompressedAfter`. -/
def nextCompressedAfter (playback : Option Timeline) (t : ℚ) : Option Skip :=
  match playback with
  | none => none
  | some model => (sortOn Skip.startMs ((skipsOf model).filter fun gap => t < gap.startMs)).head?

/-- `loadPlayback`, up to its `await`. -/
def Player.loadPlayback (p : Player) : Player :=
  match p.flow with
  | none => { p with playback := none }
  | some flow =>
    match flow.playback with
    | some built =>
      if p.mode = .smart ∧ |built.analysis.speed.getD 0 - p.speed| < 1 / 10 ^ 6 then
        { p with playback := some built }
      else { p with playback := none, loading := p.loading ++ [⟨flow, p.mode, p.speed⟩] }
    | none => { p with playback := none, loading := p.loading ++ [⟨flow, p.mode, p.speed⟩] }

/-- `isLocal`. -/
def isLocal (captureSide : Option Side) (p : FlowPacket) : Bool := captureSide = some p.direction.side

/-- The start of a record's animation. -/
def startOf (captureSide : Option Side) (travel : ℚ) (p : FlowPacket) : ℚ :=
  if isLocal captureSide p then p.timeMs else p.timeMs - travel

/-- The end of a record's animation. -/
def endOf (captureSide : Option Side) (travel : ℚ) (p : FlowPacket) : ℚ :=
  if isLocal captureSide p then p.timeMs + travel else p.timeMs

/-- The round-trip time that `build` works with: the override, or that of the flow, which is none when
it is zero. -/
def buildRtt (rttOverride : ℚ) (flow : ReplayFlow) : Option ℚ :=
  if 0 < rttOverride then some rttOverride else flow.rttMs.filter fun rtt => rtt ≠ 0

/-- `build`, once the capture side and the round-trip time are known: the range and the records. -/
def Player.arm (flow : ReplayFlow) (travel : ℚ) (p : Player) : Player :=
  let timeStart := min 0 ((flow.packets.map (startOf p.captureSide travel)).min?.getD 0)
  { p with
    travel := travel
    timeStart := timeStart
    duration := (flow.packets.map (endOf p.captureSide travel)).max?.getD 0
    events := flow.packets.map fun q : FlowPacket => ⟨q.frame, startOf p.captureSide travel q⟩
    enabled := true }.setTime timeStart

/-- `build`. -/
def Player.build (flow : ReplayFlow) (autoSpeed : ℚ) (p : Player) : Player :=
  let p := { p.stop with
    captureSide := p.side.or flow.captureSide
    events := []
    speed := autoSpeed }.loadPlayback
  match p.captureSide, buildRtt p.rttOverride flow with
  | some _, some rtt => p.arm flow (rtt / 2)
  | _, _ => { p with enabled := false }

/-- `setSelection` with both ends. -/
def Player.select (lo hi : ℚ) (p : Player) : Player := { p with selection := some (lo, hi) }

/-- Where playing stops. -/
def Player.limit (p : Player) : ℚ := (p.selection.map Prod.snd).getD p.duration

/-- The interval that a tick up to `next` is about to enter. -/
def Player.gapAhead (next : ℚ) (p : Player) : Option Skip :=
  if p.skipping then none
  else (nextCompressedAfter p.playback p.clock).filter fun gap =>
    gap.startMs ∉ p.expandedGaps ∧ gap.startMs ≤ next

/-- The callback of the interval timer. -/
def Player.tick (delta : ℚ) (p : Player) : Player :=
  let next := p.clock + delta
  match p.gapAhead next with
  | some gap => { p.setTime gap.startMs with skipping := true, waiting := p.waiting ++ [gap] }
  | none =>
    let p := p.setTime next
    if p.limit ≤ p.clock then p.stop else p

/-- The callback of a skip. -/
def Player.skipEnds (gap : Skip) (p : Player) : Player :=
  if p.timer then { p.setTime gap.endMs with skipping := false } else p

/-- The play button. -/
def Player.play (p : Player) : Player :=
  if p.timer then p.stop
  else
    let p := if p.duration ≤ p.clock then p.setTime p.timeStart else p
    { p with timer := true }

/-- The event that the step button goes to. -/
def Player.nextEvent (p : Player) : Option Event :=
  (sortOn Event.start (p.events.filter fun e => p.clock + 1 / 10000 < e.start)).head?

/-- The step button. -/
def Player.stepOn (p : Player) : Player :=
  let p := p.stop
  p.setTime ((p.nextEvent.map Event.start).getD p.duration)

/-! ## Turns -/

inductive PlayTurn
  /-- `installCombined`; an answer may have no flow. -/
  | install (flow : Option ReplayFlow) (autoSpeed : ℚ)
  /-- Another capture side or another round-trip time. -/
  | options (side : Option Side) (rttOverride autoSpeed : ℚ)
  /-- `streams`, when the file changes. -/
  | leave
  /-- `loadSelectedFlow`, before it asks. -/
  | load
  | play
  | tick (delta : ℚ)
  | skipEnds (k : ℕ)
  | step
  | scrub (t : ℚ)
  /-- `selectPacket`. -/
  | packet (q : FlowPacket)
  /-- A payload mark of the sequence chart. -/
  | mark (q : FlowPacket)
  /-- A row of the phase table. -/
  | phase (startMs durationMs : ℚ)
  /-- Dragging over the sequence chart, and letting go. -/
  | drag (lo hi : ℚ)
  | drop (lo hi : ℚ)
  | clear
  /-- A gap line of the sequence chart. -/
  | expand (startMs : ℚ)
  | mode (mode : Mode)
  | speed (speed : ℚ)
  /-- The answer to a request of `loadPlayback`, or its failure. -/
  | model (k : ℕ) (ok : Bool)

/-- One turn of the script, when it can be taken: the timer ticks while it is set, time does not run
backwards, a disabled button takes no click, and only what is under way can end. -/
def Player.turn (p : Player) : PlayTurn → Option Player
  | .install none _ => some { p with flow := none }
  | .install (some flow) autoSpeed => some ({ p with flow := some flow }.build flow autoSpeed)
  | .options side rttOverride autoSpeed =>
    let p := { p with side := side, rttOverride := rttOverride }
    match p.flow with
    | none => some p
    | some flow => some (p.build flow autoSpeed)
  | .leave => some { p.stop with flow := none, selection := none, enabled := false }
  | .load => some p.stop
  | .play => if p.enabled then some p.play else none
  | .tick delta => if p.timer ∧ 0 ≤ delta then some (p.tick delta) else none
  | .skipEnds k =>
    match p.waiting[k]? with
    | none => none
    | some gap => some ({ p with waiting := p.waiting.eraseIdx k }.skipEnds gap)
  | .step => if p.enabled then some p.stepOn else none
  | .scrub t => some (p.stop.setTime t)
  | .packet q => some (p.stop.setTime (max p.timeStart (startOf p.captureSide p.travel q)))
  | .mark q => some (p.setTime (max p.timeStart (q.timeMs - p.travel))).stop
  | .phase startMs durationMs =>
    some ((p.stop.setTime (max p.timeStart startMs)).select startMs (startMs + max 0 durationMs))
  | .drag lo hi => some (p.select lo hi)
  | .drop lo hi => some ((p.select lo hi).setTime lo)
  | .clear => some { p with selection := none }
  | .expand startMs =>
    some { p with expandedGaps :=
      if startMs ∈ p.expandedGaps then p.expandedGaps.erase startMs else startMs :: p.expandedGaps }
  | .mode mode => some { p with mode := mode }.loadPlayback
  | .speed speed => some { p with speed := speed }.loadPlayback
  | .model k ok =>
    match p.loading[k]? with
    | none => none
    | some request =>
      some { p with
        loading := p.loading.eraseIdx k
        playback := if ok then some (timeline request.flow.packets request.mode request.speed) else none }

end PacketTrain.Browser
