import Mathlib.Data.List.MinMax
import PacketTrain.Analysis.Packet

/-!
# Burst rate

`packettrain/accounting.py`, `burst_rate`: runs of payload packets of one direction, cut by the ACKs of
the other, and the rates at which the longest of them was sent, by the clock of the capture and by the
timestamps of the sender.

`min_packets` is an integer that nothing checks. Below one it lets a run without packets through, whose
first packet the function then asks for: an `IndexError`, which is `none` here.
-/

namespace PacketTrain.Analysis

/-- `BURST_MIN_PACKETS`. -/
def burstMinPackets : ℤ := 5

section

variable (dataDirection : Direction) (minPackets : ℤ)

/-- A payload packet of the data direction. -/
def isPayload (p : FlowPacket) : Bool := p.direction = dataDirection ∧ 0 < p.length

/-- An ACK of the other direction, which ends a run. -/
def endsRun (p : FlowPacket) : Bool := p.direction ≠ dataDirection ∧ p.ackFlag

/-- A run that is long enough. -/
def qualifying (current : List FlowPacket) : List (List FlowPacket) :=
  if minPackets ≤ current.length then [current] else []

/-- The loop over the packets. -/
def burstRunsFrom (current : List FlowPacket) : List FlowPacket → List (List FlowPacket)
  | [] => qualifying minPackets current
  | p :: rest =>
    if isPayload dataDirection p then burstRunsFrom (current ++ [p]) rest
    else if endsRun dataDirection p then qualifying minPackets current ++ burstRunsFrom [] rest
    else burstRunsFrom current rest

/-- `runs`. -/
def burstRuns (group : List FlowPacket) : List (List FlowPacket) :=
  burstRunsFrom dataDirection minPackets [] group

end

/-- `best_index`: the first of the longest runs. -/
def bestIndex (runs : List (List FlowPacket)) : Option ℕ :=
  (List.range runs.length).argmax fun i => (runs.getD i []).length

/-- The run that is sampled, `first` its first packet. -/
structure BurstSample where
  index : ℕ
  first : FlowPacket
  rest : List FlowPacket
deriving DecidableEq, Repr

def BurstSample.run (s : BurstSample) : List FlowPacket := s.first :: s.rest

def BurstSample.last (s : BurstSample) : FlowPacket := s.rest.getLastD s.first

/-- What there is to sample. -/
inductive Sampled
  | noRun
  /-- `run[0]` raises. -/
  | emptyRun
  | run (s : BurstSample)
deriving DecidableEq, Repr

def sampledRun (group : List FlowPacket) (dataDirection : Direction)
    (minPackets : ℤ := burstMinPackets) : Sampled :=
  let runs := burstRuns dataDirection minPackets group
  match bestIndex runs with
  | none => .noRun
  | some index =>
    match runs.getD index [] with
    | [] => .emptyRun
    | first :: rest => .run ⟨index, first, rest⟩

namespace BurstSample

variable (s : BurstSample)

def payloadBytes : ℕ := (s.run.map (·.length)).sum

def payloadBits : ℕ := s.payloadBytes * 8

def spanMs : ℚ := s.last.timeMs - s.first.timeMs

/-- `capture_rate`, in bits a second, before it is rounded. -/
def captureRate : Option ℚ := if 0 < s.spanMs then some (s.payloadBits / (s.spanMs / 1000)) else none

/-- The sender's clock does not move, or one end of the run does not show it. -/
def insideTick : String :=
  "the whole burst falls inside one timestamp tick, so the " ++
    "sender clock cannot resolve it; the burst is under 1 ms"

/-- `tsval_rate` with the span that it is over, or why there is none. -/
def tsvalRate : Except String (ℤ × ℚ) :=
  if (s.run.filterMap (·.tsval)).length < 2 then
    .error ("no TCP timestamp option on these packets, so the endpoint " ++
      "clock cannot be used as a cross-check")
  else
    match s.first.tsval, s.last.tsval with
    | some tsFirst, some tsLast =>
      if tsLast ≤ tsFirst then .error insideTick
      else .ok (tsLast - tsFirst, s.payloadBits / ((tsLast - tsFirst : ℤ) / 1000))
    | _, _ => .error insideTick

end BurstSample

/-- The answer, when there is a run. -/
structure BurstRate where
  packets : ℕ
  payloadBytes : ℕ
  spanMs : ℚ
  captureRateMbps : Option ℚ
  tsvalRateMbps : Option ℚ
  tsvalSpanMs : Option ℤ
  tsvalNote : Option String
  tsvalResolutionMs : ℕ
  runIndex : ℕ
  runsBefore : ℕ
  sampleFrameRange : ℕ × ℕ
  minPackets : ℤ
  note : String
deriving DecidableEq, Repr

inductive BurstAnswer
  | unavailable (reason : String) (minPackets : ℤ)
  | available (rate : BurstRate)
deriving DecidableEq, Repr

/-- `round(rate / 1e6, 2) if rate else None`. -/
def rateMbps (rate : Option ℚ) : Option ℚ := (rate.filter (· ≠ 0)).map fun r => roundTo 2 (r / 10 ^ 6)

/-- `burst_rate`; `none` when it raises. -/
def burstRate (group : List FlowPacket) (dataDirection : Direction)
    (minPackets : ℤ := burstMinPackets) : Option BurstAnswer :=
  match sampledRun group dataDirection minPackets with
  | .noRun =>
    some (.unavailable ("no run of " ++ toString minPackets ++ " consecutive payload packets") minPackets)
  | .emptyRun => none
  | .run s =>
    some (.available {
      packets := s.run.length
      payloadBytes := s.payloadBytes
      spanMs := roundTo 3 s.spanMs
      captureRateMbps := rateMbps s.captureRate
      tsvalRateMbps := rateMbps (s.tsvalRate.toOption.map Prod.snd)
      tsvalSpanMs := s.tsvalRate.toOption.map Prod.fst
      tsvalNote := match s.tsvalRate with
        | .error reason => some reason
        | .ok _ => none
      tsvalResolutionMs := 1
      runIndex := s.index
      runsBefore := s.index
      sampleFrameRange := (s.first.frame, s.last.frame)
      minPackets := minPackets
      note := "Sampled after the slow-start ramp. The capture rate can exceed " ++
        "the link because capture timestamps may precede transmission; " ++
        "the tsval rate is quantised to the sender's tick and so bounds " ++
        "the burst from below." })

end PacketTrain.Analysis
