import Mathlib.Data.List.MinMax
import PacketTrain.Analysis.Outstanding

/-!
# Accounting of a stream

`packettrain/accounting_tcp.py`, the rest of it: the payload ranges of a direction with the bytes they
cover, the history of the advertised windows, the largest burst, and `tcp_accounting`, which reports
them with the outstanding series.
-/

namespace PacketTrain.Analysis

/-! ## Payload ranges -/

/-- The ranges of one payload packet: two when it crosses `2 ^ 32`. -/
def seqRange (base : Option ℤ) (p : FlowPacket) : List Ranges.Range :=
  let start := relative p.seq base
  let stop := start + p.length
  if seqSpace < stop then [(start, seqSpace), (0, stop - seqSpace)] else [(start, stop)]

/-- `_seq_ranges`. -/
def seqRanges (packets : List FlowPacket) (fromClient : Bool) : List Ranges.Range :=
  (sentPackets packets fromClient).flatMap (seqRange (initialSequence packets fromClient))

/-! ## Windows -/

/-- A point of the receive-window history. -/
structure WindowPoint where
  timeMs : ℚ
  direction : Direction
  raw : ℕ
  scaleShift : Option ℤ
  scaled : Option ℕ
  countingBasis : String
deriving DecidableEq, Repr

structure WindowHistory where
  history : List WindowPoint
  clientScaleShift : Option ℤ
  serverScaleShift : Option ℤ
  limitation : String
deriving DecidableEq, Repr

/-- The point of one packet. The window of a SYN is not scaled. -/
def windowPoint (outScale inScale : Option ℤ) (p : FlowPacket) : WindowPoint :=
  let scale := match p.direction with
    | .out => outScale
    | .in_ => inScale
  let applied := if p.syn then none else scale
  { timeMs := p.timeMs
    direction := p.direction
    raw := p.window
    scaleShift := scale
    scaled := applied.map fun shift => p.window <<< shift.toNat
    countingBasis := if applied.isSome then "scaled by the advertised shift"
      else "unscaled: no scale advertised, or this is a SYN" }

/-- `scaled_window`. -/
def scaledWindow (packets : List FlowPacket) : WindowHistory :=
  let outScale := windowScale packets true
  let inScale := windowScale packets false
  { history := (packets.filter fun p => p.window ≠ 0).map (windowPoint outScale inScale)
    clientScaleShift := outScale
    serverScaleShift := inScale
    limitation := "Window scale is taken from the SYN options. If the SYN is " ++
      "absent or sliced, the scale is unknown and windows are " ++
      "reported unscaled rather than guessed." }

/-! ## Bursts -/

/-- `BURST_GAP_S`. -/
def burstGapS : ℚ := 1 / 5

/-- Consecutive payload records of one direction. -/
structure Burst where
  direction : Direction
  start : ℚ
  stop : ℚ
  bytes : ℕ
  records : ℕ
deriving DecidableEq, Repr

/-- The loop of `bursts_at`, over records with their capture times. -/
def burstsFrom (gap : ℚ) (current : Option Burst) : List (ℚ × FlowPacket) → List Burst
  | [] => current.toList
  | (ts, p) :: rest =>
    if p.length = 0 then burstsFrom gap current rest
    else
      let fresh : Burst := ⟨p.direction, ts, ts, p.length, 1⟩
      match current with
      | none => burstsFrom gap (some fresh) rest
      | some b =>
        if b.direction = p.direction ∧ ts - b.stop ≤ gap then
          burstsFrom gap
            (some { b with stop := ts, bytes := b.bytes + p.length, records := b.records + 1 }) rest
        else b :: burstsFrom gap (some fresh) rest

/-- The packets with their capture times, in time order; `none` when a capture time is missing. -/
def capturedRecords (packets : List FlowPacket) : Option (List (ℚ × FlowPacket)) :=
  (packets.mapM fun p : FlowPacket => p.ts.map fun ts => (ts, p)).map (sortOn Prod.fst)

/-- `bursts_at`. -/
def burstsAt (records : List (ℚ × FlowPacket)) (gap : ℚ) : List Burst := burstsFrom gap none records

structure LargestBurst where
  bytes : ℕ
  records : ℕ
  spanMs : ℚ
  direction : Direction
deriving DecidableEq, Repr

structure BurstReport where
  largest : Option LargestBurst
  thresholdS : ℚ
  /-- Thresholds, each with the bytes of its largest burst. -/
  sensitivity : List (ℚ × ℕ)
  limitation : Option String
deriving DecidableEq, Repr

/-- `max((b["bytes"] for b in bursts), default=0)`. -/
def largestBytes (bursts : List Burst) : ℕ := (bursts.map Burst.bytes).max?.getD 0

/-- `largest_burst`. -/
def largestBurst (packets : List FlowPacket) (gapS : ℚ := burstGapS) : Option BurstReport := do
  let records ← capturedRecords packets
  match (burstsAt records gapS).argmax Burst.bytes with
  | none => some ⟨none, gapS, [], none⟩
  | some largest =>
    some
      { largest := some
          { bytes := largest.bytes
            records := largest.records
            spanMs := roundTo 3 ((largest.stop - largest.start) * 1000)
            direction := largest.direction }
        thresholdS := gapS
        sensitivity := [gapS / 2, gapS, gapS * 2, gapS * 5].map fun g =>
          (g, largestBytes (burstsAt records g))
        limitation := some ("Burst grouping uses a disclosed gap threshold; a different " ++
          "threshold gives a different largest burst. Burst size is not a " ++
          "congestion-window measurement.") }

/-! ## All of it -/

structure TcpAccounting where
  /-- `unique_payload_bytes`, by the side that sent them. -/
  uniquePayloadBytes : Side → ℤ
  window : WindowHistory
  outstanding : List OutstandingPoint
  bursts : BurstReport

/-- `tcp_accounting`; `none` when a capture time is missing, which the bursts need. -/
def tcpAccounting (packets : List FlowPacket) : Option TcpAccounting := do
  let bursts ← largestBurst packets
  some
    { uniquePayloadBytes := fun side => uniquePayload (seqRanges packets side.fromClient)
      window := scaledWindow packets
      outstanding := outstandingBytes packets
      bursts := bursts }

end PacketTrain.Analysis
