import PacketTrain.Analysis.Packet
import PacketTrain.Lib.Ranges

/-!
# Outstanding bytes

`packettrain/accounting_tcp.py`, `unique_payload` and `outstanding_bytes`. For each direction, the
acknowledgements of the other are taken in time order; at each one, the payload sent so far and not
acknowledged by it is counted, every byte once.
-/

namespace PacketTrain.Analysis

/-- `unique_payload`. -/
def uniquePayload (ranges : List Ranges.Range) : ℤ := if ranges = [] then 0 else Ranges.total ranges

/-- `_timestamp`: seconds for ordering, from the capture time or else from `time_ms`. -/
def timestamp (p : FlowPacket) : ℚ := p.ts.getD (p.timeMs / 1000)

/-- A point of the series. -/
structure OutstandingPoint where
  timeMs : ℚ
  direction : Direction
  outstanding : ℤ
  cumulativeAck : ℤ
  sentRecordsCounted : ℕ
deriving DecidableEq, Repr

/-- The relative range of a payload packet, its end unwrapped. -/
def sentRange (base : Option ℤ) (p : FlowPacket) : Ranges.Range :=
  (relative p.seq base, relative p.seq base + p.length)

/-- What a cumulative acknowledgement leaves open. -/
def openRanges (acked : ℤ) (sent : List Ranges.Range) : List Ranges.Range :=
  (sent.filter fun r => acked < r.2).map fun r => (max r.1 acked, r.2)

/-- The point of one acknowledgement, with what was sent by then. -/
def outstandingPoint (fromClient : Bool) (base : Option ℤ) (sent : List Ranges.Range)
    (ack : FlowPacket) : OutstandingPoint where
  timeMs := ack.timeMs
  direction := wanted fromClient
  outstanding := uniquePayload (openRanges (relative ack.ack base) sent)
  cumulativeAck := relative ack.ack base
  sentRecordsCounted := sent.length

/-- The loop over the acknowledgements: `pending` is the payload past the cursor. -/
def outstandingLoop (fromClient : Bool) (base : Option ℤ) :
    List FlowPacket → List FlowPacket → List Ranges.Range → List OutstandingPoint
  | [], _, _ => []
  | ack :: acks, pending, sent =>
    let sent := sent ++
      (pending.takeWhile fun p => timestamp p ≤ timestamp ack).map (sentRange base)
    outstandingPoint fromClient base sent ack ::
      outstandingLoop fromClient base acks
        (pending.dropWhile fun p => timestamp p ≤ timestamp ack) sent

/-- The payload of a direction. -/
def sentPackets (packets : List FlowPacket) (fromClient : Bool) : List FlowPacket :=
  packets.filter fun p => p.direction = wanted fromClient ∧ 0 < p.length

/-- The acknowledgements of a direction: the other direction's packets with a non-zero ack number. -/
def ackPackets (packets : List FlowPacket) (fromClient : Bool) : List FlowPacket :=
  packets.filter fun p => p.direction = wanted (!fromClient) ∧ p.ack ≠ 0

/-- The points of one direction. -/
def outstandingOf (packets : List FlowPacket) (fromClient : Bool) : List OutstandingPoint :=
  if (sentPackets packets fromClient).isEmpty then []
  else
    outstandingLoop fromClient (initialSequence packets fromClient)
      (sortOn timestamp (ackPackets packets fromClient))
      (sortOn timestamp (sentPackets packets fromClient)) []

/-- `outstanding_bytes`. -/
def outstandingBytes (packets : List FlowPacket) : List OutstandingPoint :=
  sortOn OutstandingPoint.timeMs (outstandingOf packets true ++ outstandingOf packets false)

end PacketTrain.Analysis
