import PacketTrain.Lib.Ordered
import PacketTrain.Lib.Rounding

/-!
# Packets

`packettrain/decode.py`, the fields of a decoded packet that the analyses read, and the two shapes a
packet has after decoding. A `Packet` is what `parse_rows` makes of one row. A `FlowPacket` is a
packet of one stream with the direction and the `time_ms` that `stream_detail` gives it. It may carry
the capture time `ts` or not: `stream_detail` keeps `ts` in the packets it accounts with and drops it
from the packets it returns, and every analysis is written for both.

Times and RTT samples are exact rationals, and the analyses compute with them exactly, where the source
computes in binary64. Integers are the integers of the source, so `%` on a sequence number is Python's.
-/

namespace PacketTrain.Analysis

/-- A direction within a stream: from the client or to it. -/
inductive Direction
  | out
  | in_
deriving DecidableEq, Repr

/-- The endpoint that sends in a direction. -/
inductive Side
  | client
  | server
deriving DecidableEq, Repr

def Direction.side : Direction → Side
  | .out => .client
  | .in_ => .server

def Side.other : Side → Side
  | .client => .server
  | .server => .client

def Side.fromClient : Side → Bool
  | .client => true
  | .server => false

def Side.text : Side → String
  | .client => "client"
  | .server => "server"

/-- `"out" if from_client else "in"`. -/
def wanted (fromClient : Bool) : Direction := if fromClient then .out else .in_

/-- The fields of a packet that do not say when it was captured. -/
structure Fields where
  frame : ℕ
  stream : ℕ
  src : String
  dst : String
  sport : ℕ
  dport : ℕ
  seq : ℤ
  ack : ℤ
  length : ℕ
  sliced : Bool
  syn : Bool
  ackFlag : Bool
  fin : Bool
  rst : Bool
  retrans : Bool
  dupAck : Bool
  sack : Bool
  window : ℕ
  windowPresent : Bool
  ackRttMs : ℚ
  tlsRecord : String
  /-- The shift of the window-scale option, `-1` when the option is absent. -/
  wscale : ℤ
  /-- The TTL or the hop limit, zero when neither is there. -/
  ttl : ℕ := 0
  /-- The value of the timestamp option. -/
  tsval : Option ℤ := none
deriving DecidableEq, Repr

/-- A decoded packet. -/
structure Packet extends Fields where
  ts : ℚ
deriving DecidableEq, Repr

/-- A packet of one stream. -/
structure FlowPacket extends Fields where
  ts : Option ℚ
  timeMs : ℚ
  direction : Direction
deriving DecidableEq, Repr

/-- `p.pop("ts")`. -/
def FlowPacket.dropTs (p : FlowPacket) : FlowPacket := { p with ts := none }

/-- The capture times that are there. -/
def captureTimes (packets : List FlowPacket) : List ℚ := packets.filterMap (·.ts)

/-- `min(origins) if origins else None`. -/
def origin (packets : List FlowPacket) : Option ℚ := (captureTimes packets).min?

/-! ## Sequence numbers -/

/-- `SEQ_SPACE`. -/
def seqSpace : ℤ := 2 ^ 32

/-- `initial_sequence`. -/
def initialSequence (packets : List FlowPacket) (fromClient : Bool) : Option ℤ :=
  match packets.find? fun p => p.syn ∧ p.direction = wanted fromClient with
  | some p => some (p.seq % seqSpace)
  | none =>
    (packets.find? fun p => p.direction = wanted fromClient ∧ 0 < p.length).map fun p =>
      p.seq % seqSpace

/-- `relative`. -/
def relative (value : ℤ) (base : Option ℤ) : ℤ :=
  match base with
  | none => value % seqSpace
  | some base => (value - base) % seqSpace

/-- `window_scale`: the shift of the first SYN that carries the option; zero when there is a SYN and
none does, unknown when there is no SYN. -/
def windowScale (packets : List FlowPacket) (fromClient : Bool) : Option ℤ :=
  let syns := packets.filter fun p => p.syn ∧ p.direction = wanted fromClient
  match syns.find? fun p => 0 ≤ p.wscale with
  | some p => some p.wscale
  | none => if syns.isEmpty then none else some 0

end PacketTrain.Analysis
