import PacketTrain.Analysis.Detail
import PacketTrain.Analysis.Position

/-!
# The handshake

`packettrain/accounting.py`, what `stream_detail` says of the handshake: the SYN, the SYN-ACK and the ACK
that it takes for one, the intervals between them, the capture position and the round-trip time.
-/

namespace PacketTrain.Analysis

/-- `syn`: the first SYN of the client. -/
def synOf (group : List FlowPacket) : Option FlowPacket :=
  group.find? fun p => p.syn ∧ p.ackFlag = false ∧ p.direction = .out

/-- `synack`: the first SYN-ACK of the server, later than the SYN when there is one. -/
def synackOf (group : List FlowPacket) (syn : Option FlowPacket) : Option FlowPacket :=
  group.find? fun p =>
    p.syn ∧ p.ackFlag ∧ p.direction = .in_ ∧ syn.all fun syn => syn.timeMs < p.timeMs

/-- `third`: the first ACK of the client that is later than the SYN-ACK. -/
def thirdOf (group : List FlowPacket) (synack : Option FlowPacket) : Option FlowPacket :=
  group.find? fun p =>
    p.ackFlag ∧ p.syn = false ∧ p.direction = .out ∧ synack.any fun synack => synack.timeMs < p.timeMs

/-- `leg1` and `leg2`. -/
def handshakeLegs (group : List FlowPacket) : Legs :=
  let syn := synOf group
  let synack := synackOf group syn
  let third := thirdOf group synack
  { leg1 := do
      let syn ← syn
      let synack ← synack
      some (synack.timeMs - syn.timeMs)
    leg2 := do
      let third ← third
      let synack ← synack
      some (third.timeMs - synack.timeMs) }

/-- `rtts`: the ACK round-trip times above zero and below a minute, sorted. -/
def ackRtts (group : List FlowPacket) : List ℚ :=
  sortOn id ((group.map (·.ackRttMs)).filter fun sample => 0 < sample ∧ sample < 60000)

inductive RttSource
  | handshake
  | ackMedian
  | unknown
deriving DecidableEq, Repr

def RttSource.text : RttSource → String
  | .handshake => "three-way handshake estimate"
  | .ackMedian => "TShark ACK RTT median"
  | .unknown => "unknown"

/-- `rtt` and `source`. -/
def rttOf (side : Option Side) (legs : Legs) (rtts : List ℚ) : Option ℚ × RttSource :=
  match side with
  | some .client => (legs.leg1, .handshake)
  | some .server => (legs.leg2, .handshake)
  | none =>
    match rtts[rtts.length / 2]? with
    | some rtt => (some rtt, .ackMedian)
    | none => (none, .unknown)

/-- The fields of the response that come of the handshake. -/
structure HandshakeDetail where
  rttMs : Option ℚ
  rttSource : RttSource
  captureSide : Option Side
  position : Position
  handshakeLegsMs : Option (ℚ × ℚ)
deriving DecidableEq, Repr

/-- `stream_detail` on the packets of a stream, with the client. -/
def handshakeOf (group : List FlowPacket) (client : String × ℕ) : HandshakeDetail :=
  let legs := handshakeLegs group
  let position := positionEvidence group client legs
  let rtt := rttOf position.side legs (ackRtts group)
  { rttMs := rtt.1.map (roundTo 2)
    rttSource := rtt.2
    captureSide := position.side
    position := position
    handshakeLegsMs := legs.both.map fun legs => (roundTo 3 legs.1, roundTo 3 legs.2) }

/-- `stream_detail`, the part about the handshake; `none` is the 404. -/
def streamHandshake (packets : List Packet) (stream : ℕ) : Option HandshakeDetail :=
  match streamPackets packets stream with
  | [] => none
  | first :: rest =>
    let summary := summaryOf first rest
    let group := (accountingInput packets stream).map FlowPacket.dropTs
    some (handshakeOf group (summary.client, summary.clientPort))

end PacketTrain.Analysis
