import PacketTrain.Analysis.Packet

/-!
# The sequence graph

`index.html`, the relative sequence numbers that the browser draws the packets of a flow response
at. The in-flight area of the same graph is drawn at the numbers of `outstanding_bytes`.

JavaScript's numbers hold these integers exactly, and its `%` has the sign of the dividend. `null`
is `none`.
-/

namespace PacketTrain.Analysis

/-- `SEQ_HALF`. -/
def seqHalf : ℤ := 2 ^ 31

/-- `seqBase.get(dir)`: the sequence number of the direction's first packet. -/
def seqBase (packets : List FlowPacket) (dir : Direction) : Option ℤ :=
  (packets.find? fun p => p.direction = dir).map (·.seq)

/-- `seqDelta`. -/
def seqDelta (value base : Option ℤ) : Option ℤ :=
  match value, base with
  | some value, some base =>
    let d := (value - base).tmod seqSpace
    let d := if seqHalf ≤ d then d - seqSpace else d
    let d := if d < -seqHalf then d + seqSpace else d
    some d
  | _, _ => none

/-- `ackOf`: where an acknowledgement of the data of a direction is drawn. -/
def ackOf (packets : List FlowPacket) (p : FlowPacket) (dataDir : Direction) : Option ℤ :=
  if p.ackFlag then seqDelta (some p.ack) (seqBase packets dataDir) else none

end PacketTrain.Analysis
