import PacketTrain.Analysis.Retransmit
import PacketTrain.Analysis.Rtt
import PacketTrain.Analysis.Window

/-!
# The flow response

`packettrain/accounting.py`, `summarize` and `stream_detail`: the packets of one stream, oriented and
put on the stream's own clock, and the analyses of them.

`stream_detail` makes two lists of the same packets. `accountingInput` keeps the capture time; the
packets of the response have `time_ms` in its place. `retransmission_analysis`, `rtt_distribution` and
`receiver_window_analysis` are run on the second.
-/

namespace PacketTrain.Analysis

/-- An entry of `summarize`, for the packets of one stream. -/
structure Summary where
  id : ℕ
  client : String
  server : String
  clientPort : ℕ
  serverPort : ℕ
  packets : ℕ
  bytes : ℕ
  durationMs : ℚ
deriving DecidableEq, Repr

/-- The packet that orients a stream: the first SYN without ACK, or else the first packet. -/
def orienting (first : Packet) (rest : List Packet) : Packet :=
  ((first :: rest).find? fun p => p.syn ∧ !p.ackFlag).getD first

/-- `summarize` on the packets of one stream. -/
def summaryOf (first : Packet) (rest : List Packet) : Summary :=
  let group := first :: rest
  let client := orienting first rest
  { id := first.stream
    client := client.src
    server := client.dst
    clientPort := client.sport
    serverPort := client.dport
    packets := group.length
    bytes := (group.map (·.length)).sum
    durationMs := roundTo 2 (((group.getLastD first).ts - first.ts) * 1000) }

/-- A packet on the stream's clock, with its direction; the capture time is kept. -/
def flowPacket (summary : Summary) (firstTs : ℚ) (p : Packet) : FlowPacket where
  toFields := p.toFields
  ts := some p.ts
  timeMs := roundTo 3 ((p.ts - firstTs) * 1000)
  direction := if (p.src, p.sport) = (summary.client, summary.clientPort) then .out else .in_

/-- The packets of a stream, in the order of the capture. -/
def streamPackets (packets : List Packet) (stream : ℕ) : List Packet :=
  packets.filter (·.stream = stream)

/-- `accounting_input`: the packets of a stream with direction, `time_ms` and capture time. -/
def accountingInput (packets : List Packet) (stream : ℕ) : List FlowPacket :=
  match streamPackets packets stream with
  | [] => []
  | first :: rest => (first :: rest).map (flowPacket (summaryOf first rest) first.ts)

structure StreamDetail where
  summary : Summary
  packets : List FlowPacket
  rttDistribution : RttDistribution
  retransmissions : RetransmissionAnalysis
  receiverWindow : WindowAnalysis
deriving DecidableEq, Repr

/-- `stream_detail`; `none` is the 404. -/
def streamDetail (packets : List Packet) (stream : ℕ) : Option StreamDetail :=
  match streamPackets packets stream with
  | [] => none
  | first :: rest =>
    let group := (accountingInput packets stream).map FlowPacket.dropTs
    some
      { summary := summaryOf first rest
        packets := group
        rttDistribution := rttDistribution group
        retransmissions := retransmissionAnalysis group
        receiverWindow := receiverWindowAnalysis group }

end PacketTrain.Analysis
