import Mathlib.Data.List.Dedup
import PacketTrain.Analysis.Detail
import PacketTrain.Indexer.Index

/-!
# The stream list

The list of streams has two sources. `packettrain/accounting.py`, `summarize`, groups decoded packets;
`packettrain/indexing.py`, `stream_summaries`, reads the flow manifest and decodes nothing.

The address columns of the manifest hold the text of an address. The text is a parameter here; that of the
indexer is `endpointText`. The column types are SQLite's: a count is an `Int` there and is read as the
number it is.

Left out: the traffic pattern of `summarize`, which `classify_stream` finds in the packets.
-/

namespace PacketTrain.Analysis

open Indexer (Endpoint FlowRow Manifest)

/-- `summarize`: one entry a stream, in the order of the stream numbers. -/
def summarize (packets : List Packet) : List Summary :=
  (sortOn id (packets.map fun p => p.stream).dedup).filterMap fun stream =>
    match streamPackets packets stream with
    | [] => none
    | first :: rest => some (summaryOf first rest)

/-- An entry of `stream_summaries`. -/
structure StreamSummary extends Summary where
  pattern : String
deriving DecidableEq, Repr

/-- The traffic pattern that the manifest's counters allow. -/
def manifestPattern (total clientBytes serverBytes : ℤ) (durationMs : ℚ) : String :=
  let dominant := max clientBytes serverBytes
  let share : ℚ := if total = 0 then 0 else dominant / total
  if total = 0 then "Control-only / idle"
  else if 256000 ≤ total ∧ 85 / 100 ≤ share then
    if serverBytes < clientBytes then "Bulk upload pattern" else "Bulk download pattern"
  else if clientBytes ≠ 0 ∧ serverBytes ≠ 0 then "Request/response pattern"
  else if 10000 ≤ durationMs ∧ 128000 ≤ total then "Sustained one-way transfer"
  else "Insufficient pattern"

/-- The endpoint the manifest calls the client. -/
def clientOf (row : FlowRow) : Endpoint := if row.clientIsLeft then row.key.left else row.key.right

def serverOf (row : FlowRow) : Endpoint := if row.clientIsLeft then row.key.right else row.key.left

section

variable (text : ℕ → Bytes → String)

/-- One row of the manifest as an entry. -/
def streamSummary (row : FlowRow) : StreamSummary :=
  let clientBytes := if row.clientIsLeft then row.leftPayloadBytes else row.rightPayloadBytes
  let serverBytes := if row.clientIsLeft then row.rightPayloadBytes else row.leftPayloadBytes
  let duration : ℚ := max 0 (row.lastTsNs - row.firstTsNs) / 1000000
  { id := row.id
    client := text row.key.family (clientOf row).addr
    server := text row.key.family (serverOf row).addr
    clientPort := (clientOf row).port
    serverPort := (serverOf row).port
    packets := row.packets.toNat
    bytes := row.payloadBytes.toNat
    durationMs := roundTo 2 duration
    pattern := manifestPattern row.payloadBytes clientBytes serverBytes duration }

/-- `stream_summaries`, of all flows or of one. -/
def streamSummaries (manifest : Manifest) (flowId : Option ℕ) : List StreamSummary :=
  let rows :=
    match flowId with
    | some flowId => manifest.flows.filter fun row => row.id = flowId
    | none => manifest.flows
  (sortOn FlowRow.id rows).map (streamSummary text)

end

end PacketTrain.Analysis
