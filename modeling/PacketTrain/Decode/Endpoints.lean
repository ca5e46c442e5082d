import PacketTrain.Analysis.Follow
import PacketTrain.Analysis.Handshake
import PacketTrain.Analysis.Idle
import PacketTrain.Analysis.Streams
import PacketTrain.Decode.Rows
import PacketTrain.Indexer.Frames

/-!
# The endpoints of a capture

`app.py`, `streams`, `flow`, `conversation_payload` and `bootstrap`, from the run of TShark on. Three of
them run TShark each for what they answer; `bootstrap` answers all of it from one run. A capture with a
ready index is decoded flow by flow: the run is one on an extracted file, and its packets get the frame
numbers of the capture and the number of the flow. Where the index is not ready `bootstrap` waits for it
and the others decode the whole capture.

The playback of a bootstrap answer is at the speed that the page would ask for: a power of ten on the steps
of the slider, of which only its bounds matter here, so it is a parameter (`quantize`).

Left out: the arguments of a request, which are checked before; how the index comes to be in its state,
which is `Lifecycle`.
-/

namespace PacketTrain.Decode

open Lines Analysis

/-- The packet that the analyses read. -/
def DecodedPacket.packet (p : DecodedPacket) : Packet where
  frame := p.frame.toNat
  ts := p.ts
  stream := p.stream.toNat
  src := String.ofList p.src
  dst := String.ofList p.dst
  sport := p.sport.toNat
  dport := p.dport.toNat
  seq := p.seq
  ack := p.ack
  length := p.length.toNat
  sliced := p.sliced
  syn := p.syn
  ackFlag := p.ackFlag
  fin := p.fin
  rst := p.rst
  retrans := p.retrans
  dupAck := p.dupAck
  sack := p.sack
  window := p.window.toNat
  windowPresent := p.windowPresent
  ackRttMs := p.ackRttMs
  tlsRecord := String.ofList p.tlsRecord
  wscale := p.wscale
  ttl := p.ttl.toNat
  tsval := p.tsval

/-- The loop over the packets of an extracted file. -/
def renumber (frames : List ℕ) (selected : ℕ) (packets : List DecodedPacket) :
    Except Abort (List DecodedPacket) :=
  packets.mapM fun p =>
    match Indexer.originalFrame frames p.frame.toNat with
    | none => .error ⟨422, "Indexed frame mapping is inconsistent".toList⟩
    | some frame => .ok { p with frame := frame, stream := selected }

/-! ## The index -/

/-- An exception that the index raises: a `KeyError`, or another, with its text. -/
inductive IndexError
  | missing
  | other (text : Text)
deriving DecidableEq, Repr

/-- What the endpoints make of it, after their own words for the failure. -/
def IndexError.abort (failed : String) : IndexError → Abort
  | .missing => ⟨404, "TCP stream not found".toList⟩
  | .other text => ⟨422, failed.toList ++ text⟩

/-- What a ready index says of the selected flow, and of all of them. -/
structure Indexed where
  /-- `flow_packet_count`. -/
  count : Except IndexError ℕ
  /-- `original_frames`. -/
  frames : Except IndexError (List ℕ)
  /-- `extracted_flow`, up to its body. -/
  extracted : Except IndexError Unit
  /-- `stream_summaries`, which looks up no key. -/
  streams : Except Text (List Summary)

/-- What `request_index` answers of a capture that can have an index. -/
inductive IndexReply
  | ready
  | indexing
  | error (text : Option Text)
deriving DecidableEq, Repr

/-- What the endpoints find: a capture that has no index; or what `request_index` answers, and the index
if `is_ready`. -/
inductive IndexState
  | unsupported
  | supported (reply : IndexReply) (ready : Option Indexed)

/-- `supported(path) and is_ready(path)`. -/
def IndexState.files : IndexState → Option Indexed
  | .unsupported => none
  | .supported _ ready => ready

def IndexState.isSupported : IndexState → Bool
  | .unsupported => false
  | .supported .. => true

/-- The packets of a run, under the names that the capture has for them. -/
def located (frames : Option (List ℕ)) (selected : ℕ) (packets : List DecodedPacket) :
    Except Abort (List DecodedPacket) :=
  match frames with
  | none => .ok packets
  | some frames => renumber frames selected packets

section

-- `MAX_PACKETS`
variable (maxPackets : ℕ)

/-- The selected flow of an index has few enough packets. -/
def checkCount (failed : String) (index : Indexed) : Except Abort Unit := do
  let count ← index.count.mapError (IndexError.abort failed)
  if maxPackets < count then .error ⟨413, "Selected flow exceeds MAX_PACKETS".toList⟩
  else .ok ()

/-- What `flow` and `bootstrap` do with an index before they run TShark: the frames of the selected flow.
-/
def openFlow (index : IndexState) : Except Abort (Option (List ℕ)) :=
  match index.files with
  | none => .ok none
  | some files => do
    let failed := "Indexed flow analysis failed: "
    checkCount maxPackets failed files
    let frames ← files.frames.mapError (IndexError.abort failed)
    files.extracted.mapError (IndexError.abort failed)
    .ok (some frames)

/-- What `conversation_payload` does. -/
def openConversation (index : IndexState) : Except Abort Unit :=
  match index.files with
  | none => .ok ()
  | some files => do
    let failed := "Indexed flow extraction failed: "
    checkCount maxPackets failed files
    files.extracted.mapError (IndexError.abort failed)

/-! ## The answers -/

/-- `streams`. -/
def streamsAnswer (run : TsharkRun) : Except Abort (List Summary) := do
  let packets ← readCapture maxPackets run
  .ok (summarize (packets.map DecodedPacket.packet))

/-- What the page lists: the flows of a ready index, as `capture_index` answers them, or `streams`. -/
def streamList (index : IndexState) (run : TsharkRun) : Except Abort (List Summary) :=
  match index.files with
  | some files =>
    files.streams.mapError fun text => ⟨422, "Could not read flow index: ".toList ++ text⟩
  | none => streamsAnswer maxPackets run

/-- The parts of `stream_detail` that are modelled, and the playback. -/
structure FlowAnswer where
  detail : StreamDetail
  handshake : HandshakeDetail
  playback : Option Timeline
deriving DecidableEq, Repr

/-- `stream_detail`. -/
def detailOf (packets : List Packet) (selected : ℕ) :
    Except Abort (StreamDetail × HandshakeDetail) :=
  match streamDetail packets selected, streamHandshake packets selected with
  | some detail, some handshake => .ok (detail, handshake)
  | _, _ => .error ⟨404, "Stream not found".toList⟩

/-- `flow`. -/
def flowAnswer (index : IndexState) (run : TsharkRun) (selected : ℕ) (mode : Option Mode)
    (speed : ℚ) : Except Abort FlowAnswer := do
  let frames ← openFlow maxPackets index
  let packets ← readCapture maxPackets run
  let packets ← located frames selected packets
  let (detail, handshake) ← detailOf (packets.map DecodedPacket.packet) selected
  if speedMin ≤ speed ∧ speed ≤ speedMax then
    .ok ⟨detail, handshake, mode.map fun mode => timeline detail.packets mode speed⟩
  else .error ⟨400, "Speed out of range".toList⟩

/-- `decode_conversation`, the run. -/
def runFollow : TsharkRun → Except Abort Text
  | .timedOut => .error ⟨504, "TShark timed out reassembling the conversation".toList⟩
  | .missing => .error ⟨500, "TShark is unavailable".toList⟩
  | .exited returncode stdout stderr =>
    if returncode ≠ 0 then
      .error ⟨422, "TShark could not follow this TCP stream: ".toList ++ lastChars 500 stderr⟩
    else .ok stdout

/-- `conversation_payload`. -/
def conversationAnswer (index : IndexState) (run : TsharkRun) (selected : ℕ) (limit offset : ℤ) :
    Except Abort Conversation := do
  openConversation maxPackets index
  let report ← runFollow run
  .ok (conversationFromFollowOutput report selected (clampLimit limit) (clampOffset offset))

/-- `auto_speed`. -/
def autoSpeed (rttMs : Option ℚ) : ℚ :=
  match rttMs with
  | some rtt => if 0 < rtt then min speedMax (max speedMin (500 / rtt)) else 1
  | none => 1

/-- `summaries` of `bootstrap`. -/
def summariesOf (index : IndexState) (includeStreams : Bool) (selected : ℕ) (packets : List Packet) :
    Except Abort (List Summary) :=
  match index.files with
  | none => .ok (summarize packets)
  | some files => do
    let streams ← files.streams.mapError fun text =>
      IndexError.abort "Indexed flow analysis failed: " (.other text)
    .ok (if includeStreams then streams else streams.filter (·.id = selected))

structure BootstrapAnswer where
  streams : List Summary
  flow : FlowAnswer
  payload : Conversation
  tsharkPasses : ℕ
  indexed : Bool
deriving DecidableEq, Repr

inductive BootstrapReply
  /-- The state that `request_index` answered, with status 202. -/
  | indexing
  | answered (answer : BootstrapAnswer)
deriving DecidableEq, Repr

/-- `bootstrap`, once the index is not in the way. -/
def bootstrapAnswer (quantize : ℚ → ℚ) (includeStreams : Bool) (index : IndexState) (run : TsharkRun)
    (selected : ℕ) : Except Abort BootstrapAnswer := do
  let frames ← openFlow maxPackets index
  let (packets, follow) ← readCaptureWithFollow maxPackets run
  let packets ← located frames selected packets
  let summaries ← summariesOf index includeStreams selected (packets.map DecodedPacket.packet)
  if selected ∉ summaries.map (·.id) then .error ⟨404, "TCP stream not found".toList⟩
  else do
    let (detail, handshake) ← detailOf (packets.map DecodedPacket.packet) selected
    let speed := quantize (autoSpeed handshake.rttMs)
    .ok {
      streams := if !index.isSupported || includeStreams then summaries else []
      flow := ⟨detail, handshake, some (timeline detail.packets .smart speed)⟩
      payload := conversationFromFollowOutput follow selected conversationPreviewBytes 0
      tsharkPasses := 1
      indexed := index.files.isSome }

/-- `bootstrap`. -/
def bootstrap (quantize : ℚ → ℚ) (includeStreams : Bool) (index : IndexState) (run : TsharkRun)
    (selected : ℕ) : Except Abort BootstrapReply :=
  match index with
  | .supported .indexing _ => .ok .indexing
  | .supported (.error text) _ =>
    .error ⟨422, "Flow indexing failed: ".toList ++ text.getD "unknown error".toList⟩
  | .unsupported | .supported .ready _ =>
    (bootstrapAnswer maxPackets quantize includeStreams index run selected).map .answered

end

end PacketTrain.Decode
