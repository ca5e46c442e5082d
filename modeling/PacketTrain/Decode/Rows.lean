import Mathlib.Data.Int.Bitwise
import PacketTrain.Analysis.Packet
import PacketTrain.Lib.Binary64
import PacketTrain.Lib.Numerals
import PacketTrain.Lib.Pattern

/-!
# Decoding

`packettrain/decode.py`, with `FIELDS` of `config.py`: the command line of TShark asks for some columns,
TShark prints a row for each packet, and `parse_rows` makes packets of the rows. `Field` is a column, and
a row is read as the source reads it, by the names of the columns. `slicing_report` looks at the lengths
of all packets, `read_capture_with_follow` cuts the follow report off the rows that stand before it.

TShark is a run that ended one way or another, with what it printed. A packet time is the double nearest
to what its digits spell, as a rational; TShark prints no time that has no finite double.
-/

namespace PacketTrain.Decode

open Binary64 Lines Strings Numerals

/-! ## Columns -/

/-- A column of `FIELDS`. -/
inductive Field
  | frameNumber | timeEpoch | ipSrc | ipv6Src | ipDst | ipv6Dst | srcport | dstport | stream | seqRaw
  | ackRaw | len | frameLen | capLen | flags | flagsSyn | flagsAck | flagsFin | flagsReset | flagsPush
  | retransmission | fastRetransmission | spuriousRetransmission | duplicateAck | sackLe | windowSize
  | ackRtt | mssVal | handshakeType | contentType | serverName | alpnStr | handshakeVersion | ttl | hlim
  | wscaleShift | sackPerm | tsval | options
deriving DecidableEq, Repr

/-- TShark's name of a column. -/
def Field.name : Field → String
  | .frameNumber => "frame.number"
  | .timeEpoch => "frame.time_epoch"
  | .ipSrc => "ip.src"
  | .ipv6Src => "ipv6.src"
  | .ipDst => "ip.dst"
  | .ipv6Dst => "ipv6.dst"
  | .srcport => "tcp.srcport"
  | .dstport => "tcp.dstport"
  | .stream => "tcp.stream"
  | .seqRaw => "tcp.seq_raw"
  | .ackRaw => "tcp.ack_raw"
  | .len => "tcp.len"
  | .frameLen => "frame.len"
  | .capLen => "frame.cap_len"
  | .flags => "tcp.flags"
  | .flagsSyn => "tcp.flags.syn"
  | .flagsAck => "tcp.flags.ack"
  | .flagsFin => "tcp.flags.fin"
  | .flagsReset => "tcp.flags.reset"
  | .flagsPush => "tcp.flags.push"
  | .retransmission => "tcp.analysis.retransmission"
  | .fastRetransmission => "tcp.analysis.fast_retransmission"
  | .spuriousRetransmission => "tcp.analysis.spurious_retransmission"
  | .duplicateAck => "tcp.analysis.duplicate_ack"
  | .sackLe => "tcp.options.sack_le"
  | .windowSize => "tcp.window_size"
  | .ackRtt => "tcp.analysis.ack_rtt"
  | .mssVal => "tcp.options.mss_val"
  | .handshakeType => "tls.handshake.type"
  | .contentType => "tls.record.content_type"
  | .serverName => "tls.handshake.extensions_server_name"
  | .alpnStr => "tls.handshake.extensions_alpn_str"
  | .handshakeVersion => "tls.handshake.version"
  | .ttl => "ip.ttl"
  | .hlim => "ipv6.hlim"
  | .wscaleShift => "tcp.options.wscale.shift"
  | .sackPerm => "tcp.options.sack_perm"
  | .tsval => "tcp.options.timestamp.tsval"
  | .options => "tcp.options"

/-- `FIELDS`. -/
def fields : List Field :=
  [.frameNumber, .timeEpoch, .ipSrc, .ipv6Src, .ipDst, .ipv6Dst, .srcport, .dstport, .stream, .seqRaw,
    .ackRaw, .len, .frameLen, .capLen, .flags, .flagsSyn, .flagsAck, .flagsFin, .flagsReset, .flagsPush,
    .retransmission, .fastRetransmission, .spuriousRetransmission, .duplicateAck, .sackLe, .windowSize,
    .ackRtt, .mssVal, .handshakeType, .contentType, .serverName, .alpnStr, .handshakeVersion, .ttl,
    .hlim, .wscaleShift, .sackPerm, .tsval, .options]

/-- A row, by its columns. -/
abbrev Row := Field → Text

/-! ## Cells -/

/-- `num(value, default)`. -/
def num (value : Text) (default : ℤ := 0) : ℤ := (readInteger value).getD default

/-- `flag_bits`. -/
def flagBits (value : Text) : Option ℤ := if value = [] then none else readLiteral value

/-- `flag_set`. -/
def flagSet (row : Row) (bitmask : Option ℤ) (field : Field) (bit : ℤ) : Bool :=
  match bitmask with
  | some bits => bits.land bit ≠ 0
  | none => String.ofList ((strip (row field)).map Char.toLower) ∈ ["1", "true", "yes", "set"]

/-- `decimal`. -/
def decimal (value : Text) : Option ℚ := (readFloat value).map toDouble

/-! ## Packets -/

/-- A packet of `parse_rows`, with everything it has. -/
structure DecodedPacket where
  frame : ℤ
  ts : ℚ
  stream : ℤ
  src : Text
  dst : Text
  sport : ℤ
  dport : ℤ
  seq : ℤ
  ack : ℤ
  length : ℤ
  frameLength : ℤ
  capLength : ℤ
  sliced : Bool
  flagsRaw : Option ℤ
  syn : Bool
  ackFlag : Bool
  fin : Bool
  rst : Bool
  psh : Bool
  retrans : Bool
  dupAck : Bool
  sack : Bool
  window : ℤ
  windowPresent : Bool
  ackRttMs : ℚ
  mss : ℤ
  tlsHandshake : Text
  tlsRecord : Text
  tlsSni : Text
  tlsAlpn : Text
  tlsVersion : Text
  ttl : ℤ
  wscale : ℤ
  sackPerm : Bool
  hasTimestamp : Bool
  tsval : Option ℤ
  optionsRaw : Text
deriving DecidableEq, Repr

/-- `a or b`, of two texts. -/
def orText (a b : Text) : Text := if a = [] then b else a

/-- The packet of a row that has a time. -/
def decodedPacket (p : Row) (ts : ℚ) : DecodedPacket :=
  let bits := flagBits (p .flags)
  { frame := num (p .frameNumber)
    ts := ts
    stream := num (p .stream)
    src := orText (p .ipSrc) (p .ipv6Src)
    dst := orText (p .ipDst) (p .ipv6Dst)
    sport := num (p .srcport)
    dport := num (p .dstport)
    seq := num (p .seqRaw)
    ack := num (p .ackRaw)
    length := num (p .len)
    frameLength := num (p .frameLen)
    capLength := num (p .capLen)
    sliced := 0 < num (p .capLen) && num (p .capLen) < num (p .frameLen)
    flagsRaw := bits
    syn := flagSet p bits .flagsSyn 0x02
    ackFlag := flagSet p bits .flagsAck 0x10
    fin := flagSet p bits .flagsFin 0x01
    rst := flagSet p bits .flagsReset 0x04
    psh := flagSet p bits .flagsPush 0x08
    retrans := [Field.retransmission, .fastRetransmission, .spuriousRetransmission].any fun field =>
      p field ≠ []
    dupAck := p .duplicateAck ≠ []
    sack := p .sackLe ≠ []
    window := num (p .windowSize)
    -- zero and absent are different: a sliced row must not be read as a closed window
    windowPresent := p .windowSize ≠ []
    ackRttMs := toDouble ((decimal (p .ackRtt)).getD 0 * 1000)
    mss := num (p .mssVal)
    tlsHandshake := p .handshakeType
    tlsRecord := p .contentType
    tlsSni := p .serverName
    tlsAlpn := p .alpnStr
    tlsVersion := p .handshakeVersion
    ttl := if num (p .ttl) ≠ 0 then num (p .ttl) else num (p .hlim)
    wscale := num (p .wscaleShift) (-1)
    sackPerm := p .sackPerm ≠ []
    hasTimestamp := p .tsval ≠ []
    tsval := readInteger (p .tsval)
    optionsRaw := p .options }

/-- The loop body of `parse_rows`: a row without a time or a stream is left out. -/
def parseRow (p : Row) : Option DecodedPacket :=
  match decimal (p .timeEpoch) with
  | none => none
  | some ts => if p .stream = [] then none else some (decodedPacket p ts)

/-- `dict(zip(FIELDS, columns))`, of a line with its line end stripped. -/
def readRow (line : Text) : Row := fun field =>
  let columns := (line.rdropWhile fun c => c = '\r' || c = '\n').splitOn '\t'
  ((fields.zip (columns ++ List.replicate (fields.length - columns.length) [])).lookup field).getD []

/-- `parse_rows`. -/
def parseRows (lines : List Text) : List DecodedPacket := lines.filterMap fun line => parseRow (readRow line)

/-! ## Slicing -/

def heavyAdvice : String :=
  "This capture is heavily sliced: most frames are stored shorter than they were on the wire, so payload " ++
    "records and TLS fields may be unreadable. Recapture with a full snaplen (-s 0)."

def someAdvice : String :=
  "Some frames are stored shorter than they were on the wire. Any field missing from a sliced frame was " ++
    "never captured; recapture with -s 0 to recover it."

structure SlicingReport where
  sliced : Bool
  total : ℕ
  slicedFrames : ℕ
  lostBytes : ℤ
  slicedFraction : ℚ
  advice : Option String
deriving DecidableEq, Repr

/-- `slicing_report`. -/
def slicingReport (packets : List DecodedPacket) : SlicingReport :=
  if packets = [] then ⟨false, 0, 0, 0, 0, none⟩
  else
    let sliced := packets.filter (·.sliced)
    let fraction : ℚ := sliced.length / packets.length
    { sliced := sliced ≠ []
      total := packets.length
      slicedFrames := sliced.length
      lostBytes := (sliced.map fun p => p.frameLength - p.capLength).sum
      slicedFraction := roundTo 4 fraction
      advice :=
        if sliced = [] then none
        else if 1 / 2 ≤ fraction then some heavyAdvice
        else some someAdvice }

/-- The counters of the loop of `slicing`. -/
structure SlicingCount where
  total : ℕ
  sliced : ℕ
  lost : ℤ
deriving DecidableEq, Repr

/-- The loop body of `slicing`, of a line of the two lengths. -/
def countLine (count : SlicingCount) (line : Text) : SlicingCount :=
  match (line.rdropWhile fun c => c = '\r' || c = '\n').splitOn '\t' with
  | claimed :: stored :: _ =>
    let counted := { count with total := count.total + 1 }
    if 0 < num stored ∧ num stored < num claimed then
      { counted with sliced := count.sliced + 1, lost := count.lost + (num claimed - num stored) }
    else counted
  | _ => count

/-- `slicing` of `app.py`, on what TShark printed. -/
def slicingOf (stdout : Text) : SlicingReport :=
  let count := (splitlines stdout).foldl countLine ⟨0, 0, 0⟩
  let fraction : ℚ := if count.total = 0 then 0 else count.sliced / count.total
  { sliced := count.sliced ≠ 0
    total := count.total
    slicedFrames := count.sliced
    lostBytes := count.lost
    slicedFraction := roundTo 4 fraction
    advice :=
      if count.sliced ≠ 0 ∧ 1 / 2 ≤ fraction then some heavyAdvice
      else if count.sliced ≠ 0 then some someAdvice
      else none }

/-! ## Runs of TShark -/

/-- `abort(code, description)`. -/
structure Abort where
  code : ℕ
  description : Text
deriving DecidableEq, Repr

/-- How a run of TShark ended. -/
inductive TsharkRun
  | timedOut
  | missing
  | exited (returncode : ℤ) (stdout stderr : Text)
deriving DecidableEq, Repr

/-- `text[-n:]`. -/
def lastChars (n : ℕ) (text : Text) : Text := text.drop (text.length - n)

/-- `_run_tshark`. -/
def runTshark : TsharkRun → Except Abort Text
  | .timedOut => .error ⟨504, "TShark timed out".toList⟩
  | .missing => .error ⟨500, "TShark is unavailable".toList⟩
  | .exited returncode stdout stderr =>
    if returncode ≠ 0 then
      .error ⟨422, "TShark could not read this capture: ".toList ++ lastChars 500 stderr⟩
    else .ok stdout

section

-- `MAX_PACKETS`
variable (maxPackets : ℕ)

/-- `_parse_field_text`. -/
def parseFieldText (text : Text) : Except Abort (List DecodedPacket) :=
  let lines := splitlines text
  if maxPackets < lines.length then
    .error ⟨413, "Capture exceeds MAX_PACKETS; split or filter it first".toList⟩
  else .ok (parseRows lines)

/-- `read_capture`. -/
def readCapture (run : TsharkRun) : Except Abort (List DecodedPacket) := do
  let stdout ← runTshark run
  parseFieldText maxPackets stdout

/-- `={20,}\r?\nFollow: tcp,raw\r?$`. -/
def followMarker : Pattern Unit := do
  let _ ← Pattern.many (· = '=') 20
  let _ ← Pattern.opt (Pattern.literal ['\r'])
  Pattern.literal "\nFollow: tcp,raw".toList
  let _ ← Pattern.opt (Pattern.literal ['\r'])
  Pattern.lineEnding

/-- `read_capture_with_follow`. -/
def readCaptureWithFollow (run : TsharkRun) : Except Abort (List DecodedPacket × Text) := do
  let output ← runTshark run
  match followMarker.searchLines output with
  | none => .error ⟨422, "TShark did not return the requested TCP follow report".toList⟩
  | some (rows, report) => do
    let packets ← parseFieldText maxPackets rows
    .ok (packets, report)

end

end PacketTrain.Decode
