import Mathlib.Data.Prod.Lex
import Mathlib.Data.String.Basic
import PacketTrain.Analysis.Fingerprint
import PacketTrain.Decode.Rows
import PacketTrain.Lib.Dict
import PacketTrain.Lib.Ordered

/-!
# Stack signatures

`packettrain/fingerprint.py`: the signatures, how a SYN is compared with them, what a stream says of its
two stacks, and which families recur over the streams of a capture (`match` of `app.py`). `parse_options`
is `Analysis.parseOptions`; where it raises, so does everything that reads the option bytes.

Left out: the other analyses of `stream_detail`, which `match` runs and throws away.
-/

namespace PacketTrain.Decode

open Lines Strings Analysis

/-! ## Signatures -/

/-- An entry of `SIGNATURES`. -/
structure Signature where
  family : String
  optionOrder : String
  window : ℤ
  mss : ℤ
  wscale : Option ℤ
  note : String
deriving DecidableEq, Repr

/-- `SIGNATURES["version"]`. -/
def signatureVersion : String := "2026-09-26.1"

/-- `SIGNATURES["entries"]`. -/
def signatures : List Signature :=
  [ { family := "Linux 4.x/5.x/6.x"
      optionOrder := "mss,sack,ts,nop,ws"
      window := 64240
      mss := 1460
      wscale := some 7
      note := "Common Linux default with timestamps and window scaling." },
    { family := "Linux (timestamps disabled)"
      optionOrder := "mss,sack,nop,ws"
      window := 64240
      mss := 1460
      wscale := some 7
      note := "Linux default with tcp_timestamps off." },
    { family := "Windows 10/11"
      optionOrder := "mss,nop,ws,nop,nop,sack"
      window := 65535
      mss := 1460
      wscale := some 8
      note := "Windows commonly omits timestamps on SYN." },
    { family := "macOS / iOS"
      optionOrder := "mss,nop,ws,nop,nop,ts,sack"
      window := 65535
      mss := 1460
      wscale := some 6
      note := "Apple stacks place timestamps after window scale." },
    { family := "BSD"
      optionOrder := "mss,nop,ws,sack,ts"
      window := 65535
      mss := 1460
      wscale := some 6
      note := "FreeBSD places SACK before timestamps." },
    { family := "Network appliance / middlebox"
      optionOrder := "mss,sack,ts"
      window := 8192
      mss := 8960
      wscale := none
      note := "Unusually large MSS with no window scale suggests a middlebox." } ]

/-- `expected`. -/
def Signature.expected (entry : Signature) : List Text :=
  (entry.optionOrder.toList.splitOn ',').map strip

/-- `_offered_option_summary`. -/
def offeredOptionSummary (optionNames : List Text) : List Text :=
  optionNames.filter fun name => name ≠ "eol".toList

/-! ## Matches -/

/-- An entry of `_match_signature`. -/
structure SignatureMatch where
  family : String
  agreement : ℕ
  differingFields : List String
  note : String
deriving DecidableEq, Repr

/-- `None if wscale is None or wscale < 0 else wscale`. -/
def presentScale (wscale : Option ℤ) : Option ℤ := wscale.filter (0 ≤ ·)

section

variable (optionNames : List Text) (window mss : ℤ) (wscale : Option ℤ)

/-- The fields that an entry wants something of, and whether they are what it wants. -/
def comparisons (entry : Signature) : List (String × Bool) :=
  [ ("options", decide (offeredOptionSummary optionNames = entry.expected)),
    ("window", decide (window = entry.window)),
    ("mss", decide (mss = entry.mss)) ] ++
  match entry.wscale with
  | none => []
  | some shift => [("wscale", decide (presentScale wscale = some shift))]

/-- The loop body of `_match_signature`. -/
def compareEntry (entry : Signature) : Option SignatureMatch :=
  let fields := comparisons optionNames window mss wscale entry
  let agrees := fields.countP (·.2)
  if agrees = 0 then none
  else
    some
      { family := entry.family
        agreement := agrees
        differingFields := (fields.filter fun field => !field.2).map Prod.fst
        note := entry.note }

/-- The order of the matches: `(-m["agreement"], len(m["differing_fields"]))`. -/
def matchOrder (m : SignatureMatch) : ℤ ×ₗ ℕ := toLex (-m.agreement, m.differingFields.length)

/-- `_match_signature`. -/
def matchSignature : List SignatureMatch :=
  sortOn matchOrder (signatures.filterMap (compareEntry optionNames window mss wscale))

end

/-! ## Endpoints -/

/-- What the response says of an endpoint whose SYN was captured. -/
structure StackEvidence where
  role : String
  frame : ℤ
  optionOrder : List Text
  optionsRaw : Text
  mss : ℤ
  window : ℤ
  wscale : Option ℤ
  sackPermitted : Bool
  timestamps : Bool
  ttl : ℤ
  candidates : List SignatureMatch
  family : Option String
  confidence : String
  note : Option String
  evidenceStrength : String
deriving DecidableEq, Repr

inductive StackView
  | unobserved (role note : String)
  | observed (evidence : StackEvidence)
deriving DecidableEq, Repr

/-- `data.get("family")`. -/
def StackView.family : StackView → Option String
  | .unobserved _ _ => none
  | .observed evidence => evidence.family

def roleOf : Side → String
  | .client => "initiator"
  | .server => "responder"

def evidenceStrengthOf : Side → String
  | .client => "moderate"
  | .server => "weak: a SYN-ACK is shaped by the client's offer"

def unmatchedNote : String :=
  "Observed fields are reported, but no signature matched closely enough to suggest a family."

/-- The entry of a captured SYN, from its option names. -/
def stackEvidence (side : Side) (p : DecodedPacket) (options : List Text) : StackEvidence :=
  let wscale := presentScale (some p.wscale)
  let evidence : StackEvidence :=
    { role := roleOf side
      frame := p.frame
      optionOrder := offeredOptionSummary options
      optionsRaw := p.optionsRaw
      mss := p.mss
      window := p.window
      wscale := wscale
      sackPermitted := p.sackPerm
      timestamps := p.hasTimestamp
      ttl := p.ttl
      candidates := []
      family := none
      confidence := "low"
      note := some unmatchedNote
      evidenceStrength := evidenceStrengthOf side }
  match matchSignature options p.window p.mss wscale with
  | [] => evidence
  | best :: rest =>
    if 2 ≤ best.agreement then
      { evidence with
        candidates := (best :: rest).take 3
        family := some best.family
        confidence := if 3 ≤ best.agreement then "moderate" else "low"
        note := none }
    else evidence

/-- The loop body of `fingerprint_endpoint`. -/
def stackView (side : Side) : Option DecodedPacket → Except OptionFault StackView
  | none =>
    .ok (.unobserved (roleOf side)
      ("No " ++ side.text ++ " SYN captured; that endpoint's stack " ++
        "cannot be estimated from this stream."))
  | some p => do
    let options ← parseOptions p.optionsRaw
    .ok (.observed (stackEvidence side p options))

structure Fingerprint where
  signatureVersion : String
  client : StackView
  server : StackView
  limitation : String
deriving DecidableEq, Repr

def fingerprintLimitation : String :=
  "Passive estimate from SYN evidence only. A proxy, NAT, " ++
    "MSS clamping or a non-standard stack can alter or hide " ++
    "the real host. A match is not an identification, and " ++
    "uptime is not inferred from timestamp values."

section

variable (packets : List DecodedPacket) (client : Text × ℤ)

/-- `syn`. -/
def clientSyn : Option DecodedPacket :=
  packets.find? fun p => p.syn ∧ !p.ackFlag ∧ (p.src, p.sport) = client

/-- `synack`. -/
def serverSyn : Option DecodedPacket :=
  packets.find? fun p => p.syn ∧ p.ackFlag ∧ (p.src, p.sport) ≠ client

/-- `fingerprint_endpoint`. -/
def fingerprintEndpoint : Except OptionFault Fingerprint := do
  let first ← stackView .client (clientSyn packets client)
  let second ← stackView .server (serverSyn packets client)
  .ok ⟨signatureVersion, first, second, fingerprintLimitation⟩

end

/-! ## Captures -/

/-- The packet that `summarize` orients a stream by. -/
def orientingRow (first : DecodedPacket) (rest : List DecodedPacket) : DecodedPacket :=
  ((first :: rest).find? fun p => p.syn ∧ !p.ackFlag).getD first

/-- An entry of `per_stream`. The two stacks are written over the two addresses. -/
structure MatchRow where
  id : ℤ
  client : StackView
  server : StackView
  port : ℤ
deriving DecidableEq, Repr

def MatchRow.view (row : MatchRow) : Side → StackView
  | .client => row.client
  | .server => row.server

/-- The entry of a stream, from its packets. -/
def matchRow (first : DecodedPacket) (rest : List DecodedPacket) : Except OptionFault MatchRow := do
  let client := orientingRow first rest
  let evidence ← fingerprintEndpoint (first :: rest) (client.src, client.sport)
  .ok ⟨first.stream, evidence.client, evidence.server, client.dport⟩

/-- The streams of a capture, in the order of `summarize`. -/
def streamNumbers (packets : List DecodedPacket) : List ℤ := sortOn id (packets.map (·.stream)).dedup

/-- The packets of a stream. -/
def streamRows (packets : List DecodedPacket) (stream : ℤ) : List DecodedPacket :=
  packets.filter (·.stream = stream)

/-- An entry of `counts`. -/
structure FamilyCount where
  side : String
  family : String
  connections : ℕ
deriving DecidableEq, Repr

/-- The keys that `cross_connection_consistency` counts, in the order in which it meets them. -/
def familyKeys (perStream : List MatchRow) : List (String × String) :=
  perStream.flatMap fun row =>
    [Side.client, Side.server].filterMap fun side =>
      (row.view side).family.map fun family => (side.text, family)

/-- `cross_connection_consistency`. -/
def crossConnectionConsistency (perStream : List MatchRow) : List FamilyCount :=
  let totals := Dict.count (familyKeys perStream)
  (sortOn (fun item => toLex item.1) totals).map fun item => ⟨item.1.1, item.1.2, item.2⟩

structure MatchAnswer where
  streams : ℕ
  entries : List MatchRow
  counts : List FamilyCount
deriving DecidableEq, Repr

/-- The entries of the streams, one after another. -/
def matchRows (packets : List DecodedPacket) : List (Except OptionFault MatchRow) :=
  (streamNumbers packets).filterMap fun stream =>
    match streamRows packets stream with
    | [] => none
    | first :: rest => some (matchRow first rest)

/-- `match`, on the packets of the capture. -/
def matchAnswer (packets : List DecodedPacket) : Except OptionFault MatchAnswer := do
  let perStream ← (matchRows packets).mapM id
  .ok ⟨perStream.length, perStream, crossConnectionConsistency perStream⟩

end PacketTrain.Decode
