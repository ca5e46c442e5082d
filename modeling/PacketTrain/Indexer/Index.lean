import PacketTrain.Indexer.Scan
import PacketTrain.Lib.Addresses

/-!
# The index a scan leaves, and `extract`

`indexer/src/main.rs`, from the end of `scan`'s loop to the end of `extract`: the manifest written
to `capture.sqlite`, the index directory, and the reader that walks one flow's references backward
and copies its records out of the capture.

A manifest row holds what its SQLite columns hold. SQLite integers are signed, so the unsigned
counters pass through `u64ToSql` on the way in and `u64OfSql` on the way out, and a repeated
primary key is refused. The two address columns are the text of the key's endpoints (`endpointText`); the
row keeps the key itself.

Left out: `index_seconds` and `index_version`, which nothing reads back; the source path is kept
but not resolved, a directory here being read together with the capture it was built from.
-/

namespace PacketTrain.Indexer

/-! ## The manifest -/

/-- A capture file: its bytes and what `fs::metadata` says of it. -/
structure Source where
  path : String
  bytes : Bytes
  mtimeNs : Nat
deriving DecidableEq, Repr

/-- The `metadata` table. -/
structure Metadata where
  sourcePath : String
  sourceSize : Nat
  sourceMtimeNs : Nat
  linktype : Nat
  nanos : Bool
  frames : Nat
  tcpPackets : Nat
  flows : Nat
  refs : Nat
deriving DecidableEq, Repr

/-- `endpoint_text`. -/
def endpointText (family : Nat) (addr : Bytes) : String :=
  if family = 4 then String.ofList (Addresses.ipv4Text (addr.take 4))
  else String.ofList (Addresses.ipv6Text addr)

/-- One row of the `flows` table. -/
structure FlowRow where
  id : Nat
  generation : Nat
  key : FlowKey
  firstFrame : Nat
  lastFrame : Nat
  firstTsNs : Int
  lastTsNs : Int
  packets : Int
  capturedBytes : Int
  payloadBytes : Int
  leftPayloadBytes : Int
  rightPayloadBytes : Int
  clientIsLeft : Bool
  synSeen : Bool
  finMask : Nat
  rstSeen : Bool
  zeroWindowEvents : Int
  closed : Bool
  firstRef : Int
  lastRef : Int
deriving DecidableEq, Repr

structure Manifest where
  metadata : Metadata
  flows : List FlowRow
deriving DecidableEq, Repr

/-- An unsigned value on its way into a signed column. -/
def u64ToSql (n : Nat) : Except ScanError Int :=
  if n < 2 ^ 63 then .ok n else .error .sql

/-- The row of one flow. -/
def Flow.row (f : Flow) : Except ScanError FlowRow := do
  let packets ← u64ToSql f.packets
  let capturedBytes ← u64ToSql f.capturedBytes
  let payloadBytes ← u64ToSql f.payloadBytes
  let leftPayloadBytes ← u64ToSql f.leftPayloadBytes
  let rightPayloadBytes ← u64ToSql f.rightPayloadBytes
  let zeroWindowEvents ← u64ToSql f.zeroWindowEvents
  let firstRef ← u64ToSql f.firstRef
  let lastRef ← u64ToSql f.lastRef
  .ok {
    id := f.id
    generation := f.generation
    key := f.key
    firstFrame := f.firstFrame
    lastFrame := f.lastFrame
    firstTsNs := f.firstTsNs
    lastTsNs := f.lastTsNs
    packets := packets
    capturedBytes := capturedBytes
    payloadBytes := payloadBytes
    leftPayloadBytes := leftPayloadBytes
    rightPayloadBytes := rightPayloadBytes
    clientIsLeft := f.clientIsLeft
    synSeen := f.synSeen
    finMask := f.finMask
    rstSeen := f.rstSeen
    zeroWindowEvents := zeroWindowEvents
    closed := f.closed
    firstRef := firstRef
    lastRef := lastRef }

/-- The inserts of one transaction: every row converts and no id repeats. -/
def insertFlows (flows : List Flow) : Except ScanError (List FlowRow) := do
  let rows ← flows.mapM Flow.row
  if (rows.map FlowRow.id).Nodup then .ok rows else .error .sql

/-! ## What a scan computes -/

/-- The two files of an index. -/
structure Index where
  refs : Bytes
  manifest : Manifest
deriving DecidableEq, Repr

/-- The files at the end of the record loop. -/
def finishIndex (source : Source) (h : Header) (st : ScanState) : Except ScanError Index := do
  let rows ← insertFlows st.flows
  .ok {
    refs := st.refs
    manifest := {
      metadata := {
        sourcePath := source.path
        sourceSize := source.bytes.length
        sourceMtimeNs := source.mtimeNs
        linktype := h.linktype
        nanos := h.nanos
        frames := st.frame
        tcpPackets := st.tcpPackets
        flows := st.flows.length
        refs := st.refCount }
      flows := rows } }

/-- The pure part of `scan`: from the capture to the two files. -/
def buildIndex (source : Source) : Except ScanError Index := do
  let (h, _, st) ← scanRecords source.bytes
  finishIndex source h st

/-- Where a scan put each record of the capture. -/
def placements (source : Source) : List Placement :=
  match scanRecords source.bytes with
  | .ok (_, ps, _) => ps
  | .error _ => []

/-! ## Reading an index -/

/-- Why `extract` bails. -/
inductive ExtractError
  | fault (f : Fault)
  | incomplete
  | sourceChanged
  | sql
  | offsetOverflow
  | referenceOutside
  | crossedInto (owner : Nat)
  | cycle
  | countMismatch (expected found : Nat)
  | recordOutside
deriving DecidableEq, Repr

/-- The text of an error `extract` returns. -/
def ExtractError.text : ExtractError → String
  | .fault _ => "panic"
  | .incomplete => "index is incomplete; rebuild it"
  | .sourceChanged => "source capture changed; rebuild the index"
  | .sql => "sqlite"
  | .offsetOverflow => "reference offset overflow"
  | .referenceOutside => "reference outside refs.bin"
  | .crossedInto owner => s!"reference chain crossed into flow {owner}"
  | .cycle => "reference chain cycle detected"
  | .countMismatch expected found => s!"flow expected {expected} references, found {found}"
  | .recordOutside => "source record outside capture"

/-- One decoded row of `refs.bin`. -/
structure RefRow where
  sourceOffset : Nat
  sourceLen : Nat
  frame : Nat
  previous : Nat
  owner : Nat
deriving DecidableEq, Repr

/-- The fields of a 32-byte row. -/
def RefRow.decode (row : Bytes) : RefRow where
  sourceOffset := Bytes.ofLE ((row.drop 0).take 8)
  sourceLen := Bytes.ofLE ((row.drop 8).take 4)
  frame := Bytes.ofLE ((row.drop 12).take 4)
  previous := Bytes.ofLE ((row.drop 16).take 8)
  owner := Bytes.ofLE ((row.drop 24).take 4)

/-- Reading a written row gives back its fields, each modulo its width. -/
theorem decode_writeRef (sourceOffset sourceLen frame previous flowId : Nat) :
    RefRow.decode (writeRef sourceOffset sourceLen frame previous flowId) =
      ⟨sourceOffset % 256 ^ 8, sourceLen % 256 ^ 4, frame % 256 ^ 4, previous % 256 ^ 8,
        flowId % 256 ^ 4⟩ := by
  simp (disch := simp) [RefRow.decode, writeRef, List.drop_append, Bytes.ofLE_toLE,
    List.drop_eq_nil_of_le]

/-- The row at a reference, when the file holds it. -/
def refAt (refs : Bytes) (current : Nat) : Option RefRow :=
  (refs.slice (current * refSize) (current * refSize + refSize)).map RefRow.decode

/-- What the walk keeps of a row: `(frame, source_offset, source_len)`. -/
structure Hop where
  frame : Nat
  offset : Nat
  len : Nat
deriving DecidableEq, Repr

def RefRow.hop (row : RefRow) : Hop := ⟨row.frame, row.sourceOffset, row.sourceLen⟩

/-- The loop of `extract`: hops are pushed newest first, and the count is checked after each push,
so a chain that does not end is cut one past the flow's packets. -/
def walkChain (refs : Bytes) (flowId packets : Nat) :
    Nat → Nat → List Hop → Except ExtractError (List Hop)
  | fuel, current, chain =>
    if current = noRef then .ok chain
    else
      match fuel with
      | 0 => .error (.fault .diverged)
      | fuel + 1 =>
        if 2 ^ 64 ≤ current * refSize then .error .offsetOverflow
        else
          match refAt refs current with
          | none => .error .referenceOutside
          | some row =>
            if row.owner ≠ flowId then .error (.crossedInto row.owner)
            else
              let chain := chain ++ [row.hop]
              if packets < chain.length then .error .cycle
              else walkChain refs flowId packets fuel row.previous chain

/-- A signed column read as an unsigned value. -/
def u64OfSql (n : Int) : Except ExtractError Nat :=
  if 0 ≤ n then .ok n.toNat else .error .sql

/-- The chain of one flow in source order: the walk, `chain.reverse()`, and the count check. -/
def flowChain (refs : Bytes) (manifest : Manifest) (flowId : Nat) :
    Except ExtractError (List Hop) :=
  match manifest.flows.find? fun row => row.id = flowId with
  | none => .error .sql
  | some row => do
    let lastRef ← u64OfSql row.lastRef
    let packets ← u64OfSql row.packets
    let chain ← walkChain refs flowId packets (packets + 1) lastRef []
    if chain.length ≠ packets then .error (.countMismatch packets chain.length)
    else .ok chain.reverse

/-- The copy loop: each hop's record, in order. -/
def copyRecords (capture : Bytes) : List Hop → Except ExtractError Bytes
  | [] => .ok []
  | hop :: hops =>
    match capture.slice hop.offset (hop.offset + hop.len) with
    | none => .error .recordOutside
    | some r => do
      let rest ← copyRecords capture hops
      .ok (r ++ rest)

/-! ## The index directory -/

/-- A file with the scan process that wrote it. The process is not in the file: nothing that runs
reads it, and it is how a theorem says that two files come from one scan. -/
structure Written (α : Type) where
  scan : Nat
  content : α
deriving DecidableEq, Repr

/-- A SQLite file: the manifest once its transaction is committed, `none` before. -/
abbrev Database := Option Manifest

structure IndexDir where
  ready : Option String
  refs : Option (Written Bytes)
  sqlite : Option (Written Database)
  refsTmp : Option (Written Bytes)
  sqliteTmp : Option (Written Database)
deriving DecidableEq, Repr

/-- A directory before any scan. -/
def IndexDir.empty : IndexDir := ⟨none, none, none, none, none⟩

/-- The directory offers an index to its readers: READY and both files. -/
structure IndexDir.Holds (dir : IndexDir) (index : Index) : Prop where
  ready : dir.ready.isSome
  refs : dir.refs.map Written.content = some index.refs
  sqlite : dir.sqlite.map Written.content = some (some index.manifest)

/-- `extract` past the READY check, up to the bytes it renames into place. -/
def extractFrom (index : Index) (source : Source) (flowId : Nat) : Except ExtractError Bytes :=
  let m := index.manifest.metadata
  if source.bytes.length ≠ m.sourceSize ∨ source.mtimeNs ≠ m.sourceMtimeNs then
    .error .sourceChanged
  else do
    let chain ← flowChain index.refs index.manifest flowId
    match source.bytes.slice 0 24 with
    | none => .error (.fault .outOfBounds)
    | some header => do
      let records ← copyRecords source.bytes chain
      .ok (header ++ records)

/-- `extract`. -/
def extract (dir : IndexDir) (source : Source) (flowId : Nat) : Except ExtractError Bytes :=
  if dir.ready.isNone then .error .incomplete
  else
    match dir.sqlite.map Written.content, dir.refs.map Written.content with
    | some (some manifest), some refs => extractFrom ⟨refs, manifest⟩ source flowId
    | _, _ => .error .sql

/-- A directory that holds an index is read as that index. -/
theorem IndexDir.Holds.extract {dir : IndexDir} {index : Index} (h : dir.Holds index)
    (source : Source) (flowId : Nat) :
    extract dir source flowId = extractFrom index source flowId := by
  have hready : dir.ready.isNone = false := by
    rw [Option.isNone_eq_false_iff]
    exact h.ready
  rw [Indexer.extract, hready, h.sqlite, h.refs]
  rfl

end PacketTrain.Indexer
