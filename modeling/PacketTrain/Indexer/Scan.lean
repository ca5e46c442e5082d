import PacketTrain.Indexer.Parse

/-!
# `scan` — the record loop

`indexer/src/main.rs`, `Flow`, `write_ref` and the part of `scan` from the capture header to the
end of the record loop. The loop reads one record header at a time, parses its packet, decides the
flow the packet belongs to, accounts it there and appends one reference to `refs.bin`.

`ScanState` is the loop's mutable state under the source's own names, with the bytes appended to
`refs.bin` so far. `scanRecord` is one iteration; beside the next state it answers a `Placement`,
the record it read and the flow it chose for it. The placements are not state: nothing reads them
back. They are how a theorem names "the packets that scan assigned to a flow" without asking
`refs.bin`.

Machine integers: `frame` is checked at `2 ^ 32` as in the source, the two `as u32` casts (the
record length and the flow id) are written as `% 2 ^ 32`, and the `u64` and `i64` counters, which a
capture in an address space cannot overflow, are `Nat` and `Int`.

Left out: the progress line on standard error every million frames.
-/

namespace PacketTrain.Indexer

/-- `REF_SIZE`. -/
def refSize : Nat := 32

/-- `NO_REF`. -/
def noRef : Nat := 2 ^ 64 - 1

inductive Endian
  | little
  | big
deriving DecidableEq, Repr

/-! ## Failures -/

/-- Why `scan` or `extract` stops: a fault, or an error the code returns. -/
inductive ScanError
  | fault (f : Fault)
  | shortHeader
  | notClassicPcap
  | notEthernet (linktype : Nat)
  | truncatedU32
  | truncatedRecord (frame : Nat)
  | frameOverflow
  /-- A column value SQLite refuses: an unsigned value past `i64::MAX`, or a repeated flow id. -/
  | sql
deriving DecidableEq, Repr

/-- The text of an error the code returns. -/
def ScanError.text : ScanError → String
  | .fault _ => "panic"
  | .shortHeader => "capture is shorter than a PCAP header"
  | .notClassicPcap => "only classic PCAP is supported in this stage"
  | .notEthernet linktype => s!"stage A supports Ethernet PCAP only (linktype {linktype})"
  | .truncatedU32 => "truncated u32"
  | .truncatedRecord frame => s!"truncated packet record at frame {frame}"
  | .frameOverflow => "capture exceeds u32 frame numbers"
  | .sql => "sqlite"

/-- A parser's answer inside the loop. -/
def liftFault {α : Type} : Except Fault α → Except ScanError α
  | .ok a => .ok a
  | .error f => .error (.fault f)

/-- `u32_at`. -/
def u32At (data : Bytes) (off : Nat) (e : Endian) : Except ScanError Nat :=
  match data.slice off (off + 4) with
  | none => .error .truncatedU32
  | some b =>
    match e with
    | .little => .ok b.ofLE
    | .big => .ok b.ofBE

/-! ## The capture header -/

structure Header where
  endian : Endian
  nanos : Bool
  linktype : Nat
deriving DecidableEq, Repr

/-- The magic number: byte order and timestamp precision. -/
def readMagic (map : Bytes) : Option (Endian × Bool) :=
  match map.take 4 with
  | [0xd4, 0xc3, 0xb2, 0xa1] => some (.little, false)
  | [0xa1, 0xb2, 0xc3, 0xd4] => some (.big, false)
  | [0x4d, 0x3c, 0xb2, 0xa1] => some (.little, true)
  | [0xa1, 0xb2, 0x3c, 0x4d] => some (.big, true)
  | _ => none

/-- The checks before the loop: length, magic, link type. -/
def readHeader (map : Bytes) : Except ScanError Header :=
  if map.length < 24 then .error .shortHeader
  else
    match readMagic map with
    | none => .error .notClassicPcap
    | some (endian, nanos) => do
      let linktype ← u32At map 20 endian
      if linktype ≠ 1 then .error (.notEthernet linktype)
      else .ok ⟨endian, nanos, linktype⟩

/-! ## The loop's state -/

structure Flow where
  id : Nat
  generation : Nat
  key : FlowKey
  firstFrame : Nat
  lastFrame : Nat
  firstTsNs : Int
  lastTsNs : Int
  packets : Nat
  capturedBytes : Nat
  payloadBytes : Nat
  leftPayloadBytes : Nat
  rightPayloadBytes : Nat
  clientIsLeft : Bool
  synSeen : Bool
  finMask : Nat
  rstSeen : Bool
  zeroWindowEvents : Nat
  closed : Bool
  firstRef : Nat
  lastRef : Nat
deriving DecidableEq, Repr

/-- A `HashMap`, as the lookup it is used through. -/
abbrev KeyMap (κ : Type) := κ → Option Nat

/-- `HashMap::insert`. -/
def KeyMap.insert {κ : Type} [DecidableEq κ] (m : KeyMap κ) (k : κ) (v : Nat) : KeyMap κ :=
  fun k' => if k' = k then some v else m k'

structure ScanState where
  flows : List Flow
  active : KeyMap FlowKey
  generations : KeyMap FlowKey
  fragments : KeyMap FragmentKey
  pos : Nat
  frame : Nat
  refCount : Nat
  tcpPackets : Nat
  refs : Bytes

/-- The state the loop starts from. -/
def ScanState.start : ScanState where
  flows := []
  active := fun _ => none
  generations := fun _ => none
  fragments := fun _ => none
  pos := 24
  frame := 0
  refCount := 0
  tcpPackets := 0
  refs := []

/-! ## References -/

/-- `write_ref`: one row of `refs.bin`. Its last four bytes stay zero. -/
def writeRef (sourceOffset sourceLen frame previous flowId : Nat) : Bytes :=
  Bytes.toLE 8 sourceOffset ++ Bytes.toLE 4 sourceLen ++ Bytes.toLE 4 frame ++
    Bytes.toLE 8 previous ++ Bytes.toLE 4 flowId ++ List.replicate 4 0

@[simp] theorem length_writeRef (sourceOffset sourceLen frame previous flowId : Nat) :
    (writeRef sourceOffset sourceLen frame previous flowId).length = refSize := by
  simp only [writeRef, List.length_append, Bytes.length_toLE, List.length_replicate, refSize]

/-! ## One record -/

/-- One record of the capture: where its header stands, what the header says, and its number. -/
structure Record where
  offset : Nat
  sec : Nat
  frac : Nat
  incl : Nat
  frame : Nat
deriving DecidableEq, Repr

/-- The record's length in the capture, header included. -/
def Record.len (r : Record) : Nat := 16 + r.incl

/-- What one iteration did: the record, what the parser made of it, the flow it was assigned to. -/
structure Placement where
  record : Record
  parsed : Option ParsedPacket
  flow : Option Nat
deriving DecidableEq, Repr

/-- The flow a first packet opens. -/
def Flow.opened (id generation : Nat) (key : FlowKey) (frame : Nat) (srcIsLeft : Bool) : Flow where
  id := id % 2 ^ 32
  generation := generation
  key := key
  firstFrame := frame
  lastFrame := frame
  firstTsNs := 0
  lastTsNs := 0
  packets := 0
  capturedBytes := 0
  payloadBytes := 0
  leftPayloadBytes := 0
  rightPayloadBytes := 0
  clientIsLeft := srcIsLeft
  synSeen := false
  finMask := 0
  rstSeen := false
  zeroWindowEvents := 0
  closed := false
  firstRef := noRef
  lastRef := noRef

/-- The branch that pushes a flow and makes it the active one of its key. -/
def ScanState.openFlow (st : ScanState) (key : FlowKey) (srcIsLeft : Bool) : Nat × ScanState :=
  let generation :=
    match st.generations key with
    | some g => g + 1
    | none => 0
  let i := st.flows.length
  (i, { st with
    generations := KeyMap.insert st.generations key generation
    flows := st.flows ++ [.opened i generation key st.frame srcIsLeft]
    active := KeyMap.insert st.active key i })

def ParsedPacket.syn (p : ParsedPacket) : Bool := p.flags &&& 0x02 ≠ 0
def ParsedPacket.ack (p : ParsedPacket) : Bool := p.flags &&& 0x10 ≠ 0
def ParsedPacket.fin (p : ParsedPacket) : Bool := p.flags &&& 0x01 ≠ 0
def ParsedPacket.rst (p : ParsedPacket) : Bool := p.flags &&& 0x04 ≠ 0

/-- `flow_index`: the flow a parsed packet belongs to, opened if need be; `none` is the source's
`continue`. -/
def flowIndex (st : ScanState) (p : ParsedPacket) : Except ScanError (Option (Nat × ScanState)) :=
  if p.nonInitialFragment then
    match p.fragment with
    | none => .ok none
    | some fk => .ok ((st.fragments fk).map fun i => (i, st))
  else
    match p.key with
    | none => .error (.fault .unwrapNone)
    | some key =>
      match st.active key with
      | none => .ok (some (st.openFlow key p.srcIsLeft))
      | some i =>
        if p.syn && !p.ack then
          match st.flows[i]? with
          | none => .error (.fault .outOfBounds)
          | some f =>
            if f.closed then .ok (some (st.openFlow key p.srcIsLeft)) else .ok (some (i, st))
        else .ok (some (i, st))

/-- The record's timestamp in nanoseconds. -/
def Record.tsNs (r : Record) (nanos : Bool) : Int :=
  (r.sec : Int) * 1000000000 + (r.frac : Int) * (if nanos then 1 else 1000)

/-- What every packet of a flow updates. -/
def Flow.touch (f : Flow) (r : Record) (nanos : Bool) : Flow :=
  { f with
    firstTsNs := if f.packets = 0 then r.tsNs nanos else f.firstTsNs
    lastTsNs := r.tsNs nanos
    lastFrame := r.frame
    packets := f.packets + 1
    capturedBytes := f.capturedBytes + r.incl }

/-- What a packet with a TCP header updates as well. -/
def Flow.accountTcp (f : Flow) (p : ParsedPacket) : Flow :=
  let finMask := if p.fin then f.finMask ||| (if p.srcIsLeft then 1 else 2) else f.finMask
  { f with
    payloadBytes := f.payloadBytes + p.payload
    leftPayloadBytes := if p.srcIsLeft then f.leftPayloadBytes + p.payload else f.leftPayloadBytes
    rightPayloadBytes :=
      if p.srcIsLeft then f.rightPayloadBytes else f.rightPayloadBytes + p.payload
    synSeen := f.synSeen || p.syn
    finMask := finMask
    rstSeen := f.rstSeen || p.rst
    zeroWindowEvents := f.zeroWindowEvents + (if p.zeroWindow then 1 else 0)
    closed := f.closed || (p.rst || finMask = 3) }

/-- The flow's counters after one more packet. The references are the caller's. -/
def Flow.account (f : Flow) (r : Record) (nanos : Bool) (p : ParsedPacket) : Flow :=
  if p.nonInitialFragment then f.touch r nanos else (f.touch r nanos).accountTcp p

@[simp] theorem Flow.account_id (f : Flow) (r : Record) (nanos : Bool) (p : ParsedPacket) :
    (f.account r nanos p).id = f.id := by
  unfold Flow.account
  split <;> rfl

@[simp] theorem Flow.account_packets (f : Flow) (r : Record) (nanos : Bool) (p : ParsedPacket) :
    (f.account r nanos p).packets = f.packets + 1 := by
  unfold Flow.account
  split <;> rfl

@[simp] theorem Flow.account_firstRef (f : Flow) (r : Record) (nanos : Bool) (p : ParsedPacket) :
    (f.account r nanos p).firstRef = f.firstRef := by
  unfold Flow.account
  split <;> rfl

@[simp] theorem Flow.account_lastRef (f : Flow) (r : Record) (nanos : Bool) (p : ParsedPacket) :
    (f.account r nanos p).lastRef = f.lastRef := by
  unfold Flow.account
  split <;> rfl

/-- The flow's references after one more row at position `idx`. -/
def Flow.link (f : Flow) (idx : Nat) : Flow :=
  { f with firstRef := if f.firstRef = noRef then idx else f.firstRef, lastRef := idx }

/-- The rest of the iteration: remember the fragment, account the packet, append its reference. -/
def appendPacket (nanos : Bool) (st : ScanState) (r : Record) (p : ParsedPacket) (i : Nat) :
    Except ScanError ScanState :=
  match st.flows[i]? with
  | none => .error (.fault .outOfBounds)
  | some f =>
    let fragments :=
      match p.fragment with
      | some fk => KeyMap.insert st.fragments fk i
      | none => st.fragments
    let f := f.account r nanos p
    .ok { st with
      fragments := fragments
      refs := st.refs ++ writeRef r.offset (r.len % 2 ^ 32) r.frame f.lastRef f.id
      flows := st.flows.set i (f.link st.refCount)
      refCount := st.refCount + 1 }

/-- The record at the loop's position: the bounds checks, the frame number, the packet's bytes. -/
def readRecord (map : Bytes) (h : Header) (st : ScanState) :
    Except ScanError (Record × Bytes) := do
  let sec ← u32At map st.pos h.endian
  let frac ← u32At map (st.pos + 4) h.endian
  let incl ← u32At map (st.pos + 8) h.endian
  let rest ← liftFault (subAt map.length (st.pos + 16))
  if rest < incl then .error (.truncatedRecord (st.frame + 1))
  else if 2 ^ 32 ≤ st.frame + 1 then .error .frameOverflow
  else do
    let packet ← liftFault (sliceAt map (st.pos + 16) (st.pos + 16 + incl))
    .ok (⟨st.pos, sec, frac, incl, st.frame + 1⟩, packet)

/-- The state past a record, before anything is known about its packet. -/
def ScanState.advance (st : ScanState) (r : Record) : ScanState :=
  { st with pos := st.pos + r.len, frame := r.frame }

/-- What an iteration does with a packet the parser accepted. -/
def placePacket (nanos : Bool) (st : ScanState) (r : Record) (p : ParsedPacket) :
    Except ScanError (Placement × ScanState) := do
  match ← flowIndex st p with
  | none => .ok (⟨r, some p, none⟩, st)
  | some (i, st) => do
    let st ← appendPacket nanos st r p i
    .ok (⟨r, some p, some i⟩, st)

/-- One iteration of the loop. -/
def scanRecord (map : Bytes) (h : Header) (st : ScanState) :
    Except ScanError (Placement × ScanState) := do
  let (r, packet) ← readRecord map h st
  let st := st.advance r
  match ← liftFault (parseTcp packet h.linktype) with
  | none => .ok (⟨r, none, none⟩, st)
  | some p => placePacket h.nanos { st with tcpPackets := st.tcpPackets + 1 } r p

/-- The record loop. Every record takes sixteen bytes or more, so the capture's length bounds it. -/
def scanLoop (map : Bytes) (h : Header) :
    Nat → ScanState → Except ScanError (List Placement × ScanState)
  | fuel, st =>
    if st.pos + 16 ≤ map.length then
      match fuel with
      | 0 => .error (.fault .diverged)
      | fuel + 1 => do
        let (p, st) ← scanRecord map h st
        let (ps, st) ← scanLoop map h fuel st
        .ok (p :: ps, st)
    else .ok ([], st)

/-- The header checks and the loop over one capture. -/
def scanRecords (map : Bytes) : Except ScanError (Header × List Placement × ScanState) := do
  let h ← readHeader map
  let (ps, st) ← scanLoop map h map.length .start
  .ok (h, ps, st)

end PacketTrain.Indexer
