import PacketTrain.Lib.Bytes

/-!
# `parse_tcp` — one captured frame to a flow key

`indexer/src/main.rs`, `canonical` and `parse_tcp`. The parser answers `none` for a frame it does
not index and a `Fault` where the Rust code would panic or loop: a slice or an index outside the
frame is never silently read as a default, so that "no frame faults the parser" is a statement
about these definitions.

The source is one function of two loops and two address families. It is cut here at its own seams:
the tag loop (`skipTags`), the IPv4 header, the IPv6 extension loop (`skipExtensions`), and the TCP
header. Offsets are absolute positions in the frame throughout, as in the source.

Machine integers: every offset is a `usize` that stays far below its width, so it is a `Nat`; the
two-byte and four-byte fields are the integers their bytes spell.
-/

namespace PacketTrain.Indexer

/-- Where the Rust code would not return: a panic, or a loop that ran past its bound. -/
inductive Fault
  /-- A slice or an index outside its byte string or vector. -/
  | outOfBounds
  /-- `unwrap` of an absent value. -/
  | unwrapNone
  /-- An unsigned subtraction below zero. -/
  | underflow
  /-- A loop that did not end within the bound its input sets. -/
  | diverged
deriving DecidableEq, Repr

/-! ## Panicking reads and differences -/

/-- `data[a..b]`. -/
def sliceAt (data : Bytes) (a b : Nat) : Except Fault Bytes :=
  match data.slice a b with
  | some out => .ok out
  | none => .error .outOfBounds

/-- `data[i]`. -/
def byteAt (data : Bytes) (i : Nat) : Except Fault UInt8 :=
  match data[i]? with
  | some b => .ok b
  | none => .error .outOfBounds

/-- `u16::from_be_bytes(data[off..off + 2])`. -/
def be16At (data : Bytes) (off : Nat) : Except Fault Nat := do
  return Bytes.ofBE (← sliceAt data off (off + 2))

/-- `u32::from_be_bytes(data[off..off + 4])`. -/
def be32At (data : Bytes) (off : Nat) : Except Fault Nat := do
  return Bytes.ofBE (← sliceAt data off (off + 4))

/-- `a - b` of unsigned integers. -/
def subAt (a b : Nat) : Except Fault Nat := if b ≤ a then .ok (a - b) else .error .underflow

/-! ## Keys -/

/-- An address in sixteen bytes, and a port. -/
structure Endpoint where
  addr : Bytes
  port : Nat
deriving DecidableEq, Repr

/-- `Endpoint::cmp`, as `a <= b`: by address bytes, then by port. -/
def Endpoint.le (a b : Endpoint) : Bool :=
  a.addr < b.addr || (a.addr = b.addr && a.port ≤ b.port)

structure FlowKey where
  family : Nat
  left : Endpoint
  right : Endpoint
deriving DecidableEq, Repr

structure FragmentKey where
  family : Nat
  src : Bytes
  dst : Bytes
  ident : Nat
deriving DecidableEq, Repr

structure ParsedPacket where
  key : Option FlowKey
  fragment : Option FragmentKey
  nonInitialFragment : Bool
  srcIsLeft : Bool
  flags : UInt8
  payload : Nat
  zeroWindow : Bool
deriving DecidableEq, Repr

/-- `addr4`: the four bytes, padded to sixteen. -/
def addr4 (v : Bytes) : Bytes := v ++ List.replicate 12 0

/-- `canonical`: the endpoints in order, and whether the source is the left one. -/
def canonical (family : Nat) (src : Bytes) (sport : Nat) (dst : Bytes) (dport : Nat) :
    FlowKey × Bool :=
  let a : Endpoint := ⟨src, sport⟩
  let b : Endpoint := ⟨dst, dport⟩
  if a.le b then (⟨family, a, b⟩, true) else (⟨family, b, a⟩, false)

/-! ## The two loops -/

/-- `matches!(eth, 0x8100 | 0x88a8 | 0x9100)`. -/
def isTag (eth : Nat) : Bool := eth = 0x8100 || eth = 0x88a8 || eth = 0x9100

/-- The tag loop: the offset past the tags and the type found there. -/
def skipTags (packet : Bytes) : Nat → Nat → Nat → Except Fault (Option (Nat × Nat))
  | fuel, off, eth =>
    if isTag eth then
      match fuel with
      | 0 => .error .diverged
      | fuel + 1 =>
        if packet.length < off + 4 then .ok none
        else do
          let eth ← be16At packet (off + 2)
          skipTags packet fuel (off + 4) eth
    else .ok (some (off, eth))

/-- `matches!(next, 0 | 43 | 44 | 51 | 60)`. -/
def isExtension (next : UInt8) : Bool :=
  next = 0 || next = 43 || next = 44 || next = 51 || next = 60

/-- What the extension loop carries. -/
structure Extensions where
  next : UInt8
  cur : Nat
  fragment : Option FragmentKey
  nonInitial : Bool
deriving DecidableEq, Repr

/-- One extension header. The three length units differ: eight bytes for a Fragment header, four
bytes for an authentication header, eight for the rest. -/
def skipExtension (packet src dst : Bytes) (e : Extensions) :
    Except Fault (Option Extensions) :=
  if packet.length < e.cur + 2 then .ok none
  else do
    let next ← byteAt packet e.cur
    if e.next = 44 then
      if packet.length < e.cur + 8 then .ok none
      else do
        let frag ← be16At packet (e.cur + 2)
        let ident ← be32At packet (e.cur + 4)
        .ok (some ⟨next, e.cur + 8, some ⟨6, src, dst, ident⟩, frag &&& 0xfff8 ≠ 0⟩)
    else do
      let size ← byteAt packet (e.cur + 1)
      let step := if e.next = 51 then (size.toNat + 2) * 4 else (size.toNat + 1) * 8
      .ok (some { e with next := next, cur := e.cur + step })

/-- The extension loop. -/
def skipExtensions (packet src dst : Bytes) : Nat → Extensions → Except Fault (Option Extensions)
  | fuel, e =>
    if isExtension e.next then
      match fuel with
      | 0 => .error .diverged
      | fuel + 1 => do
        match ← skipExtension packet src dst e with
        | none => .ok none
        | some e => skipExtensions packet src dst fuel e
    else .ok (some e)

/-! ## The headers -/

/-- What either network header hands to the TCP header. -/
structure Network where
  family : Nat
  src : Bytes
  dst : Bytes
  tcpOff : Nat
  declaredEnd : Nat
  fragment : Option FragmentKey
  nonInitial : Bool
deriving DecidableEq, Repr

def ipv4Header (packet : Bytes) (off : Nat) : Except Fault (Option Network) :=
  if packet.length < off + 20 then .ok none
  else do
    let first ← byteAt packet off
    let ihl := (first &&& 0x0f).toNat * 4
    if ihl < 20 ∨ packet.length < off + ihl then .ok none
    else do
      let protocol ← byteAt packet (off + 9)
      if protocol ≠ 6 then .ok none
      else do
        let frag ← be16At packet (off + 6)
        let ident ← be16At packet (off + 4)
        let src := addr4 (← sliceAt packet (off + 12) (off + 16))
        let dst := addr4 (← sliceAt packet (off + 16) (off + 20))
        let fragment := if frag &&& 0x3fff ≠ 0 then some ⟨4, src, dst, ident⟩ else none
        let total ← be16At packet (off + 2)
        .ok (some ⟨4, src, dst, off + ihl, off + total, fragment, frag &&& 0x1fff ≠ 0⟩)

def ipv6Header (packet : Bytes) (off : Nat) : Except Fault (Option Network) :=
  if packet.length < off + 40 then .ok none
  else do
    let first ← byteAt packet off
    if first >>> 4 ≠ 6 then .ok none
    else do
      let src ← sliceAt packet (off + 8) (off + 24)
      let dst ← sliceAt packet (off + 24) (off + 40)
      let declaredEnd := off + 40 + (← be16At packet (off + 4))
      let next ← byteAt packet (off + 6)
      match ← skipExtensions packet src dst packet.length ⟨next, off + 40, none, false⟩ with
      | none => .ok none
      | some e =>
        if e.next ≠ 6 then .ok none
        else .ok (some ⟨6, src, dst, e.cur, declaredEnd, e.fragment, e.nonInitial⟩)

def tcpHeader (packet : Bytes) (n : Network) : Except Fault (Option ParsedPacket) :=
  if n.nonInitial then
    .ok (some ⟨none, n.fragment, true, false, 0, 0, false⟩)
  else if packet.length < n.tcpOff + 20 then .ok none
  else do
    let sport ← be16At packet n.tcpOff
    let dport ← be16At packet (n.tcpOff + 2)
    let dataOff := ((← byteAt packet (n.tcpOff + 12)) >>> 4).toNat * 4
    if dataOff < 20 ∨ packet.length < n.tcpOff + dataOff ∨ n.declaredEnd < n.tcpOff + dataOff then
      .ok none
    else do
      let (key, srcIsLeft) := canonical n.family n.src sport n.dst dport
      let flags ← byteAt packet (n.tcpOff + 13)
      let window ← be16At packet (n.tcpOff + 14)
      .ok (some
        { key := some key
          fragment := n.fragment
          nonInitialFragment := false
          srcIsLeft := srcIsLeft
          flags := flags
          payload := (n.declaredEnd - (n.tcpOff + dataOff)) % 2 ^ 32
          zeroWindow := window = 0 && flags &&& 0x10 ≠ 0 && flags &&& 0x02 = 0 })

/-- `parse_tcp`. Each loop moves the offset forward and stops past the end of the frame, so the
frame's own length bounds both. -/
def parseTcp (packet : Bytes) (linktype : Nat) : Except Fault (Option ParsedPacket) :=
  if linktype ≠ 1 ∨ packet.length < 14 then .ok none
  else do
    let eth ← be16At packet 12
    match ← skipTags packet packet.length 14 eth with
    | none => .ok none
    | some (off, eth) =>
      let network ← (
        if eth = 0x0800 then ipv4Header packet off
        else if eth = 0x86dd then ipv6Header packet off
        else .ok none)
      match network with
      | none => .ok none
      | some n => tcpHeader packet n

end PacketTrain.Indexer
