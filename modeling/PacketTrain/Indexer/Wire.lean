import PacketTrain.Indexer.Parse

/-!
# The frames the parser reads

The header grammar of a TCP segment on Ethernet, as a sender builds it: tags of the three types the
parser skips, in any number; IPv4 with options, or IPv6 with any chain of the five extension headers it
skips; TCP with options. A value of these types cannot be malformed: lengths are in the types or carried
with a proof, and a frame's length fields fit their sixteen bits.

Nothing here is translated from the source. `Frame.headers` is what the standards make a sender write,
and `Frame.parsed` is what the parser owes for it.
-/

namespace PacketTrain.Indexer.Wire

/-- A field of `n` bytes. -/
abbrev Octets (n : Nat) := { b : Bytes // b.length = n }

/-- The options of an IPv4 or a TCP header: at most ten words of four bytes. -/
structure Options where
  bytes : Bytes
  words : Nat
  length_eq : bytes.length = words * 4
  short : words ≤ 10

/-! ## Ethernet -/

inductive TagProtocol
  | customer
  | service
  | legacy

def TagProtocol.number : TagProtocol → Nat
  | .customer => 0x8100
  | .service => 0x88a8
  | .legacy => 0x9100

structure Tag where
  protocol : TagProtocol
  control : Octets 2

/-- The type field before the rest of a tag stack. -/
def typeOf (last : Nat) : List Tag → Nat
  | [] => last
  | tag :: _ => tag.protocol.number

/-- A tag stack past its first type field: each tag's control, then the next type. -/
def tagBytes (last : Nat) : List Tag → Bytes
  | [] => []
  | tag :: tags => tag.control.1 ++ (Bytes.toBE 2 (typeOf last tags) ++ tagBytes last tags)

/-! ## IPv4 -/

structure Ipv4Header where
  service : UInt8
  ident : Fin (2 ^ 16)
  reserved : Bool
  dontFragment : Bool
  moreFragments : Bool
  ttl : UInt8
  checksum : Octets 2
  src : Octets 4
  dst : Octets 4
  options : Options

/-- The flags of the fragment field. The offset is zero: the datagram starts with the TCP header. -/
def Ipv4Header.control (h : Ipv4Header) : Nat :=
  (if h.reserved then 0x8000 else 0) + (if h.dontFragment then 0x4000 else 0) +
    (if h.moreFragments then 0x2000 else 0)

/-- The total length of a datagram with `n` bytes of data. -/
def Ipv4Header.total (h : Ipv4Header) (n : Nat) : Nat := 20 + h.options.words * 4 + n

def Ipv4Header.bytes (h : Ipv4Header) (n : Nat) : Bytes :=
  [UInt8.ofNat (0x45 + h.options.words), h.service] ++ (Bytes.toBE 2 (h.total n) ++
    (Bytes.toBE 2 h.ident ++ (Bytes.toBE 2 h.control ++ ([h.ttl, 6] ++ (h.checksum.1 ++
      (h.src.1 ++ (h.dst.1 ++ h.options.bytes)))))))

/-! ## IPv6 -/

/-- The extension headers that count their length in eight bytes. -/
inductive OptionsKind
  | hopByHop
  | routing
  | destination

/-- An extension header. A fragment header here starts a datagram, or is the whole of it, so its offset
is zero; its low bits are the two reserved ones and the flag for more fragments. -/
inductive Extension
  | options (kind : OptionsKind) (units : UInt8) (body : Octets (units.toNat * 8 + 6))
  | authentication (units : UInt8) (body : Octets (units.toNat * 4 + 6))
  | fragment (reserved : UInt8) (low : Fin 8) (ident : Fin (2 ^ 32))

def Extension.number : Extension → UInt8
  | .options .hopByHop _ _ => 0
  | .options .routing _ _ => 43
  | .options .destination _ _ => 60
  | .authentication _ _ => 51
  | .fragment _ _ _ => 44

/-- An extension header with the number of the header after it. -/
def Extension.bytes (next : UInt8) : Extension → Bytes
  | .options _ units body => [next, units] ++ body.1
  | .authentication units body => [next, units] ++ body.1
  | .fragment reserved low ident =>
    [next, reserved] ++ (Bytes.toBE 2 low ++ Bytes.toBE 4 ident)

/-- The identification of a fragment header. -/
def Extension.ident : Extension → Option Nat
  | .fragment _ _ ident => some ident
  | _ => none

/-- The number of the first header of a chain that ends in TCP. -/
def nextOf : List Extension → UInt8
  | [] => 6
  | e :: _ => e.number

def chainBytes : List Extension → Bytes
  | [] => []
  | e :: chain => e.bytes (nextOf chain) ++ chainBytes chain

structure Ipv6Header where
  trafficClass : Fin 16
  label : Octets 3
  hopLimit : UInt8
  src : Octets 16
  dst : Octets 16
  chain : List Extension

/-- The payload length of a datagram with `n` bytes of data: the extension headers count. -/
def Ipv6Header.total (h : Ipv6Header) (n : Nat) : Nat := (chainBytes h.chain).length + n

/-- The forty bytes before the extension headers. -/
def Ipv6Header.fixed (h : Ipv6Header) (n : Nat) : Bytes :=
  [UInt8.ofNat (0x60 + h.trafficClass)] ++ (h.label.1 ++ (Bytes.toBE 2 (h.total n) ++
    ([nextOf h.chain, h.hopLimit] ++ (h.src.1 ++ h.dst.1))))

def Ipv6Header.bytes (h : Ipv6Header) (n : Nat) : Bytes := h.fixed n ++ chainBytes h.chain

/-! ## The network header -/

inductive NetworkHeader
  | ipv4 (h : Ipv4Header)
  | ipv6 (h : Ipv6Header)

def NetworkHeader.etherType : NetworkHeader → Nat
  | .ipv4 _ => 0x0800
  | .ipv6 _ => 0x86dd

def NetworkHeader.family : NetworkHeader → Nat
  | .ipv4 _ => 4
  | .ipv6 _ => 6

def NetworkHeader.src : NetworkHeader → Bytes
  | .ipv4 h => addr4 h.src.1
  | .ipv6 h => h.src.1

def NetworkHeader.dst : NetworkHeader → Bytes
  | .ipv4 h => addr4 h.dst.1
  | .ipv6 h => h.dst.1

/-- The value of the length field over `n` bytes of data. -/
def NetworkHeader.total (n : Nat) : NetworkHeader → Nat
  | .ipv4 h => h.total n
  | .ipv6 h => h.total n

def NetworkHeader.bytes (n : Nat) : NetworkHeader → Bytes
  | .ipv4 h => h.bytes n
  | .ipv6 h => h.bytes n

/-- The identification that the fragments of the datagram share, when it is one of several or says it
could be: the last fragment header's in IPv6. -/
def NetworkHeader.ident : NetworkHeader → Option Nat
  | .ipv4 h => if h.moreFragments then some h.ident else none
  | .ipv6 h => (h.chain.filterMap Extension.ident).getLast?

/-- The datagram is one of several, or carries a fragment header. -/
def NetworkHeader.Fragmented : NetworkHeader → Prop
  | .ipv4 h => h.moreFragments = true
  | .ipv6 h => ∃ e ∈ h.chain, e.number = 44

/-! ## TCP and the frame -/

structure TcpHeader where
  srcPort : Fin (2 ^ 16)
  dstPort : Fin (2 ^ 16)
  /-- The sequence and acknowledgment numbers. -/
  numbers : Octets 8
  reserved : Fin 16
  flags : UInt8
  window : Fin (2 ^ 16)
  /-- The checksum and the urgent pointer. -/
  trailer : Octets 4
  options : Options

def TcpHeader.length (h : TcpHeader) : Nat := 20 + h.options.words * 4

def TcpHeader.bytes (h : TcpHeader) : Bytes :=
  Bytes.toBE 2 h.srcPort ++ (Bytes.toBE 2 h.dstPort ++ (h.numbers.1 ++
    ([UInt8.ofNat ((5 + h.options.words) * 16 + h.reserved), h.flags] ++ (Bytes.toBE 2 h.window ++
      (h.trailer.1 ++ h.options.bytes)))))

structure Frame where
  addresses : Octets 12
  tags : List Tag
  network : NetworkHeader
  tcp : TcpHeader
  payload : Bytes
  fits : network.total (tcp.length + payload.length) < 2 ^ 16

/-- The bytes up to the end of the TCP header. -/
def Frame.headers (f : Frame) : Bytes :=
  f.addresses.1 ++ (Bytes.toBE 2 (typeOf f.network.etherType f.tags) ++
    (tagBytes f.network.etherType f.tags ++
      (f.network.bytes (f.tcp.length + f.payload.length) ++ f.tcp.bytes)))

def Frame.bytes (f : Frame) : Bytes := f.headers ++ f.payload

/-! ## What the parser owes -/

def Frame.source (f : Frame) : Endpoint := ⟨f.network.src, f.tcp.srcPort⟩

def Frame.destination (f : Frame) : Endpoint := ⟨f.network.dst, f.tcp.dstPort⟩

def Frame.fragmentKey (f : Frame) : Option FragmentKey :=
  f.network.ident.map fun ident => ⟨f.network.family, f.network.src, f.network.dst, ident⟩

/-- The packet of a frame. -/
def Frame.parsed (f : Frame) : ParsedPacket :=
  let keyed := canonical f.network.family f.network.src f.tcp.srcPort f.network.dst f.tcp.dstPort
  { key := some keyed.1
    fragment := f.fragmentKey
    nonInitialFragment := false
    srcIsLeft := keyed.2
    flags := f.tcp.flags
    payload := f.payload.length
    zeroWindow := f.tcp.window.val = 0 && f.tcp.flags &&& 0x10 ≠ 0 && f.tcp.flags &&& 0x02 = 0 }

end PacketTrain.Indexer.Wire
