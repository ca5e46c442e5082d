import PacketTrain.Indexer.Scan
import PacketTrain.Laws.Indexer.Parse

/-!
# Later fragments

A frame whose IP header says that it is a later fragment carries no TCP header, and what follows the
header is payload from the middle of a segment. A prefix of such frames, up to the header that says
so, is a `LaterFragment`. Over IPv4 the parser reads no further. Over IPv6 its loop goes on behind
the Fragment header while the next-header value names an extension, so there, and only there, it
takes payload for headers (`payload_ignored_iff`).
-/

namespace PacketTrain.Indexer

open Fallible

/-! ## Reads of a prefix -/

section

variable {pre : Bytes} (post : Bytes)

/-- What lies in the prefix lies in what extends it. -/
theorem le_extend {n : Nat} (h : n ≤ pre.length) : n ≤ (pre ++ post).length :=
  h.trans (List.prefix_append pre post).length_le

theorem sliceAt_extend {a b : Nat} {out : Bytes} (h : sliceAt pre a b = .ok out) :
    sliceAt (pre ++ post) a b = .ok out := by
  unfold sliceAt at h
  split at h
  · next slice hslice =>
    cases h
    obtain ⟨hab, hb, rfl⟩ := Bytes.slice_eq_some hslice
    unfold sliceAt
    rw [Bytes.slice_of_le hab (le_extend post hb), List.drop_append_of_le_length (hab.trans hb),
      List.take_append_of_le_length (by rw [List.length_drop]; omega)]
  · cases h

theorem byteAt_extend {i : Nat} {b : UInt8} (h : byteAt pre i = .ok b) :
    byteAt (pre ++ post) i = .ok b := by
  unfold byteAt at h ⊢
  split at h
  · next found hfound =>
    cases h
    rw [List.getElem?_append_left (List.getElem?_eq_some_iff.mp hfound).1, hfound]
  · cases h

theorem be16At_extend {off n : Nat} (h : be16At pre off = .ok n) :
    be16At (pre ++ post) off = .ok n := by
  obtain ⟨bytes, hbytes, hn⟩ := bind_eq_ok.mp h
  exact bind_eq_ok.mpr ⟨bytes, sliceAt_extend post hbytes, hn⟩

theorem be32At_extend {off n : Nat} (h : be32At pre off = .ok n) :
    be32At (pre ++ post) off = .ok n := by
  obtain ⟨bytes, hbytes, hn⟩ := bind_eq_ok.mp h
  exact bind_eq_ok.mpr ⟨bytes, sliceAt_extend post hbytes, hn⟩

end

theorem be16At_in {data : Bytes} {off n : Nat} (h : be16At data off = .ok n) :
    off + 2 ≤ data.length := by
  obtain ⟨bytes, hbytes, -⟩ := bind_eq_ok.mp h
  unfold sliceAt at hbytes
  split at hbytes
  · next slice hslice => exact (Bytes.slice_eq_some hslice).2.1
  · cases hbytes

theorem byteAt_in {data : Bytes} {i : Nat} {b : UInt8} (h : byteAt data i = .ok b) :
    i < data.length := by
  unfold byteAt at h
  split at h
  · next found hfound => exact (List.getElem?_eq_some_iff.mp hfound).1
  · cases h

/-! ## Where the headers stand -/

/-- The tag stack of a frame ends at an offset, before a header of some type. -/
inductive TagsTo (packet : Bytes) : Nat → Nat → Prop
  | link (eth : Nat) : be16At packet 12 = .ok eth → TagsTo packet 14 eth
  | tag (off eth next : Nat) : TagsTo packet off eth → isTag eth = true →
      be16At packet (off + 2) = .ok next → TagsTo packet (off + 4) next

/-- The bytes that an extension header takes, from its number and its length byte. -/
def extensionSize (number size : UInt8) : Nat :=
  if number = 44 then 8 else if number = 51 then (size.toNat + 2) * 4 else (size.toNat + 1) * 8

/-- In the chain of the IPv6 header at `off`, a header of some number stands at a position, behind
whole extension headers. -/
inductive HeaderAt (packet : Bytes) (off : Nat) : UInt8 → Nat → Prop
  | first (number : UInt8) : byteAt packet (off + 6) = .ok number →
      HeaderAt packet off number (off + 40)
  | next (number size following : UInt8) (cur : Nat) : HeaderAt packet off number cur →
      isExtension number = true → byteAt packet cur = .ok following →
      byteAt packet (cur + 1) = .ok size → cur + extensionSize number size ≤ packet.length →
      HeaderAt packet off following (cur + extensionSize number size)

/-- A frame up to and with the header that makes it a later fragment: an IPv4 header of non-zero
fragment offset, or the chain of an IPv6 header to a Fragment header of non-zero offset, whose
next-header value is the second argument. -/
inductive LaterFragment (pre : Bytes) : Option UInt8 → Prop
  | ipv4 (off frag : Nat) (first : UInt8) : TagsTo pre off 0x0800 → byteAt pre off = .ok first →
      off + 20 ≤ pre.length → off + (first &&& 0x0f).toNat * 4 ≤ pre.length →
      be16At pre (off + 6) = .ok frag → frag &&& 0x1fff ≠ 0 → LaterFragment pre none
  | ipv6 (off cur frag : Nat) (first following : UInt8) : TagsTo pre off 0x86dd →
      byteAt pre off = .ok first → first >>> 4 = 6 → HeaderAt pre off 44 cur →
      byteAt pre cur = .ok following → be16At pre (cur + 2) = .ok frag → frag &&& 0xfff8 ≠ 0 →
      pre.length = cur + 8 → LaterFragment pre (some following)

theorem TagsTo.extend {pre : Bytes} {off eth : Nat} (h : TagsTo pre off eth) (post : Bytes) :
    TagsTo (pre ++ post) off eth := by
  induction h with
  | link eth hread => exact .link eth (be16At_extend post hread)
  | tag off eth next _ htag hread ih => exact .tag off eth next ih htag (be16At_extend post hread)

theorem HeaderAt.extend {pre : Bytes} {off cur : Nat} {number : UInt8}
    (h : HeaderAt pre off number cur) (post : Bytes) : HeaderAt (pre ++ post) off number cur := by
  induction h with
  | first number hread => exact .first number (byteAt_extend post hread)
  | next number size following cur _ hext hfollowing hsize hin ih =>
    exact .next number size following cur ih hext (byteAt_extend post hfollowing)
      (byteAt_extend post hsize) (le_extend post hin)

theorem HeaderAt.behind {packet : Bytes} {off cur : Nat} {number : UInt8}
    (h : HeaderAt packet off number cur) : off + 40 ≤ cur := by
  induction h with
  | first => exact Nat.le_refl _
  | next _ _ _ _ _ _ _ _ _ ih => exact ih.trans (Nat.le_add_right _ _)

/-! ## The loops up to a header -/

/-- The tag loop comes to the end of the stack, with fuel to spare. -/
theorem skipTags_to {packet : Bytes} {off eth : Nat} (h : TagsTo packet off eth) :
    ∃ first fuel, be16At packet 12 = .ok first ∧ packet.length - off < fuel ∧ off ≤ packet.length ∧
      skipTags packet packet.length 14 first = skipTags packet fuel off eth := by
  induction h with
  | link eth hread =>
    have hin := be16At_in hread
    exact ⟨eth, packet.length, hread, by omega, hin, rfl⟩
  | tag off eth next _ htag hread ih =>
    obtain ⟨first, fuel, hfirst, hfuel, -, hloop⟩ := ih
    have hin := be16At_in hread
    obtain ⟨fuel, rfl⟩ : ∃ n, fuel = n + 1 := ⟨fuel - 1, by omega⟩
    rw [skipTags_step htag (by omega) hread] at hloop
    exact ⟨first, fuel, hfirst, by omega, by omega, hloop⟩

/-- The parser comes to the network header. -/
theorem parseTcp_network {packet : Bytes} {off eth : Nat} (h : TagsTo packet off eth)
    (htag : isTag eth = false) :
    parseTcp packet 1 = (do
      let network ← (
        if eth = 0x0800 then ipv4Header packet off
        else if eth = 0x86dd then ipv6Header packet off
        else .ok none)
      match network with
      | none => .ok none
      | some n => tcpHeader packet n) := by
  obtain ⟨first, fuel, hfirst, -, hoff, hloop⟩ := skipTags_to h
  have hshort := be16At_in hfirst
  have hlong : ¬((1 : Nat) ≠ 1 ∨ packet.length < 14) := by omega
  rw [skipTags_done htag] at hloop
  unfold parseTcp
  rw [if_neg hlong, hfirst]
  show (skipTags packet _ 14 first >>= _) = _
  rw [hloop]
  rfl

/-- An extension header that lies in the frame is skipped by its size. -/
theorem skipExtension_in {packet : Bytes} (src dst : Bytes) {e : Extensions}
    {size following : UInt8} (hfollowing : byteAt packet e.cur = .ok following)
    (hsize : byteAt packet (e.cur + 1) = .ok size)
    (hin : e.cur + extensionSize e.next size ≤ packet.length) :
    ∃ fragment nonInitial, skipExtension packet src dst e =
      .ok (some ⟨following, e.cur + extensionSize e.next size, fragment, nonInitial⟩) := by
  have hroom : ¬packet.length < e.cur + 2 := Nat.not_lt.mpr (byteAt_in hsize)
  unfold extensionSize at hin ⊢
  by_cases hfragment : e.next = 44
  · rw [if_pos hfragment] at hin ⊢
    obtain ⟨frag, hfrag⟩ : Answers (be16At packet (e.cur + 2)) := be16At_answers (by omega)
    obtain ⟨ident, hident⟩ : Answers (be32At packet (e.cur + 4)) := be32At_answers (by omega)
    refine ⟨some ⟨6, src, dst, ident⟩, frag &&& 0xfff8 ≠ 0, ?_⟩
    simp only [skipExtension, if_neg hroom, hfollowing, if_pos hfragment,
      if_neg (Nat.not_lt.mpr hin), hfrag, hident, bind, Except.bind]
  · rw [if_neg hfragment] at hin ⊢
    refine ⟨e.fragment, e.nonInitial, ?_⟩
    simp only [skipExtension, if_neg hroom, hfollowing, if_neg hfragment, hsize, bind, Except.bind]

/-- The extension loop comes to any header of the chain, with fuel to spare. -/
theorem skipExtensions_to {packet : Bytes} {off cur : Nat} {number : UInt8} (src dst : Bytes)
    (h : HeaderAt packet off number cur) (hoff : off + 40 ≤ packet.length) :
    ∃ first fuel fragment nonInitial, byteAt packet (off + 6) = .ok first ∧
      packet.length - cur < fuel ∧
      skipExtensions packet src dst packet.length ⟨first, off + 40, none, false⟩ =
        skipExtensions packet src dst fuel ⟨number, cur, fragment, nonInitial⟩ := by
  induction h with
  | first number hread => exact ⟨number, packet.length, none, false, hread, by omega, rfl⟩
  | next number size following cur _ hext hfollowing hsize hin ih =>
    obtain ⟨first, fuel, fragment, nonInitial, hfirst, hfuel, hloop⟩ := ih
    have hroom := byteAt_in hsize
    obtain ⟨fragment', nonInitial', hskip⟩ := skipExtension_in src dst
      (e := ⟨number, cur, fragment, nonInitial⟩) hfollowing hsize hin
    have hgrow := (skipExtension_advances hskip).2
    dsimp only at hgrow
    obtain ⟨fuel, rfl⟩ : ∃ n, fuel = n + 1 := ⟨fuel - 1, by omega⟩
    rw [skipExtensions_step hskip hext] at hloop
    exact ⟨first, fuel, fragment', nonInitial', hfirst, by omega, hloop⟩

/-- What the parser does from a header of the chain on. -/
def parseFrom (packet src dst : Bytes) (declaredEnd fuel : Nat) (e : Extensions) :
    Except Fault (Option ParsedPacket) := do
  match ← skipExtensions packet src dst fuel e with
  | none => .ok none
  | some e =>
    if e.next ≠ 6 then .ok none
    else tcpHeader packet ⟨6, src, dst, e.cur, declaredEnd, e.fragment, e.nonInitial⟩

/-- Behind the Fragment header of a later fragment, the parser reads on with the fragment's key. -/
theorem parseTcp_later_ipv6 {pre : Bytes} {following : UInt8}
    (h : LaterFragment pre (some following)) :
    ∃ src dst key declaredEnd, ∀ post, ∃ fuel, post.length < fuel ∧ parseTcp (pre ++ post) 1 =
      parseFrom (pre ++ post) src dst declaredEnd fuel ⟨following, pre.length, some key, true⟩ := by
  obtain _ | ⟨off, cur, frag, first, _, htags, hfirst, hversion, hheader, hfollowing, hfrag,
    hoffset, hlength⟩ := h
  have hcur := hheader.behind
  obtain ⟨src, hsrc⟩ : Answers (sliceAt pre (off + 8) (off + 24)) :=
    sliceAt_answers (by omega) (by omega)
  obtain ⟨dst, hdst⟩ : Answers (sliceAt pre (off + 24) (off + 40)) :=
    sliceAt_answers (by omega) (by omega)
  obtain ⟨size, hsize⟩ : Answers (be16At pre (off + 4)) := be16At_answers (by omega)
  obtain ⟨ident, hident⟩ : Answers (be32At pre (cur + 4)) := be32At_answers (by omega)
  refine ⟨src, dst, ⟨6, src, dst, ident⟩, off + 40 + size, fun post => ?_⟩
  have hlong : (pre ++ post).length = cur + 8 + post.length := by rw [List.length_append, hlength]
  obtain ⟨number, fuel, fragment, nonInitial, hnumber, hfuel, hloop⟩ :=
    skipExtensions_to src dst (hheader.extend post) (by omega)
  obtain ⟨fuel, rfl⟩ : ∃ n, fuel = n + 1 := ⟨fuel - 1, by omega⟩
  have hskip : skipExtension (pre ++ post) src dst ⟨44, cur, fragment, nonInitial⟩ =
      .ok (some ⟨following, cur + 8, some ⟨6, src, dst, ident⟩, true⟩) := by
    have hroom : ¬(pre ++ post).length < cur + 2 := by omega
    have hwhole : ¬(pre ++ post).length < cur + 8 := by omega
    simp only [skipExtension, if_neg hroom, if_neg hwhole, byteAt_extend post hfollowing,
      be16At_extend post hfrag, be32At_extend post hident, bind, Except.bind, if_true, hoffset,
      ne_eq, not_false_eq_true, decide_true]
  rw [skipExtensions_step hskip rfl] at hloop
  refine ⟨fuel, by omega, ?_⟩
  have hfixed : ¬(pre ++ post).length < off + 40 := by omega
  have hethernet : (0x86dd : Nat) ≠ 0x0800 := by decide
  rw [parseTcp_network (htags.extend post) rfl, if_neg hethernet, if_pos rfl, hlength]
  simp only [ipv6Header, parseFrom, if_neg hfixed, byteAt_extend post hfirst, hversion,
    sliceAt_extend post hsrc, sliceAt_extend post hdst, be16At_extend post hsize, hnumber, hloop,
    ne_eq, not_true_eq_false, if_false, bind, Except.bind]
  cases skipExtensions (pre ++ post) src dst fuel _ with
  | error f => rfl
  | ok skipped =>
    cases skipped with
    | none => rfl
    | some e =>
      by_cases hnext : e.next = 6
      · simp only [hnext, not_true_eq_false, if_false]
      · simp only [hnext, not_false_eq_true, if_true]

/-! ## What the payload can change -/

/-- The flow that the record loop assigns the record at its position to, when it assigns one. -/
def assignedFlow (map : Bytes) (h : Header) (st : ScanState) : Except ScanError (Option Nat) :=
  (scanRecord map h st).map fun out => out.1.flow

/-- What follows a prefix changes neither the parser's answer nor the flow that any state of the
record loop assigns the frame to. -/
structure PayloadIgnored (pre : Bytes) (linktype : Nat) : Prop where
  parse : ∀ a b, parseTcp (pre ++ a) linktype = parseTcp (pre ++ b) linktype
  flow : ∀ (map map' : Bytes) (h : Header) (st : ScanState) (r r' : Record) (a b : Bytes),
    h.linktype = linktype → readRecord map h st = .ok (r, pre ++ a) →
    readRecord map' h st = .ok (r', pre ++ b) → assignedFlow map h st = assignedFlow map' h st

/-- The flow of a frame that has no TCP header depends on the tables alone. -/
theorem assignedFlow_of_later {map packet : Bytes} {h : Header} {st : ScanState} {r : Record}
    {answer : Option ParsedPacket} (hr : readRecord map h st = .ok (r, packet))
    (hparse : parseTcp packet h.linktype = .ok answer)
    (hlater : ∀ p ∈ answer, p.nonInitialFragment = true) :
    assignedFlow map h st =
      match answer.bind fun p => p.fragment.bind st.fragments with
      | none => .ok none
      | some i => if i < st.flows.length then .ok (some i) else .error (.fault .outOfBounds) := by
  unfold assignedFlow scanRecord
  rw [hr]
  simp only [bind, Except.bind, hparse, liftFault]
  cases answer with
  | none => rfl
  | some p =>
    have hp := hlater p rfl
    simp only [placePacket, flowIndex, hp, if_true, bind, Except.bind, Option.bind_some]
    cases hfragment : p.fragment with
    | none => rfl
    | some fk =>
      simp only [Option.bind_some, ScanState.advance]
      cases hflow : st.fragments fk with
      | none => rfl
      | some i =>
        simp only [Option.map_some, appendPacket]
        by_cases hi : i < st.flows.length
        · rw [List.getElem?_eq_getElem hi, if_pos hi]
          rfl
        · rw [List.getElem?_eq_none (Nat.not_lt.mp hi), if_neg hi]
          rfl

/-- One answer for every payload, when it has no flow key, is all there is to see of the payload. -/
theorem payloadIgnored_of_answer {pre : Bytes} {linktype : Nat} (answer : Option ParsedPacket)
    (hparse : ∀ post, parseTcp (pre ++ post) linktype = .ok answer)
    (hlater : ∀ p ∈ answer, p.nonInitialFragment = true) : PayloadIgnored pre linktype where
  parse a b := by rw [hparse, hparse]
  flow map map' h st r r' a b hlinktype hr hr' := by
    subst hlinktype
    rw [assignedFlow_of_later hr (hparse a) hlater, assignedFlow_of_later hr' (hparse b) hlater]

/-- The IPv4 header of a later fragment is read within the prefix. -/
theorem ipv4Header_later {pre : Bytes} {off frag : Nat} {first : UInt8}
    (hfirst : byteAt pre off = .ok first) (hfixed : off + 20 ≤ pre.length)
    (hheader : off + (first &&& 0x0f).toNat * 4 ≤ pre.length)
    (hfrag : be16At pre (off + 6) = .ok frag) (hoffset : frag &&& 0x1fff ≠ 0) :
    ∃ network : Option Network, (∀ post, ipv4Header (pre ++ post) off = .ok network) ∧
      ∀ n ∈ network, n.nonInitial = true := by
  obtain ⟨protocol, hprotocol⟩ : Answers (byteAt pre (off + 9)) := byteAt_answers (by omega)
  obtain ⟨ident, hident⟩ : Answers (be16At pre (off + 4)) := be16At_answers (by omega)
  obtain ⟨src, hsrc⟩ : Answers (sliceAt pre (off + 12) (off + 16)) :=
    sliceAt_answers (by omega) (by omega)
  obtain ⟨dst, hdst⟩ : Answers (sliceAt pre (off + 16) (off + 20)) :=
    sliceAt_answers (by omega) (by omega)
  obtain ⟨total, htotal⟩ : Answers (be16At pre (off + 2)) := be16At_answers (by omega)
  have hroom : ∀ post : Bytes, ¬(pre ++ post).length < off + 20 :=
    fun post => Nat.not_lt.mpr (le_extend post hfixed)
  have hshort : ∀ post : Bytes, ¬(pre ++ post).length < off + (first &&& 0x0f).toNat * 4 :=
    fun post => Nat.not_lt.mpr (le_extend post hheader)
  by_cases hihl : (first &&& 0x0f).toNat * 4 < 20
  · refine ⟨none, fun post => ?_, fun _ hn => (nomatch hn)⟩
    simp only [ipv4Header, if_neg (hroom post), byteAt_extend post hfirst, bind, Except.bind, hihl,
      true_or, if_true]
  by_cases htcp : protocol = 6
  · let fragment : Option FragmentKey :=
      if frag &&& 0x3fff ≠ 0 then some ⟨4, addr4 src, addr4 dst, ident⟩ else none
    refine ⟨some ⟨4, addr4 src, addr4 dst, off + (first &&& 0x0f).toNat * 4, off + total, fragment,
      true⟩, fun post => ?_, fun n hn => ?_⟩
    · simp only [ipv4Header, if_neg (hroom post), byteAt_extend post hfirst, bind, Except.bind,
        hihl, hshort post, or_self, if_false, byteAt_extend post hprotocol, htcp, ne_eq,
        not_true_eq_false, be16At_extend post hfrag, be16At_extend post hident,
        sliceAt_extend post hsrc, sliceAt_extend post hdst, be16At_extend post htotal, hoffset,
        not_false_eq_true, decide_true, fragment]
    · cases hn
      rfl
  · refine ⟨none, fun post => ?_, fun _ hn => (nomatch hn)⟩
    simp only [ipv4Header, if_neg (hroom post), byteAt_extend post hfirst, bind, Except.bind, hihl,
      hshort post, or_self, if_false, byteAt_extend post hprotocol, htcp, ne_eq, not_false_eq_true,
      if_true]

/-- Over IPv4 the parser stops at the header. -/
theorem parseTcp_later_ipv4 {pre : Bytes} (h : LaterFragment pre none) :
    ∃ answer : Option ParsedPacket, (∀ post, parseTcp (pre ++ post) 1 = .ok answer) ∧
      ∀ p ∈ answer, p.nonInitialFragment = true := by
  obtain ⟨off, frag, first, htags, hfirst, hfixed, hheader, hfrag, hoffset⟩ := h
  obtain ⟨network, hnetwork, hlater⟩ := ipv4Header_later hfirst hfixed hheader hfrag hoffset
  have hparse : ∀ post, parseTcp (pre ++ post) 1 = (do
      match ← ipv4Header (pre ++ post) off with
      | none => .ok none
      | some n => tcpHeader (pre ++ post) n) := by
    intro post
    rw [parseTcp_network (htags.extend post) rfl, if_pos rfl]
  cases network with
  | none =>
    refine ⟨none, fun post => ?_, fun _ hp => (nomatch hp)⟩
    rw [hparse, hnetwork]
    rfl
  | some n =>
    refine ⟨some ⟨none, n.fragment, true, false, 0, 0, false⟩, fun post => ?_, fun p hp => ?_⟩
    · rw [hparse, hnetwork]
      show tcpHeader (pre ++ post) n = _
      unfold tcpHeader
      rw [if_pos (hlater n rfl)]
    · cases hp
      rfl

/-- Over IPv6 it stops where no extension header is named. -/
theorem parseFrom_stops {packet src dst : Bytes} {declaredEnd fuel : Nat} {e : Extensions}
    (hstop : isExtension e.next = false) (hlater : e.nonInitial = true) :
    parseFrom packet src dst declaredEnd fuel e =
      .ok (if e.next ≠ 6 then none else some ⟨none, e.fragment, true, false, 0, 0, false⟩) := by
  unfold parseFrom
  rw [skipExtensions_done hstop]
  simp only [bind, Except.bind]
  split
  · rfl
  · unfold tcpHeader
    rw [if_pos hlater]

/-- A payload that ends at once is refused where an extension header is named, -/
theorem parseFrom_nothing {packet src dst : Bytes} {declaredEnd fuel : Nat} {e : Extensions}
    (hext : isExtension e.next = true) (hend : packet.length < e.cur + 2) (hfuel : 0 < fuel) :
    parseFrom packet src dst declaredEnd fuel e = .ok none := by
  obtain ⟨fuel, rfl⟩ : ∃ n, fuel = n + 1 := ⟨fuel - 1, by omega⟩
  have hskip : skipExtension packet src dst e = .ok none := by
    unfold skipExtension
    rw [if_pos hend]
  unfold parseFrom skipExtensions
  rw [if_pos hext, hskip]
  rfl

/-- The bytes of a payload that read as one more extension header, of any kind, before TCP. -/
def forgedHeader : Bytes := [6, 0, 0xff, 0xf8, 0, 0, 0, 0]

/-- and one that reads as an extension header is taken for one. -/
theorem parseFrom_forged {pre src dst : Bytes} {declaredEnd fuel : Nat} {e : Extensions}
    (hext : isExtension e.next = true) (hcur : e.cur = pre.length) (hlater : e.nonInitial = true)
    (hfuel : 0 < fuel) :
    ∃ p, parseFrom (pre ++ forgedHeader) src dst declaredEnd fuel e = .ok (some p) := by
  obtain ⟨fuel, rfl⟩ : ∃ n, fuel = n + 1 := ⟨fuel - 1, by omega⟩
  have hlength : (pre ++ forgedHeader).length = pre.length + 8 := by
    rw [List.length_append]
    rfl
  have hroom : ¬(pre ++ forgedHeader).length < e.cur + 2 := by omega
  have hwhole : ¬(pre ++ forgedHeader).length < e.cur + 8 := by omega
  have hnext : byteAt (pre ++ forgedHeader) e.cur = .ok 6 := by
    rw [hcur, byteAt_length]
    rfl
  -- whatever the kind, eight bytes are skipped and the fragment stays a later one
  have hskip : ∃ fragment, skipExtension (pre ++ forgedHeader) src dst e =
      .ok (some ⟨6, e.cur + 8, fragment, true⟩) := by
    by_cases hfragment : e.next = 44
    · have hfrag : be16At (pre ++ forgedHeader) (e.cur + 2) = .ok 0xfff8 := by
        rw [hcur, be16At_append]
        rfl
      have hident : be32At (pre ++ forgedHeader) (e.cur + 4) = .ok 0 := by
        rw [hcur, be32At_append]
        rfl
      refine ⟨some ⟨6, src, dst, 0⟩, ?_⟩
      simp only [skipExtension, if_neg hroom, hnext, if_pos hfragment, if_neg hwhole, hfrag, hident,
        bind, Except.bind]
      rfl
    · have hsize : byteAt (pre ++ forgedHeader) (e.cur + 1) = .ok 0 := by
        rw [hcur, byteAt_append]
        rfl
      refine ⟨e.fragment, ?_⟩
      simp only [skipExtension, if_neg hroom, hnext, if_neg hfragment, hsize, hlater, bind,
        Except.bind]
      split <;> rfl
  obtain ⟨fragment, hskip⟩ := hskip
  have hstop : parseFrom (pre ++ forgedHeader) src dst declaredEnd fuel
      ⟨6, e.cur + 8, fragment, true⟩ = .ok (some ⟨none, fragment, true, false, 0, 0, false⟩) :=
    parseFrom_stops rfl rfl
  unfold parseFrom at hstop ⊢
  rw [skipExtensions_step hskip hext, hstop]
  exact ⟨_, rfl⟩

/-- A link type that is not Ethernet is refused before the frame is read. -/
theorem payloadIgnored_of_linktype {linktype : Nat} (pre : Bytes) (h : linktype ≠ 1) :
    PayloadIgnored pre linktype := by
  refine payloadIgnored_of_answer none (fun post => ?_) fun _ hp => (nomatch hp)
  unfold parseTcp
  rw [if_pos (.inl h)]

/-- WHAT FOLLOWS THE HEADER OF A LATER FRAGMENT IS IGNORED exactly when the header does not name an
extension header as the next one. -/
theorem payload_ignored_iff {pre : Bytes} {following : Option UInt8}
    (h : LaterFragment pre following) (linktype : Nat) :
    PayloadIgnored pre linktype ↔
      (linktype = 1 → ∀ next ∈ following, isExtension next = false) := by
  by_cases hlinktype : linktype = 1
  case neg =>
    exact ⟨fun _ h1 => absurd h1 hlinktype, fun _ => payloadIgnored_of_linktype pre hlinktype⟩
  subst hlinktype
  cases following with
  | none =>
    obtain ⟨answer, hparse, hlater⟩ := parseTcp_later_ipv4 h
    exact ⟨fun _ _ _ hnext => (nomatch hnext),
      fun _ => payloadIgnored_of_answer answer hparse hlater⟩
  | some next =>
    obtain ⟨src, dst, key, declaredEnd, hparse⟩ := parseTcp_later_ipv6 h
    constructor
    · rintro hignored - _ hmem
      cases hmem
      by_contra hext
      rw [Bool.not_eq_false] at hext
      obtain ⟨fuel, hfuel, hnothing⟩ := hparse []
      obtain ⟨fuel', hfuel', hforged⟩ := hparse forgedHeader
      have hend : (pre ++ []).length < pre.length + 2 := by
        rw [List.append_nil]
        omega
      have hnone : parseFrom (pre ++ []) src dst declaredEnd fuel
          ⟨next, pre.length, some key, true⟩ = .ok none :=
        parseFrom_nothing hext hend (by omega)
      rw [hnone] at hnothing
      obtain ⟨p, hp⟩ : ∃ p, parseFrom (pre ++ forgedHeader) src dst declaredEnd fuel'
          ⟨next, pre.length, some key, true⟩ = .ok (some p) :=
        parseFrom_forged hext rfl rfl (by omega)
      rw [hp, hignored.parse forgedHeader [], hnothing] at hforged
      cases hforged
    · intro hstop
      have hext := hstop rfl next rfl
      refine payloadIgnored_of_answer
        (if next ≠ 6 then none else some ⟨none, some key, true, false, 0, 0, false⟩)
        (fun post => ?_) fun p hp => ?_
      · obtain ⟨fuel, -, hpost⟩ := hparse post
        rw [hpost]
        exact parseFrom_stops hext rfl
      · split at hp
        · cases hp
        · cases hp
          rfl

/-- A later fragment over IPv6 of `2000::1` to `2000::2`, up to its Fragment header, whose
next-header value is the argument. -/
def laterPrefix (following : UInt8) : Bytes :=
  List.replicate 12 2 ++ [0x86, 0xdd] ++ [0x60, 0, 0, 0, 0, 16, 44, 64] ++
    ([0x20] ++ List.replicate 14 0 ++ [1]) ++ ([0x20] ++ List.replicate 14 0 ++ [2]) ++
    [following, 0, 0x05, 0xa8, 0, 0, 0, 9]

theorem laterPrefix_later (following : UInt8) :
    LaterFragment (laterPrefix following) (some following) :=
  .ipv6 14 54 0x05a8 0x60 following (.link _ rfl) rfl rfl (.first 44 rfl) rfl rfl (by decide) rfl

/-- A fragment of plain TCP is one. -/
theorem payload_ignored_iff_tcp : PayloadIgnored (laterPrefix 6) 1 :=
  (payload_ignored_iff (laterPrefix_later 6) 1).mpr fun _ next hnext => by
    cases hnext
    rfl

/-- Behind a Fragment header that names destination options, the payload decides whether the frame
is indexed at all. -/
theorem destinationOptions_read :
    ¬∀ pre following, LaterFragment pre following → PayloadIgnored pre 1 := by
  intro h
  have hignored :=
    (h _ _ (laterPrefix_later 60)).parse [1, 1, 1, 1, 1, 1, 1, 1] [6, 0, 0, 0, 0, 0, 0, 0]
  exact absurd hignored (by decide +kernel)

end PacketTrain.Indexer
