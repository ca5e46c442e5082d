import Mathlib.Tactic.IntervalCases
import PacketTrain.Indexer.Wire
import PacketTrain.Laws.Indexer.Parse
import PacketTrain.Laws.Indexer.ScanLoop

/-!
# Parsing recovers the packet

`parseTcp` reads a frame of the grammar back (`Recovers`), whatever stands behind the TCP header: all of
the payload, a part of it, or padding. The two loops are followed by induction on the tag stack and on
the extension chain; the offsets add up because every read is stated relative to what has been read
(`be16At_append` and its siblings).
-/

namespace PacketTrain.Indexer.Wire

open Fallible

@[simp] theorem length_octets {n : Nat} (field : Octets n) : field.1.length = n := field.2

section

variable {field : Bytes} (post : Bytes) {a : Nat}

theorem sliceAt_skip (ha : field.length ≤ a) {b : Nat} (hab : a ≤ b) :
    sliceAt (field ++ post) a b = sliceAt post (a - field.length) (b - field.length) := by
  rw [sliceAt, sliceAt, Bytes.slice_skip post rfl ha hab]

theorem be16At_skip (ha : field.length ≤ a) :
    be16At (field ++ post) a = be16At post (a - field.length) := by
  rw [be16At, be16At, sliceAt_skip post ha (Nat.le_add_right _ _), Nat.sub_add_comm ha]

theorem be32At_skip (ha : field.length ≤ a) :
    be32At (field ++ post) a = be32At post (a - field.length) := by
  rw [be32At, be32At, sliceAt_skip post ha (Nat.le_add_right _ _), Nat.sub_add_comm ha]

theorem byteAt_skip (ha : field.length ≤ a) :
    byteAt (field ++ post) a = byteAt post (a - field.length) := by
  rw [byteAt, byteAt, List.getElem?_append_right ha]

theorem sliceAt_octets {n : Nat} (field : Octets n) : sliceAt (field.1 ++ post) 0 n = .ok field.1 := by
  rw [sliceAt, Bytes.slice_first post field.2]

theorem be16At_field (k : Nat) : be16At (Bytes.toBE 2 k ++ post) 0 = .ok (k % 2 ^ 16) := by
  rw [be16At, Nat.zero_add, sliceAt, Bytes.slice_first post (Bytes.length_toBE 2 k)]
  show Except.ok (Bytes.ofBE (Bytes.toBE 2 k)) = _
  rw [Bytes.ofBE_toBE]
  rfl

theorem be32At_field (k : Nat) : be32At (Bytes.toBE 4 k ++ post) 0 = .ok (k % 2 ^ 32) := by
  rw [be32At, Nat.zero_add, sliceAt, Bytes.slice_first post (Bytes.length_toBE 4 k)]
  show Except.ok (Bytes.ofBE (Bytes.toBE 4 k)) = _
  rw [Bytes.ofBE_toBE]
  rfl

theorem byteAt_pair_zero (a b : UInt8) : byteAt ([a, b] ++ post) 0 = .ok a := rfl

theorem byteAt_pair_one (a b : UInt8) : byteAt ([a, b] ++ post) 1 = .ok b := rfl

end

/-! ## The network header -/

/-- The length of an IPv4 header, as its first byte says. -/
theorem ihl_eq {words : Nat} (h : words ≤ 10) :
    ((UInt8.ofNat (0x45 + words) &&& 0x0f).toNat) * 4 = 20 + words * 4 := by
  interval_cases words <;> decide

theorem control_eq (h : Ipv4Header) :
    h.control < 2 ^ 16 ∧ (h.control &&& 0x3fff ≠ 0 ↔ h.moreFragments = true) ∧
      h.control &&& 0x1fff = 0 := by
  unfold Ipv4Header.control
  cases h.reserved <;> cases h.dontFragment <;> cases h.moreFragments <;> decide

theorem length_ipv4 (h : Ipv4Header) (n : Nat) : (h.bytes n).length = 20 + h.options.words * 4 := by
  simp [Ipv4Header.bytes, h.options.length_eq]
  omega

/-- The fields of an IPv4 header stand where they are read. -/
theorem ipv4_fields (h : Ipv4Header) {n : Nat} (htotal : h.total n < 2 ^ 16) (post : Bytes) :
    byteAt (h.bytes n ++ post) 0 = .ok (UInt8.ofNat (0x45 + h.options.words)) ∧
      be16At (h.bytes n ++ post) 2 = .ok (h.total n) ∧
      be16At (h.bytes n ++ post) 4 = .ok h.ident.val ∧
      be16At (h.bytes n ++ post) 6 = .ok h.control ∧
      byteAt (h.bytes n ++ post) 9 = .ok 6 ∧
      sliceAt (h.bytes n ++ post) 12 16 = .ok h.src.1 ∧
      sliceAt (h.bytes n ++ post) 16 20 = .ok h.dst.1 := by
  have hident := Nat.mod_eq_of_lt h.ident.isLt
  have hcontrol := Nat.mod_eq_of_lt (control_eq h).1
  refine ⟨rfl, ?_⟩
  simp (disch := simp) only [Ipv4Header.bytes, List.append_assoc, be16At_skip, byteAt_skip,
    sliceAt_skip, List.length_cons, List.length_nil, Bytes.length_toBE, length_octets, Nat.reduceAdd,
    Nat.reduceSub, be16At_field, byteAt_pair_one, sliceAt_octets, Nat.mod_eq_of_lt htotal, hident,
    hcontrol, and_self]

theorem ipv4Header_bytes (h : Ipv4Header) {n : Nat} (htotal : h.total n < 2 ^ 16) (pre post : Bytes) :
    ipv4Header (pre ++ (h.bytes n ++ post)) pre.length = .ok (some
      { family := 4
        src := addr4 h.src.1
        dst := addr4 h.dst.1
        tcpOff := pre.length + (20 + h.options.words * 4)
        declaredEnd := pre.length + h.total n
        fragment := (NetworkHeader.ipv4 h).ident.map fun ident =>
          ⟨4, addr4 h.src.1, addr4 h.dst.1, ident⟩
        nonInitial := false }) := by
  obtain ⟨hfirst, htot, hident, hcontrol, hprotocol, hsrc, hdst⟩ := ipv4_fields h htotal post
  obtain ⟨-, hmore, hoffset⟩ := control_eq h
  have hroom : ¬ (pre ++ (h.bytes n ++ post)).length < pre.length + 20 := by
    simp only [List.length_append, length_ipv4]
    omega
  have hihl : ¬ (20 + h.options.words * 4 < 20 ∨
      (pre ++ (h.bytes n ++ post)).length < pre.length + (20 + h.options.words * 4)) := by
    simp only [List.length_append, length_ipv4]
    omega
  have hfragment : (if h.control &&& 0x3fff ≠ 0 then
      some (FragmentKey.mk 4 (addr4 h.src.1) (addr4 h.dst.1) h.ident.val) else none) =
      (NetworkHeader.ipv4 h).ident.map fun ident => ⟨4, addr4 h.src.1, addr4 h.dst.1, ident⟩ := by
    rw [NetworkHeader.ident]
    by_cases hm : h.moreFragments = true
    · rw [if_pos (hmore.mpr hm), if_pos hm, Option.map_some]
    · rw [if_neg (mt hmore.mp hm), if_neg hm, Option.map_none]
  simp only [ipv4Header, if_neg hroom, byteAt_length, byteAt_append, be16At_append, sliceAt_append,
    hfirst, htot, hident, hcontrol, hprotocol, hsrc, hdst, bind, Except.bind,
    ihl_eq h.options.short, if_neg hihl, ne_eq, not_true_eq_false, if_false, hoffset, decide_false]
  rw [← hfragment]

/-! ### The extension chain -/

/-- The fragment key that an IPv6 header leads to. -/
def keyOf (src dst : Bytes) (ident : Nat) : FragmentKey := ⟨6, src, dst, ident⟩

theorem low_eq {low : Nat} (h : low < 8) : low &&& 0xfff8 = 0 := by
  interval_cases low <;> decide

/-- An extension header is skipped by its own length unit, and a fragment header is remembered. -/
theorem skipExtension_bytes (e : Extension) (next : UInt8) (pre post src dst : Bytes)
    (fragment : Option FragmentKey) :
    skipExtension (pre ++ (e.bytes next ++ post)) src dst ⟨e.number, pre.length, fragment, false⟩ =
      .ok (some ⟨next, pre.length + (e.bytes next).length,
        (e.ident.map (keyOf src dst)).or fragment, false⟩) := by
  have hsize : 2 ≤ (e.bytes next).length := by
    cases e <;> simp [Extension.bytes]
  have hroom : ¬ (pre ++ (e.bytes next ++ post)).length < pre.length + 2 := by
    simp only [List.length_append]
    omega
  have hnext : byteAt (e.bytes next ++ post) 0 = .ok next := by
    cases e <;> rfl
  simp only [skipExtension, if_neg hroom, byteAt_length, byteAt_append, hnext, bind, Except.bind]
  cases e with
  | options kind units body =>
    have hunits : byteAt ((Extension.options kind units body).bytes next ++ post) 1 = .ok units := rfl
    have hlen : ((Extension.options kind units body).bytes next).length = (units.toNat + 1) * 8 := by
      simp [Extension.bytes]
      omega
    rw [hlen]
    cases kind <;> simp [Extension.number, hunits, Extension.ident]
  | authentication units body =>
    have hunits : byteAt ((Extension.authentication units body).bytes next ++ post) 1 = .ok units := rfl
    have hlen : ((Extension.authentication units body).bytes next).length = (units.toNat + 2) * 4 := by
      simp [Extension.bytes]
      omega
    rw [hlen]
    simp [Extension.number, hunits, Extension.ident]
  | fragment reserved low ident =>
    have hlen : ((Extension.fragment reserved low ident).bytes next).length = 8 := by
      simp [Extension.bytes]
    have hlow : low.val % 2 ^ 16 = low.val := Nat.mod_eq_of_lt (by omega)
    have hident : ident.val % 2 ^ 32 = ident.val := Nat.mod_eq_of_lt ident.isLt
    have hoffset : be16At ((Extension.fragment reserved low ident).bytes next ++ post) 2 =
        .ok low.val := by
      simp (disch := simp) only [Extension.bytes, List.append_assoc, be16At_skip, List.length_cons,
        List.length_nil, Nat.reduceAdd, Nat.reduceSub, be16At_field, hlow]
    have hkey : be32At ((Extension.fragment reserved low ident).bytes next ++ post) 4 =
        .ok ident.val := by
      simp (disch := simp) only [Extension.bytes, List.append_assoc, be32At_skip, List.length_cons,
        List.length_nil, Bytes.length_toBE, Nat.reduceAdd, Nat.reduceSub, be32At_field, hident]
    have hlong : ¬ (pre ++ ((Extension.fragment reserved low ident).bytes next ++ post)).length <
        pre.length + 8 := by
      simp only [List.length_append, hlen]
      omega
    have hnumber : (Extension.fragment reserved low ident).number = 44 := rfl
    rw [if_pos hnumber, if_neg hlong, be16At_append, be32At_append, hoffset, hkey, hlen]
    simp [low_eq low.isLt, Extension.ident, keyOf]

theorem isExtension_number (e : Extension) : isExtension e.number = true := by
  cases e with
  | options kind => cases kind <;> rfl
  | authentication | fragment => rfl

theorem getLast?_ident_cons (e : Extension) (chain : List Extension) :
    ((e :: chain).filterMap Extension.ident).getLast? =
      (chain.filterMap Extension.ident).getLast?.or e.ident := by
  cases h : e.ident with
  | none => rw [List.filterMap_cons_none h, Option.or_none]
  | some ident =>
    rw [List.filterMap_cons_some h, List.getLast?_cons]
    cases (chain.filterMap Extension.ident).getLast? <;> rfl

/-- The extension loop ends at the TCP header, with the last fragment header's key. -/
theorem skipExtensions_chain (chain : List Extension) (post src dst : Bytes) :
    ∀ (pre : Bytes) (fragment : Option FragmentKey) (fuel : Nat), chain.length ≤ fuel →
      skipExtensions (pre ++ (chainBytes chain ++ post)) src dst fuel
        ⟨nextOf chain, pre.length, fragment, false⟩ =
      .ok (some ⟨6, pre.length + (chainBytes chain).length,
        ((chain.filterMap Extension.ident).getLast?.map (keyOf src dst)).or fragment, false⟩) := by
  induction chain with
  | nil =>
    intro pre fragment fuel _
    exact skipExtensions_done rfl fuel
  | cons e chain ih =>
    intro pre fragment fuel hfuel
    cases fuel with
    | zero => cases hfuel
    | succ fuel =>
      have hstep := skipExtension_bytes e (nextOf chain) pre (chainBytes chain ++ post) src dst fragment
      have hrest := ih (pre ++ e.bytes (nextOf chain))
        ((e.ident.map (keyOf src dst)).or fragment) fuel (Nat.le_of_succ_le_succ hfuel)
      rw [List.length_append, List.append_assoc] at hrest
      rw [chainBytes, List.append_assoc]
      refine (skipExtensions_step hstep (isExtension_number e) fuel).trans (hrest.trans ?_)
      rw [getLast?_ident_cons, List.length_append, Nat.add_assoc]
      cases (chain.filterMap Extension.ident).getLast? <;> cases e.ident <;> rfl

/-! ### IPv6 -/

theorem version_eq {low : Nat} (h : low < 16) : UInt8.ofNat (0x60 + low) >>> 4 = 6 := by
  interval_cases low <;> decide

theorem length_fixed (h : Ipv6Header) (n : Nat) : (h.fixed n).length = 40 := by
  simp [Ipv6Header.fixed]

theorem length_chain_le (chain : List Extension) : chain.length ≤ (chainBytes chain).length := by
  induction chain with
  | nil => exact Nat.zero_le _
  | cons e chain ih =>
    have hsize : 1 ≤ (e.bytes (nextOf chain)).length := by
      cases e <;> simp [Extension.bytes]
    rw [chainBytes, List.length_append, List.length_cons]
    omega

/-- The fields of an IPv6 header stand where they are read. -/
theorem ipv6_fields (h : Ipv6Header) {n : Nat} (htotal : h.total n < 2 ^ 16) (post : Bytes) :
    byteAt (h.fixed n ++ post) 0 = .ok (UInt8.ofNat (0x60 + h.trafficClass)) ∧
      be16At (h.fixed n ++ post) 4 = .ok (h.total n) ∧
      byteAt (h.fixed n ++ post) 6 = .ok (nextOf h.chain) ∧
      sliceAt (h.fixed n ++ post) 8 24 = .ok h.src.1 ∧
      sliceAt (h.fixed n ++ post) 24 40 = .ok h.dst.1 := by
  refine ⟨rfl, ?_⟩
  simp (disch := simp) only [Ipv6Header.fixed, List.append_assoc, be16At_skip, byteAt_skip,
    sliceAt_skip, List.length_cons, List.length_nil, Bytes.length_toBE, length_octets, Nat.reduceAdd,
    Nat.reduceSub, be16At_field, byteAt_pair_zero, sliceAt_octets, Nat.mod_eq_of_lt htotal, and_self]

theorem ipv6Header_bytes (h : Ipv6Header) {n : Nat} (htotal : h.total n < 2 ^ 16) (pre post : Bytes) :
    ipv6Header (pre ++ (h.bytes n ++ post)) pre.length = .ok (some
      { family := 6
        src := h.src.1
        dst := h.dst.1
        tcpOff := pre.length + (h.bytes n).length
        declaredEnd := pre.length + 40 + h.total n
        fragment := (NetworkHeader.ipv6 h).ident.map (keyOf h.src.1 h.dst.1)
        nonInitial := false }) := by
  rw [Ipv6Header.bytes, List.append_assoc]
  obtain ⟨hfirst, htot, hnext, hsrc, hdst⟩ := ipv6_fields h htotal (chainBytes h.chain ++ post)
  have hfixed := length_fixed h n
  have hroom : ¬ (pre ++ (h.fixed n ++ (chainBytes h.chain ++ post))).length < pre.length + 40 := by
    simp only [List.length_append, hfixed]
    omega
  have hfuel : h.chain.length ≤ (pre ++ (h.fixed n ++ (chainBytes h.chain ++ post))).length := by
    have := length_chain_le h.chain
    simp only [List.length_append]
    omega
  have hchain := skipExtensions_chain h.chain post h.src.1 h.dst.1 (pre ++ h.fixed n) none _ hfuel
  have hpre : (pre ++ h.fixed n).length = pre.length + 40 := by
    rw [List.length_append, hfixed]
  have hend : pre.length + (h.fixed n ++ chainBytes h.chain).length =
      pre.length + 40 + (chainBytes h.chain).length := by
    rw [List.length_append, hfixed, Nat.add_assoc]
  rw [hpre, List.append_assoc, Option.or_none] at hchain
  simp only [ipv6Header, if_neg hroom, byteAt_length, byteAt_append, be16At_append, sliceAt_append,
    hfirst, htot, hnext, hsrc, hdst, bind, Except.bind, version_eq h.trafficClass.isLt, ne_eq,
    not_true_eq_false, if_false, hchain, hend]
  rfl

/-! ## The tag stack -/

theorem isTag_number (p : TagProtocol) : isTag p.number = true := by
  cases p <;> rfl

theorem typeOf_lt {last : Nat} (hlast : last < 2 ^ 16) (tags : List Tag) : typeOf last tags < 2 ^ 16 := by
  cases tags with
  | nil => exact hlast
  | cons tag tags =>
    rw [typeOf]
    cases tag.protocol <;> decide

/-- The tag loop ends at the network header. -/
theorem skipTags_stack {last : Nat} (hlast : isTag last = false) (hsmall : last < 2 ^ 16)
    (tags : List Tag) (post : Bytes) : ∀ (pre : Bytes) (fuel : Nat), tags.length ≤ fuel →
      skipTags (pre ++ (tagBytes last tags ++ post)) fuel pre.length (typeOf last tags) =
        .ok (some (pre.length + (tagBytes last tags).length, last)) := by
  induction tags with
  | nil =>
    intro pre fuel _
    exact skipTags_done hlast fuel _
  | cons tag tags ih =>
    intro pre fuel hfuel
    cases fuel with
    | zero => cases hfuel
    | succ fuel =>
      have hrest := ih (pre ++ (tag.control.1 ++ Bytes.toBE 2 (typeOf last tags))) fuel
        (Nat.le_of_succ_le_succ hfuel)
      have hroom : pre.length + 4 ≤ (pre ++ (tagBytes last (tag :: tags) ++ post)).length := by
        simp only [tagBytes, List.length_append, length_octets, Bytes.length_toBE]
        omega
      have htype : be16At (pre ++ (tagBytes last (tag :: tags) ++ post)) (pre.length + 2) =
          .ok (typeOf last tags) := by
        rw [be16At_append]
        simp (disch := simp) only [tagBytes, List.append_assoc, be16At_skip, length_octets,
          Nat.reduceSub, be16At_field, Nat.mod_eq_of_lt (typeOf_lt hsmall tags)]
      refine (skipTags_step (isTag_number tag.protocol) hroom htype fuel).trans ?_
      simp only [List.length_append, length_octets, Bytes.length_toBE, List.append_assoc,
        Nat.reduceAdd] at hrest
      simp only [tagBytes, List.append_assoc, List.length_append, length_octets, Bytes.length_toBE]
      rw [hrest]
      congr 3
      omega

theorem length_tags_le (last : Nat) (tags : List Tag) : tags.length ≤ (tagBytes last tags).length := by
  induction tags with
  | nil => exact Nat.zero_le _
  | cons tag tags ih =>
    simp only [tagBytes, List.length_append, length_octets, Bytes.length_toBE, List.length_cons]
    omega

/-! ## TCP -/

theorem dataOffset_eq {words low : Nat} (hwords : words ≤ 10) (hlow : low < 16) :
    (UInt8.ofNat ((5 + words) * 16 + low) >>> 4).toNat * 4 = 20 + words * 4 := by
  have hbyte : (UInt8.ofNat ((5 + words) * 16 + low)).toNat = (5 + words) * 16 + low := by
    rw [UInt8.toNat_ofNat', Nat.mod_eq_of_lt (by omega)]
  rw [UInt8.toNat_shiftRight, hbyte, Nat.shiftRight_eq_div_pow]
  show ((5 + words) * 16 + low) / 16 * 4 = _
  omega

theorem length_tcp (h : TcpHeader) : h.bytes.length = h.length := by
  simp [TcpHeader.bytes, TcpHeader.length, h.options.length_eq]
  omega

/-- The fields of a TCP header stand where they are read. -/
theorem tcp_fields (h : TcpHeader) (post : Bytes) :
    be16At (h.bytes ++ post) 0 = .ok h.srcPort.val ∧
      be16At (h.bytes ++ post) 2 = .ok h.dstPort.val ∧
      byteAt (h.bytes ++ post) 12 =
        .ok (UInt8.ofNat ((5 + h.options.words) * 16 + h.reserved)) ∧
      byteAt (h.bytes ++ post) 13 = .ok h.flags ∧
      be16At (h.bytes ++ post) 14 = .ok h.window.val := by
  have hsrc := Nat.mod_eq_of_lt h.srcPort.isLt
  have hdst := Nat.mod_eq_of_lt h.dstPort.isLt
  have hwindow := Nat.mod_eq_of_lt h.window.isLt
  simp (disch := simp) only [TcpHeader.bytes, List.append_assoc, be16At_skip, byteAt_skip,
    List.length_cons, List.length_nil, Bytes.length_toBE, length_octets, Nat.reduceAdd, Nat.reduceSub,
    be16At_field, byteAt_pair_zero, byteAt_pair_one, hsrc, hdst, hwindow, and_self]

theorem tcpHeader_bytes (h : TcpHeader) (n : Network) {payload : Nat} (pre post : Bytes)
    (hinitial : n.nonInitial = false) (hoff : n.tcpOff = pre.length)
    (hend : n.declaredEnd = pre.length + (h.length + payload)) (hpayload : payload < 2 ^ 32) :
    tcpHeader (pre ++ (h.bytes ++ post)) n = .ok (some
      { key := some (canonical n.family n.src h.srcPort n.dst h.dstPort).1
        fragment := n.fragment
        nonInitialFragment := false
        srcIsLeft := (canonical n.family n.src h.srcPort n.dst h.dstPort).2
        flags := h.flags
        payload := payload
        zeroWindow := h.window.val = 0 && h.flags &&& 0x10 ≠ 0 && h.flags &&& 0x02 = 0 }) := by
  obtain ⟨hsrc, hdst, hdata, hflags, hwindow⟩ := tcp_fields h post
  have hlen : h.length = 20 + h.options.words * 4 := rfl
  have hroom : ¬ (pre ++ (h.bytes ++ post)).length < pre.length + 20 := by
    simp only [List.length_append, length_tcp]
    omega
  have hfits : ¬ (20 + h.options.words * 4 < 20 ∨
      (pre ++ (h.bytes ++ post)).length < pre.length + (20 + h.options.words * 4) ∨
      pre.length + (h.length + payload) < pre.length + (20 + h.options.words * 4)) := by
    simp only [List.length_append, length_tcp]
    omega
  have hdeclared : (pre.length + (h.length + payload) - (pre.length + (20 + h.options.words * 4))) %
      2 ^ 32 = payload := by
    rw [hlen, Nat.add_sub_add_left, Nat.add_sub_cancel_left, Nat.mod_eq_of_lt hpayload]
  have hsrc' : be16At (pre ++ (h.bytes ++ post)) pre.length = .ok h.srcPort.val :=
    (be16At_append pre _ 0).trans hsrc
  simp only [tcpHeader, hinitial, Bool.false_eq_true, if_false, hoff, hend, if_neg hroom, hsrc',
    be16At_append, byteAt_append, hdst, hdata, hflags, hwindow, bind, Except.bind,
    dataOffset_eq h.options.short h.reserved.isLt, if_neg hfits, hdeclared]

/-! ## The frame -/

theorem etherType_eq (n : NetworkHeader) : isTag n.etherType = false ∧ n.etherType < 2 ^ 16 := by
  cases n <;> simp [NetworkHeader.etherType, isTag]

/-- Either network header is read as what it says. -/
theorem network_bytes (h : NetworkHeader) {n : Nat} (htotal : h.total n < 2 ^ 16) (pre post : Bytes) :
    (if h.etherType = 0x0800 then ipv4Header (pre ++ (h.bytes n ++ post)) pre.length
      else if h.etherType = 0x86dd then ipv6Header (pre ++ (h.bytes n ++ post)) pre.length
      else .ok none) = .ok (some
        { family := h.family
          src := h.src
          dst := h.dst
          tcpOff := (pre ++ h.bytes n).length
          declaredEnd := (pre ++ h.bytes n).length + n
          fragment := h.ident.map fun ident => ⟨h.family, h.src, h.dst, ident⟩
          nonInitial := false }) := by
  cases h with
  | ipv4 h =>
    have hlen : (pre ++ h.bytes n).length = pre.length + (20 + h.options.words * 4) := by
      rw [List.length_append, length_ipv4]
    have hend : pre.length + (20 + h.options.words * 4) + n = pre.length + h.total n := by
      rw [Ipv4Header.total, Nat.add_assoc]
    simp only [NetworkHeader.bytes, hlen, hend]
    exact ipv4Header_bytes h htotal pre post
  | ipv6 h =>
    have hlen : (pre ++ h.bytes n).length = pre.length + (h.bytes n).length := List.length_append
    have hend : pre.length + (h.bytes n).length + n = pre.length + 40 + h.total n := by
      rw [Ipv6Header.bytes, List.length_append, length_fixed, Ipv6Header.total]
      omega
    simp only [NetworkHeader.bytes, hlen, hend]
    exact ipv6Header_bytes h htotal pre post

/-- A frame is read back, whatever stands behind its TCP header. -/
theorem parseTcp_headers (f : Frame) (rest : Bytes) :
    parseTcp (f.headers ++ rest) 1 = .ok (some f.parsed) := by
  obtain ⟨htag, hsmall⟩ := etherType_eq f.network
  let first := f.addresses.1 ++ Bytes.toBE 2 (typeOf f.network.etherType f.tags)
  let stack := tagBytes f.network.etherType f.tags
  let network := f.network.bytes (f.tcp.length + f.payload.length)
  have hbytes : f.headers ++ rest = first ++ (stack ++ (network ++ (f.tcp.bytes ++ rest))) := by
    simp [Frame.headers, first, stack, network]
  have hfirst : first.length = 14 := by simp [first]
  have hlong : ¬ ((1 : Nat) ≠ 1 ∨ (f.headers ++ rest).length < 14) := by
    rw [hbytes, List.length_append]
    omega
  have htype : be16At (f.headers ++ rest) 12 = .ok (typeOf f.network.etherType f.tags) := by
    rw [hbytes]
    simp (disch := simp) only [first, List.append_assoc, be16At_skip, length_octets, Nat.reduceSub,
      be16At_field, Nat.mod_eq_of_lt (typeOf_lt hsmall f.tags)]
  have hfuel : f.tags.length ≤ (f.headers ++ rest).length := by
    have := length_tags_le f.network.etherType f.tags
    simp only [hbytes, List.length_append, stack]
    omega
  have hoff : (first ++ stack).length = 14 + stack.length := by rw [List.length_append, hfirst]
  have htags := skipTags_stack htag hsmall f.tags (network ++ (f.tcp.bytes ++ rest)) first _ hfuel
  rw [hfirst, ← hbytes] at htags
  have hnetwork := network_bytes f.network f.fits (first ++ stack) (f.tcp.bytes ++ rest)
  rw [hoff, List.append_assoc, ← hbytes] at hnetwork
  have hpayload : f.payload.length < 2 ^ 32 := by
    have hfits := f.fits
    cases hn : f.network with
    | ipv4 h =>
      rw [hn, NetworkHeader.total, Ipv4Header.total] at hfits
      omega
    | ipv6 h =>
      rw [hn, NetworkHeader.total, Ipv6Header.total] at hfits
      omega
  have htcp := tcpHeader_bytes f.tcp
    { family := f.network.family
      src := f.network.src
      dst := f.network.dst
      tcpOff := (first ++ stack ++ network).length
      declaredEnd := (first ++ stack ++ network).length + (f.tcp.length + f.payload.length)
      fragment := f.fragmentKey
      nonInitial := false } (first ++ stack ++ network) rest rfl rfl rfl hpayload
  rw [List.append_assoc (first ++ stack), List.append_assoc first, ← hbytes] at htcp
  simp only [parseTcp, if_neg hlong, htype, htags, bind, Except.bind]
  rw [hnetwork]
  exact htcp

/-! ## Keys -/

theorem endpoint_le_total (a b : Endpoint) : a.le b = true ∨ b.le a = true := by
  simp only [Endpoint.le, Bool.or_eq_true, Bool.and_eq_true, decide_eq_true_eq]
  by_cases hab : a.addr < b.addr
  · exact .inl (.inl hab)
  by_cases hba : b.addr < a.addr
  · exact .inr (.inl hba)
  have haddr : a.addr = b.addr := List.le_antisymm (List.not_lt.mp hba) (List.not_lt.mp hab)
  rcases Nat.le_total a.port b.port with hport | hport
  · exact .inl (.inr ⟨haddr, hport⟩)
  · exact .inr (.inr ⟨haddr.symm, hport⟩)

theorem endpoint_le_antisymm {a b : Endpoint} (hab : a.le b = true) (hba : b.le a = true) : a = b := by
  simp only [Endpoint.le, Bool.or_eq_true, Bool.and_eq_true, decide_eq_true_eq] at hab hba
  have haddr : a.addr = b.addr := by
    by_contra hne
    have hlt : a.addr < b.addr := hab.resolve_right fun h => hne h.1
    have hgt : b.addr < a.addr := hba.resolve_right fun h => hne h.1.symm
    exact List.lt_asymm hlt hgt
  have hport : a.port = b.port := by
    have hle := hab.resolve_left (haddr ▸ List.lt_irrefl a.addr)
    have hge := hba.resolve_left (haddr ▸ List.lt_irrefl a.addr)
    exact Nat.le_antisymm hle.2 hge.2
  cases a
  cases b
  cases haddr
  cases hport
  rfl

/-- The endpoints stand in order, and the flag says which of them sent. -/
theorem canonical_spec (family : Nat) (a b : Endpoint) :
    let keyed := canonical family a.addr a.port b.addr b.port
    keyed.1.family = family ∧ keyed.1.left.le keyed.1.right = true ∧
      (if keyed.2 then keyed.1.left = a ∧ keyed.1.right = b
        else keyed.1.left = b ∧ keyed.1.right = a) := by
  by_cases hab : a.le b = true
  · simp [canonical, hab]
  · have hba : b.le a = true := (endpoint_le_total a b).resolve_left hab
    simp [canonical, hab, hba]

/-- Both directions have one key. -/
theorem canonical_swap (family : Nat) (a b : Endpoint) :
    (canonical family b.addr b.port a.addr a.port).1 = (canonical family a.addr a.port b.addr b.port).1 ∧
      (a ≠ b → (canonical family b.addr b.port a.addr a.port).2 =
        !(canonical family a.addr a.port b.addr b.port).2) := by
  by_cases hab : a.le b = true
  · by_cases hba : b.le a = true
    · have heq := endpoint_le_antisymm hab hba
      simp [heq]
    · simp [canonical, hab, hba]
  · have hba : b.le a = true := (endpoint_le_total a b).resolve_left hab
    simp [canonical, hab, hba]

/-- The fragment key is there when the datagram is fragmented. -/
theorem fragmentKey_isSome (f : Frame) : f.fragmentKey.isSome = true ↔ f.network.Fragmented := by
  rw [Frame.fragmentKey, Option.isSome_map]
  cases f.network with
  | ipv4 h =>
    rw [NetworkHeader.ident, NetworkHeader.Fragmented]
    cases h.moreFragments <;> simp
  | ipv6 h =>
    have hident : ∀ e : Extension, e.ident ≠ none ↔ e.number = 44 := by
      intro e
      cases e with
      | options kind => cases kind <;> simp [Extension.ident, Extension.number]
      | authentication | fragment => simp [Extension.ident, Extension.number]
    rw [NetworkHeader.ident, NetworkHeader.Fragmented, List.getLast?_isSome, Ne,
      List.filterMap_eq_nil_iff]
    simp only [not_forall, exists_prop, ← hident, Ne]

/-! ## The law -/

/-- The parser recovers the packet of a frame. -/
structure Recovers (f : Frame) : Prop where
  /-- Cut anywhere behind the TCP header, the frame parses to its packet, -/
  cut : ∀ n, f.headers.length ≤ n → parseTcp (f.bytes.take n) 1 = .ok (some f.parsed)
  /-- and with any padding. -/
  padded : ∀ padding, parseTcp (f.bytes ++ padding) 1 = .ok (some f.parsed)
  /-- The key is the canonical one, and says with the flag who sent. -/
  key : ∃ key, f.parsed.key = some key ∧ key.family = f.network.family ∧
    key.left.le key.right = true ∧
    (if f.parsed.srcIsLeft then key.left = f.source ∧ key.right = f.destination
      else key.left = f.destination ∧ key.right = f.source)
  /-- A frame of the other direction has the same key. -/
  back : ∀ g : Frame, g.network.family = f.network.family → g.source = f.destination →
    g.destination = f.source → g.parsed.key = f.parsed.key ∧
      (f.source ≠ f.destination → g.parsed.srcIsLeft = !f.parsed.srcIsLeft)
  flags : f.parsed.flags = f.tcp.flags
  fragment : f.parsed.fragment.isSome = true ↔ f.network.Fragmented
  payload : f.parsed.payload = f.payload.length

/-- PARSING RECOVERS THE PACKET, for every frame of the grammar. -/
theorem parse_recovers (f : Frame) : Recovers f where
  cut n hn := by
    have htake : f.bytes.take n = f.headers ++ f.payload.take (n - f.headers.length) := by
      rw [Frame.bytes, List.take_append, List.take_of_length_le hn]
    rw [htake, parseTcp_headers]
  padded padding := by
    rw [Frame.bytes, List.append_assoc, parseTcp_headers]
  key := ⟨_, rfl, canonical_spec f.network.family f.source f.destination⟩
  back g hfamily hsource hdestination := by
    have hswap := canonical_swap f.network.family f.source f.destination
    have hparsed : g.parsed.key = some (canonical g.network.family g.source.addr g.source.port
        g.destination.addr g.destination.port).1 ∧ g.parsed.srcIsLeft = (canonical g.network.family
          g.source.addr g.source.port g.destination.addr g.destination.port).2 := ⟨rfl, rfl⟩
    rw [hparsed.1, hparsed.2, hfamily, hsource, hdestination, hswap.1]
    exact ⟨rfl, hswap.2⟩
  flags := rfl
  fragment := fragmentKey_isSome f
  payload := rfl

/-- A first fragment over IPv6, behind two tags and three extension headers. -/
def taggedFragment : Frame where
  addresses := ⟨List.replicate 12 1, rfl⟩
  tags := [⟨.service, ⟨[0, 5], rfl⟩⟩, ⟨.customer, ⟨[0, 6], rfl⟩⟩]
  network := .ipv6
    { trafficClass := 3
      label := ⟨[0, 0, 0], rfl⟩
      hopLimit := 64
      src := ⟨List.replicate 16 2, rfl⟩
      dst := ⟨List.replicate 16 1, rfl⟩
      chain := [.options .hopByHop 0 ⟨List.replicate 6 0, rfl⟩,
        .authentication 4 ⟨List.replicate 22 7, rfl⟩, .fragment 0 1 99] }
  tcp :=
    { srcPort := 50000
      dstPort := 443
      numbers := ⟨List.replicate 8 0, rfl⟩
      reserved := 0
      flags := 0x18
      window := 512
      trailer := ⟨List.replicate 4 0, rfl⟩
      options := ⟨List.replicate 12 1, 3, rfl, by decide⟩ }
  payload := [71, 69, 84]
  fits := by decide

example : parseTcp (taggedFragment.bytes.take 135) 1 = .ok (some
    { key := some ⟨6, ⟨List.replicate 16 1, 443⟩, ⟨List.replicate 16 2, 50000⟩⟩
      fragment := some ⟨6, List.replicate 16 2, List.replicate 16 1, 99⟩
      nonInitialFragment := false
      srcIsLeft := false
      flags := 0x18
      payload := 3
      zeroWindow := false }) := by decide +kernel

end PacketTrain.Indexer.Wire
