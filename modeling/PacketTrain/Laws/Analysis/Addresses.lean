import PacketTrain.Laws.Analysis.PairQuery
import PacketTrain.Laws.Analysis.Streams
import PacketTrain.Laws.Indexer.RoundTrip

/-!
# The addresses of an index

`endpoint_text` writes an address of the captured frames as text, and everything behind the index knows the
address by that text alone. `index_names_addresses` says that nothing is lost: in an index of any capture two
texts are one exactly when the addresses are, rows stand for one pair of hosts exactly when they connect the
same two addresses, and no text breaks a line or a field of the topology query.
-/

namespace PacketTrain.Analysis

open Indexer Fallible Addresses Lines

/-! ## Addresses as the parser leaves them -/

/-- Four octets, padded, or sixteen. -/
def AddressOf (family : ℕ) (addr : Bytes) : Prop :=
  family = 4 ∧ (∃ octets : Bytes, octets.length = 4 ∧ addr = addr4 octets) ∨
    family = 6 ∧ addr.length = 16

theorem length_sliceAt {data out : Bytes} {a b : ℕ} (h : sliceAt data a b = .ok out) :
    out.length = b - a := by
  rw [sliceAt] at h
  cases hslice : data.slice a b with
  | none =>
    rw [hslice] at h
    cases h
  | some out' =>
    rw [hslice] at h
    cases h
    obtain ⟨hab, hb, rfl⟩ := Bytes.slice_eq_some hslice
    rw [List.length_take, List.length_drop]
    omega

theorem ipv4Header_addresses {packet : Bytes} {off : ℕ} {n : Network}
    (h : ipv4Header packet off = .ok (some n)) : AddressOf n.family n.src ∧ AddressOf n.family n.dst := by
  rw [ipv4Header] at h
  split at h
  · cases h
  obtain ⟨first, -, h⟩ := bind_eq_ok.mp h
  dsimp only at h
  split at h
  · cases h
  obtain ⟨protocol, -, h⟩ := bind_eq_ok.mp h
  split at h
  · cases h
  obtain ⟨frag, -, h⟩ := bind_eq_ok.mp h
  obtain ⟨ident, -, h⟩ := bind_eq_ok.mp h
  obtain ⟨src, hsrc, h⟩ := bind_eq_ok.mp h
  obtain ⟨dst, hdst, h⟩ := bind_eq_ok.mp h
  obtain ⟨total, -, h⟩ := bind_eq_ok.mp h
  cases h
  have hsrc := length_sliceAt hsrc
  have hdst := length_sliceAt hdst
  exact ⟨.inl ⟨rfl, src, by omega, rfl⟩, .inl ⟨rfl, dst, by omega, rfl⟩⟩

theorem ipv6Header_addresses {packet : Bytes} {off : ℕ} {n : Network}
    (h : ipv6Header packet off = .ok (some n)) : AddressOf n.family n.src ∧ AddressOf n.family n.dst := by
  rw [ipv6Header] at h
  split at h
  · cases h
  obtain ⟨first, -, h⟩ := bind_eq_ok.mp h
  split at h
  · cases h
  obtain ⟨src, hsrc, h⟩ := bind_eq_ok.mp h
  obtain ⟨dst, hdst, h⟩ := bind_eq_ok.mp h
  obtain ⟨size, -, h⟩ := bind_eq_ok.mp h
  obtain ⟨next, -, h⟩ := bind_eq_ok.mp h
  obtain ⟨chain, -, h⟩ := bind_eq_ok.mp h
  have hsrc := length_sliceAt hsrc
  have hdst := length_sliceAt hdst
  cases chain with
  | none => cases h
  | some e =>
    dsimp only at h
    split at h
    · cases h
    · cases h
      exact ⟨.inr ⟨rfl, hsrc.trans (by omega)⟩, .inr ⟨rfl, hdst.trans (by omega)⟩⟩

theorem tcpHeader_addresses {packet : Bytes} {n : Network} {p : ParsedPacket}
    (h : tcpHeader packet n = .ok (some p)) {key : FlowKey} (hkey : p.key = some key)
    (hnetwork : AddressOf n.family n.src ∧ AddressOf n.family n.dst) :
    AddressOf key.family key.left.addr ∧ AddressOf key.family key.right.addr := by
  rw [tcpHeader] at h
  split at h
  · cases h
    cases hkey
  split at h
  · cases h
  obtain ⟨sport, -, h⟩ := bind_eq_ok.mp h
  obtain ⟨dport, -, h⟩ := bind_eq_ok.mp h
  obtain ⟨dataOff, -, h⟩ := bind_eq_ok.mp h
  dsimp only at h
  split at h
  · cases h
  obtain ⟨flags, -, h⟩ := bind_eq_ok.mp h
  obtain ⟨window, -, h⟩ := bind_eq_ok.mp h
  cases h
  cases hkey
  rw [canonical]
  split
  · exact hnetwork
  · exact hnetwork.symm

/-- A key that is parsed names addresses. -/
theorem parseTcp_addresses {packet : Bytes} {linktype : ℕ} {p : ParsedPacket}
    (h : parseTcp packet linktype = .ok (some p)) {key : FlowKey} (hkey : p.key = some key) :
    AddressOf key.family key.left.addr ∧ AddressOf key.family key.right.addr := by
  rw [parseTcp] at h
  split at h
  · cases h
  obtain ⟨eth, -, h⟩ := bind_eq_ok.mp h
  obtain ⟨skipped, -, h⟩ := bind_eq_ok.mp h
  rcases skipped with _ | ⟨off, eth⟩
  · cases h
  obtain ⟨network, hnetwork, h⟩ := bind_eq_ok.mp h
  cases network with
  | none => cases h
  | some n =>
    refine tcpHeader_addresses h hkey ?_
    split at hnetwork
    · exact ipv4Header_addresses hnetwork
    · split at hnetwork
      · exact ipv6Header_addresses hnetwork
      · cases hnetwork

/-- What a placement holds was parsed. -/
theorem parsed_of_reached {map : Bytes} {h : Header} {ps : List Placement} {st : ScanState}
    (hr : Reached map h ps st) :
    ∀ p ∈ ps, ∃ packet, parseTcp packet h.linktype = .ok p.parsed := by
  induction hr with
  | start => simp
  | step _ hs ih =>
    intro p hp
    rcases List.mem_append.mp hp with hold | hnew
    · exact ih p hold
    · rw [List.mem_singleton.mp hnew]
      obtain ⟨packet, -, hparse, -⟩ := scanRecord_ok hs
      exact ⟨packet, hparse⟩

/-- So the addresses of an index are those of frames. -/
theorem addresses_of_index {source : Source} {index : Index} (hbuild : buildIndex source = .ok index)
    {f : FlowRow} (hf : f ∈ index.manifest.flows) :
    AddressOf f.key.family f.key.left.addr ∧ AddressOf f.key.family f.key.right.addr := by
  obtain ⟨h, ps, st, -, hscan, hbuilt⟩ := buildIndex_scan hbuild
  obtain ⟨flow, hflow, hrow⟩ := hbuilt.exists_flow hf
  have hreached := reached_scanRecords hscan
  obtain ⟨r, q, rest, hpackets, -, hkey, -⟩ := (hreached.tablesInv.flows f.id flow hflow).first
  have hmem : (r, q) ∈ packetsOf ps f.id := hpackets ▸ List.mem_cons_self
  obtain ⟨p, hp, hpacket⟩ := List.mem_filterMap.mp hmem
  obtain ⟨packet, hparse⟩ := parsed_of_reached hreached p hp
  rw [Placement.packet] at hpacket
  split at hpacket
  · obtain ⟨q', hq', heq⟩ := Option.map_eq_some_iff.mp hpacket
    cases heq
    rw [(row_orients hrow).1]
    exact parseTcp_addresses (hq' ▸ hparse) hkey
  · cases hpacket

/-! ## The texts -/

/-- The text of an address names its family and itself. -/
theorem endpointText_inj {family family' : ℕ} {addr addr' : Bytes} (h : AddressOf family addr)
    (h' : AddressOf family' addr') :
    endpointText family addr = endpointText family' addr' ↔ family = family' ∧ addr = addr' := by
  refine ⟨fun htext => ?_, fun ⟨hfamily, haddr⟩ => by rw [hfamily, haddr]⟩
  have htake : ∀ octets : Bytes, octets.length = 4 → (addr4 octets).take 4 = octets :=
    fun octets hlength => List.take_left' hlength
  rcases h with ⟨rfl, octets, hlength, rfl⟩ | ⟨rfl, hlength⟩ <;>
    rcases h' with ⟨rfl, octets', hlength', rfl⟩ | ⟨rfl, hlength'⟩
  · rw [endpointText, endpointText, if_pos rfl, if_pos rfl, htake _ hlength, htake _ hlength'] at htext
    have hread := congrArg readIpv4 (String.ofList_injective htext)
    rw [readIpv4_ipv4Text (List.ne_nil_of_length_pos (by omega)),
      readIpv4_ipv4Text (List.ne_nil_of_length_pos (by omega))] at hread
    rw [hread]
    exact ⟨rfl, rfl⟩
  · rw [endpointText, endpointText, if_pos rfl, if_neg (by decide)] at htext
    have hcolon := colon_mem_ipv6Text hlength'
    rw [← String.ofList_injective htext] at hcolon
    exact absurd hcolon (colon_not_mem_ipv4Text _)
  · rw [endpointText, endpointText, if_neg (by decide), if_pos rfl] at htext
    have hcolon := colon_mem_ipv6Text hlength
    rw [String.ofList_injective htext] at hcolon
    exact absurd hcolon (colon_not_mem_ipv4Text _)
  · rw [endpointText, endpointText, if_neg (by decide)] at htext
    have hread := congrArg readIpv6 (String.ofList_injective htext)
    rw [readIpv6_ipv6Text hlength, readIpv6_ipv6Text hlength'] at hread
    exact ⟨rfl, hread⟩

/-- No text breaks a line or a field. -/
theorem plainText_endpointText (family : ℕ) (addr : Bytes) : PlainText (endpointText family addr) := by
  have hplain : ∀ c, IsAddressChar c → c ∉ separators := by
    rintro c (rfl | rfl | ⟨d, hd, rfl⟩)
    · decide
    · decide
    · interval_cases d <;> decide
  intro c hc
  rw [endpointText] at hc
  split at hc
  · rw [String.toList_ofList] at hc
    exact hplain c (mem_ipv4Text hc)
  · rw [String.toList_ofList] at hc
    exact hplain c (mem_ipv6Text hc)

/-- Sorted pairs are one exactly when they hold the same two. -/
theorem sortedPair_eq_iff {a b c d : String} :
    sortedPair a b = sortedPair c d ↔ a = c ∧ b = d ∨ a = d ∧ b = c := by
  constructor
  · intro h
    rcases sortedPair_eq_or a b with hab | hab <;> rcases sortedPair_eq_or c d with hcd | hcd <;>
      rw [hab, hcd, Prod.mk.injEq] at h
    · exact .inl h
    · exact .inr h
    · exact .inr ⟨h.2, h.1⟩
    · exact .inl ⟨h.2, h.1⟩
  · rintro (⟨rfl, rfl⟩ | ⟨rfl, rfl⟩)
    · rfl
    · exact sortedPair_comm _ _

/-- The address of an endpoint of a row, with its family. -/
def RowAddress (f : FlowRow) (family : ℕ) (addr : Bytes) : Prop :=
  family = f.key.family ∧ (addr = f.key.left.addr ∨ addr = f.key.right.addr)

/-- THE INDEX NAMES ADDRESSES: in an index of any capture two texts are one exactly when family and address
are, two rows are of one pair of hosts exactly when they connect the same two addresses, and no text breaks a
line or a field. -/
theorem index_names_addresses {source : Source} {index : Index} (hbuild : buildIndex source = .ok index) :
    (∀ f ∈ index.manifest.flows, ∀ f' ∈ index.manifest.flows, ∀ family addr family' addr',
      RowAddress f family addr → RowAddress f' family' addr' →
        (endpointText family addr = endpointText family' addr' ↔ family = family' ∧ addr = addr')) ∧
    (∀ f ∈ index.manifest.flows, ∀ f' ∈ index.manifest.flows,
      (rowPair endpointText f = rowPair endpointText f' ↔ f.key.family = f'.key.family ∧
        (f.key.left.addr = f'.key.left.addr ∧ f.key.right.addr = f'.key.right.addr ∨
          f.key.left.addr = f'.key.right.addr ∧ f.key.right.addr = f'.key.left.addr))) ∧
    ∀ family addr, PlainText (endpointText family addr) := by
  refine ⟨?_, fun f hf f' hf' => ?_, plainText_endpointText⟩
  · rintro f hf f' hf' family addr family' addr' ⟨rfl, haddr⟩ ⟨rfl, haddr'⟩
    obtain ⟨hleft, hright⟩ := addresses_of_index hbuild hf
    obtain ⟨hleft', hright'⟩ := addresses_of_index hbuild hf'
    have hof : AddressOf f.key.family addr := haddr.elim (· ▸ hleft) (· ▸ hright)
    have hof' : AddressOf f'.key.family addr' := haddr'.elim (· ▸ hleft') (· ▸ hright')
    exact endpointText_inj hof hof'
  · obtain ⟨hleft, hright⟩ := addresses_of_index hbuild hf
    obtain ⟨hleft', hright'⟩ := addresses_of_index hbuild hf'
    rw [rowPair_eq, rowPair_eq, sortedPair_eq_iff, endpointText_inj hleft hleft',
      endpointText_inj hright hright', endpointText_inj hleft hright', endpointText_inj hright hleft']
    tauto

/-- The law at work: two clients of one server, so three texts and two pairs. -/
theorem index_names_addresses_interleaved : ∃ index, buildIndex interleaved = .ok index ∧
    index.manifest.flows.map (rowPair endpointText) = [("10.0.0.1", "10.0.0.9"), ("10.0.0.2", "10.0.0.9")] ∧
    ∀ f ∈ index.manifest.flows, ∀ f' ∈ index.manifest.flows,
      (rowPair endpointText f = rowPair endpointText f' ↔ f.key.family = f'.key.family ∧
        (f.key.left.addr = f'.key.left.addr ∧ f.key.right.addr = f'.key.right.addr ∨
          f.key.left.addr = f'.key.right.addr ∧ f.key.right.addr = f'.key.left.addr)) := by
  have hrun : (buildIndex interleaved).map (fun index => index.manifest.flows.map (rowPair endpointText)) =
      .ok [("10.0.0.1", "10.0.0.9"), ("10.0.0.2", "10.0.0.9")] := by decide +kernel
  cases hbuild : buildIndex interleaved with
  | error e =>
    rw [hbuild] at hrun
    cases hrun
  | ok index =>
    rw [hbuild] at hrun
    exact ⟨index, rfl, Except.ok.inj hrun, (index_names_addresses hbuild).2.1⟩

end PacketTrain.Analysis
