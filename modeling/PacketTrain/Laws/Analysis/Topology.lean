import PacketTrain.Laws.Analysis.PairQuery
import PacketTrain.Laws.Analysis.Streams
import PacketTrain.Laws.Indexer.Reindex

/-!
# Two topologies of one manifest

`build_topology` adds up the stream list in one loop, and the indexer adds up the manifest's rows by host
pair. The list names a flow's client first and the row its lesser endpoint, but a pair is sorted in both
(`sortedPair_streamSummary`), and the list is in the order of the flows' numbers, so that its first stream
of a pair is the least of the group (`stream_groupRow`).
-/

namespace PacketTrain.Analysis

open Indexer
open Lines (decimal mem_intercalate not_mem_separators)

/-! ## `build_topology` -/

/-- The totals of an edge. -/
structure PairTotals where
  source : String
  target : String
  bytes : ℤ
  packets : ℤ
  streams : ℤ
deriving DecidableEq, Repr

def Link.totals (e : Link) : PairTotals := ⟨e.source, e.target, e.bytes, e.packets, e.streams⟩

def PairEdge.totals (e : PairEdge) : PairTotals := ⟨e.source, e.target, e.bytes, e.packets, e.streams⟩

def StreamSummary.pair (s : StreamSummary) : String × String := (s.client, s.server)

/-- The host pairs of a list of streams. -/
def hostPairs (streams : List StreamSummary) : List (String × String) :=
  pairsOf StreamSummary.pair streams

theorem pairTables_concat (streams : List StreamSummary) (s : StreamSummary) :
    pairTables (streams ++ [s]) = (pairTables streams).addStream s := by
  rw [pairTables, List.foldl_append]
  rfl

theorem edges_pairTables (streams : List StreamSummary) : (pairTables streams).edges =
    Dict.tally .zero (fun s => sortedPair s.client s.server) EdgeTotals.add streams := by
  induction streams using List.reverseRecOn with
  | nil => rfl
  | append_singleton streams s ih =>
    rw [pairTables_concat, Dict.tally_concat, ← ih, PairTables.addStream]

theorem hosts_pairTables (streams : List StreamSummary) : (pairTables streams).hosts =
    hostTable StreamSummary.pair (fun s => s.bytes) (fun s => s.packets) streams := by
  induction streams using List.reverseRecOn with
  | nil => rfl
  | append_singleton streams s ih =>
    rw [pairTables_concat, PairTables.addStream, ih, hostTable, hostTable, List.foldl_append]
    rfl

/-- What the streams of a pair add up to. -/
theorem foldl_edge (d : EdgeTotals) (l : List StreamSummary) :
    (l.foldl EdgeTotals.add d).bytes = d.bytes + (l.map fun s => (s.bytes : ℤ)).sum ∧
    (l.foldl EdgeTotals.add d).packets = d.packets + (l.map fun s => (s.packets : ℤ)).sum ∧
    (l.foldl EdgeTotals.add d).streams = d.streams + l.length ∧
    (l.foldl EdgeTotals.add d).stream = d.stream.or (l.head?.map fun s => s.id) := by
  induction l generalizing d with
  | nil => simp
  | cons s l ih =>
    obtain ⟨hbytes, hpackets, hstreams, hstream⟩ := ih (d.add s)
    rw [List.foldl_cons, hbytes, hpackets, hstreams, hstream]
    refine ⟨by simp [EdgeTotals.add, add_assoc], by simp [EdgeTotals.add, add_assoc], ?_, ?_⟩
    · simp [EdgeTotals.add, Nat.add_comm, Nat.add_left_comm]
    · rw [EdgeTotals.add, Option.or_assoc]
      rfl

theorem perm_keys_edges (streams : List StreamSummary) :
    (Dict.keys (pairTables streams).edges).Perm (hostPairs streams) := by
  rw [edges_pairTables]
  exact Dict.perm_keys_tally _ _ _ _

/-- With room for each pair, each is selected. -/
theorem perm_selectedPairs {streams : List StreamSummary} {limit : ℤ} (hlimit : limit ≤ 500)
    (hpairs : (hostPairs streams).length ≤ limit) :
    (selectedPairs (pairTables streams).edges limit).Perm ((hostPairs streams).map fun p =>
      (p, (ofPair StreamSummary.pair streams p).foldl EdgeTotals.add .zero)) := by
  have hkeys := perm_keys_edges streams
  have hlength : (pairTables streams).edges.length = (hostPairs streams).length := by
    rw [← hkeys.length_eq, Dict.keys, List.length_map]
  have hall : (pairTables streams).edges.length ≤ (max 1 (min limit 500)).toNat := by omega
  have hitems : (pairTables streams).edges = (Dict.keys (pairTables streams).edges).map
      fun p => (p, (ofPair StreamSummary.pair streams p).foldl EdgeTotals.add .zero) := by
    conv_lhs => rw [Dict.eq_map_keys (hkeys.nodup_iff.mpr (List.nodup_dedup _)) .zero]
    apply List.map_congr_left
    intro p _
    rw [edges_pairTables, Dict.get_tally]
    rfl
  rw [selectedPairs, List.take_of_length_le ((perm_sortOn _ _).length_eq.trans_le hall)]
  refine (perm_sortOn _ _).trans ?_
  rw [hitems]
  exact hkeys.map _

variable (ipAddress : String → Option AddressKind) {streams : List StreamSummary} {limit : ℤ}

theorem nodes_buildTopology (hlimit : limit ≤ 500) (hpairs : (hostPairs streams).length ≤ limit) :
    (buildTopology ipAddress streams limit).nodes =
      nodesOf ipAddress StreamSummary.pair (fun s => s.bytes) (fun s => s.packets) streams := by
  have hvisible : ((selectedPairs (pairTables streams).edges limit).flatMap
      fun item => [item.1.1, item.1.2]).dedup.Perm (hostsOf StreamSummary.pair streams) := by
    apply (List.perm_ext_iff_of_nodup (List.nodup_dedup _) (List.nodup_dedup _)).mpr
    intro host
    rw [List.mem_dedup, ((perm_selectedPairs hlimit hpairs).flatMap_right _).mem_iff]
    refine Iff.trans ?_ mem_hostsOf_pairsOf
    rw [mem_hostsOf, List.flatMap_map, List.mem_flatMap]
    simp [hostPairs, eq_comm]
  rw [buildTopology, nodesOf, hosts_pairTables]
  simp only [get_hostTable]
  exact sortNodes_eq_of_perm ipAddress hvisible _

/-- The edge of one pair. -/
def pairLink (streams : List StreamSummary) (p : String × String) : Link :=
  linkOf (p, (ofPair StreamSummary.pair streams p).foldl EdgeTotals.add .zero)

theorem edges_buildTopology (hlimit : limit ≤ 500) (hpairs : (hostPairs streams).length ≤ limit) :
    (buildTopology ipAddress streams limit).edges.Perm
      ((hostPairs streams).map (pairLink streams)) := by
  have hedges := (perm_selectedPairs hlimit hpairs).map linkOf
  rwa [List.map_map] at hedges

theorem totals_pairLink (streams : List StreamSummary) (p : String × String) :
    (pairLink streams p).totals =
      ⟨p.1, p.2, ((ofPair StreamSummary.pair streams p).map fun s => (s.bytes : ℤ)).sum,
        ((ofPair StreamSummary.pair streams p).map fun s => (s.packets : ℤ)).sum,
        (ofPair StreamSummary.pair streams p).length⟩ := by
  obtain ⟨hbytes, hpackets, hstreams, -⟩ := foldl_edge .zero (ofPair StreamSummary.pair streams p)
  rw [pairLink, linkOf, Link.totals, hbytes, hpackets, hstreams]
  simp [EdgeTotals.zero]

theorem stream_pairLink (streams : List StreamSummary) (p : String × String) :
    (pairLink streams p).stream = (ofPair StreamSummary.pair streams p).head?.map fun s => s.id := by
  rw [pairLink, linkOf, (foldl_edge .zero _).2.2.2]
  rfl

/-- The totals do not depend on the order of the streams. -/
theorem buildTopology_perm {streams' : List StreamSummary} (h : streams.Perm streams')
    (hlimit : limit ≤ 500) (hpairs : (hostPairs streams).length ≤ limit) :
    (buildTopology ipAddress streams limit).nodes = (buildTopology ipAddress streams' limit).nodes ∧
      ((buildTopology ipAddress streams limit).edges.map Link.totals).Perm
        ((buildTopology ipAddress streams' limit).edges.map Link.totals) := by
  have hsame : (hostPairs streams).Perm (hostPairs streams') := (h.map _).dedup
  have hpairs' : (hostPairs streams').length ≤ limit := hsame.length_eq ▸ hpairs
  have htotals : Link.totals ∘ pairLink streams = Link.totals ∘ pairLink streams' := by
    funext p
    have hgroup : (ofPair StreamSummary.pair streams p).Perm (ofPair StreamSummary.pair streams' p) :=
      h.filter _
    rw [Function.comp, Function.comp, totals_pairLink, totals_pairLink, (hgroup.map _).sum_eq,
      (hgroup.map fun s => (s.packets : ℤ)).sum_eq, hgroup.length_eq]
  constructor
  · rw [nodes_buildTopology ipAddress hlimit hpairs, nodes_buildTopology ipAddress hlimit hpairs',
      nodesOf_perm _ _ ipAddress h]
  · have hedges := (edges_buildTopology ipAddress hlimit hpairs).map Link.totals
    have hedges' := (edges_buildTopology ipAddress hlimit hpairs').map Link.totals
    rw [List.map_map, htotals] at hedges
    rw [List.map_map] at hedges'
    exact hedges.trans ((hsame.map _).trans hedges'.symm)

/-! ## The law -/

section

variable (text : ℕ → Bytes → String) (manifest : Manifest)

/-- Either endpoint can be the client. -/
theorem sortedPair_streamSummary (row : FlowRow) :
    sortedPair (streamSummary text row).pair.1 (streamSummary text row).pair.2 =
      sortedPair (rowEnds text row).1 (rowEnds text row).2 := by
  rw [StreamSummary.pair, streamSummary, rowEnds, clientOf, serverOf]
  cases row.clientIsLeft
  · exact sortedPair_comm _ _
  · rfl

theorem perm_hostPairs : (hostPairs (streamSummaries text manifest none)).Perm
    (pairsOf (rowEnds text) manifest.flows) := by
  rw [hostPairs, pairsOf, streamSummaries, List.map_map, pairsOf]
  simp only [Function.comp_def, sortedPair_streamSummary]
  exact ((perm_sortOn _ _).map _).dedup

/-- The streams of a pair are the rows of its group, in the order of their numbers. -/
theorem ofPair_streamSummaries (p : String × String) :
    ofPair StreamSummary.pair (streamSummaries text manifest none) p =
      (sortOn FlowRow.id (ofPair (rowEnds text) manifest.flows p)).map (streamSummary text) := by
  rw [ofPair, ofPair, sortOn_filter, streamSummaries, List.filter_map]
  simp only [Function.comp_def, sortedPair_streamSummary]

variable {text manifest}

/-- A sum over the streams of a pair is one over the rows of its group. -/
theorem sum_streamSummaries {size : StreamSummary → ℤ} {column : FlowRow → ℤ}
    (h : ∀ row ∈ manifest.flows, size (streamSummary text row) = column row) (p : String × String) :
    ((ofPair StreamSummary.pair (streamSummaries text manifest none) p).map size).sum =
      ((ofPair (rowEnds text) manifest.flows p).map column).sum := by
  rw [ofPair_streamSummaries, List.map_map, ((perm_sortOn _ _).map _).sum_eq]
  congr 1
  apply List.map_congr_left
  intro row hrow
  exact h row (mem_ofPair.mp hrow).1

section

variable (hcounts : ∀ row ∈ manifest.flows, ∀ column ∈ summedColumns, 0 ≤ column row)
  (p : String × String)

include hcounts

theorem sum_bytes_streamSummaries :
    ((ofPair StreamSummary.pair (streamSummaries text manifest none) p).map
      fun s => (s.bytes : ℤ)).sum =
      ((ofPair (rowEnds text) manifest.flows p).map FlowRow.payloadBytes).sum := by
  apply sum_streamSummaries
  intro row hrow
  exact Int.toNat_of_nonneg (hcounts row hrow FlowRow.payloadBytes (by simp [summedColumns]))

theorem sum_packets_streamSummaries :
    ((ofPair StreamSummary.pair (streamSummaries text manifest none) p).map
      fun s => (s.packets : ℤ)).sum =
      ((ofPair (rowEnds text) manifest.flows p).map FlowRow.packets).sum := by
  apply sum_streamSummaries
  intro row hrow
  exact Int.toNat_of_nonneg (hcounts row hrow FlowRow.packets (by simp [summedColumns]))

/-- One pair has one edge: its totals, -/
theorem totals_groupRow : (pairLink (streamSummaries text manifest none) p).totals =
    (edgeOf (groupRow p (ofPair (rowEnds text) manifest.flows p))).totals := by
  have hlength : (ofPair StreamSummary.pair (streamSummaries text manifest none) p).length =
      (ofPair (rowEnds text) manifest.flows p).length := by
    rw [ofPair_streamSummaries, List.length_map, (perm_sortOn _ _).length_eq]
  rw [totals_pairLink, sum_bytes_streamSummaries hcounts, sum_packets_streamSummaries hcounts, hlength]
  rfl

end

/-- and its first stream. -/
theorem stream_groupRow {p : String × String} (hp : p ∈ pairsOf (rowEnds text) manifest.flows) :
    (pairLink (streamSummaries text manifest none) p).stream.map Int.ofNat =
      some (edgeOf (groupRow p (ofPair (rowEnds text) manifest.flows p))).stream := by
  obtain ⟨row, hrow, hpair⟩ := mem_pairsOf.mp hp
  have hmem : row ∈ sortOn FlowRow.id (ofPair (rowEnds text) manifest.flows p) :=
    mem_sortOn.mpr (mem_ofPair.mpr ⟨hrow, hpair⟩)
  obtain ⟨first, rest, hsorted⟩ := List.exists_cons_of_ne_nil (List.ne_nil_of_mem hmem)
  rw [stream_pairLink, ofPair_streamSummaries, edgeOf, groupRow, sqlMin, min?_map_eq, hsorted]
  rfl

end

/-- The two answers show the same edges, and the same nodes in the same order. -/
structure SameTopology (built : Topology Link) (native : Topology PairEdge) : Prop where
  edges : (built.edges.map fun e => (e.totals, e.stream.map Int.ofNat)).Perm
    (native.edges.map fun e => (e.totals, some e.stream))
  nodes : built.nodes = native.nodes

section

variable {text : ℕ → Bytes → String} {manifest : Manifest}
  {groupOrder : List (String × String) → List (String × String)} {limit : ℤ}
  (hcounts : ∀ row ∈ manifest.flows, ∀ column ∈ summedColumns, 0 ≤ column row)
  (hgroups : ∀ l, (groupOrder l).Perm l)
  (hpairs : (hostPairs (streamSummaries text manifest none)).length ≤ limit)

include hgroups hpairs

/-- With room for each pair, the query has a row for each. -/
theorem perm_queryRows : (((queryRows text groupOrder manifest.flows).take limit.toNat).map edgeOf).Perm
    ((hostPairs (streamSummaries text manifest none)).map fun p =>
      edgeOf (groupRow p (ofPair (rowEnds text) manifest.flows p))) := by
  have hqueried : (queryGroups text groupOrder manifest.flows).Perm
      (hostPairs (streamSummaries text manifest none)) :=
    (hgroups _).trans (perm_hostPairs text manifest).symm
  have hall : (queryRows text groupOrder manifest.flows).length ≤ limit.toNat := by
    rw [queryRows, (perm_sortOn _ _).length_eq, List.length_map, hqueried.length_eq]
    omega
  rw [List.take_of_length_le hall, queryRows]
  refine ((perm_sortOn _ _).map _).trans ?_
  rw [List.map_map]
  exact hqueried.map _

include hcounts

theorem sameTopology (ipAddress : String → Option AddressKind) (hlimit : limit ≤ 500) :
    SameTopology (buildTopology ipAddress (streamSummaries text manifest none) limit)
      (topologyFromPairs ipAddress
        (((queryRows text groupOrder manifest.flows).take limit.toNat).map edgeOf)) where
  edges := by
    refine ((edges_buildTopology ipAddress hlimit hpairs).map _).trans ?_
    refine List.Perm.trans ?_ ((perm_queryRows hgroups hpairs).map _).symm
    rw [List.map_map, List.map_map]
    apply List.Perm.of_eq
    apply List.map_congr_left
    intro p hp
    simp only [Function.comp, totals_groupRow hcounts,
      stream_groupRow ((perm_hostPairs text manifest).mem_iff.mp hp)]
  nodes := by
    have hnative : ∀ edges, (topologyFromPairs ipAddress edges).nodes =
        nodesOf ipAddress (fun e => (e.source, e.target)) PairEdge.bytes PairEdge.packets edges := by
      intro edges
      rw [topologyFromPairs, ← sortNodes_hostTable]
      rfl
    rw [nodes_buildTopology ipAddress hlimit hpairs, hnative,
      nodesOf_perm _ _ ipAddress (perm_queryRows hgroups hpairs), nodesOf_map, ← nodesOf_pairsOf]
    simp only [sum_bytes_streamSummaries hcounts, sum_packets_streamSummaries hcounts]
    rfl

end

/-- THE TWO TOPOLOGIES AGREE, with room for each pair. The indexer answers when SQLite can add up each
group; then both show the same edges and nodes, and the first shows them whatever the order of its
streams is. -/
theorem topologies_agree {source : Source} {index : Index} (hbuild : buildIndex source = .ok index)
    {dir : IndexDir} (hdir : dir.Holds index) {text : ℕ → Bytes → String}
    (htext : ∀ family addr, PlainText (text family addr)) (ipAddress : String → Option AddressKind)
    {groupOrder : List (String × String) → List (String × String)}
    (hgroups : ∀ l, (groupOrder l).Perm l) {limit : ℤ} (hlimit : 1 ≤ limit ∧ limit ≤ 500)
    (hpairs : (hostPairs (streamSummaries text index.manifest none)).length ≤ limit) :
    ((∃ edges, topologyPairs text groupOrder dir limit = .ok edges) ↔
      ∀ p ∈ hostPairs (streamSummaries text index.manifest none),
        SumsFit (ofPair (rowEnds text) index.manifest.flows p)) ∧
    (∀ edges, topologyPairs text groupOrder dir limit = .ok edges →
      SameTopology (buildTopology ipAddress (streamSummaries text index.manifest none) limit)
        (topologyFromPairs ipAddress edges)) ∧
    ∀ streams, (streamSummaries text index.manifest none).Perm streams →
      (buildTopology ipAddress (streamSummaries text index.manifest none) limit).nodes =
        (buildTopology ipAddress streams limit).nodes ∧
      ((buildTopology ipAddress (streamSummaries text index.manifest none) limit).edges.map
        Link.totals).Perm ((buildTopology ipAddress streams limit).edges.map Link.totals) := by
  have hcounts : ∀ row ∈ index.manifest.flows, ∀ column ∈ summedColumns, 0 ≤ column row := by
    obtain ⟨ps, st, hbuilt⟩ := buildIndex_ok hbuild
    intro row hrow
    obtain ⟨flow, -, hflow⟩ := hbuilt.exists_flow hrow
    exact counts_row hflow
  have hqueried : ∀ p, p ∈ queryGroups text groupOrder index.manifest.flows ↔
      p ∈ hostPairs (streamSummaries text index.manifest none) := fun p =>
    ((hgroups _).trans (perm_hostPairs text index.manifest).symm).mem_iff
  rw [topologyPairs_eq text groupOrder hdir hlimit hcounts htext hgroups]
  simp only [hqueried]
  refine ⟨?_, ?_, ?_⟩
  · split
    · next hfits => exact iff_of_true ⟨_, rfl⟩ hfits
    · next hfits => exact iff_of_false (by simp) hfits
  · intro edges hedges
    split at hedges
    · obtain rfl := Except.ok.inj hedges
      exact sameTopology hcounts hgroups hpairs ipAddress hlimit.2
    · cases hedges
  · intro streams hperm
    exact buildTopology_perm ipAddress hperm hlimit.2 hpairs

/-! ### Three hosts -/

theorem plainText_dotted (family : ℕ) (addr : Bytes) : PlainText (dotted family addr) := by
  intro c hc
  rw [dotted, String.toList_intercalate] at hc
  rcases mem_intercalate hc with rfl | ⟨field, hfield, hc⟩
  · decide
  · rw [List.map_map] at hfield
    obtain ⟨b, -, rfl⟩ := List.mem_map.mp hfield
    have hdigits : c ∈ decimal (b.toNat : ℤ) := by
      simpa [decimal, Nat.repr] using hc
    exact not_mem_separators hdigits

/-- What `ipaddress` says of an address of 10.0.0.0/8. -/
def privateAddress (_ : String) : Option AddressKind := some ⟨true, false, false⟩

/-- The law at work: a server and two clients. -/
theorem topologies_agree_interleaved : ∃ index dir edges, buildIndex interleaved = .ok index ∧
    IndexDir.Holds dir index ∧ topologyPairs dotted id dir 25 = .ok edges ∧
    SameTopology (buildTopology privateAddress (streamSummaries dotted index.manifest none) 25)
      (topologyFromPairs privateAddress edges) := by
  have hrun : (buildIndex interleaved).map (fun i : Index =>
      decide ((hostPairs (streamSummaries dotted i.manifest none)).length ≤ 25 ∧
        ∀ p ∈ hostPairs (streamSummaries dotted i.manifest none),
          SumsFit (ofPair (rowEnds dotted) i.manifest.flows p))) = .ok true := by
    decide +kernel
  cases hbuild : buildIndex interleaved with
  | error e =>
    rw [hbuild] at hrun
    cases hrun
  | ok index =>
    rw [hbuild] at hrun
    obtain ⟨hpairs, hfits⟩ := of_decide_eq_true (Except.ok.inj hrun)
    have hdir : (IndexDir.offering index).Holds index := ⟨rfl, rfl, rfl⟩
    obtain ⟨hanswers, hsame, -⟩ := topologies_agree hbuild hdir plainText_dotted privateAddress
      (fun l => List.Perm.refl (id l)) (by decide : (1 : ℤ) ≤ 25 ∧ (25 : ℤ) ≤ 500)
      (by exact_mod_cast hpairs)
    obtain ⟨edges, hedges⟩ := hanswers.mpr hfits
    exact ⟨index, _, edges, rfl, hdir, hedges, hsame edges hedges⟩

end PacketTrain.Analysis
