import PacketTrain.Laws.Analysis.Topology

/-!
# Hosts that are their own peers

Either loop adds a flow to `hosts` at each of its ends, and a flow from a host to itself has both ends
there. The sums are those of the flows that touch the host, and once more of those it has to itself
(`sum_meets`), so that they count each flow once just when the latter add up to nothing
(`nodes_once_iff`).

Which hosts `build_topology` shows depends on the limit: those of the pairs that fewer pairs outrank
(`mem_selectedPairs`). What it says of the edges is not affected.
-/

namespace PacketTrain.Analysis

/-! ## Sums at a host -/

section

variable {α : Type} (pair : α → String × String) (weight : α → ℤ)

/-- What the elements with this host at an end add up to, each counted once. -/
def touching (l : List α) (host : String) : ℤ :=
  ((l.filter fun a => (pair a).1 = host ∨ (pair a).2 = host).map weight).sum

/-- What the elements with this host at both ends add up to. -/
def looping (l : List α) (host : String) : ℤ :=
  ((l.filter fun a => (pair a).1 = host ∧ (pair a).2 = host).map weight).sum

theorem sum_meets (l : List α) (host : String) :
    (l.map fun a => weight a * meets (pair a) host).sum =
      touching pair weight l host + looping pair weight l host := by
  induction l with
  | nil => rfl
  | cons a l ih =>
    unfold touching looping at ih ⊢
    rw [List.map_cons, List.sum_cons, ih, meets]
    by_cases hfirst : (pair a).1 = host <;> by_cases hsecond : (pair a).2 = host <;>
      simp [hfirst, hsecond] <;> ring

end

/-- Each node has the sums over the elements that touch it. -/
def EachOnce {α : Type} (pair : α → String × String) (bytes packets : α → ℤ) (l : List α)
    (nodes : List Node) : Prop :=
  ∀ n ∈ nodes, n.bytes = touching pair bytes l n.id ∧ n.packets = touching pair packets l n.id

instance {α : Type} (pair : α → String × String) (bytes packets : α → ℤ) (l : List α)
    (nodes : List Node) : Decidable (EachOnce pair bytes packets l nodes) :=
  inferInstanceAs (Decidable (∀ n ∈ nodes,
    n.bytes = touching pair bytes l n.id ∧ n.packets = touching pair packets l n.id))

section

variable {α : Type} {pair : α → String × String} {bytes packets : α → ℤ} {l : List α}
  {ipAddress : String → Option AddressKind}

/-- The nodes of a list of hosts count once when nothing loops at these hosts. -/
theorem eachOnce_sortNodes {hosts : List String} :
    EachOnce pair bytes packets l (sortNodes (hosts.map fun host =>
      nodeOf ipAddress host (hostTotals pair bytes packets l host))) ↔
    ∀ host ∈ hosts, looping pair bytes l host = 0 ∧ looping pair packets l host = 0 := by
  have hnode : ∀ host, (nodeOf ipAddress host (hostTotals pair bytes packets l host)).bytes =
      touching pair bytes l host + looping pair bytes l host ∧
      (nodeOf ipAddress host (hostTotals pair bytes packets l host)).packets =
        touching pair packets l host + looping pair packets l host := fun host =>
    ⟨sum_meets pair bytes l host, sum_meets pair packets l host⟩
  refine ⟨?_, ?_⟩
  · intro honce host hhost
    obtain ⟨hbytes, hpackets⟩ := honce _ (mem_sortOn.mpr (List.mem_map_of_mem hhost))
    rw [(hnode host).1] at hbytes
    rw [(hnode host).2] at hpackets
    exact ⟨add_eq_left.mp hbytes, add_eq_left.mp hpackets⟩
  · intro hnone n hn
    obtain ⟨host, hhost, rfl⟩ := List.mem_map.mp (mem_sortOn.mp hn)
    obtain ⟨hbytes, hpackets⟩ := hnone host hhost
    rw [(hnode host).1, (hnode host).2, hbytes, hpackets, add_zero, add_zero]
    exact ⟨rfl, rfl⟩

/-- A host that no element touches has no loop. -/
theorem looping_eq_zero {weight : α → ℤ} {host : String} (h : host ∉ hostsOf pair l) :
    looping pair weight l host = 0 := by
  have hnil : (l.filter fun a => (pair a).1 = host ∧ (pair a).2 = host) = [] := by
    rw [List.filter_eq_nil_iff]
    intro a ha hends
    exact h ((mem_hostsOf pair).mpr ⟨a, ha, .inl (of_decide_eq_true hends).1⟩)
  unfold looping
  rw [hnil]
  rfl

end

/-! ## The pairs that are shown -/

section

variable (streams : List StreamSummary)

def pairBytes (p : String × String) : ℤ :=
  ((ofPair StreamSummary.pair streams p).map fun s => (s.bytes : ℤ)).sum

def pairPackets (p : String × String) : ℤ :=
  ((ofPair StreamSummary.pair streams p).map fun s => (s.packets : ℤ)).sum

/-- Where the streams of a pair begin. -/
def firstSeen (p : String × String) : ℕ := streams.findIdx fun s => sortedPair s.client s.server = p

/-- A pair with more bytes outranks another; with as many, one with more packets; with as many of both,
one that is met first. -/
def Outranks (q p : String × String) : Prop :=
  pairBytes streams p < pairBytes streams q ∨ pairBytes streams p = pairBytes streams q ∧
    (pairPackets streams p < pairPackets streams q ∨ pairPackets streams p = pairPackets streams q ∧
      firstSeen streams q < firstSeen streams p)

instance : DecidableRel (Outranks streams) := fun q p =>
  inferInstanceAs (Decidable (pairBytes streams p < pairBytes streams q ∨
    pairBytes streams p = pairBytes streams q ∧ (pairPackets streams p < pairPackets streams q ∨
      pairPackets streams p = pairPackets streams q ∧ firstSeen streams q < firstSeen streams p)))

/-- Fewer pairs than the limit outrank this one. -/
def IsShown (limit : ℤ) (p : String × String) : Prop :=
  p ∈ hostPairs streams ∧
    ((hostPairs streams).countP fun q => Outranks streams q p) < max 1 (min limit 500)

theorem outranks_asymm (q p : String × String) (h : Outranks streams q p) : ¬ Outranks streams p q := by
  unfold Outranks at h ⊢
  omega

/-- The item of a pair in `edges`. -/
def pairItem (p : String × String) : (String × String) × EdgeTotals :=
  (p, (ofPair StreamSummary.pair streams p).foldl EdgeTotals.add .zero)

theorem edges_eq_map_pairItem : (pairTables streams).edges =
    (Dict.keys (pairTables streams).edges).map (pairItem streams) := by
  have hnodup := (perm_keys_edges streams).nodup_iff.mpr (List.nodup_dedup _)
  conv_lhs => rw [Dict.eq_map_keys hnodup .zero]
  apply List.map_congr_left
  intro p _
  rw [edges_pairTables, Dict.get_tally]
  rfl

/-- The key by which `selected` is sorted. -/
theorem key_pairItem (p : String × String) : toLex (-(pairItem streams p).2.bytes,
    -(pairItem streams p).2.packets) = toLex (-pairBytes streams p, -pairPackets streams p) := by
  obtain ⟨hbytes, hpackets, -⟩ := foldl_edge .zero (ofPair StreamSummary.pair streams p)
  rw [pairItem, hbytes, hpackets, pairBytes, pairPackets]
  simp [EdgeTotals.zero]

/-- `sorted(edges.items(), …)` stands in the order of the ranks. -/
theorem pairwise_outranks : ((sortOn (fun item => toLex (-item.2.bytes, -item.2.packets))
    (pairTables streams).edges).map Prod.fst).Pairwise (Outranks streams) := by
  have hmet : (pairTables streams).edges.Pairwise fun item item' =>
      firstSeen streams item.1 < firstSeen streams item'.1 := by
    have hkeys := Dict.pairwise_keys_tally EdgeTotals.zero
      (fun s : StreamSummary => sortedPair s.client s.server) EdgeTotals.add streams
    rw [← edges_pairTables, Dict.keys, List.pairwise_map] at hkeys
    exact hkeys
  rw [List.pairwise_map]
  refine (pairwise_sortOn (fun item : (String × String) × EdgeTotals =>
    toLex (-item.2.bytes, -item.2.packets)) hmet).imp_of_mem ?_
  intro item item' hitem hitem' hbefore
  rw [mem_sortOn, edges_eq_map_pairItem] at hitem hitem'
  obtain ⟨q, -, rfl⟩ := List.mem_map.mp hitem
  obtain ⟨p, -, rfl⟩ := List.mem_map.mp hitem'
  rw [key_pairItem, key_pairItem, Prod.Lex.toLex_lt_toLex, toLex_inj, Prod.mk.injEq] at hbefore
  have hfirst : (pairItem streams q).1 = q ∧ (pairItem streams p).1 = p := ⟨rfl, rfl⟩
  rw [hfirst.1, hfirst.2] at hbefore ⊢
  unfold Outranks
  dsimp only at hbefore
  omega

theorem mem_selectedPairs {limit : ℤ} {p : String × String} :
    p ∈ Dict.keys (selectedPairs (pairTables streams).edges limit) ↔ IsShown streams limit p := by
  have hperm : ((sortOn (fun item => toLex (-item.2.bytes, -item.2.packets))
      (pairTables streams).edges).map Prod.fst).Perm (hostPairs streams) :=
    ((perm_sortOn _ _).map _).trans (perm_keys_edges streams)
  rw [selectedPairs, Dict.keys, List.map_take,
    mem_take_iff_countP (outranks_asymm streams) (pairwise_outranks streams), hperm.mem_iff,
    hperm.countP_eq, IsShown]
  refine and_congr_right fun _ => ?_
  omega

end

/-! ## The law -/

/-- A host of a list of streams has nothing to itself when no stream of its own carries anything. -/
theorem looping_streams {streams : List StreamSummary} {host : String} :
    (looping StreamSummary.pair (fun s => s.bytes) streams host = 0 ∧
      looping StreamSummary.pair (fun s => s.packets) streams host = 0) ↔
    ∀ s ∈ streams, s.client = host → s.server = host → s.bytes = 0 ∧ s.packets = 0 := by
  have hzero : ∀ size : StreamSummary → ℕ,
      looping StreamSummary.pair (fun s => (size s : ℤ)) streams host = 0 ↔
        ∀ s ∈ streams, s.client = host → s.server = host → size s = 0 := by
    intro size
    have hcast : looping StreamSummary.pair (fun s => (size s : ℤ)) streams host =
        (((streams.filter fun s => s.pair.1 = host ∧ s.pair.2 = host).map size).sum : ℕ) := by
      rw [looping, ← Nat.coe_castAddMonoidHom, map_list_sum, List.map_map]
      rfl
    rw [hcast, Nat.cast_eq_zero, List.sum_eq_zero_iff]
    simp only [List.forall_mem_map, List.mem_filter, decide_eq_true_eq, and_imp]
    rfl
  rw [hzero, hzero]
  refine ⟨?_, ?_⟩
  · intro h s hs hclient hserver
    exact ⟨h.1 s hs hclient hserver, h.2 s hs hclient hserver⟩
  · intro h
    exact ⟨fun s hs hclient hserver => (h s hs hclient hserver).1,
      fun s hs hclient hserver => (h s hs hclient hserver).2⟩

/-- EACH FLOW COUNTS ONCE JUST WHEN NO HOST THAT IS SHOWN EXCHANGED ANYTHING WITH ITSELF. -/
theorem nodes_once_iff (ipAddress : String → Option AddressKind) (streams : List StreamSummary)
    (limit : ℤ) (edges : List PairEdge) :
    (EachOnce StreamSummary.pair (fun s => s.bytes) (fun s => s.packets) streams
        (buildTopology ipAddress streams limit).nodes ↔
      ∀ p, IsShown streams limit p → ∀ host, host = p.1 ∨ host = p.2 → ∀ s ∈ streams,
        s.client = host → s.server = host → s.bytes = 0 ∧ s.packets = 0) ∧
    (EachOnce (fun e => (e.source, e.target)) PairEdge.bytes PairEdge.packets edges
        (topologyFromPairs ipAddress edges).nodes ↔
      ∀ host, looping (fun e => (e.source, e.target)) PairEdge.bytes edges host = 0 ∧
        looping (fun e => (e.source, e.target)) PairEdge.packets edges host = 0) := by
  refine ⟨?_, ?_⟩
  · rw [buildTopology, hosts_pairTables]
    simp only [get_hostTable]
    rw [eachOnce_sortNodes]
    simp only [looping_streams, List.mem_dedup, List.mem_flatMap, List.mem_pair]
    refine ⟨?_, ?_⟩
    · intro honce p hshown host hhost
      obtain ⟨item, hitem, rfl⟩ := List.mem_map.mp ((mem_selectedPairs streams).mpr hshown)
      exact honce host ⟨item, hitem, hhost⟩
    · intro hsilent host hvisible
      obtain ⟨item, hitem, hhost⟩ := hvisible
      exact hsilent item.1 ((mem_selectedPairs streams).mp (List.mem_map_of_mem hitem)) host hhost
  · have hnodes : (topologyFromPairs ipAddress edges).nodes =
        nodesOf ipAddress (fun e => (e.source, e.target)) PairEdge.bytes PairEdge.packets edges := by
      rw [topologyFromPairs, ← sortNodes_hostTable]
      rfl
    rw [hnodes, nodesOf, eachOnce_sortNodes]
    refine ⟨?_, ?_⟩
    · intro honce host
      by_cases hhost : host ∈ hostsOf (fun e : PairEdge => (e.source, e.target)) edges
      · exact honce host hhost
      · exact ⟨looping_eq_zero hhost, looping_eq_zero hhost⟩
    · intro hnone host _
      exact hnone host

/-- A host that talks to itself. -/
def selfStream : StreamSummary where
  id := 0
  client := "127.0.0.1"
  server := "127.0.0.1"
  clientPort := 40000
  serverPort := 80
  packets := 10
  bytes := 1000
  durationMs := 5
  pattern := "Insufficient pattern"

/-- What `ipaddress` says of an address of 127.0.0.0/8. -/
def loopbackAddress (_ : String) : Option AddressKind := some ⟨true, false, true⟩

theorem selfStream_doubled : ¬ EachOnce StreamSummary.pair (fun s => s.bytes) (fun s => s.packets)
    [selfStream] (buildTopology loopbackAddress [selfStream] 100).nodes := by
  decide +kernel

end PacketTrain.Analysis
