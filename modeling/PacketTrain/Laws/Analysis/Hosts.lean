import Mathlib.Algebra.BigOperators.Ring.List
import PacketTrain.Analysis.Topology

/-!
# Hosts and their pairs

Either topology makes its nodes by one loop over elements with two ends: `build_topology` over streams,
`topology_from_pairs` over edges. The loop depends on the elements by what each host exchanged and with
whom (`hostTotals`), so that it can be run on the pairs instead, each with the totals of its elements
(`nodesOf_pairsOf`), and in any order (`nodesOf_perm`).
-/

namespace PacketTrain.Analysis

open Indexer (FlowRow)

/-! ## Hosts -/

section

variable {α : Type} (pair : α → String × String) (bytes packets : α → ℤ)

/-- How many ends of a pair a host is. -/
def meets (pair : String × String) (host : String) : ℤ :=
  (if pair.1 = host then 1 else 0) + if pair.2 = host then 1 else 0

/-- Each end, and the other. -/
def visits (l : List α) : List (α × String × String) :=
  l.flatMap fun a => [(a, (pair a).1, (pair a).2), (a, (pair a).2, (pair a).1)]

/-- What a host exchanged, and with whom. -/
def hostTotals (l : List α) (host : String) : HostTotals where
  bytes := (l.map fun a => bytes a * meets (pair a) host).sum
  packets := (l.map fun a => packets a * meets (pair a) host).sum
  peers := (((visits pair l).filter fun v => v.2.1 = host).map fun v => v.2.2).toFinset

/-- The loop over the hosts. -/
def hostTable (l : List α) : Dict String HostTotals :=
  l.foldl (fun hosts a => addHosts (pair a).1 (pair a).2 (bytes a) (packets a) hosts) []

theorem hostTable_eq_tally (l : List α) : hostTable pair bytes packets l =
    Dict.tally .zero (fun v => v.2.1) (fun h v => h.add v.2.2 (bytes v.1) (packets v.1))
      (visits pair l) := by
  rw [hostTable, Dict.tally, visits, List.foldl_flatMap]
  rfl

theorem foldl_add (l : List (α × String × String)) (h : HostTotals) :
    l.foldl (fun h v => h.add v.2.2 (bytes v.1) (packets v.1)) h =
      ⟨h.bytes + (l.map fun v => bytes v.1).sum, h.packets + (l.map fun v => packets v.1).sum,
        h.peers ∪ (l.map fun v => v.2.2).toFinset⟩ := by
  induction l generalizing h with
  | nil => simp
  | cons v l ih =>
    rw [List.foldl_cons, ih]
    simp [HostTotals.add, add_assoc]

/-- A weight is added at each end. -/
theorem sum_visits (weight : α → ℤ) (l : List α) (host : String) :
    (((visits pair l).filter fun v => v.2.1 = host).map fun v => weight v.1).sum =
      (l.map fun a => weight a * meets (pair a) host).sum := by
  induction l with
  | nil => rfl
  | cons a l ih =>
    have hends : (([(a, (pair a).1, (pair a).2), (a, (pair a).2, (pair a).1)].filter
        fun v => v.2.1 = host).map fun v => weight v.1).sum = weight a * meets (pair a) host := by
      by_cases hfirst : (pair a).1 = host <;> by_cases hsecond : (pair a).2 = host <;>
        simp [meets, hfirst, hsecond, mul_two]
    rw [visits, List.flatMap_cons, List.filter_append, List.map_append, List.sum_append, hends,
      List.map_cons, List.sum_cons, ← ih, visits]

theorem get_hostTable (l : List α) (host : String) :
    Dict.get .zero (hostTable pair bytes packets l) host = hostTotals pair bytes packets l host := by
  rw [hostTable_eq_tally, Dict.get_tally, foldl_add, sum_visits, sum_visits, hostTotals]
  simp [HostTotals.zero]

/-- The hosts are the ends of the pairs. -/
def hostsOf (l : List α) : List String := ((visits pair l).map fun v => v.2.1).dedup

theorem mem_hostsOf {l : List α} {host : String} :
    host ∈ hostsOf pair l ↔ ∃ a ∈ l, (pair a).1 = host ∨ (pair a).2 = host := by
  rw [hostsOf, List.mem_dedup, visits, List.map_flatMap, List.mem_flatMap]
  simp [eq_comm]

theorem perm_keys_hostTable (l : List α) :
    (Dict.keys (hostTable pair bytes packets l)).Perm (hostsOf pair l) := by
  rw [hostTable_eq_tally]
  exact Dict.perm_keys_tally _ _ _ _

end

/-- The nodes of a list of pairs. -/
def nodesOf {α : Type} (ipAddress : String → Option AddressKind) (pair : α → String × String)
    (bytes packets : α → ℤ) (l : List α) : List Node :=
  sortNodes ((hostsOf pair l).map fun host =>
    nodeOf ipAddress host (hostTotals pair bytes packets l host))

/-- Nodes are sorted by a key that tells them apart. -/
theorem sortNodes_eq_of_perm (ipAddress : String → Option AddressKind) {hosts hosts' : List String}
    (h : hosts.Perm hosts') (totals : String → HostTotals) :
    sortNodes (hosts.map fun host => nodeOf ipAddress host (totals host)) =
      sortNodes (hosts'.map fun host => nodeOf ipAddress host (totals host)) := by
  apply sortOn_eq_of_perm (h.map _)
  intro a ha b hb hkey
  obtain ⟨x, -, rfl⟩ := List.mem_map.mp ha
  obtain ⟨y, -, rfl⟩ := List.mem_map.mp hb
  have hid : (nodeOf ipAddress x (totals x)).id = (nodeOf ipAddress y (totals y)).id :=
    congrArg (fun k => (ofLex k).2) hkey
  rw [show x = y from hid]

/-- A dictionary is shown as the nodes of its hosts. -/
theorem sortNodes_hostTable {α : Type} (ipAddress : String → Option AddressKind)
    (pair : α → String × String) (bytes packets : α → ℤ) (l : List α) :
    sortNodes ((hostTable pair bytes packets l).map fun item => nodeOf ipAddress item.1 item.2) =
      nodesOf ipAddress pair bytes packets l := by
  have hperm := perm_keys_hostTable pair bytes packets l
  have hnodup : (Dict.keys (hostTable pair bytes packets l)).Nodup :=
    hperm.nodup_iff.mpr (List.nodup_dedup _)
  have hitems : ((hostTable pair bytes packets l).map fun item => nodeOf ipAddress item.1 item.2) =
      (Dict.keys (hostTable pair bytes packets l)).map fun host =>
        nodeOf ipAddress host (hostTotals pair bytes packets l host) := by
    conv_lhs => rw [Dict.eq_map_keys hnodup .zero]
    rw [List.map_map]
    apply List.map_congr_left
    intro host _
    rw [Function.comp, get_hostTable]
  rw [hitems, nodesOf, sortNodes_eq_of_perm ipAddress hperm]

/-! ## Pairs -/

theorem sortedPair_eq_or (a b : String) : sortedPair a b = (a, b) ∨ sortedPair a b = (b, a) := by
  rw [sortedPair]
  split
  · exact .inr rfl
  · exact .inl rfl

/-- A pair and its other orientation are one pair, -/
theorem sortedPair_comm (a b : String) : sortedPair a b = sortedPair b a := by
  rw [sortedPair, sortedPair]
  rcases lt_trichotomy a b with h | rfl | h
  · rw [if_neg h.not_gt, if_pos h]
  · rfl
  · rw [if_pos h, if_neg h.not_gt]

/-- as the query has it. -/
theorem rowPair_eq (text : ℕ → Bytes → String) (row : FlowRow) : rowPair text row =
    sortedPair (text row.key.family row.key.left.addr) (text row.key.family row.key.right.addr) := by
  rw [sortedPair_comm, rowPair, sortedPair]
  split <;> rfl

theorem meets_sortedPair (a b host : String) : meets (sortedPair a b) host = meets (a, b) host := by
  rcases sortedPair_eq_or a b with h | h <;> rw [h]
  exact add_comm _ _

section

variable {α : Type} {pair : α → String × String} (bytes packets : α → ℤ)

theorem mem_peers {l : List α} {host peer : String} :
    peer ∈ (hostTotals pair bytes packets l host).peers ↔
      ∃ a ∈ l, pair a = (host, peer) ∨ pair a = (peer, host) := by
  simp only [hostTotals, visits, List.mem_toFinset, List.mem_map, List.mem_filter, List.mem_flatMap,
    decide_eq_true_eq]
  constructor
  · intro h
    obtain ⟨v, ⟨⟨a, ha, hv⟩, hhost⟩, rfl⟩ := h
    refine ⟨a, ha, ?_⟩
    rcases List.mem_pair.mp hv with rfl | rfl
    · exact .inl (Prod.ext hhost rfl)
    · exact .inr (Prod.ext rfl hhost)
  · intro h
    obtain ⟨a, ha, hpair | hpair⟩ := h
    · exact ⟨(a, host, peer), ⟨⟨a, ha, by simp [hpair]⟩, rfl⟩, rfl⟩
    · exact ⟨(a, host, peer), ⟨⟨a, ha, by simp [hpair]⟩, rfl⟩, rfl⟩

/-- The pairs of a list, without their orientation. -/
def pairsOf (pair : α → String × String) (l : List α) : List (String × String) :=
  (l.map fun a => sortedPair (pair a).1 (pair a).2).dedup

/-- The elements of one pair. -/
def ofPair (pair : α → String × String) (l : List α) (p : String × String) : List α :=
  l.filter fun a => sortedPair (pair a).1 (pair a).2 = p

theorem mem_pairsOf {l : List α} {p : String × String} :
    p ∈ pairsOf pair l ↔ ∃ a ∈ l, sortedPair (pair a).1 (pair a).2 = p := by
  rw [pairsOf, List.mem_dedup, List.mem_map]

theorem mem_ofPair {l : List α} {p : String × String} {a : α} :
    a ∈ ofPair pair l p ↔ a ∈ l ∧ sortedPair (pair a).1 (pair a).2 = p := by
  rw [ofPair, List.mem_filter, decide_eq_true_eq]

/-- A host's sum over the pairs is its sum over the elements. -/
theorem sum_pairsOf (weight : α → ℤ) (l : List α) (host : String) :
    ((pairsOf pair l).map fun p => ((ofPair pair l p).map weight).sum * meets p host).sum =
      (l.map fun a => weight a * meets (pair a) host).sum := by
  have hgroup : ∀ p, ((ofPair pair l p).map weight).sum * meets p host =
      ((ofPair pair l p).map fun a => weight a * meets (pair a) host).sum := by
    intro p
    rw [← List.sum_map_mul_right]
    congr 1
    apply List.map_congr_left
    intro a ha
    rw [← (mem_ofPair.mp ha).2, meets_sortedPair]
  simp only [hgroup]
  apply Dict.sum_by_key (List.nodup_dedup _)
  intro a ha
  exact mem_pairsOf.mpr ⟨a, ha, rfl⟩

/-- The hosts of the pairs, each pair with its totals, are the hosts of the elements. -/
theorem hostTotals_pairsOf (l : List α) (host : String) :
    hostTotals id (fun p => ((ofPair pair l p).map bytes).sum)
      (fun p => ((ofPair pair l p).map packets).sum) (pairsOf pair l) host =
      hostTotals pair bytes packets l host := by
  have hpeers : ∀ peer, (∃ p ∈ pairsOf pair l, p = (host, peer) ∨ p = (peer, host)) ↔
      ∃ a ∈ l, pair a = (host, peer) ∨ pair a = (peer, host) := by
    intro peer
    constructor
    · intro h
      obtain ⟨p, hp, horient⟩ := h
      obtain ⟨a, ha, rfl⟩ := mem_pairsOf.mp hp
      refine ⟨a, ha, ?_⟩
      rcases sortedPair_eq_or (pair a).1 (pair a).2 with h | h <;> rw [h] at horient
      · exact horient
      · exact horient.symm.imp Prod.swap_inj.mp Prod.swap_inj.mp
    · intro h
      obtain ⟨a, ha, horient⟩ := h
      refine ⟨_, mem_pairsOf.mpr ⟨a, ha, rfl⟩, ?_⟩
      rcases sortedPair_eq_or (pair a).1 (pair a).2 with h | h <;> rw [h]
      · exact horient
      · exact horient.symm.imp (congrArg Prod.swap) (congrArg Prod.swap)
  rw [hostTotals, hostTotals, HostTotals.mk.injEq]
  refine ⟨sum_pairsOf bytes l host, sum_pairsOf packets l host, ?_⟩
  ext peer
  exact (mem_peers (fun p => ((ofPair pair l p).map bytes).sum)
    (fun p => ((ofPair pair l p).map packets).sum)).trans
      ((hpeers peer).trans (mem_peers bytes packets).symm)

theorem mem_hostsOf_pairsOf {l : List α} {host : String} :
    host ∈ hostsOf id (pairsOf pair l) ↔ host ∈ hostsOf pair l := by
  have hends : ∀ a, ((sortedPair (pair a).1 (pair a).2).1 = host ∨
      (sortedPair (pair a).1 (pair a).2).2 = host) ↔ ((pair a).1 = host ∨ (pair a).2 = host) := by
    intro a
    rcases sortedPair_eq_or (pair a).1 (pair a).2 with h | h <;> rw [h]
    exact or_comm
  rw [mem_hostsOf, mem_hostsOf]
  constructor
  · intro h
    obtain ⟨p, hp, hhost⟩ := h
    obtain ⟨a, ha, rfl⟩ := mem_pairsOf.mp hp
    exact ⟨a, ha, (hends a).mp hhost⟩
  · intro h
    obtain ⟨a, ha, hhost⟩ := h
    exact ⟨_, mem_pairsOf.mpr ⟨a, ha, rfl⟩, (hends a).mpr hhost⟩

variable (ipAddress : String → Option AddressKind)

/-- The nodes of the pairs are those of the elements. -/
theorem nodesOf_pairsOf (l : List α) :
    nodesOf ipAddress id (fun p => ((ofPair pair l p).map bytes).sum)
      (fun p => ((ofPair pair l p).map packets).sum) (pairsOf pair l) =
      nodesOf ipAddress pair bytes packets l := by
  rw [nodesOf, nodesOf]
  simp only [hostTotals_pairsOf]
  apply sortNodes_eq_of_perm
  apply (List.perm_ext_iff_of_nodup (List.nodup_dedup _) (List.nodup_dedup _)).mpr
  intro host
  exact mem_hostsOf_pairsOf

/-- They do not depend on the order of the elements. -/
theorem nodesOf_perm {l l' : List α} (h : l.Perm l') :
    nodesOf ipAddress pair bytes packets l = nodesOf ipAddress pair bytes packets l' := by
  have hvisits : (visits pair l).Perm (visits pair l') := h.flatMap_right _
  have htotals : hostTotals pair bytes packets l = hostTotals pair bytes packets l' := by
    funext host
    rw [hostTotals, hostTotals, (h.map _).sum_eq, (h.map fun a => packets a * _).sum_eq,
      List.toFinset_eq_of_perm _ _ ((hvisits.filter _).map _)]
  rw [nodesOf, nodesOf, htotals]
  exact sortNodes_eq_of_perm ipAddress ((hvisits.map _).dedup) _

theorem nodesOf_map {β : Type} (f : β → α) (l : List β) :
    nodesOf ipAddress pair bytes packets (l.map f) =
      nodesOf ipAddress (pair ∘ f) (bytes ∘ f) (packets ∘ f) l := by
  have hvisits : visits pair (l.map f) = (visits (pair ∘ f) l).map fun v => (f v.1, v.2) := by
    rw [visits, visits, List.flatMap_map, List.map_flatMap]
    rfl
  have htotals : hostTotals pair bytes packets (l.map f) =
      hostTotals (pair ∘ f) (bytes ∘ f) (packets ∘ f) l := by
    funext host
    rw [hostTotals, hostTotals, hvisits, List.map_map, List.map_map, List.filter_map, List.map_map]
    rfl
  rw [nodesOf, nodesOf, htotals, hostsOf, hostsOf, hvisits, List.map_map]
  rfl

end

end PacketTrain.Analysis
