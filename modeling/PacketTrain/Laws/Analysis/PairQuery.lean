import Mathlib.Algebra.Order.BigOperators.Group.List
import PacketTrain.Laws.Analysis.Hosts
import PacketTrain.Laws.Indexer.RoundTrip

/-!
# The pairs that the indexer counts

The query adds up each group in 64 bits (`pairRow_eq`), each row is printed on a line and read back
(`readPair_fields`), and `topology_pairs` answers with an edge for each row when the sums of each group
fit (`topologyPairs_eq`).
-/

namespace PacketTrain.Analysis

open Indexer
open Lines

/-! ## The query -/

/-- The columns that the query adds up. -/
def summedColumns : List (FlowRow → ℤ) :=
  [FlowRow.payloadBytes, FlowRow.packets, FlowRow.capturedBytes, fun row => sqlFlag row.rstSeen,
    fun row => sqlFlag row.synSeen, fun row => sqlFlag row.closed, FlowRow.zeroWindowEvents]

/-- Their sums over a group are 64-bit integers. -/
def SumsFit (rows : List FlowRow) : Prop :=
  ∀ column ∈ summedColumns, (rows.map column).sum < 2 ^ 63

instance (rows : List FlowRow) : Decidable (SumsFit rows) :=
  inferInstanceAs (Decidable (∀ column ∈ summedColumns, (rows.map column).sum < 2 ^ 63))

theorem sqlSum_eq {l : List ℤ} (h : ∀ n ∈ l, 0 ≤ n) :
    sqlSum l = if l.sum < 2 ^ 63 then .ok l.sum else .error .sql := by
  have hfrom : ∀ sum : ℤ, 0 ≤ sum → sum < 2 ^ 63 →
      (l.foldlM (fun sum n =>
        if -2 ^ 63 ≤ sum + n ∧ sum + n < 2 ^ 63 then .ok (sum + n) else .error .sql) sum :
        Except NativeError ℤ) = if sum + l.sum < 2 ^ 63 then .ok (sum + l.sum) else .error .sql := by
    induction l with
    | nil =>
      intro sum _ hlt
      rw [List.sum_nil, add_zero, if_pos hlt]
      rfl
    | cons n l ih =>
      intro sum hnonneg hlt
      obtain ⟨hn, hl⟩ := List.forall_mem_cons.mp h
      have hrest := List.sum_nonneg hl
      rw [List.foldlM_cons, List.sum_cons, ← add_assoc]
      by_cases hfits : sum + n < 2 ^ 63
      · rw [if_pos ⟨by omega, hfits⟩]
        exact ih hl (sum + n) (by omega) hfits
      · rw [if_neg fun hboth => hfits hboth.2, if_neg (by omega)]
        rfl
  rw [sqlSum, hfrom 0 le_rfl (by decide), zero_add]

/-- The row of a group whose sums fit. -/
def groupRow (p : String × String) (rows : List FlowRow) : PairRow where
  a := p.1
  b := p.2
  bytes := (rows.map FlowRow.payloadBytes).sum
  packets := (rows.map FlowRow.packets).sum
  flows := rows.length
  stream := (sqlMin (rows.map FlowRow.id) : ℕ)
  port := (sqlMin (rows.map fun row =>
    if row.clientIsLeft then row.key.right.port else row.key.left.port) : ℕ)
  wire := (rows.map FlowRow.capturedBytes).sum
  rsts := (rows.map fun row => sqlFlag row.rstSeen).sum
  syns := (rows.map fun row => sqlFlag row.synSeen).sum
  closed := (rows.map fun row => sqlFlag row.closed).sum
  first := sqlMin (rows.map FlowRow.firstTsNs)
  last := sqlMax (rows.map FlowRow.lastTsNs)
  zeros := (rows.map FlowRow.zeroWindowEvents).sum

theorem pairRow_eq {rows : List FlowRow}
    (hcounts : ∀ row ∈ rows, ∀ column ∈ summedColumns, 0 ≤ column row) (p : String × String) :
    pairRow p rows = if SumsFit rows then .ok (groupRow p rows) else .error .sql := by
  have hsum : ∀ column ∈ summedColumns, sqlSum (rows.map column) =
      if (rows.map column).sum < 2 ^ 63 then .ok (rows.map column).sum else .error .sql := by
    intro column hcolumn
    apply sqlSum_eq
    intro n hn
    obtain ⟨row, hrow, rfl⟩ := List.mem_map.mp hn
    exact hcounts row hrow column hcolumn
  simp only [summedColumns, List.forall_mem_cons] at hsum
  obtain ⟨hbytes, hpackets, hwire, hrsts, hsyns, hclosed, hzeros, -⟩ := hsum
  rw [pairRow, hbytes, hpackets, hwire, hrsts, hsyns, hclosed, hzeros]
  simp only [Fallible.ite_bind, ← ite_and]
  apply if_congr _ rfl rfl
  simp only [SumsFit, summedColumns, List.forall_mem_cons]
  simp

/-- The manifest's counts are counts. -/
theorem counts_row {f : Flow} {row : FlowRow} (h : f.row = .ok row) :
    ∀ column ∈ summedColumns, 0 ≤ column row := by
  have hflag : ∀ flag, 0 ≤ sqlFlag flag := by decide
  unfold Flow.row at h
  obtain ⟨packets, hpackets, h⟩ := Fallible.bind_eq_ok.mp h
  obtain ⟨captured, hcaptured, h⟩ := Fallible.bind_eq_ok.mp h
  obtain ⟨payload, hpayload, h⟩ := Fallible.bind_eq_ok.mp h
  obtain ⟨_, -, h⟩ := Fallible.bind_eq_ok.mp h
  obtain ⟨_, -, h⟩ := Fallible.bind_eq_ok.mp h
  obtain ⟨zeros, hzeros, h⟩ := Fallible.bind_eq_ok.mp h
  obtain ⟨_, -, h⟩ := Fallible.bind_eq_ok.mp h
  obtain ⟨_, -, h⟩ := Fallible.bind_eq_ok.mp h
  cases h
  simp only [summedColumns, List.forall_mem_cons, u64ToSql_ok hpackets, u64ToSql_ok hcaptured,
    u64ToSql_ok hpayload, u64ToSql_ok hzeros, Int.natCast_nonneg, hflag, true_and]
  simp

/-! ## The lines -/

/-- A text in which no field ends. -/
def PlainText (s : String) : Prop := ∀ c ∈ s.toList, c ∉ separators

/-- The edge of a row. -/
def edgeOf (r : PairRow) : PairEdge where
  source := r.a
  target := r.b
  bytes := r.bytes
  packets := r.packets
  streams := r.flows
  stream := r.stream
  ports := [r.port]
  capturedBytes := r.wire
  resets := r.rsts
  synFlows := r.syns
  closedFlows := r.closed
  durationMs := max 0 ((r.last - r.first : ℤ) / 1000000)
  zeroWindowEvents := r.zeros

section

variable {r : PairRow} (ha : PlainText r.a) (hb : PlainText r.b)

include ha hb

theorem not_mem_separators_of_mem_fields {field : Text} (hfield : field ∈ r.fields) {c : Char}
    (hc : c ∈ field) : c ∉ separators := by
  rcases List.mem_append.mp hfield with h | h
  · rcases List.mem_pair.mp h with rfl | rfl
    · exact ha c hc
    · exact hb c hc
  · obtain ⟨n, -, rfl⟩ := List.mem_map.mp h
    exact not_mem_separators hc

/-- A row is printed on one line, -/
theorem not_mem_lineBreaks_of_mem_line {c : Char} (hc : c ∈ ['\t'].intercalate r.fields) :
    c ∉ lineBreaks := by
  rcases mem_intercalate hc with rfl | ⟨field, hfield, hc⟩
  · decide
  · exact fun h => not_mem_separators_of_mem_fields ha hb hfield hc (List.mem_cons_of_mem _ h)

/-- and read back. -/
theorem readPair_fields : readPair (['\t'].intercalate r.fields) = .ok (edgeOf r) := by
  have hsplit : (['\t'].intercalate r.fields).splitOn '\t' = r.fields := by
    apply List.splitOn_intercalate
    · intro field hfield htab
      exact not_mem_separators_of_mem_fields ha hb hfield htab List.mem_cons_self
    · exact List.cons_ne_nil _ _
  have hint : ∀ n, intField (decimal n) = .ok n := by
    intro n
    rw [intField, readInt_decimal]
  rw [readPair, hsplit]
  simp only [PairRow.fields, List.map_cons, List.map_nil, List.cons_append, List.nil_append, hint,
    String.ofList_toList]
  rfl

end

/-- What is printed is read back. -/
theorem mapM_readPair {rows : List PairRow} (h : ∀ r ∈ rows, PlainText r.a ∧ PlainText r.b) :
    (splitLines (printLines (rows.map fun r => ['\t'].intercalate r.fields))).mapM readPair =
      .ok (rows.map edgeOf) := by
  have hlines : ∀ line ∈ rows.map fun r => ['\t'].intercalate r.fields,
      ∀ c ∈ line, c ∉ lineBreaks := by
    intro line hline c hc
    obtain ⟨r, hr, rfl⟩ := List.mem_map.mp hline
    exact not_mem_lineBreaks_of_mem_line (h r hr).1 (h r hr).2 hc
  rw [splitLines_printLines hlines, List.mapM_map]
  apply Fallible.mapM_eq_map
  intro r hr
  exact readPair_fields (h r hr).1 (h r hr).2

/-! ## `topology_pairs` -/

section

variable (text : ℕ → Bytes → String)

/-- The text of a row's two addresses. -/
def rowEnds (row : FlowRow) : String × String :=
  (text row.key.family row.key.left.addr, text row.key.family row.key.right.addr)

variable (groupOrder : List (String × String) → List (String × String))

/-- The groups of the query, as SQLite meets them, -/
def queryGroups (flows : List FlowRow) : List (String × String) :=
  groupOrder (pairsOf (rowEnds text) flows)

/-- and its rows when each sum fits. -/
def queryRows (flows : List FlowRow) : List PairRow :=
  sortOn (fun r => toLex (-r.bytes, -r.packets))
    ((queryGroups text groupOrder flows).map fun p => groupRow p (ofPair (rowEnds text) flows p))

theorem pairRows_eq {flows : List FlowRow}
    (hcounts : ∀ row ∈ flows, ∀ column ∈ summedColumns, 0 ≤ column row) (limit : ℕ) :
    pairRows text groupOrder flows limit =
      if ∀ p ∈ queryGroups text groupOrder flows, SumsFit (ofPair (rowEnds text) flows p) then
        .ok ((queryRows text groupOrder flows).take limit)
      else .error .sql := by
  have hgroups : (flows.map (rowPair text)).dedup = pairsOf (rowEnds text) flows := by
    rw [pairsOf]
    congr 2
    funext row
    exact rowPair_eq text row
  have hrow : (fun p => pairRow p (flows.filter fun row => rowPair text row = p)) =
      fun p => if SumsFit (ofPair (rowEnds text) flows p) then
        .ok (groupRow p (ofPair (rowEnds text) flows p)) else .error .sql := by
    funext p
    have hgroup : (flows.filter fun row => rowPair text row = p) = ofPair (rowEnds text) flows p := by
      simp only [rowPair_eq]
      rfl
    rw [hgroup, pairRow_eq]
    intro row hrow
    exact hcounts row (mem_ofPair.mp hrow).1
  rw [pairRows, hgroups, hrow, Fallible.mapM_ite, Fallible.ite_bind]
  rfl

variable {dir : IndexDir} {index : Index} {limit : ℤ}

/-- `topology_pairs` answers when the sums of each group fit. -/
theorem topologyPairs_eq (hdir : dir.Holds index) (hlimit : 1 ≤ limit ∧ limit ≤ 500)
    (hcounts : ∀ row ∈ index.manifest.flows, ∀ column ∈ summedColumns, 0 ≤ column row)
    (htext : ∀ family addr, PlainText (text family addr)) (hgroups : ∀ l, (groupOrder l).Perm l) :
    topologyPairs text groupOrder dir limit =
      if ∀ p ∈ queryGroups text groupOrder index.manifest.flows,
          SumsFit (ofPair (rowEnds text) index.manifest.flows p) then
        .ok (((queryRows text groupOrder index.manifest.flows).take limit.toNat).map edgeOf)
      else .error (.process .sql) := by
  have hready : dir.isReady = true := by
    have hrefs : dir.refs.isSome = true := by
      rw [← Option.isSome_map, hdir.refs]
      rfl
    have hsqlite : dir.sqlite.isSome = true := by
      rw [← Option.isSome_map, hdir.sqlite]
      rfl
    rw [IndexDir.isReady, hdir.ready, hrefs, hsqlite]
    rfl
  have hmarked : dir.ready.isNone = false := by
    rw [Option.isNone_eq_false_iff]
    exact hdir.ready
  have hplain : ∀ r ∈ (queryRows text groupOrder index.manifest.flows).take limit.toNat,
      PlainText r.a ∧ PlainText r.b := by
    intro r hr
    obtain ⟨p, hp, rfl⟩ := List.mem_map.mp (mem_sortOn.mp (List.mem_of_mem_take hr))
    obtain ⟨row, -, hrow⟩ := mem_pairsOf.mp ((hgroups _).mem_iff.mp hp)
    rcases sortedPair_eq_or (rowEnds text row).1 (rowEnds text row).2 with h | h <;> rw [h] at hrow <;>
      rw [← hrow]
    · exact ⟨htext _ _, htext _ _⟩
    · exact ⟨htext _ _, htext _ _⟩
  rw [topologyPairs, hready, if_neg (by decide), if_neg (not_not.mpr hlimit), topology, hmarked,
    hdir.sqlite]
  simp only [Bool.false_eq_true, if_false]
  rw [pairRows_eq text groupOrder hcounts]
  by_cases hfits : ∀ p ∈ queryGroups text groupOrder index.manifest.flows,
      SumsFit (ofPair (rowEnds text) index.manifest.flows p)
  · rw [if_pos hfits, if_pos hfits]
    exact mapM_readPair hplain
  · rw [if_neg hfits, if_neg hfits]
    rfl

end

end PacketTrain.Analysis
