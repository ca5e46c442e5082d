import Mathlib.Data.List.Nodup
import PacketTrain.Laws.Indexer.ScanLoop

/-!
# Scan, then extract

The two halves meet in `refs.bin`. `ScanLoop` says that the file spells the log a chain writer
leaves; here the file is read back. `refAt_refLog` decodes a row, `walkChain_of_follows` runs
`extract`'s loop along a chain, and `exact_index` collects what an index promises about the capture
it was built from (`ExactIndex`): every reference in one chain, every chain exactly its flow's
packets, every extracted file the capture's header and those packets' records.

The capture's length bound is the one the format sets: a record's length, header included, is
stored in 32 bits.
-/

namespace PacketTrain.Indexer

open Fallible

/-! ## What an index promises -/

/-- The records scan assigned to a flow, in source order. -/
def recordsOf (ps : List Placement) (id : Nat) : List Record :=
  (ps.filter (·.flow = some id)).map (·.record)

/-- What the walk keeps of a record. -/
def Record.hop (r : Record) : Hop := ⟨r.frame, r.offset, r.len⟩

/-- A record's bytes in the capture, header included. -/
def Record.bytes (capture : Bytes) (r : Record) : Bytes := (capture.drop r.offset).take r.len

/-- Reading `refs.bin` backward from a reference: the rows met, newest first. -/
inductive ChainFrom (refs : Bytes) : Nat → List (Nat × RefRow) → Prop
  | done : ChainFrom refs noRef []
  | hop {k : Nat} {row : RefRow} {rest : List (Nat × RefRow)} : k ≠ noRef →
      refAt refs k = some row → ChainFrom refs row.previous rest →
      ChainFrom refs k ((k, row) :: rest)

/-- A flow's chain: it has the flow's packets and no more, they are all the flow's, they stand in
capture order, they end at the flow's first reference, and they are the records scan assigned. -/
structure ExactChain (index : Index) (ps : List Placement) (f : FlowRow)
    (chain : List (Nat × RefRow)) : Prop where
  walk : ChainFrom index.refs f.lastRef.toNat chain
  count : (chain.length : Int) = f.packets
  owned : ∀ e ∈ chain, e.2.owner = f.id
  ordered : (chain.reverse.map (·.2.frame)).Pairwise (· < ·)
  first : ∃ e, chain.getLast? = some e ∧ (e.1 : Int) = f.firstRef ∧ e.2.previous = noRef
  records : chain.reverse.map (·.2.hop) = (recordsOf ps f.id).map Record.hop

/-- Everything an index promises about the capture it was built from. -/
structure ExactIndex (source : Source) (index : Index) : Prop where
  /-- Every flow's chain is exact. -/
  chains : ∀ f ∈ index.manifest.flows, ∃ chain, ExactChain index (placements source) f chain
  /-- Every reference is in exactly one flow's chain. -/
  references : ∀ k, k * refSize < index.refs.length → ∃! f, f ∈ index.manifest.flows ∧
    ∃ chain, ExactChain index (placements source) f chain ∧ k ∈ chain.map Prod.fst
  /-- Extraction copies the header and the flow's records, in source order. -/
  extracts : ∀ f ∈ index.manifest.flows, ∀ dir : IndexDir, dir.Holds index →
    extract dir source f.id = .ok (source.bytes.take 24 ++
      (recordsOf (placements source) f.id).flatMap (Record.bytes source.bytes))
  /-- Every assigned record is in exactly one extracted file, once. -/
  partition : ∀ p ∈ placements source, ∀ i, p.flow = some i → ∃! f, f ∈ index.manifest.flows ∧
    (recordsOf (placements source) f.id).count p.record = 1

/-! ## The log, decoded -/

/-- A log whose chains can be read back: its owners, frames and positions fit the widths of a row. -/
structure Readable (log : List (Chain.Link Nat Record)) : Prop where
  linked : Chain.Linked log
  short : log.length < 2 ^ 32
  owner : ∀ l ∈ log, l.owner < 2 ^ 32
  frame : ∀ l ∈ log, l.item.frame < 2 ^ 32

/-- A log whose fields fit the widths of a row. -/
structure Fits (log : List (Chain.Link Nat Record)) : Prop extends Readable log where
  offset : ∀ l ∈ log, l.item.offset < 2 ^ 64
  len : ∀ l ∈ log, l.item.len < 2 ^ 32

/-- The row a log entry is decoded to. -/
def rowOf (l : Chain.Link Nat Record) : RefRow :=
  ⟨l.item.offset % 2 ^ 64, l.item.len % 2 ^ 32, l.item.frame, refOf l.prev, l.owner⟩

theorem rowOf_hop {log : List (Chain.Link Nat Record)} (h : Fits log) {l : Chain.Link Nat Record}
    (hl : l ∈ log) : (rowOf l).hop = l.item.hop := by
  rw [RefRow.hop, rowOf, Record.hop, Nat.mod_eq_of_lt (h.offset l hl), Nat.mod_eq_of_lt (h.len l hl)]

theorem refOf_lt {log : List (Chain.Link Nat Record)} (h : Readable log) {l : Chain.Link Nat Record}
    (hl : l ∈ log) : refOf l.prev < 2 ^ 64 := by
  cases hp : l.prev with
  | none =>
    show noRef < 2 ^ 64
    decide
  | some j =>
    obtain ⟨i, hi⟩ := List.mem_iff_getElem?.mp hl
    have := Chain.prev_lt h.linked hi hp
    have := (List.getElem?_eq_some_iff.mp hi).1
    have := h.short
    show j < 2 ^ 64
    omega

theorem decode_encodeLink {log : List (Chain.Link Nat Record)} (h : Readable log)
    {l : Chain.Link Nat Record} (hl : l ∈ log) : RefRow.decode (encodeLink l) = rowOf l := by
  have howner := h.owner l hl
  have hframe := h.frame l hl
  have hprev := refOf_lt h hl
  have hlen : l.item.len % 2 ^ 32 < 256 ^ 4 := Nat.mod_lt _ (by decide)
  rw [encodeLink, decode_writeRef, rowOf, Nat.mod_eq_of_lt howner, Nat.mod_eq_of_lt hlen,
    Nat.mod_eq_of_lt (a := l.item.frame) (by omega), Nat.mod_eq_of_lt (a := refOf l.prev) (by omega),
    Nat.mod_eq_of_lt (a := l.owner) (by omega)]
  rfl

/-- A row of `refs.bin` is the log entry at its position. -/
theorem refAt_refLog {log : List (Chain.Link Nat Record)} (h : Readable log) {k : Nat}
    {l : Chain.Link Nat Record} (hk : log[k]? = some l) :
    refAt (log.flatMap encodeLink) k = some (rowOf l) := by
  rw [refAt, Bytes.slice_flatMap encodeLink length_encodeLink hk, Option.map_some,
    decode_encodeLink h (List.mem_of_getElem? hk)]

/-- A position in such a log is not `NO_REF`, and its row's offset does not overflow. -/
theorem position_small {log : List (Chain.Link Nat Record)} (h : Readable log) {k : Nat}
    {l : Chain.Link Nat Record} (hk : log[k]? = some l) : k ≠ noRef ∧ k * refSize < 2 ^ 64 := by
  have := (List.getElem?_eq_some_iff.mp hk).1
  have := h.short
  unfold noRef refSize
  omega

/-! ## The two readers along a chain -/

theorem chainFrom_of_follows {log : List (Chain.Link Nat Record)} (h : Readable log) {o : Option Nat}
    {c : List (Chain.Link Nat Record × Nat)} (hc : Chain.Follows log o c) :
    ChainFrom (log.flatMap encodeLink) (refOf o) (c.map fun e => (e.2, rowOf e.1)) := by
  induction hc with
  | done => exact .done
  | hop hi _ ih => exact .hop (position_small h hi).1 (refAt_refLog h hi) ih

/-- `extract`'s loop along a chain of its own flow, when the packet count allows it. -/
theorem walkChain_of_follows {log : List (Chain.Link Nat Record)} (h : Readable log) (k packets : Nat)
    {o : Option Nat} {c : List (Chain.Link Nat Record × Nat)} (hc : Chain.Follows log o c)
    (hown : ∀ e ∈ c, e.1.owner = k) (fuel : Nat) (chain : List Hop)
    (hcount : chain.length + c.length ≤ packets) (hfuel : c.length ≤ fuel) :
    walkChain (log.flatMap encodeLink) k packets fuel (refOf o) chain =
      .ok (chain ++ c.map fun e => (rowOf e.1).hop) := by
  induction hc generalizing fuel chain with
  | done =>
    unfold walkChain refOf
    rw [if_pos rfl, List.map_nil, List.append_nil]
  | @hop i l rest hi hrest ih =>
    obtain ⟨hne, hoff⟩ := position_small h hi
    rw [List.length_cons] at hcount hfuel
    obtain ⟨fuel, rfl⟩ := Nat.exists_eq_add_of_le' (Nat.lt_of_lt_of_le (Nat.succ_pos _) hfuel)
    have howner : l.owner = k := hown (l, i) List.mem_cons_self
    have hroom : ¬ packets < (chain ++ [(rowOf l).hop]).length := by
      rw [List.length_append, List.length_singleton]
      omega
    show walkChain _ k packets (fuel + 1) i chain = _
    unfold walkChain
    rw [if_neg hne]
    simp only [if_neg (Nat.not_le.mpr hoff), refAt_refLog h hi]
    rw [if_neg (by simpa only [rowOf, ne_eq, not_not] using howner)]
    show (if packets < (chain ++ [(rowOf l).hop]).length then _ else
      walkChain _ k packets fuel (refOf l.prev) (chain ++ [(rowOf l).hop])) = _
    rw [if_neg hroom, ih (fun e he => hown e (List.mem_cons_of_mem _ he)) fuel _
      (by rw [List.length_append, List.length_singleton]; omega) (by omega),
      List.append_assoc, List.singleton_append, List.map_cons]

/-- The copy loop over records that lie in the capture. -/
theorem copyRecords_ok {capture : Bytes} {rs : List Record}
    (h : ∀ r ∈ rs, r.offset + r.len ≤ capture.length) :
    copyRecords capture (rs.map Record.hop) = .ok (rs.flatMap (Record.bytes capture)) := by
  induction rs with
  | nil => rfl
  | cons r rs ih =>
    have hr := h r List.mem_cons_self
    have hslice : capture.slice r.offset (r.offset + r.len) = some (r.bytes capture) := by
      rw [Bytes.slice_of_le (by omega) hr, Nat.add_sub_cancel_left]
      rfl
    rw [List.map_cons, copyRecords, show (Record.hop r).offset = r.offset from rfl,
      show (Record.hop r).len = r.len from rfl, hslice,
      ih fun r' h' => h r' (List.mem_cons_of_mem _ h'), List.flatMap_cons]
    rfl

/-! ## The scan's own log fits -/

/-- A record's flow, read off the log. -/
theorem mem_assignments {ps : List Placement} {i : Nat} {r : Record} :
    (i, r) ∈ assignments ps ↔ ∃ p ∈ ps, p.flow = some i ∧ p.record = r := by
  unfold assignments
  rw [List.mem_filterMap]
  constructor
  · rintro ⟨p, hp, h⟩
    obtain ⟨j, hj, heq⟩ := Option.map_eq_some_iff.mp h
    cases heq
    exact ⟨p, hp, hj, rfl⟩
  · rintro ⟨p, hp, hf, rfl⟩
    exact ⟨p, hp, by rw [hf]; rfl⟩

/-- Every log entry is an assigned record. -/
theorem mem_refLog {ps : List Placement} {l : Chain.Link Nat Record} (hl : l ∈ refLog ps) :
    ∃ p ∈ ps, p.flow = some l.owner ∧ p.record = l.item :=
  mem_assignments.mp (Chain.mem_build.mpr ⟨l, hl, rfl, rfl⟩)

/-- A flow's chain carries the records scan assigned to it. -/
theorem owned_items (ps : List Placement) (i : Nat) :
    (Chain.owned (refLog ps) i).map (·.1.item) = recordsOf ps i := by
  rw [refLog, Chain.owned_build, assignments, recordsOf]
  induction ps with
  | nil => rfl
  | cons p ps ih =>
    cases hp : p.flow with
    | none =>
      rw [List.filterMap_cons_none (by rw [hp]; rfl), List.filter_cons_of_neg (by simp [hp]), ih]
    | some j =>
      rw [List.filterMap_cons_some (by rw [hp]; rfl)]
      by_cases hj : j = i
      · rw [List.filter_cons_of_pos (by simp [hj]), List.filter_cons_of_pos (by simp [hp, hj]),
          List.map_cons, List.map_cons, ih]
      · rw [List.filter_cons_of_neg (by simp [hj]), List.filter_cons_of_neg (by simp [hp, hj]), ih]

theorem readable_refLog {map : Bytes} {ps : List Placement} {st : ScanState}
    (h : LoopInv map ps st) : Readable (refLog ps) where
  linked := Chain.linked_build _
  short := h.refsInv.count_lt
  owner l hl := by
    have := h.refsInv.owners l hl
    have := h.refsInv.count_lt
    have := h.few
    omega
  frame l hl := by
    obtain ⟨p, hp, -, hr⟩ := mem_refLog hl
    have := h.frame_le p hp
    have := h.frame_lt
    rw [← hr]
    omega

/-- The fields fit when every record does, its length in 32 bits. -/
theorem fits_of_records {map : Bytes} {ps : List Placement} {st : ScanState}
    (h : LoopInv map ps st) (hmap : map.length < 2 ^ 64)
    (hlen : ∀ p ∈ ps, p.record.len < 2 ^ 32) : Fits (refLog ps) where
  toReadable := readable_refLog h
  offset l hl := by
    obtain ⟨p, hp, -, hr⟩ := mem_refLog hl
    have := h.inside p hp
    rw [hr] at this
    omega
  len l hl := by
    obtain ⟨p, hp, -, hr⟩ := mem_refLog hl
    exact hr ▸ hlen p hp

theorem fits_refLog {map : Bytes} {ps : List Placement} {st : ScanState} (h : LoopInv map ps st)
    (hlen : map.length < 2 ^ 32 - 16) : Fits (refLog ps) :=
  fits_of_records h (by omega) fun p hp => by
    have := h.inside p hp
    omega

/-! ## The manifest -/

theorem u64ToSql_ok {n : Nat} {v : Int} (h : u64ToSql n = .ok v) : v = n := by
  unfold u64ToSql at h
  split at h
  · exact (Except.ok.inj h).symm
  · cases h

@[simp] theorem u64OfSql_natCast (n : Nat) : u64OfSql (n : Int) = .ok n := by
  rw [u64OfSql, if_pos (Int.natCast_nonneg _), Int.toNat_natCast]

/-- The columns `extract` reads are the flow's. -/
theorem row_ok {f : Flow} {row : FlowRow} (h : f.row = .ok row) : row.id = f.id ∧
    row.packets = f.packets ∧ row.firstRef = f.firstRef ∧ row.lastRef = f.lastRef := by
  unfold Flow.row at h
  obtain ⟨packets, hpackets, h⟩ := bind_eq_ok.mp h
  obtain ⟨_, -, h⟩ := bind_eq_ok.mp h
  obtain ⟨_, -, h⟩ := bind_eq_ok.mp h
  obtain ⟨_, -, h⟩ := bind_eq_ok.mp h
  obtain ⟨_, -, h⟩ := bind_eq_ok.mp h
  obtain ⟨_, -, h⟩ := bind_eq_ok.mp h
  obtain ⟨firstRef, hfirst, h⟩ := bind_eq_ok.mp h
  obtain ⟨lastRef, hlast, h⟩ := bind_eq_ok.mp h
  cases h
  exact ⟨rfl, u64ToSql_ok hpackets, u64ToSql_ok hfirst, u64ToSql_ok hlast⟩

/-- The columns that orient a row are the flow's. -/
theorem row_orients {f : Flow} {row : FlowRow} (h : f.row = .ok row) :
    row.key = f.key ∧ row.clientIsLeft = f.clientIsLeft := by
  unfold Flow.row at h
  iterate 8 obtain ⟨_, -, h⟩ := bind_eq_ok.mp h
  cases h
  exact ⟨rfl, rfl⟩

/-- What a successful build consists of. -/
structure Built (source : Source) (index : Index) (ps : List Placement) (st : ScanState) : Prop where
  inv : LoopInv source.bytes ps st
  placements : placements source = ps
  header : 24 ≤ source.bytes.length
  refs : index.refs = st.refs
  size : index.manifest.metadata.sourceSize = source.bytes.length
  mtime : index.manifest.metadata.sourceMtimeNs = source.mtimeNs
  rows : List.Forall₂ (fun f row => Flow.row f = .ok row) st.flows index.manifest.flows

theorem readHeader_length {map : Bytes} {h : Header} (hh : readHeader map = .ok h) :
    24 ≤ map.length := by
  unfold readHeader at hh
  split at hh
  · cases hh
  · omega

/-- A build runs the loop and writes down what it leaves. -/
theorem buildIndex_scan {source : Source} {index : Index} (h : buildIndex source = .ok index) :
    ∃ hd ps st, readHeader source.bytes = .ok hd ∧ scanRecords source.bytes = .ok (hd, ps, st) ∧
      Built source index ps st := by
  unfold buildIndex at h
  obtain ⟨⟨hd, ps, st⟩, hs, h⟩ := bind_eq_ok.mp h
  unfold finishIndex at h
  obtain ⟨rows, hrows, h⟩ := bind_eq_ok.mp h
  cases h
  unfold insertFlows at hrows
  obtain ⟨rows', hmap, hrows⟩ := bind_eq_ok.mp hrows
  have hheader : readHeader source.bytes = .ok hd := by
    unfold scanRecords at hs
    obtain ⟨hd', hhd, hs⟩ := bind_eq_ok.mp hs
    obtain ⟨⟨ps', st'⟩, -, hs⟩ := bind_eq_ok.mp hs
    cases hs
    exact hhd
  split at hrows
  · cases hrows
    exact ⟨hd, ps, st, hheader, hs, scanRecords_inv hs, by rw [Indexer.placements, hs],
      readHeader_length hheader, rfl, rfl, rfl, mapM_eq_ok hmap⟩
  · cases hrows

theorem buildIndex_ok {source : Source} {index : Index} (h : buildIndex source = .ok index) :
    ∃ ps st, Built source index ps st := by
  obtain ⟨_, ps, st, -, -, hbuilt⟩ := buildIndex_scan h
  exact ⟨ps, st, hbuilt⟩

/-- A row of the manifest and the flow it was written from. -/
structure RowOf (ps : List Placement) (i : Nat) (row : FlowRow) : Prop where
  id : row.id = i
  packets : row.packets = ((Chain.owned (refLog ps) i).length : Int)
  firstRef : row.firstRef = (refOf ((Chain.owned (refLog ps) i).head?.map Prod.snd) : Int)
  lastRef : row.lastRef = (refOf (Chain.lastOf (refLog ps) i) : Int)
  started : Chain.owned (refLog ps) i ≠ []

variable {source : Source} {index : Index} {ps : List Placement} {st : ScanState}

theorem Built.row (h : Built source index ps st) {i : Nat} {row : FlowRow}
    (hi : index.manifest.flows[i]? = some row) : RowOf ps i row := by
  obtain ⟨hlt, rfl⟩ := List.getElem?_eq_some_iff.mp hi
  have hlt' : i < st.flows.length := h.rows.length_eq ▸ hlt
  obtain ⟨hid, hpackets, hfirst, hlast⟩ := row_ok (h.rows.get hlt' hlt)
  have hf := h.inv.refsInv.flows i _ (List.getElem?_eq_getElem hlt')
  simp only [List.get_eq_getElem] at hid hpackets hfirst hlast
  exact ⟨by rw [hid, h.inv.id_eq (List.getElem?_eq_getElem hlt')], by rw [hpackets, hf.packets],
    by rw [hfirst, hf.firstRef], by rw [hlast, hf.lastRef], h.inv.started i hlt'⟩

/-- A row is where its id says. -/
theorem Built.mem_iff (h : Built source index ps st) {row : FlowRow} :
    row ∈ index.manifest.flows ↔ index.manifest.flows[row.id]? = some row := by
  constructor
  · intro hmem
    obtain ⟨i, hi⟩ := List.mem_iff_getElem?.mp hmem
    rw [(h.row hi).id]
    exact hi
  · exact List.mem_of_getElem?

/-- The flow that a row was written from. -/
theorem Built.exists_flow (h : Built source index ps st) {row : FlowRow}
    (hrow : row ∈ index.manifest.flows) :
    ∃ f, st.flows[row.id]? = some f ∧ f.row = .ok row := by
  obtain ⟨hlt, heq⟩ := List.getElem?_eq_some_iff.mp (h.mem_iff.mp hrow)
  have hlt' : row.id < st.flows.length := h.rows.length_eq ▸ hlt
  have hget := h.rows.get hlt' hlt
  simp only [List.get_eq_getElem, heq] at hget
  exact ⟨_, List.getElem?_eq_getElem hlt', hget⟩

/-- Two rows with one id are one row. -/
theorem Built.row_unique (h : Built source index ps st) {a b : FlowRow}
    (ha : a ∈ index.manifest.flows) (hb : b ∈ index.manifest.flows) (hid : a.id = b.id) : a = b := by
  have ha := h.mem_iff.mp ha
  rw [hid, h.mem_iff.mp hb] at ha
  exact (Option.some.inj ha).symm

/-- Every flow the log names has its row. -/
theorem Built.exists_row (h : Built source index ps st) {i : Nat} {p : Placement} (hp : p ∈ ps)
    (hi : p.flow = some i) : ∃ row, row ∈ index.manifest.flows ∧ row.id = i := by
  obtain ⟨l, hl, rfl, -⟩ := Chain.mem_build.mp (mem_assignments.mpr ⟨p, hp, hi, rfl⟩)
  have hlt := h.inv.refsInv.owners l hl
  rw [h.rows.length_eq] at hlt
  have hrow := List.getElem?_eq_getElem hlt
  exact ⟨_, List.getElem_mem hlt, (h.row hrow).id⟩

/-! ## The chains -/

/-- The records of one flow stand in capture order. -/
theorem recordsOf_ordered (h : Built source index ps st) (i : Nat) :
    ((recordsOf ps i).map Record.frame).Pairwise (· < ·) := by
  rw [recordsOf, List.map_map]
  exact List.pairwise_map.mpr ((List.pairwise_map.mp h.inv.frames).filter _)

/-- In a log that fits, a flow's rows name the records scan assigned to it. -/
theorem owned_hops {ps : List Placement} (hfits : Fits (refLog ps)) (i : Nat) :
    ((Chain.owned (refLog ps) i).map fun e => (rowOf e.1).hop) =
      (recordsOf ps i).map Record.hop := by
  rw [← owned_items, List.map_map]
  apply List.map_congr_left
  intro e he
  exact rowOf_hop hfits (List.mem_of_getElem? (Chain.mem_owned.mp he).1)

/-- A flow's chain, as the log has it, is exact. -/
theorem Built.exactChain (h : Built source index ps st) (hfits : Fits (refLog ps)) {i : Nat}
    {row : FlowRow} (hrow : RowOf ps i row) :
    ExactChain index ps row
      ((Chain.owned (refLog ps) i).reverse.map fun e => (e.2, rowOf e.1)) := by
  have hitems : (Chain.owned (refLog ps) i).map (fun e => e.1.item) = recordsOf ps i :=
    owned_items ps i
  refine ⟨?_, ?_, ?_, ?_, ?_, ?_⟩
  · rw [h.refs, h.inv.refsInv.refs, hrow.lastRef, Int.toNat_natCast]
    exact chainFrom_of_follows hfits.toReadable (Chain.follows_lastOf hfits.linked i)
  · rw [List.length_map, List.length_reverse, hrow.packets]
  · intro e he
    obtain ⟨⟨l, j⟩, hl, rfl⟩ := List.mem_map.mp he
    rw [hrow.id]
    exact (Chain.mem_owned.mp (List.mem_reverse.mp hl)).2
  · have : ((Chain.owned (refLog ps) i).map fun e => e.1.item.frame) =
        (recordsOf ps i).map Record.frame := by
      rw [← hitems, List.map_map]
      rfl
    rw [← List.map_reverse, List.reverse_reverse, List.map_map]
    exact this ▸ recordsOf_ordered h i
  · obtain ⟨⟨l, j⟩, rest, ho⟩ := List.exists_cons_of_ne_nil hrow.started
    have hprev : l.prev = none := Chain.prev_of_head hfits.linked (k := i) (by rw [ho]; rfl)
    refine ⟨(j, rowOf l), ?_, ?_, ?_⟩
    · rw [ho, List.reverse_cons, List.map_append, List.map_singleton, List.getLast?_concat]
    · rw [hrow.firstRef, ho]
      rfl
    · show refOf l.prev = noRef
      rw [hprev]
      rfl
  · rw [← List.map_reverse, List.reverse_reverse, List.map_map, hrow.id]
    exact owned_hops hfits i

/-- A chain met in the file decodes to the rows of the file. -/
theorem ChainFrom.refAt_mem {refs : Bytes} {k : Nat} {chain : List (Nat × RefRow)}
    (h : ChainFrom refs k chain) : ∀ e ∈ chain, refAt refs e.1 = some e.2 := by
  induction h with
  | done => exact fun _ he => nomatch he
  | hop _ hrow _ ih =>
    intro e he
    rcases List.mem_cons.mp he with rfl | he
    · exact hrow
    · exact ih e he

/-! ## Extraction -/

theorem Built.find_row (h : Built source index ps st) {row : FlowRow}
    (hmem : row ∈ index.manifest.flows) :
    index.manifest.flows.find? (fun r => r.id = row.id) = some row := by
  cases hf : index.manifest.flows.find? fun r => r.id = row.id with
  | none =>
    have hmiss := List.find?_eq_none.mp hf row hmem
    simp at hmiss
  | some other =>
    have hid : other.id = row.id := by simpa using List.find?_some hf
    rw [h.row_unique (List.mem_of_find?_eq_some hf) hmem hid]

/-- `extract`'s chain of one flow is the flow's rows, oldest first. -/
theorem Built.flowChain_rows (h : Built source index ps st) {row : FlowRow}
    (hmem : row ∈ index.manifest.flows) :
    flowChain index.refs index.manifest row.id =
      .ok ((Chain.owned (refLog ps) row.id).map fun e => (rowOf e.1).hop) := by
  have hrow := h.row (h.mem_iff.mp hmem)
  have hreadable := readable_refLog h.inv
  have hlast : u64OfSql row.lastRef = .ok (refOf (Chain.lastOf (refLog ps) row.id)) := by
    rw [hrow.lastRef, u64OfSql_natCast]
  have hpackets : u64OfSql row.packets = .ok (Chain.owned (refLog ps) row.id).length := by
    rw [hrow.packets, u64OfSql_natCast]
  have hwalk := walkChain_of_follows hreadable row.id (Chain.owned (refLog ps) row.id).length
    (Chain.follows_lastOf hreadable.linked row.id)
    (fun e he => (Chain.mem_owned.mp (List.mem_reverse.mp he)).2)
    ((Chain.owned (refLog ps) row.id).length + 1) []
    (by simp only [List.length_nil, List.length_reverse]; omega)
    (by simp only [List.length_reverse]; omega)
  rw [flowChain, h.find_row hmem]
  show (u64OfSql row.lastRef >>= fun lastRef => u64OfSql row.packets >>= fun packets =>
    walkChain index.refs row.id packets (packets + 1) lastRef [] >>= fun chain => _) = _
  rw [hlast, hpackets, h.refs, h.inv.refsInv.refs]
  show (walkChain _ row.id _ _ _ [] >>= fun chain => _) = _
  rw [hwalk]
  show (if _ ≠ _ then _ else _) = _
  rw [List.nil_append, List.length_map, List.length_reverse, if_neg (not_not.mpr rfl),
    ← List.map_reverse, List.reverse_reverse]

theorem Built.extract_ok (h : Built source index ps st) (hfits : Fits (refLog ps)) {row : FlowRow}
    (hmem : row ∈ index.manifest.flows) :
    extractFrom index source row.id = .ok (source.bytes.take 24 ++
      (recordsOf ps row.id).flatMap (Record.bytes source.bytes)) := by
  have hinside : ∀ r ∈ recordsOf ps row.id, r.offset + r.len ≤ source.bytes.length := by
    intro r hr
    obtain ⟨p, hp, rfl⟩ := List.mem_map.mp hr
    exact h.inv.inside p (List.mem_of_mem_filter hp)
  have hheader : source.bytes.slice 0 24 = some (source.bytes.take 24) :=
    Bytes.slice_of_le (Nat.zero_le 24) h.header
  unfold extractFrom
  simp only [h.size, h.mtime, ne_eq, not_true_eq_false, or_self, if_false]
  rw [h.flowChain_rows hmem, owned_hops hfits]
  simp only [hheader, bind, Except.bind, copyRecords_ok hinside]

/-! ## The law -/

/-- A record that was assigned once is listed once. -/
theorem Built.count_record (h : Built source index ps st) {p : Placement} (hp : p ∈ ps) {i : Nat}
    (hi : p.flow = some i) : (recordsOf ps i).count p.record = 1 := by
  refine List.count_eq_one_of_mem ?_ ?_
  · exact (List.pairwise_map.mp (recordsOf_ordered h i)).imp fun hlt heq => by
      rw [heq] at hlt
      exact Nat.lt_irrefl _ hlt
  · exact List.mem_map.mpr ⟨p, List.mem_filter.mpr ⟨hp, by simpa using hi⟩, rfl⟩

/-- Two placements of one record are one placement. -/
theorem Built.placement_unique (h : Built source index ps st) {p q : Placement} (hp : p ∈ ps)
    (hq : q ∈ ps) (hr : p.record = q.record) : p = q := by
  have hnodup : (ps.map (·.record.frame)).Nodup := h.inv.frames.imp Nat.ne_of_lt
  exact List.inj_on_of_nodup_map hnodup hp hq (congrArg Record.frame hr)

/-- SCAN, THEN EXTRACT: an index built from a capture that the format can address recovers every
flow exactly. -/
theorem exact_index {source : Source} {index : Index}
    (hlen : source.bytes.length < 2 ^ 32 - 16) (hbuild : buildIndex source = .ok index) :
    ExactIndex source index := by
  obtain ⟨ps, st, h⟩ := buildIndex_ok hbuild
  have hfits := fits_refLog h.inv hlen
  refine ⟨?_, ?_, ?_, ?_⟩
  · intro f hf
    rw [h.placements]
    exact ⟨_, h.exactChain hfits (h.row (h.mem_iff.mp hf))⟩
  · intro k hk
    rw [h.placements]
    rw [h.refs, h.inv.refsInv.refs, Bytes.length_flatMap_const encodeLink length_encodeLink,
      refSize] at hk
    have hlt : k < (refLog ps).length := by omega
    obtain ⟨l, hl⟩ : ∃ l, (refLog ps)[k]? = some l := ⟨_, List.getElem?_eq_getElem hlt⟩
    obtain ⟨p, hp, hflow, -⟩ := mem_refLog (List.mem_of_getElem? hl)
    obtain ⟨row, hmem, hid⟩ := h.exists_row hp hflow
    refine ⟨row, ⟨hmem, _, h.exactChain hfits (h.row (h.mem_iff.mp hmem)), ?_⟩, ?_⟩
    · refine List.mem_map.mpr ⟨(k, rowOf l), List.mem_map.mpr ⟨(l, k), ?_, rfl⟩, rfl⟩
      exact List.mem_reverse.mpr (Chain.mem_owned.mpr ⟨hl, hid.symm⟩)
    · rintro other ⟨hother, chain, hchain, hk⟩
      obtain ⟨⟨k', r⟩, he, rfl⟩ := List.mem_map.mp hk
      have hdecoded := hchain.walk.refAt_mem _ he
      rw [h.refs, h.inv.refsInv.refs, refAt_refLog hfits.toReadable hl] at hdecoded
      have howner := hchain.owned _ he
      rw [← Option.some.inj hdecoded] at howner
      exact h.row_unique hother hmem (howner.symm.trans hid.symm)
  · intro f hf dir hdir
    rw [hdir.extract, h.placements]
    exact h.extract_ok hfits hf
  · intro p hp i hi
    rw [h.placements] at hp ⊢
    obtain ⟨row, hmem, hid⟩ := h.exists_row hp hi
    refine ⟨row, ⟨hmem, hid ▸ h.count_record hp hi⟩, ?_⟩
    rintro other ⟨hother, hcount⟩
    have hin : p.record ∈ recordsOf ps other.id := List.count_pos_iff.mp (by omega)
    obtain ⟨q, hq, hr⟩ := List.mem_map.mp hin
    obtain ⟨hqmem, hqflow⟩ := List.mem_filter.mp hq
    have hpq := h.placement_unique hqmem hp hr
    rw [hpq, decide_eq_true_eq, hi] at hqflow
    exact h.row_unique hother hmem ((Option.some.inj hqflow).symm.trans hid.symm)

/-- A TCP segment without payload between two hosts of 10.0.0.0/24, as a capture record. -/
def segmentRecord (src dst sport dport flags : UInt8) : Bytes :=
  [0, 0, 0, 0, 0, 0, 0, 0, 54, 0, 0, 0, 54, 0, 0, 0] ++ List.replicate 12 0 ++ [8, 0] ++
    [0x45, 0, 0, 40, 0, 0, 0, 0, 64, 6, 0, 0, 10, 0, 0, src, 10, 0, 0, dst] ++
    [0, sport, 0, dport] ++ List.replicate 8 0 ++ [0x50, flags] ++ List.replicate 6 0

/-- Two connections to one server, interleaved. -/
def interleaved : Source where
  bytes := [0xd4, 0xc3, 0xb2, 0xa1, 2, 0, 4, 0, 0, 0, 0, 0, 0, 0, 0, 0, 0, 0, 1, 0, 1, 0, 0, 0] ++
    segmentRecord 1 9 7 80 2 ++ segmentRecord 2 9 8 80 2 ++ segmentRecord 9 1 80 7 18
  path := "capture.pcap"
  mtimeNs := 1

/-- The law at work: two flows, of two packets and of one. -/
theorem exact_index_interleaved : ∃ index, buildIndex interleaved = .ok index ∧
    index.manifest.flows.map FlowRow.packets = [2, 1] ∧ ExactIndex interleaved index := by
  have hrun : (buildIndex interleaved).map (fun i => i.manifest.flows.map FlowRow.packets) =
      .ok [2, 1] := by decide +kernel
  cases hb : buildIndex interleaved with
  | error e =>
    rw [hb] at hrun
    exact nomatch hrun
  | ok index =>
    rw [hb] at hrun
    exact ⟨index, rfl, Except.ok.inj hrun, exact_index (by decide +kernel) hb⟩

end PacketTrain.Indexer
