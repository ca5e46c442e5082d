import Mathlib.Algebra.BigOperators.Ring.Finset
import PacketTrain.Laws.Indexer.Reindex
import PacketTrain.Laws.Indexer.Safety
import PacketTrain.Lib.Ledger

/-!
# The manifest is a ledger of the capture

A scan posts every packet to one flow or to none, and the manifest is what the flows hold at the end.
`RowLedger` says what each column of a row is, over the flow's own packets; `Balanced` what the rows
are together. The records tile the file, and the columns add up to the capture: rows and
unassigned packets to the TCP packets, and these with the ignored records to the frames.

The counters of one flow come from `Tallied`; `Stamped` adds the columns it leaves out.
-/

namespace PacketTrain.Indexer

open Fallible

/-! ## The columns of a row -/

/-- The row of a flow whose counters fit their columns. -/
def Flow.columns (f : Flow) : FlowRow where
  id := f.id
  generation := f.generation
  key := f.key
  firstFrame := f.firstFrame
  lastFrame := f.lastFrame
  firstTsNs := f.firstTsNs
  lastTsNs := f.lastTsNs
  packets := f.packets
  capturedBytes := f.capturedBytes
  payloadBytes := f.payloadBytes
  leftPayloadBytes := f.leftPayloadBytes
  rightPayloadBytes := f.rightPayloadBytes
  clientIsLeft := f.clientIsLeft
  synSeen := f.synSeen
  finMask := f.finMask
  rstSeen := f.rstSeen
  zeroWindowEvents := f.zeroWindowEvents
  closed := f.closed
  firstRef := f.firstRef
  lastRef := f.lastRef

theorem row_eq_columns {f : Flow} {row : FlowRow} (h : f.row = .ok row) : row = f.columns := by
  unfold Flow.row at h
  obtain ⟨packets, hpackets, h⟩ := bind_eq_ok.mp h
  obtain ⟨captured, hcaptured, h⟩ := bind_eq_ok.mp h
  obtain ⟨payload, hpayload, h⟩ := bind_eq_ok.mp h
  obtain ⟨left, hleft, h⟩ := bind_eq_ok.mp h
  obtain ⟨right, hright, h⟩ := bind_eq_ok.mp h
  obtain ⟨zero, hzero, h⟩ := bind_eq_ok.mp h
  obtain ⟨first, hfirst, h⟩ := bind_eq_ok.mp h
  obtain ⟨last, hlast, h⟩ := bind_eq_ok.mp h
  cases h
  rw [u64ToSql_ok hpackets, u64ToSql_ok hcaptured, u64ToSql_ok hpayload, u64ToSql_ok hleft,
    u64ToSql_ok hright, u64ToSql_ok hzero, u64ToSql_ok hfirst, u64ToSql_ok hlast]
  rfl

/-! ## The columns that `Tallied` leaves out -/

/-- The times and the marks of a flow are those of its packets. -/
structure Stamped (nanos : Bool) (packets : List (Record × ParsedPacket)) (f : Flow) : Prop where
  count : f.packets = packets.length
  first : ∀ a, packets.head? = some a → f.firstTsNs = a.1.tsNs nanos
  last : ∀ a, packets.getLast? = some a → f.lastTsNs = a.1.tsNs nanos
  syn : f.synSeen = true ↔ ∃ a ∈ headers packets, a.2.syn = true
  zeroWindow : f.zeroWindowEvents = (headers packets).countP fun a => a.2.zeroWindow

theorem stamped_opened (nanos : Bool) (key : FlowKey) (srcIsLeft : Bool) :
    Stamped nanos [] (Flow.opened 0 0 key 0 srcIsLeft) where
  count := rfl
  first _ h := by cases h
  last _ h := by cases h
  syn := by simp [Flow.opened, headers]
  zeroWindow := rfl

/-- The first time is the first packet's, whatever comes after it. -/
theorem Stamped.first_touch {nanos : Bool} {packets : List (Record × ParsedPacket)} {f : Flow}
    (h : Stamped nanos packets f) (r : Record) (q : ParsedPacket) {a : Record × ParsedPacket}
    (ha : (packets ++ [(r, q)]).head? = some a) :
    (f.touch r nanos).firstTsNs = a.1.tsNs nanos := by
  show (if f.packets = 0 then r.tsNs nanos else f.firstTsNs) = _
  rw [h.count]
  cases packets with
  | nil =>
    cases ha
    rfl
  | cons b rest =>
    rw [List.length_cons, if_neg (Nat.succ_ne_zero _)]
    exact h.first a ha

theorem Stamped.account {nanos : Bool} {packets : List (Record × ParsedPacket)} {f : Flow}
    (h : Stamped nanos packets f) (r : Record) (q : ParsedPacket) :
    Stamped nanos (packets ++ [(r, q)]) (f.account r nanos q) := by
  have hlast : ∀ a, (packets ++ [(r, q)]).getLast? = some a → r.tsNs nanos = a.1.tsNs nanos := by
    intro a ha
    rw [List.getLast?_concat] at ha
    cases ha
    rfl
  unfold Flow.account
  split
  · next hfragment =>
    have hsame : headers (packets ++ [(r, q)]) = headers packets := by
      rw [headers_concat, if_neg (by simp [hfragment]), List.append_nil]
    refine ⟨?_, fun a ha => h.first_touch r q ha, hlast, ?_, ?_⟩
    · simp [Flow.touch, h.count]
    · simpa [hsame, Flow.touch] using h.syn
    · simpa [hsame, Flow.touch] using h.zeroWindow
  · next hfragment =>
    have hmore : headers (packets ++ [(r, q)]) = headers packets ++ [(r, q)] := by
      rw [headers_concat, if_pos (Bool.eq_false_of_not_eq_true hfragment)]
    refine ⟨?_, fun a ha => h.first_touch r q ha, hlast, ?_, ?_⟩
    · simp [Flow.accountTcp, Flow.touch, h.count]
    · simp [hmore, Flow.accountTcp, Flow.touch, h.syn, or_and_right, exists_or]
    · rw [hmore, List.countP_append, ← h.zeroWindow]
      cases hzero : q.zeroWindow <;> simp [Flow.accountTcp, Flow.touch, hzero]

theorem FlowOf.stamped {nanos : Bool} {packets : List (Record × ParsedPacket)} {f : Flow}
    (h : FlowOf nanos packets f) : Stamped nanos packets f := by
  have hall : ∀ packets, Stamped nanos packets
      ((Flow.opened 0 0 f.key 0 f.clientIsLeft).accountAll nanos packets) := by
    intro packets
    induction packets using List.reverseRecOn with
    | nil => exact stamped_opened _ _ _
    | append_singleton packets a ih =>
      rw [Flow.accountAll_concat]
      exact ih.account a.1 a.2
  have hbare : Stamped nanos packets f.bare := by
    have := hall packets
    rw [h.counters]
    exact ⟨this.count, this.first, this.last, this.syn, this.zeroWindow⟩
  exact ⟨hbare.count, hbare.first, hbare.last, hbare.syn, hbare.zeroWindow⟩

/-! ## One row -/

/-- Every column of a row is read off the flow's packets. -/
structure RowLedger (nanos : Bool) (packets : List (Record × ParsedPacket)) (row : FlowRow) :
    Prop where
  opened : ∃ first, packets.head? = some first ∧ first.2.nonInitialFragment = false ∧
    first.2.key = some row.key ∧ first.2.srcIsLeft = row.clientIsLeft ∧
    first.1.frame = row.firstFrame ∧ first.1.tsNs nanos = row.firstTsNs
  ended : ∃ last, packets.getLast? = some last ∧ last.1.frame = row.lastFrame ∧
    last.1.tsNs nanos = row.lastTsNs
  count : row.packets = packets.length
  captured : row.capturedBytes = ((packets.map fun a => a.1.incl).sum : Nat)
  payload : row.payloadBytes = (((headers packets).map fun a => a.2.payload).sum : Nat)
  left : row.leftPayloadBytes = payloadBy true packets
  right : row.rightPayloadBytes = payloadBy false packets
  sides : row.payloadBytes = row.leftPayloadBytes + row.rightPayloadBytes
  syn : row.synSeen = true ↔ ∃ a ∈ headers packets, a.2.syn = true
  rst : row.rstSeen = true ↔ ∃ a ∈ headers packets, a.2.rst = true
  zeroWindow : row.zeroWindowEvents = (headers packets).countP fun a => a.2.zeroWindow
  closed : row.closed = true ↔ Ended packets

theorem FlowOf.rowLedger {nanos : Bool} {packets : List (Record × ParsedPacket)} {f : Flow}
    (h : FlowOf nanos packets f) : RowLedger nanos packets f.columns := by
  have ht := h.tallied
  have hs := h.stamped
  obtain ⟨r, q, rest, hpackets, hheader, hkey, hside, hframe⟩ := h.first
  obtain ⟨a, ha, hlastFrame⟩ := h.last
  have hhead : packets.head? = some (r, q) := by rw [hpackets, List.head?_cons]
  refine ⟨⟨(r, q), hhead, hheader, hkey, hside, hframe, (hs.first _ hhead).symm⟩,
    ⟨a, ha, hlastFrame, (hs.last a ha).symm⟩, ?_, ?_, ?_, ?_, ?_, ?_, hs.syn, ht.rst, ?_,
    ht.closed_iff⟩
  · exact congrArg Nat.cast ht.count
  · exact congrArg Nat.cast ht.captured
  · exact congrArg Nat.cast ht.payload
  · exact congrArg Nat.cast ht.left
  · exact congrArg Nat.cast ht.right
  · show (f.payloadBytes : Int) = f.leftPayloadBytes + f.rightPayloadBytes
    rw [ht.payload, ht.left, ht.right, ← payloadBy_add, Nat.cast_add]
  · exact congrArg Nat.cast hs.zeroWindow

/-! ## The placements of a run -/

/-- A packet that no flow takes. -/
def Placement.stray (p : Placement) : Bool := p.parsed.isSome && p.flow.isNone

/-- Where the records stand, and what the counters of the loop count. -/
structure PostedInv (ps : List Placement) (st : ScanState) : Prop where
  pos : st.pos = 24 + (ps.map (·.record.len)).sum
  offsets : ∀ k p, ps[k]? = some p → p.record.offset = 24 + ((ps.take k).map (·.record.len)).sum
  tcpPackets : st.tcpPackets = ps.countP (·.parsed.isSome)
  parsed : ∀ p ∈ ps, p.flow.isSome = true → p.parsed.isSome = true
  strays : ∀ p ∈ ps, ∀ q, p.parsed = some q → p.flow = none → q.nonInitialFragment = true

theorem postedInv_start : PostedInv [] .start where
  pos := rfl
  offsets _ _ h := by cases h
  tcpPackets := rfl
  parsed _ h := by cases h
  strays _ h := by cases h

/-- Only a later fragment is left without a flow. -/
theorem flowIndex_none {st : ScanState} {q : ParsedPacket} (h : flowIndex st q = .ok none) :
    q.nonInitialFragment = true := by
  by_contra hheader
  unfold flowIndex at h
  rw [if_neg hheader] at h
  split at h
  · cases h
  · split at h
    · cases h
    · split at h
      · split at h
        · cases h
        · split at h <;> cases h
      · cases h

/-- What an iteration does to the counters of the loop. -/
theorem scanRecord_posts {map : Bytes} {h : Header} {st st' : ScanState} {p : Placement}
    (hs : scanRecord map h st = .ok (p, st')) :
    st'.tcpPackets = st.tcpPackets + (if p.parsed.isSome then 1 else 0) ∧
      (p.flow.isSome = true → p.parsed.isSome = true) ∧
      ∀ q, p.parsed = some q → p.flow = none → q.nonInitialFragment = true := by
  unfold scanRecord at hs
  obtain ⟨⟨r, packet⟩, -, hs⟩ := bind_eq_ok.mp hs
  obtain ⟨parsed, -, hs⟩ := bind_eq_ok.mp hs
  cases parsed with
  | none =>
    cases hs
    exact ⟨rfl, fun h => h, fun q hq => by cases hq⟩
  | some q =>
    unfold placePacket at hs
    obtain ⟨target, ht, hs⟩ := bind_eq_ok.mp hs
    cases target with
    | none =>
      cases hs
      refine ⟨rfl, fun _ => rfl, fun q' hq' _ => ?_⟩
      cases hq'
      exact flowIndex_none ht
    | some target =>
      obtain ⟨i, mid⟩ := target
      obtain ⟨last, hlast, hs⟩ := bind_eq_ok.mp hs
      cases hs
      refine ⟨?_, fun _ => rfl, fun q' _ hnone => by cases hnone⟩
      obtain ⟨f, -, rfl⟩ := appendPacket_ok hlast
      cases flowIndex_some ht <;> rfl

theorem PostedInv.step {map : Bytes} {h : Header} {ps : List Placement} {st st' : ScanState}
    {p : Placement} (hinv : PostedInv ps st) (hs : scanRecord map h st = .ok (p, st')) :
    PostedInv (ps ++ [p]) st' := by
  obtain ⟨_, hread, -, hstep⟩ := scanRecord_ok hs
  obtain ⟨htcp, hparsed, hstray⟩ := scanRecord_posts hs
  refine ⟨?_, fun k a hk => ?_, ?_, fun a ha => ?_, fun a ha => ?_⟩
  · rw [hstep.pos, hinv.pos, List.map_append, List.sum_append, List.map_singleton,
      List.sum_singleton, Nat.add_assoc]
  · rcases Nat.lt_or_ge k ps.length with hlt | hge
    · rw [List.getElem?_append_left hlt] at hk
      rw [List.take_append_of_le_length hlt.le]
      exact hinv.offsets k a hk
    · rw [List.getElem?_append_right hge] at hk
      have hlast : k - ps.length = 0 := by
        have hlt := (List.getElem?_eq_some_iff.mp hk).1
        rw [List.length_singleton] at hlt
        omega
      rw [hlast] at hk
      cases hk
      rw [show k = ps.length by omega, List.take_left, hread.offset, hinv.pos]
  · rw [htcp, hinv.tcpPackets, List.countP_append, List.countP_singleton]
  · rcases List.mem_append.mp ha with ha | ha
    · exact hinv.parsed a ha
    · exact List.mem_singleton.mp ha ▸ hparsed
  · rcases List.mem_append.mp ha with ha | ha
    · exact hinv.strays a ha
    · exact List.mem_singleton.mp ha ▸ hstray

theorem Reached.postedInv {map : Bytes} {h : Header} {ps : List Placement} {st : ScanState}
    (hr : Reached map h ps st) : PostedInv ps st := by
  induction hr with
  | start => exact postedInv_start
  | step _ hs ih => exact ih.step hs

/-- A scan that succeeds stops with less than a record header left. -/
theorem scanRecords_complete {map : Bytes} {h : Header} {ps : List Placement} {st : ScanState}
    (hs : scanRecords map = .ok (h, ps, st)) : st.pos ≤ map.length ∧ map.length < st.pos + 16 := by
  have hends := scanRecords_ends map
  rw [hs] at hends
  generalize hout : (Except.ok (h, ps, st) : Except ScanError _) = out at hends
  cases hends with
  | refused => cases hout
  | looped _ loop _ hloop =>
    cases hloop with
    | complete _ _ _ hle hlt =>
      cases hout
      exact ⟨hle, hlt⟩
    | truncated => cases hout
    | overflow => cases hout

/-! ## The totals -/

/-- What is posted of a placement with a packet, and zero of the others. -/
def Placement.amount (w : Record → ParsedPacket → Nat) (p : Placement) : Nat :=
  match p.parsed with
  | some q => w p.record q
  | none => 0

/-- The entries of the flows. -/
def postings (ps : List Placement) : List Placement := Ledger.posted Placement.flow ps

theorem sum_packetsOf (w : Record → ParsedPacket → Nat) (ps : List Placement) (i : Nat) :
    ((packetsOf ps i).map fun a => w a.1 a.2).sum =
      ((Ledger.postedTo Placement.flow ps i).map (Placement.amount w)).sum := by
  induction ps with
  | nil => rfl
  | cons p ps ih =>
    have hpackets : packetsOf (p :: ps) i = packetsOf [p] i ++ packetsOf ps i :=
      packetsOf_append [p] ps i
    have hposted : Ledger.postedTo Placement.flow (p :: ps) i =
        Ledger.postedTo Placement.flow [p] i ++ Ledger.postedTo Placement.flow ps i :=
      List.filter_append [p] ps
    rw [hpackets, hposted, List.map_append, List.map_append, List.sum_append, List.sum_append, ih]
    congr 1
    by_cases hflow : p.flow = some i
    · cases hparsed : p.parsed <;>
        simp [packetsOf, Ledger.postedTo, Placement.packet, Placement.amount, hflow, hparsed]
    · simp [packetsOf, Ledger.postedTo, Placement.packet, hflow]

/-- The payload of a packet with a TCP header. -/
def headerPayload (_ : Record) (q : ParsedPacket) : Nat :=
  if q.nonInitialFragment then 0 else q.payload

theorem sum_headerPayload (packets : List (Record × ParsedPacket)) :
    ((headers packets).map fun a => a.2.payload).sum =
      (packets.map fun a => headerPayload a.1 a.2).sum := by
  induction packets with
  | nil => rfl
  | cons a rest ih =>
    rw [List.map_cons, List.sum_cons, ← ih, headerPayload, headers]
    cases hheader : a.2.nonInitialFragment <;> simp [hheader, headers]

theorem amount_one {ps : List Placement} (h : ∀ p ∈ ps, p.flow.isSome = true → p.parsed.isSome = true) :
    ((postings ps).map (Placement.amount fun _ _ => 1)).sum = ps.countP (·.flow.isSome) := by
  rw [List.countP_eq_length_filter, postings, Ledger.posted]
  have hone : ∀ p ∈ ps.filter (·.flow.isSome), Placement.amount (fun _ _ => 1) p = 1 := by
    intro p hp
    obtain ⟨hmem, hflow⟩ := List.mem_filter.mp hp
    obtain ⟨q, hq⟩ := Option.isSome_iff_exists.mp (h p hmem hflow)
    rw [Placement.amount, hq]
  rw [List.map_congr_left hone, List.map_const', List.sum_replicate_nat, Nat.mul_one]

theorem amount_incl {ps : List Placement} (h : ∀ p ∈ ps, p.flow.isSome = true → p.parsed.isSome = true) :
    ((postings ps).map (Placement.amount fun r _ => r.incl)).sum =
      ((postings ps).map (·.record.incl)).sum := by
  refine congrArg List.sum (List.map_congr_left fun p hp => ?_)
  obtain ⟨hmem, hflow⟩ := List.mem_filter.mp hp
  obtain ⟨q, hq⟩ := Option.isSome_iff_exists.mp (h p hmem hflow)
  rw [Placement.amount, hq]

variable {source : Source} {index : Index} {ps : List Placement} {st : ScanState}

/-- The ids of the rows are the accounts, and each stands once. -/
theorem Built.ids (h : Built source index ps st) :
    index.manifest.flows.map FlowRow.id = List.range index.manifest.flows.length := by
  refine List.ext_getElem (by simp) fun i hi _ => ?_
  rw [List.length_map] at hi
  rw [List.getElem_map, List.getElem_range, (h.row (List.getElem?_eq_getElem hi)).id]

theorem Built.covers (h : Built source index ps st) :
    Ledger.Covers Placement.flow ps (index.manifest.flows.map FlowRow.id) where
  nodup := by
    rw [h.ids]
    exact List.nodup_range
  all p hp i hi := by
    obtain ⟨row, hrow, hid⟩ := h.exists_row hp hi
    exact List.mem_map.mpr ⟨row, hrow, hid⟩

/-- A column that sums an amount over the flow's packets sums, over all rows, to what was posted. -/
theorem Built.sum_column (h : Built source index ps st) (w : Record → ParsedPacket → Nat)
    (column : FlowRow → Int) (hcolumn : ∀ row ∈ index.manifest.flows,
      column row = (((packetsOf ps row.id).map fun a => w a.1 a.2).sum : Nat)) :
    (index.manifest.flows.map column).sum =
      (((postings ps).map (Placement.amount w)).sum : Nat) := by
  rw [postings, ← Ledger.sum_postedTo h.covers, List.map_map, Nat.cast_list_sum, List.map_map]
  refine congrArg List.sum (List.map_congr_left fun row hrow => ?_)
  rw [hcolumn row hrow, sum_packetsOf]
  rfl

/-! ## The law -/

/-- The manifest against the capture it was scanned from. -/
structure Balanced (source : Source) (index : Index) : Prop where
  /-- Each record starts where the one before ends, and no room for another is left. -/
  tiled : ∀ k p, (placements source)[k]? = some p →
    p.record.frame = k + 1 ∧
      p.record.offset = 24 + (((placements source).take k).map (·.record.len)).sum
  tail : ∃ rest < 16,
    source.bytes.length = 24 + ((placements source).map (·.record.len)).sum + rest
  frames : index.manifest.metadata.frames = (placements source).length
  tcpPackets : index.manifest.metadata.tcpPackets = (placements source).countP (·.parsed.isSome)
  flows : index.manifest.metadata.flows = index.manifest.flows.length
  refs : index.refs.length = refSize * index.manifest.metadata.refs
  /-- Every TCP packet has one reference, but the later fragments that no flow takes. -/
  assigned : index.manifest.metadata.tcpPackets =
    index.manifest.metadata.refs + (placements source).countP Placement.stray
  strays : ∀ p ∈ placements source, p.stray = true →
    ∃ q, p.parsed = some q ∧ q.nonInitialFragment = true
  rows : ∃ nanos, index.manifest.metadata.nanos = nanos ∧ ∀ row ∈ index.manifest.flows,
    RowLedger nanos (packetsOf (placements source) row.id) row
  /-- The columns add up to what was posted. -/
  packets : (index.manifest.flows.map FlowRow.packets).sum = index.manifest.metadata.refs
  captured : (index.manifest.flows.map FlowRow.capturedBytes).sum =
    (((postings (placements source)).map (·.record.incl)).sum : Nat)
  payload : (index.manifest.flows.map FlowRow.payloadBytes).sum =
    (((postings (placements source)).map (Placement.amount headerPayload)).sum : Nat)

/-- A build writes down where its loop ended. -/
theorem buildIndex_metadata (hbuild : buildIndex source = .ok index) :
    ∃ h ps st, scanRecords source.bytes = .ok (h, ps, st) ∧ Built source index ps st ∧
      index.manifest.metadata.nanos = h.nanos ∧ index.manifest.metadata.frames = st.frame ∧
      index.manifest.metadata.tcpPackets = st.tcpPackets ∧
      index.manifest.metadata.flows = st.flows.length ∧
      index.manifest.metadata.refs = st.refCount := by
  obtain ⟨h, ps, st, -, hs, hbuilt⟩ := buildIndex_scan hbuild
  refine ⟨h, ps, st, hs, hbuilt, ?_⟩
  unfold buildIndex at hbuild
  rw [hs] at hbuild
  obtain ⟨rows, -, hfinish⟩ := bind_eq_ok.mp (show finishIndex source h st = .ok index from hbuild)
  cases hfinish
  exact ⟨rfl, rfl, rfl, rfl, rfl⟩

theorem countP_parsed (h : ∀ p ∈ ps, p.flow.isSome = true → p.parsed.isSome = true) :
    ps.countP (·.parsed.isSome) = ps.countP (·.flow.isSome) + ps.countP Placement.stray := by
  induction ps with
  | nil => rfl
  | cons p ps ih =>
    have ih := ih fun a ha => h a (List.mem_cons_of_mem _ ha)
    have hp := h p List.mem_cons_self
    rw [List.countP_cons, List.countP_cons, List.countP_cons, ih, Placement.stray]
    cases hparsed : p.parsed <;> cases hflow : p.flow <;> simp [hparsed, hflow] at hp ⊢ <;> omega

theorem length_refLog (ps : List Placement) : (refLog ps).length = ps.countP (·.flow.isSome) := by
  rw [refLog, Chain.length_build, assignments, List.length_filterMap_eq_countP]
  simp only [Option.isSome_map]

/-- THE MANIFEST BALANCES: the records tile the capture, every row is read off its own packets, and
the columns of the rows add up to the capture. -/
theorem manifest_balanced (hbuild : buildIndex source = .ok index) : Balanced source index := by
  obtain ⟨h, ps, st, hs, hbuilt, hnanos, hframes, htcp, hflows, hrefs⟩ := buildIndex_metadata hbuild
  have hreached := reached_scanRecords hs
  have hinv := hreached.postedInv
  have hcount : st.refCount = ps.countP (·.flow.isSome) := by
    rw [hbuilt.inv.refsInv.refCount, length_refLog]
  have hrows : ∀ row ∈ index.manifest.flows, RowLedger h.nanos (packetsOf ps row.id) row := by
    intro row hrow
    obtain ⟨f, hf, hfrow⟩ := hbuilt.exists_flow hrow
    have hledger := (hreached.tablesInv.flows row.id f hf).rowLedger
    rwa [← row_eq_columns hfrow] at hledger
  rw [← hbuilt.placements] at hinv hcount hrows
  refine ⟨?_, ?_, ?_, ?_, ?_, ?_, ?_, ?_, ⟨_, hnanos, hrows⟩, ?_, ?_, ?_⟩
  · intro k p hk
    refine ⟨?_, hinv.offsets k p hk⟩
    have hlt := (List.getElem?_eq_some_iff.mp hk).1
    have hframe := congrArg (·[k]?) hreached.frames_eq
    rw [← hbuilt.placements, List.getElem?_map, hk, List.getElem?_range' hlt] at hframe
    have hframe : p.record.frame = 1 + 1 * k := Option.some.inj hframe
    omega
  · have hend := scanRecords_complete hs
    rw [hinv.pos] at hend
    exact ⟨source.bytes.length - (24 + ((placements source).map (·.record.len)).sum), by omega, by omega⟩
  · rw [hframes, hbuilt.inv.frame, hbuilt.placements]
  · rw [htcp, hinv.tcpPackets]
  · rw [hflows, hbuilt.rows.length_eq]
  · rw [hbuilt.refs, hbuilt.inv.refsInv.refs, Bytes.length_flatMap_const encodeLink length_encodeLink,
      hrefs, hbuilt.inv.refsInv.refCount, Nat.mul_comm]
  · rw [htcp, hinv.tcpPackets, hrefs, hcount]
    exact countP_parsed hinv.parsed
  · intro p hp hstray
    simp only [Placement.stray, Bool.and_eq_true, Option.isNone_iff_eq_none] at hstray
    obtain ⟨q, hq⟩ := Option.isSome_iff_exists.mp hstray.1
    exact ⟨q, hq, hinv.strays p hp q hq hstray.2⟩
  · rw [hbuilt.placements] at hrows hinv
    have hsum := hbuilt.sum_column (fun _ _ => 1) FlowRow.packets fun row hrow => by
      simpa using (hrows row hrow).count
    rw [hsum, amount_one hinv.parsed, hrefs, hcount, hbuilt.placements]
  · rw [hbuilt.placements] at hrows hinv ⊢
    rw [hbuilt.sum_column (fun r _ => r.incl) _ fun row hrow => (hrows row hrow).captured,
      amount_incl hinv.parsed]
  · rw [hbuilt.placements] at hrows ⊢
    refine hbuilt.sum_column headerPayload _ fun row hrow => ?_
    rw [(hrows row hrow).payload, sum_headerPayload]

/-- The law at work: three frames, on two flows of two packets and of one. -/
theorem manifest_balanced_interleaved : ∃ index, buildIndex interleaved = .ok index ∧
    index.manifest.metadata.frames = 3 ∧ index.manifest.flows.map FlowRow.packets = [2, 1] ∧
      Balanced interleaved index := by
  have hrun : (buildIndex interleaved).map (fun i =>
      (i.manifest.metadata.frames, i.manifest.flows.map FlowRow.packets)) = .ok (3, [2, 1]) := by
    decide +kernel
  cases hb : buildIndex interleaved with
  | error e =>
    rw [hb] at hrun
    cases hrun
  | ok index =>
    rw [hb] at hrun
    obtain ⟨hframes, hpackets⟩ := Prod.mk.inj (Except.ok.inj hrun)
    exact ⟨index, rfl, hframes, hpackets, manifest_balanced hb⟩

end PacketTrain.Indexer
