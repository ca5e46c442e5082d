import PacketTrain.Analysis.Streams
import PacketTrain.Laws.Indexer.Generations

/-!
# Two orientations of a connection

The stream list calls the endpoint that sent a flow's first packet the client; the flow page calls so the
endpoint that sent the first SYN without ACK, and only without one the sender of the first packet. The
indexer fixes its answer when it opens the flow, and no later packet corrects it.

`orientations_agree_iff` says for which flows the two agree. TShark enters by what it answers for a flow
(`ReadAs`): a row for each TCP header, with the header's addresses, ports and flags. It reassembles
datagrams, so the rows of a flow with fragments need not come in the flow's order; the first half of the
law is for any order, the second for the flow's own.
-/

namespace PacketTrain.Analysis

open Indexer

/-- The endpoint that sent a packet of a flow. -/
def sender (key : FlowKey) (a : Record × ParsedPacket) : Endpoint :=
  if a.2.srcIsLeft then key.left else key.right

def receiver (key : FlowKey) (a : Record × ParsedPacket) : Endpoint :=
  if a.2.srcIsLeft then key.right else key.left

/-- What TShark answers for a packet of an extracted flow: the header's endpoints and flags. The stream
number is the flow's, which the server puts there. -/
structure ReadAs (text : ℕ → Bytes → String) (f : FlowRow) (a : Record × ParsedPacket) (p : Packet) :
    Prop where
  stream : p.stream = f.id
  src : p.src = text f.key.family (sender f.key a).addr
  sport : p.sport = (sender f.key a).port
  dst : p.dst = text f.key.family (receiver f.key a).addr
  dport : p.dport = (receiver f.key a).port
  syn : p.syn = a.2.syn
  ackFlag : p.ackFlag = a.2.ack

/-- A SYN without ACK. -/
def isRequest (a : Record × ParsedPacket) : Bool := a.2.syn && !a.2.ack

/-- The packet that orients a list of them. -/
def orientingHeader (order : List (Record × ParsedPacket)) : Option (Record × ParsedPacket) :=
  (order.find? isRequest).or order.head?

/-- One connection, with one client. -/
structure SameEndpoints (listed : StreamSummary) (shown : Summary) : Prop where
  client : listed.client = shown.client
  clientPort : listed.clientPort = shown.clientPort
  server : listed.server = shown.server
  serverPort : listed.serverPort = shown.serverPort

/-- The stream list and the flow page orient a flow alike. -/
def SameOrientation (text : ℕ → Bytes → String) (index : Index) (f : FlowRow) (packets : List Packet) :
    Prop :=
  ∀ listed ∈ streamSummaries text index.manifest none, listed.id = f.id →
    ∀ shown ∈ summarize packets, shown.id = f.id → SameEndpoints listed shown

/-! ## The entries of a flow -/

/-- The packets of one stream have one entry. -/
theorem summarize_of_stream {stream : ℕ} {first : Packet} {rest : List Packet}
    (h : ∀ p ∈ first :: rest, p.stream = stream) :
    summarize (first :: rest) = [summaryOf first rest] := by
  have hstreams : ((first :: rest).map fun p => p.stream).dedup = [stream] := by
    rw [List.map_eq_replicate_iff.mpr h]
    exact List.replicate_dedup (Nat.succ_ne_zero _)
  have hgroup : streamPackets (first :: rest) stream = first :: rest :=
    List.filter_eq_self.mpr fun p hp => by simpa using h p hp
  rw [summarize, hstreams]
  simp [sortOn, hgroup]

theorem mem_streamSummaries {text : ℕ → Bytes → String} {manifest : Manifest} {listed : StreamSummary} :
    listed ∈ streamSummaries text manifest none ↔
      ∃ row ∈ manifest.flows, streamSummary text row = listed := by
  simp [streamSummaries]

theorem readAs_stream {text : ℕ → Bytes → String} {f : FlowRow}
    {order : List (Record × ParsedPacket)} {packets : List Packet}
    (h : List.Forall₂ (ReadAs text f) order packets) : ∀ p ∈ packets, p.stream = f.id := by
  induction h with
  | nil => simp
  | cons hread _ ih => exact List.forall_mem_cons.mpr ⟨hread.stream, ih⟩

/-- The header that orients is read as the packet that orients. -/
theorem orienting_readAs {text : ℕ → Bytes → String} {f : FlowRow} {a : Record × ParsedPacket}
    {order : List (Record × ParsedPacket)} {first : Packet} {rest : List Packet}
    (h : List.Forall₂ (ReadAs text f) (a :: order) (first :: rest)) :
    ∃ a', orientingHeader (a :: order) = some a' ∧ ReadAs text f a' (orienting first rest) := by
  have hfind : ∀ {order : List (Record × ParsedPacket)} {packets : List Packet},
      List.Forall₂ (ReadAs text f) order packets →
      (order.find? isRequest = none ∧ (packets.find? fun p => p.syn ∧ !p.ackFlag) = none) ∨
        ∃ a p, order.find? isRequest = some a ∧ (packets.find? fun p => p.syn ∧ !p.ackFlag) = some p ∧
          ReadAs text f a p := by
    intro order packets h
    induction h with
    | nil => exact .inl ⟨rfl, rfl⟩
    | @cons a p order packets hread _ ih =>
      by_cases hrequest : isRequest a = true
      · refine .inr ⟨a, p, by rw [List.find?_cons_of_pos hrequest], ?_, hread⟩
        rw [List.find?_cons_of_pos]
        simpa [isRequest, ← hread.syn, ← hread.ackFlag] using hrequest
      · rw [List.find?_cons_of_neg hrequest, List.find?_cons_of_neg]
        · exact ih
        · simpa [isRequest, ← hread.syn, ← hread.ackFlag] using hrequest
  rw [orientingHeader, orienting]
  rcases hfind h with ⟨horder, hpackets⟩ | ⟨a', p, horder, hpackets, hread⟩
  · rw [horder, hpackets]
    cases h with
    | cons hread => exact ⟨a, rfl, hread⟩
  · rw [horder, hpackets]
    exact ⟨a', rfl, hread⟩

/-! ## The law -/

/-- The manifest's client sent the flow's first packet. -/
theorem clientOf_eq {source : Source} {index : Index} (hbuild : buildIndex source = .ok index)
    {f : FlowRow} (hf : f ∈ index.manifest.flows) : ∃ first rest,
      packetsOf (placements source) f.id = first :: rest ∧ first.2.nonInitialFragment = false ∧
        clientOf f = sender f.key first ∧ serverOf f = receiver f.key first := by
  obtain ⟨h, ps, st, -, hscan, hbuilt⟩ := buildIndex_scan hbuild
  obtain ⟨flow, hflow, hrow⟩ := hbuilt.exists_flow hf
  obtain ⟨r, q, rest, hpackets, hheader, -, hleft, -⟩ :=
    ((reached_scanRecords hscan).tablesInv.flows f.id flow hflow).first
  rw [hbuilt.placements]
  refine ⟨(r, q), rest, hpackets, hheader, ?_⟩
  rw [clientOf, serverOf, sender, receiver, (row_orients hrow).2, ← hleft]
  exact ⟨rfl, rfl⟩

/-- Two entries agree when the senders that orient them are one endpoint. -/
theorem sameEndpoints_iff {text : ℕ → Bytes → String} {f : FlowRow}
    (htext : text f.key.family f.key.left.addr = text f.key.family f.key.right.addr →
      f.key.left.addr = f.key.right.addr)
    {first a : Record × ParsedPacket} {p : Packet} {rest : List Packet}
    (hclient : clientOf f = sender f.key first) (hserver : serverOf f = receiver f.key first)
    (hread : ReadAs text f a (orienting p rest)) :
    SameEndpoints (streamSummary text f) (summaryOf p rest) ↔ sender f.key a = sender f.key first := by
  have hends : SameEndpoints (streamSummary text f) (summaryOf p rest) ↔
      (text f.key.family (sender f.key first).addr = text f.key.family (sender f.key a).addr ∧
        (sender f.key first).port = (sender f.key a).port ∧
        text f.key.family (receiver f.key first).addr = text f.key.family (receiver f.key a).addr ∧
        (receiver f.key first).port = (receiver f.key a).port) := by
    rw [← hclient, ← hserver, ← hread.src, ← hread.sport, ← hread.dst, ← hread.dport]
    exact ⟨fun h => ⟨h.client, h.clientPort, h.server, h.serverPort⟩,
      fun h => ⟨h.1, h.2.1, h.2.2.1, h.2.2.2⟩⟩
  rw [hends]
  have hendpoint : ∀ {x y : Endpoint}, x.addr = y.addr → x.port = y.port → x = y := by
    intro x y haddr hport
    cases x
    cases y
    cases haddr
    cases hport
    rfl
  rw [sender, sender, receiver, receiver]
  cases a.2.srcIsLeft <;> cases first.2.srcIsLeft <;> simp only [if_true, if_false, Bool.false_eq_true,
    and_self]
  · refine ⟨fun h => (hendpoint (htext h.1) h.2.1).symm, fun h => ?_⟩
    simp [h]
  · refine ⟨fun h => hendpoint (htext h.1.symm) h.2.1.symm, fun h => ?_⟩
    simp [h]

/-- The property is about the two entries of the flow. -/
theorem sameOrientation_iff {source : Source} {index : Index} (hbuild : buildIndex source = .ok index)
    {f : FlowRow} (hf : f ∈ index.manifest.flows) (text : ℕ → Bytes → String) {p : Packet}
    {rest : List Packet} (hstream : ∀ q ∈ p :: rest, q.stream = f.id) :
    SameOrientation text index f (p :: rest) ↔
      SameEndpoints (streamSummary text f) (summaryOf p rest) := by
  obtain ⟨ps, st, hbuilt⟩ := buildIndex_ok hbuild
  rw [SameOrientation, summarize_of_stream hstream]
  refine ⟨fun h => ?_, fun h listed hlisted hid shown hshown _ => ?_⟩
  · exact h _ (mem_streamSummaries.mpr ⟨f, hf, rfl⟩) rfl _ (List.mem_singleton_self _)
      (hstream p List.mem_cons_self)
  · obtain ⟨row, hrow, rfl⟩ := mem_streamSummaries.mp hlisted
    rw [List.mem_singleton.mp hshown, hbuilt.row_unique hrow hf hid]
    exact h

/-- THE TWO ORIENTATIONS AGREE on a flow exactly when the packet that orients its rows was sent by the
endpoint that sent its first packet; with the rows in the flow's order, when there is no SYN without ACK
or the first one was sent by that endpoint. -/
theorem orientations_agree_iff {source : Source} {index : Index}
    (hbuild : buildIndex source = .ok index) {f : FlowRow} (hf : f ∈ index.manifest.flows)
    (text : ℕ → Bytes → String)
    (htext : text f.key.family f.key.left.addr = text f.key.family f.key.right.addr →
      f.key.left.addr = f.key.right.addr)
    {order : List (Record × ParsedPacket)} {packets : List Packet}
    (hread : List.Forall₂ (ReadAs text f) order packets) (hsome : packets ≠ []) :
    (SameOrientation text index f packets ↔
      ∀ a ∈ orientingHeader order, ∀ b ∈ (packetsOf (placements source) f.id).head?,
        sender f.key a = sender f.key b) ∧
    (order = headers (packetsOf (placements source) f.id) →
      (SameOrientation text index f packets ↔
        ∀ a ∈ order.find? isRequest, ∀ b ∈ (packetsOf (placements source) f.id).head?,
          sender f.key a = sender f.key b)) := by
  obtain ⟨first, later, hpackets, hheader, hclient, hserver⟩ := clientOf_eq hbuild hf
  obtain ⟨p, rest, rfl⟩ := List.exists_cons_of_ne_nil hsome
  have hstream := readAs_stream hread
  cases hread with
  | @cons a _ order _ hp hrest =>
    obtain ⟨a', horient, hread⟩ := orienting_readAs (List.Forall₂.cons hp hrest)
    have hagree := (sameOrientation_iff hbuild hf text hstream).trans
      (sameEndpoints_iff htext hclient hserver hread)
    refine ⟨by simp [hagree, horient, hpackets], fun horder => ?_⟩
    have hfirst : a = first := by
      rw [hpackets, headers, List.filter_cons_of_pos (by simpa using hheader)] at horder
      exact (List.cons.inj horder).1
    rw [hagree, hpackets]
    cases hfind : (a :: order).find? isRequest with
    | none =>
      rw [orientingHeader, hfind] at horient
      obtain rfl : a = a' := Option.some.inj horient
      simp [hfirst]
    | some x =>
      rw [orientingHeader, hfind] at horient
      obtain rfl : x = a' := Option.some.inj horient
      simp

/-! ### A stray packet before the SYN -/

/-- The text of an IPv4 address. -/
def dotted (_ : ℕ) (addr : Bytes) : String :=
  ".".intercalate ((addr.take 4).map fun b => toString b.toNat)

/-- A row without payload that TShark answers for a packet. -/
def decoded (text : ℕ → Bytes → String) (f : FlowRow) (a : Record × ParsedPacket) : Packet where
  frame := a.1.frame
  stream := f.id
  src := text f.key.family (sender f.key a).addr
  dst := text f.key.family (receiver f.key a).addr
  sport := (sender f.key a).port
  dport := (receiver f.key a).port
  seq := 0
  ack := 0
  length := 0
  sliced := false
  syn := a.2.syn
  ackFlag := a.2.ack
  fin := false
  rst := false
  retrans := false
  dupAck := false
  sack := false
  window := 0
  windowPresent := true
  ackRttMs := 0
  tlsRecord := ""
  wscale := -1
  ts := a.1.sec

theorem readAs_decoded (text : ℕ → Bytes → String) (f : FlowRow)
    (order : List (Record × ParsedPacket)) :
    List.Forall₂ (ReadAs text f) order (order.map (decoded text f)) := by
  induction order with
  | nil => exact .nil
  | cons a order ih => exact .cons ⟨rfl, rfl, rfl, rfl, rfl, rfl, rfl⟩ ih

/-- A segment of the server, left over from before, and then a client's SYN. -/
def straySegment : Source where
  bytes := interleaved.bytes.take 24 ++ segmentRecord 9 1 80 7 16 ++ segmentRecord 1 9 7 80 2
  path := "capture.pcap"
  mtimeNs := 1

/-- The stream list names the server the client, and the flow page does not. -/
theorem straySegment_turned : ∃ index f packets, buildIndex straySegment = .ok index ∧
    index.manifest.flows = [f] ∧
    List.Forall₂ (ReadAs dotted f) (headers (packetsOf (placements straySegment) f.id)) packets ∧
    ¬ SameOrientation dotted index f packets := by
  have hrun : (buildIndex straySegment).map (fun i => (i.manifest.flows.map fun f =>
        (f.id, f.key, f.clientIsLeft),
      (headers (packetsOf (placements straySegment) 0)).map fun a =>
        (a.2.srcIsLeft, a.2.syn, a.2.ack))) =
      .ok ([(0, reusedKey, false)], [(false, false, true), (true, true, false)]) := by
    decide +kernel
  cases hbuild : buildIndex straySegment with
  | error e =>
    rw [hbuild] at hrun
    cases hrun
  | ok index =>
    rw [hbuild] at hrun
    obtain ⟨hflows, hheaders⟩ := Prod.mk.inj (Except.ok.inj hrun)
    obtain ⟨f, rest, hcons, hf, hrest⟩ := List.map_eq_cons_iff.mp hflows
    obtain rfl := List.map_eq_nil_iff.mp hrest
    obtain ⟨hid, hf⟩ := Prod.mk.inj hf
    obtain ⟨hkey, hleft⟩ := Prod.mk.inj hf
    obtain ⟨a, later, horder, ha, hlater⟩ := List.map_eq_cons_iff.mp hheaders
    obtain ⟨b, last, rfl, hb, hlast⟩ := List.map_eq_cons_iff.mp hlater
    obtain rfl := List.map_eq_nil_iff.mp hlast
    obtain ⟨hasyn, -⟩ := Prod.mk.inj (Prod.mk.inj ha).2
    obtain ⟨hbleft, hb⟩ := Prod.mk.inj hb
    obtain ⟨hbsyn, hback⟩ := Prod.mk.inj hb
    refine ⟨index, f, _, rfl, hcons, readAs_decoded dotted f _, fun h => ?_⟩
    have hstream := readAs_stream (readAs_decoded dotted f [a, b])
    rw [hid, horder] at h
    have hclient : (streamSummary dotted f).client =
        (orienting (decoded dotted f a) [decoded dotted f b]).src :=
      ((sameOrientation_iff hbuild (by simp [hcons]) dotted hstream).mp h).client
    have horient : orienting (decoded dotted f a) [decoded dotted f b] = decoded dotted f b := by
      simp [orienting, decoded, hasyn, hbsyn, hback]
    rw [horient] at hclient
    simp only [streamSummary, clientOf, hleft, decoded, sender, hbleft, hkey, Bool.false_eq_true,
      if_false, if_true] at hclient
    exact absurd hclient (by decide)

/-- The law at work: a client's SYN comes first, and the two agree. -/
theorem orientations_agree_interleaved : ∃ index f packets, buildIndex interleaved = .ok index ∧
    f ∈ index.manifest.flows ∧ packets.length = 2 ∧
    List.Forall₂ (ReadAs dotted f) (headers (packetsOf (placements interleaved) f.id)) packets ∧
    SameOrientation dotted index f packets := by
  have hrun : (buildIndex interleaved).map (fun i => (i.manifest.flows.head?.map fun f =>
        (f.id, f.key),
      (headers (packetsOf (placements interleaved) 0)).map isRequest)) =
      .ok (some (0, reusedKey), [true, false]) := by
    decide +kernel
  cases hbuild : buildIndex interleaved with
  | error e =>
    rw [hbuild] at hrun
    cases hrun
  | ok index =>
    rw [hbuild] at hrun
    obtain ⟨hhead, hrequests⟩ := Prod.mk.inj (Except.ok.inj hrun)
    obtain ⟨f, hf, hrow⟩ := Option.map_eq_some_iff.mp hhead
    obtain ⟨hid, hkey⟩ := Prod.mk.inj hrow
    obtain ⟨a, later, horder, ha, hlater⟩ := List.map_eq_cons_iff.mp hrequests
    have hlength : later.length = 1 := by rw [← List.length_map (f := isRequest), hlater]; rfl
    have hmem := List.mem_of_head? hf
    obtain ⟨first, rest, hpackets, hheader, -⟩ := clientOf_eq hbuild hmem
    have hread := readAs_decoded dotted f (headers (packetsOf (placements interleaved) f.id))
    rw [← hid] at horder
    have hfirst : first = a := by
      rw [hpackets, headers, List.filter_cons_of_pos (by simpa using hheader)] at horder
      exact (List.cons.inj horder).1
    refine ⟨index, f, _, rfl, hmem, by simp [horder, hlength], hread, ?_⟩
    apply ((orientations_agree_iff hbuild hmem dotted (by rw [hkey]; decide) hread
      (by simp [horder])).2 rfl).mpr
    rw [horder, List.find?_cons_of_pos ha, hpackets, hfirst]
    simp

end PacketTrain.Analysis
