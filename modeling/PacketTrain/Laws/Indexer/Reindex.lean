import PacketTrain.Laws.Indexer.Frames
import PacketTrain.Laws.Indexer.Generations

/-!
# Indexing an extracted flow again

The server reads an extracted file as a capture of one connection. Here the scan of such a file is put
beside the scan of the whole capture. `Mirrors` relates their states: the file's scan has the one flow,
with the counters of the capture's, and its tables know of that flow alone. A record that the capture's
scan assigns to the flow is read in the file at its own place, and is assigned to the one flow there; a
record assigned elsewhere is not in the file, and changes nothing that the relation mentions
(`Mirrors.step`).

A key's earlier or later generations cannot interfere: the packet that opens the flow opens it in the
file as well, since nothing is active there, and the flow is closed in both scans or in neither.
-/

namespace PacketTrain.Indexer

open Fallible

/-! ## The flow, alone -/

/-- A flow as the only one of its capture. -/
def Flow.alone (f : Flow) : Flow :=
  { f with
    id := 0
    generation := 0
    firstFrame := 1
    lastFrame := f.packets
    firstRef := 0
    lastRef := f.packets - 1 }

/-- Its row. -/
def FlowRow.alone (row : FlowRow) : FlowRow :=
  { row with
    id := 0
    generation := 0
    firstFrame := 1
    lastFrame := row.packets.toNat
    firstRef := 0
    lastRef := row.packets - 1 }

/-- A record at another place, under another number. -/
def Record.moved (r : Record) (offset frame : Nat) : Record :=
  { r with offset := offset, frame := frame }

/-- The first packet. -/
theorem Flow.alone_opened (id generation idx offset : Nat) (key : FlowKey) (srcIsLeft : Bool)
    (r : Record) (nanos : Bool) (q : ParsedPacket) :
    ((Flow.opened 0 0 key 1 srcIsLeft).account (r.moved offset 1) nanos q).link 0 =
      (((Flow.opened id generation key r.frame srcIsLeft).account r nanos q).link idx).alone := by
  unfold Flow.account
  split <;> rfl

/-- One more packet. -/
theorem Flow.alone_account (f : Flow) (idx offset : Nat) (r : Record)
    (nanos : Bool) (q : ParsedPacket) :
    (f.alone.account (r.moved offset (f.packets + 1)) nanos q).link f.packets =
      ((f.account r nanos q).link idx).alone := by
  unfold Flow.account
  split <;> rfl

/-! ## Reading a record at another place -/

/-- A record read in the capture is read in a file that holds its bytes at the position. -/
theorem readRecord_moved {map pre : Bytes} {h : Header} {st alone : ScanState} {r : Record}
    {packet : Bytes} (post : Bytes) (hr : readRecord map h st = .ok (r, packet)) (hpos : alone.pos = pre.length)
    (hframe : alone.frame + 1 < 2 ^ 32) :
    readRecord (pre ++ (r.bytes map ++ post)) h alone =
      .ok (r.moved alone.pos (alone.frame + 1), packet) := by
  have hread := readRecord_ok hr
  have hslice : ∀ a b, a ≤ b → b ≤ r.len →
      (pre ++ (r.bytes map ++ post)).slice (alone.pos + a) (alone.pos + b) =
        map.slice (st.pos + a) (st.pos + b) := by
    intro a b hab hb
    rw [hpos, ← hread.offset]
    exact Bytes.slice_window hread.inside hab hb
  have hu32 : ∀ a, a + 4 ≤ r.len → u32At (pre ++ (r.bytes map ++ post)) (alone.pos + a) h.endian =
      u32At map (st.pos + a) h.endian := by
    intro a ha
    rw [u32At, u32At, Nat.add_assoc, Nat.add_assoc, hslice a (a + 4) (Nat.le_add_right _ _) ha]
  have hinside := hread.inside
  unfold readRecord at hr ⊢
  obtain ⟨sec, hsec, hr⟩ := bind_eq_ok.mp hr
  obtain ⟨frac, hfrac, hr⟩ := bind_eq_ok.mp hr
  obtain ⟨incl, hincl, hr⟩ := bind_eq_ok.mp hr
  obtain ⟨rest, -, hr⟩ := bind_eq_ok.mp hr
  split at hr
  · cases hr
  split at hr
  · cases hr
  obtain ⟨bytes, hbytes, hr⟩ := bind_eq_ok.mp hr
  cases hr
  have hlen : Record.len ⟨st.pos, sec, frac, incl, st.frame + 1⟩ = 16 + incl := rfl
  rw [hlen] at hslice hu32
  have hsec' : u32At _ alone.pos h.endian = .ok sec := (hu32 0 (by omega)).trans hsec
  have hfrac' := (hu32 4 (by omega)).trans hfrac
  have hincl' := (hu32 8 (by omega)).trans hincl
  have hpacket : sliceAt (pre ++ (Record.bytes map ⟨st.pos, sec, frac, incl, st.frame + 1⟩ ++ post))
      (alone.pos + 16) (alone.pos + 16 + incl) = .ok packet := by
    rw [sliceAt, Nat.add_assoc, hslice 16 (16 + incl) (by omega) le_rfl, ← Nat.add_assoc]
    exact liftFault_eq_ok.mp hbytes
  have hroom := Bytes.slice_eq_some (sliceAt_eq_ok hpacket)
  simp only [hsec', hfrac', hincl', subAt_of_le (hroom.1.trans hroom.2.1), liftFault, bind,
    Except.bind]
  rw [if_neg (by omega), if_neg (by omega), hpacket]
  rfl

/-! ## Choosing the flow -/

section

variable {st : ScanState} {q : ParsedPacket}

theorem flowIndex_opens {key : FlowKey} (hheader : q.nonInitialFragment = false)
    (hkey : q.key = some key) (hactive : st.active key = none) :
    flowIndex st q = .ok (some (st.openFlow key q.srcIsLeft)) := by
  simp [flowIndex, hheader, hkey, hactive]

theorem flowIndex_joins {key : FlowKey} {i : Nat} {f : Flow} (hheader : q.nonInitialFragment = false)
    (hkey : q.key = some key) (hactive : st.active key = some i) (hf : st.flows[i]? = some f)
    (hopen : q.syn = true → q.ack = false → f.closed = false) :
    flowIndex st q = .ok (some (i, st)) := by
  simp only [flowIndex, hheader, hkey, hactive, hf, Bool.false_eq_true, if_false]
  split
  · next hsyn =>
    simp only [Bool.and_eq_true, Bool.not_eq_true'] at hsyn
    rw [hopen hsyn.1 hsyn.2, if_neg Bool.false_ne_true]
  · rfl

theorem flowIndex_follows {fk : FragmentKey} {i : Nat} (hfragment : q.nonInitialFragment = true)
    (hkey : q.fragment = some fk) (htable : st.fragments fk = some i) :
    flowIndex st q = .ok (some (i, st)) := by
  simp [flowIndex, hfragment, hkey, htable]

/-- What `appendPacket` does to a flow that is in the vector. -/
theorem appendPacket_eq {nanos : Bool} {r : Record} {i : Nat} {f : Flow}
    (hf : st.flows[i]? = some f) : appendPacket nanos st r q i = .ok { st with
      fragments :=
        match q.fragment with
        | some fk => KeyMap.insert st.fragments fk i
        | none => st.fragments
      refs := st.refs ++ writeRef r.offset (r.len % 2 ^ 32) r.frame (f.account r nanos q).lastRef
        (f.account r nanos q).id
      flows := st.flows.set i ((f.account r nanos q).link st.refCount)
      refCount := st.refCount + 1 } := by
  unfold appendPacket
  split
  · next hnone =>
    rw [hf] at hnone
    cases hnone
  · next g hg =>
    rw [hf] at hg
    cases hg
    rfl

end

/-! ## The relation -/

/-- The scan of a flow's file beside the scan of the capture, after the flow's packets so far. -/
structure Mirrors (st alone : ScanState) (packets : List (Record × ParsedPacket)) (i : Nat) :
    Prop where
  flows : alone.flows = st.flows[i]?.toList.map Flow.alone
  /-- The flow's key is the only active one. -/
  active : alone.active =
    match st.flows[i]? with
    | some f => KeyMap.insert (fun _ => none) f.key 0
    | none => fun _ => none
  generations : st.flows[i]? = none → alone.generations = fun _ => none
  /-- A datagram whose fragments go to the flow is known to the file's scan. -/
  fragments : ∀ fk, st.fragments fk = some i → alone.fragments fk = some 0
  frame : alone.frame = packets.length
  refCount : alone.refCount = packets.length

theorem mirrors_start (i : Nat) : Mirrors .start .start [] i where
  flows := rfl
  active := rfl
  generations _ := rfl
  fragments _ h := by cases h
  frame := rfl
  refCount := rfl

/-- The relation is about one flow: what happens to the others does not matter. -/
theorem Mirrors.congr {st st' alone : ScanState} {packets : List (Record × ParsedPacket)} {i : Nat}
    (hm : Mirrors st alone packets i) (hflow : st'.flows[i]? = st.flows[i]?)
    (hfragments : ∀ fk, st'.fragments fk = some i → st.fragments fk = some i) :
    Mirrors st' alone packets i where
  flows := by rw [hflow, hm.flows]
  active := by rw [hflow, hm.active]
  generations h := hm.generations (hflow ▸ h)
  fragments fk h := hm.fragments fk (hfragments fk h)
  frame := hm.frame
  refCount := hm.refCount

section

variable {st st' alone mid : ScanState} {packets : List (Record × ParsedPacket)} {i : Nat}
  {nanos : Bool} {r : Record} {q : ParsedPacket}

/-- The end of an iteration that assigns a packet to the flow, in the file's scan. -/
theorem Mirrors.append (hm : Mirrors st alone packets i) (h : Assigned nanos st r q i st')
    {g f' : Flow} (hself : st'.flows[i]? = some f') (hflows : mid.flows = [g])
    (hg : (g.account (r.moved alone.pos (alone.frame + 1)) nanos q).link packets.length = f'.alone)
    (hactive : mid.active = KeyMap.insert (fun _ => none) f'.key 0)
    (hfragments : mid.fragments = alone.fragments) (hframe : mid.frame = alone.frame + 1)
    (hcount : mid.refCount = packets.length) :
    ∃ alone', appendPacket nanos mid (r.moved alone.pos (alone.frame + 1)) q 0 = .ok alone' ∧
      Mirrors st' alone' (packets ++ [(r, q)]) i ∧ alone'.pos = mid.pos := by
  have hget : mid.flows[0]? = some g := by rw [hflows]; rfl
  refine ⟨_, appendPacket_eq hget, ⟨?_, ?_, ?_, ?_, ?_, ?_⟩, rfl⟩
  · simp [hself, hflows, hcount, hg]
  · rw [hself]
    exact hactive
  · intro hnone
    rw [hself] at hnone
    cases hnone
  · intro fk hfk
    rw [h.fragments] at hfk
    show (match q.fragment with
      | some fk => KeyMap.insert mid.fragments fk 0
      | none => mid.fragments) fk = some 0
    rw [hfragments]
    cases hq : q.fragment with
    | none =>
      rw [hq] at hfk
      exact hm.fragments fk hfk
    | some fk' =>
      rw [hq] at hfk
      simp only [KeyMap.insert] at hfk ⊢
      by_cases heq : fk = fk'
      · rw [if_pos heq]
      · rw [if_neg heq] at hfk ⊢
        exact hm.fragments fk hfk
  · simp [hframe, hm.frame]
  · simp [hcount]

/-- A packet of a flow that is there finds it in the file's scan. -/
theorem Mirrors.flowIndex_eq (hm : Mirrors st alone packets i) {f : Flow} (henters : Enters st r q i f st')
    (hf : st.flows[i]? = some f) (hkey : q.nonInitialFragment = false → q.key = some f.key)
    (hactive : mid.active = KeyMap.insert (fun _ => none) f.key 0)
    (hfragments : mid.fragments = alone.fragments) (hflows : mid.flows = [f.alone]) :
    flowIndex mid q = .ok (some (0, mid)) := by
  have hget : mid.flows[0]? = some f.alone := by rw [hflows]; rfl
  cases henters with
  | opens _ _ _ _ hi =>
    have := (List.getElem?_eq_some_iff.mp hf).1
    omega
  | joins key hheader hqkey _ _ hopen =>
    have hfkey : key = f.key := by
      have := hkey hheader
      rw [hqkey] at this
      exact Option.some.inj this
    refine flowIndex_joins hheader hqkey ?_ hget hopen
    rw [hactive, KeyMap.insert, if_pos hfkey]
  | follows fk hfragment hqkey htable =>
    refine flowIndex_follows hfragment hqkey ?_
    rw [hfragments]
    exact hm.fragments fk htable

/-- A packet that the capture's scan assigns to the flow is placed in the file's. -/
theorem Mirrors.place {ps : List Placement} (hm : Mirrors st alone (packetsOf ps i) i)
    (htables : TablesInv nanos ps st) (h : Assigned nanos st r q i st') (tcpPackets : Nat) :
    let r' := r.moved alone.pos (alone.frame + 1)
    ∃ alone', placePacket nanos { alone.advance r' with tcpPackets := tcpPackets } r' q =
        .ok (⟨r', some q, some 0⟩, alone') ∧
      Mirrors st' alone' (packetsOf (ps ++ [⟨r, some q, some i⟩]) i) i ∧
      alone'.pos = alone.pos + r.len := by
  obtain ⟨f, henters, hself⟩ := h.self
  have hkey := htables.key_of_enters henters
  intro r'
  let before : ScanState := { alone.advance r' with tcpPackets := tcpPackets }
  -- with the target chosen, the rest of the iteration is the same for every way of choosing it
  have hplace : ∀ mid, flowIndex before q = .ok (some (0, mid)) → mid.pos = alone.pos + r.len →
      (∃ alone', appendPacket nanos mid r' q 0 = .ok alone' ∧
        Mirrors st' alone' (packetsOf ps i ++ [(r, q)]) i ∧ alone'.pos = mid.pos) →
      ∃ alone', placePacket nanos before r' q = .ok (⟨r', some q, some 0⟩, alone') ∧
        Mirrors st' alone' (packetsOf ps i ++ [(r, q)]) i ∧ alone'.pos = alone.pos + r.len := by
    intro mid htarget hpos happend
    obtain ⟨alone', happend, hmirrors, hpos'⟩ := happend
    refine ⟨alone', ?_, hmirrors, hpos'.trans hpos⟩
    simp only [placePacket, htarget, happend, bind, Except.bind]
  rw [packetsOf_assigned, if_pos rfl]
  rcases henters.flow_cases with ⟨hi, key, hheader, hqkey, rfl⟩ | hf
  · have hnone : st.flows[i]? = none := List.getElem?_eq_none hi.ge
    have hempty : packetsOf ps i = [] := htables.beyond i hi.ge
    have hflows : before.flows = [] := by
      show alone.flows = []
      rw [hm.flows, hnone]
      rfl
    have hactive : before.active = fun _ => none := by
      show alone.active = _
      rw [hm.active, hnone]
    have hgenerations : before.generations key = none := by
      show alone.generations key = none
      rw [hm.generations hnone]
    have htarget := flowIndex_opens hheader hqkey (congrFun hactive key)
    have hopened : before.openFlow key q.srcIsLeft = (0, { before with
        generations := KeyMap.insert before.generations key 0
        flows := [.opened 0 0 key (alone.frame + 1) q.srcIsLeft]
        active := KeyMap.insert before.active key 0 }) := by
      simp only [ScanState.openFlow, hgenerations, hflows, List.length_nil, List.nil_append]
      rfl
    rw [hopened] at htarget
    refine hplace _ htarget rfl (hm.append h hself rfl ?_ ?_ rfl rfl hm.refCount)
    · rw [hm.frame, hempty]
      exact Flow.alone_opened _ _ _ _ _ _ _ _ _
    · show KeyMap.insert before.active key 0 = _
      rw [hactive]
      simp
  · have hflows : before.flows = [f.alone] := by
      show alone.flows = _
      rw [hm.flows, hf]
      rfl
    have hactive : before.active = KeyMap.insert (fun _ => none) f.key 0 := by
      show alone.active = _
      rw [hm.active, hf]
    have htarget := hm.flowIndex_eq henters hf hkey hactive rfl hflows
    have hcount : f.packets = (packetsOf ps i).length := (htables.flows i f hf).tallied.count
    refine hplace before htarget rfl (hm.append h hself hflows ?_ ?_ rfl rfl hm.refCount)
    · rw [hm.frame, ← hcount]
      exact Flow.alone_account _ _ _ _ _ _
    · rw [hactive]
      simp

end

/-! ## The run over the file -/

/-- The capture's header and the records of some packets. -/
def fileOf (map : Bytes) (packets : List (Record × ParsedPacket)) : Bytes :=
  map.take 24 ++ packets.flatMap fun a => a.1.bytes map

theorem fileOf_concat (map : Bytes) (packets : List (Record × ParsedPacket)) (r : Record)
    (q : ParsedPacket) (post : Bytes) :
    fileOf map (packets ++ [(r, q)]) ++ post = fileOf map packets ++ (r.bytes map ++ post) := by
  simp [fileOf]

/-- The file grows by the record. -/
theorem length_fileOf_concat {map : Bytes} (packets : List (Record × ParsedPacket)) {r : Record}
    (q : ParsedPacket) (hin : r.offset + r.len ≤ map.length) :
    (fileOf map (packets ++ [(r, q)])).length = (fileOf map packets).length + r.len := by
  have hfile := congrArg List.length (fileOf_concat map packets r q [])
  simp only [List.append_nil, List.length_append] at hfile
  rw [hfile, Record.bytes, List.length_take, List.length_drop, Nat.min_eq_left (by omega)]

theorem length_packetsOf_le (ps : List Placement) (i : Nat) : (packetsOf ps i).length ≤ ps.length :=
  List.length_filterMap_le _ _

/-- The capture's scan is mirrored, whatever follows the flow's records in the file. -/
theorem Reached.mirrored {map : Bytes} {h : Header} {ps : List Placement} {st : ScanState}
    (hr : Reached map h ps st) (hmap : 24 ≤ map.length) (i : Nat) :
    ∀ post, ∃ qs alone, Reached (fileOf map (packetsOf ps i) ++ post) h qs alone ∧
      Mirrors st alone (packetsOf ps i) i ∧ alone.pos = (fileOf map (packetsOf ps i)).length ∧
      ∀ p ∈ qs, p.flow = some 0 := by
  induction hr with
  | start =>
    intro post
    refine ⟨[], .start, .start, mirrors_start i, ?_, fun p hp => by cases hp⟩
    simp [fileOf, packetsOf, ScanState.start, hmap]
  | @step ps st st' p hr hs ih =>
    intro post
    obtain ⟨packet, hread, hparse, hstep⟩ := scanRecord_read hs
    rcases step_cases hstep with ⟨q, j, hp, hassigned⟩ | ⟨⟨q, hp⟩, hflows, -, -, hfragments, -⟩
    · by_cases hij : j = i
      · subst hij
        obtain ⟨qs, alone, hreached, hmirrors, hpos, hzero⟩ := ih (p.record.bytes map ++ post)
        have hframe : alone.frame + 1 < 2 ^ 32 := by
          have hrecord := readRecord_ok hread
          have hlt := hrecord.frame_lt
          rw [hrecord.frame, hr.loopInv.frame] at hlt
          have hle := length_packetsOf_le ps j
          rw [hmirrors.frame]
          omega
        obtain ⟨alone', hplace, hmirrors', hpos'⟩ :=
          hmirrors.place hr.tablesInv hassigned (alone.tcpPackets + 1)
        have hmoved := readRecord_moved post hread hpos hframe
        rw [hp] at hparse
        have hscan : scanRecord (fileOf map (packetsOf ps j) ++ (p.record.bytes map ++ post)) h alone =
            .ok (⟨p.record.moved alone.pos (alone.frame + 1), some q, some 0⟩, alone') := by
          simp only [scanRecord, hmoved, bind, Except.bind, hparse, liftFault]
          exact hplace
        have hlater : Reached (fileOf map (packetsOf (ps ++ [⟨p.record, some q, some j⟩]) j) ++ post) h
            (qs ++ [⟨p.record.moved alone.pos (alone.frame + 1), some q, some 0⟩]) alone' := by
          rw [packetsOf_assigned, if_pos rfl, fileOf_concat]
          exact hreached.step hscan
        rw [hp]
        refine ⟨_, alone', hlater, hmirrors', ?_, fun p' hp' => ?_⟩
        · rw [packetsOf_assigned, if_pos rfl, length_fileOf_concat _ _ (readRecord_ok hread).inside,
            hpos', hpos]
        · rcases List.mem_append.mp hp' with hp' | hp'
          · exact hzero p' hp'
          · rw [List.mem_singleton.mp hp']
      · -- the packet of another flow: its fragment key, if any, names that flow
        obtain ⟨qs, alone, hreached, hmirrors, hrest⟩ := ih post
        rw [hp, packetsOf_assigned, if_neg hij, List.append_nil]
        refine ⟨qs, alone, hreached, hmirrors.congr (hassigned.others i (Ne.symm hij)) fun fk hfk => ?_,
          hrest⟩
        exact (hassigned.fragments_eq_some hfk).resolve_left (Ne.symm hij)
    · obtain ⟨qs, alone, hreached, hmirrors, hrest⟩ := ih post
      rw [hp, packetsOf_unassigned]
      exact ⟨qs, alone, hreached, hmirrors.congr (by rw [hflows]) fun fk hfk => by rwa [← hfragments],
        hrest⟩

/-- The loop passes through every state that is reached. -/
theorem Reached.scanLoop_eq {map : Bytes} {h : Header} {ps : List Placement} {st : ScanState}
    (hr : Reached map h ps st) (fuel : Nat) (hfuel : ps.length ≤ fuel) :
    scanLoop map h fuel .start = (scanLoop map h (fuel - ps.length) st).map fun out =>
      (ps ++ out.1, out.2) := by
  induction hr with
  | start =>
    simp only [List.length_nil, Nat.sub_zero, List.nil_append]
    cases scanLoop map h fuel .start <;> rfl
  | @step ps st st' p hr hs ih =>
    rw [List.length_append, List.length_singleton] at hfuel ⊢
    have hpos := scanRecord_pos hs
    obtain ⟨n, hn⟩ : ∃ n, fuel - ps.length = n + 1 := ⟨fuel - ps.length - 1, by omega⟩
    have hrest : fuel - (ps.length + 1) = n := by omega
    rw [ih (by omega), hn, hrest, scanLoop, if_pos (by omega)]
    simp only [hs, bind, Except.bind]
    cases scanLoop map h n st' with
    | error e => rfl
    | ok out => simp [Except.map]

/-- A state at the end of the capture is the one the scan ends in. -/
theorem Reached.scanRecords_eq {map : Bytes} {h : Header} {ps : List Placement} {st : ScanState}
    (hr : Reached map h ps st) (hheader : readHeader map = .ok h) (hend : map.length < st.pos + 16) :
    scanRecords map = .ok (h, ps, st) := by
  have hpos := hr.pos_le (readHeader_length hheader)
  have hstop : ∀ fuel, scanLoop map h fuel st = .ok ([], st) := fun fuel => by
    unfold scanLoop
    exact if_neg (by omega)
  have hloop := hr.scanLoop_eq map.length (by omega)
  rw [hstop] at hloop
  simp only [scanRecords, hheader, hloop, bind, Except.bind, Except.map, List.append_nil]

/-- The file's header is the capture's. -/
theorem readHeader_fileOf {map : Bytes} (hmap : 24 ≤ map.length)
    (packets : List (Record × ParsedPacket)) : readHeader (fileOf map packets) = readHeader map := by
  have hlength : ¬ (fileOf map packets).length < 24 := by
    simp only [fileOf, List.length_append, List.length_take]
    omega
  have hmagic : readMagic (fileOf map packets) = readMagic map := by
    rw [readMagic, readMagic, fileOf, List.take_append_of_le_length (by rw [List.length_take]; omega),
      List.take_take]
    rfl
  have hslice : (fileOf map packets).slice 20 24 = map.slice 20 24 := by
    simpa [fileOf] using @Bytes.slice_window map [] (packets.flatMap fun a => a.1.bytes map) 0 24 20 24
      (by omega) (by omega) le_rfl
  have hlink : ∀ e, u32At (fileOf map packets) 20 e = u32At map 20 e := fun e => by
    rw [u32At, u32At, hslice]
  simp only [readHeader, if_neg hlength, hmagic, hlink, if_neg (Nat.not_lt.mpr hmap)]

/-! ## The records of a flow -/

/-- Every assigned record has a parsed packet, so a flow's records are its packets' records. -/
theorem Reached.recordsOf_eq {map : Bytes} {h : Header} {ps : List Placement} {st : ScanState}
    (hr : Reached map h ps st) (i : Nat) : recordsOf ps i = (packetsOf ps i).map Prod.fst := by
  induction hr with
  | start => rfl
  | @step ps st st' p hr hs ih =>
    obtain ⟨_, -, -, hstep⟩ := scanRecord_ok hs
    rw [recordsOf, List.filter_append, List.map_append]
    rcases step_cases hstep with ⟨q, j, hp, -⟩ | ⟨⟨q, hp⟩, -⟩
    · rw [hp, packetsOf_assigned, List.map_append, ← ih]
      by_cases hij : j = i <;> simp [recordsOf, hij]
    · rw [hp, packetsOf_unassigned, ← ih]
      simp [recordsOf]

/-- The records are numbered from one. -/
theorem Reached.frames_eq {map : Bytes} {h : Header} {ps : List Placement} {st : ScanState}
    (hr : Reached map h ps st) : ps.map (·.record.frame) = List.range' 1 ps.length := by
  induction hr with
  | start => rfl
  | @step ps st st' p hr hs ih =>
    obtain ⟨_, hread, -, -⟩ := scanRecord_ok hs
    rw [List.map_append, ih, List.length_append, List.length_singleton, List.range'_1_concat,
      List.map_singleton, hread.frame, hr.loopInv.frame, Nat.add_comm]

/-! ## The row -/

theorem Flow.row_alone {f : Flow} {row : FlowRow} (h : f.row = .ok row) (hpos : 0 < f.packets) :
    f.alone.row = .ok row.alone := by
  unfold Flow.row at h
  obtain ⟨packets, hpackets, h⟩ := bind_eq_ok.mp h
  obtain ⟨captured, hcaptured, h⟩ := bind_eq_ok.mp h
  obtain ⟨payload, hpayload, h⟩ := bind_eq_ok.mp h
  obtain ⟨left, hleft, h⟩ := bind_eq_ok.mp h
  obtain ⟨right, hright, h⟩ := bind_eq_ok.mp h
  obtain ⟨zeroWindow, hzeroWindow, h⟩ := bind_eq_ok.mp h
  obtain ⟨firstRef, -, h⟩ := bind_eq_ok.mp h
  obtain ⟨lastRef, -, h⟩ := bind_eq_ok.mp h
  cases h
  have hcount := u64ToSql_ok hpackets
  have hsmall : f.packets < 2 ^ 63 := by
    unfold u64ToSql at hpackets
    split at hpackets
    · assumption
    · cases hpackets
  have hfirst : u64ToSql 0 = .ok 0 := rfl
  have hlast : u64ToSql (f.packets - 1) = .ok (packets - 1) := by
    rw [u64ToSql, if_pos (by omega), hcount]
    congr 1
    omega
  have hframes : packets.toNat = f.packets := by rw [hcount, Int.toNat_natCast]
  simp only [Flow.row, Flow.alone, hpackets, hcaptured, hpayload, hleft, hright, hzeroWindow, hfirst,
    hlast, bind, Except.bind, FlowRow.alone, hframes]

/-! ## The law -/

/-- A file that was indexed again has the flow, alone: its row, and the frames from 1 to its packets. -/
structure ReindexedAlone (out : Source) (f : FlowRow) (again : Index) : Prop where
  built : buildIndex out = .ok again
  flows : again.manifest.flows = [f.alone]
  frames : originalFrames again.refs again.manifest 0 = .ok (List.range' 1 f.packets.toNat)
  counted : again.manifest.metadata.frames = f.packets.toNat

theorem finishIndex_eq (source : Source) (h : Header) {st : ScanState} {rows : List FlowRow}
    (hrows : insertFlows st.flows = .ok rows) : ∃ index, finishIndex source h st = .ok index ∧
      index.manifest.flows = rows ∧ index.manifest.metadata.frames = st.frame := by
  rw [finishIndex, hrows]
  exact ⟨_, rfl, rfl, rfl⟩

/-- A scan that leaves one flow and assigns it every record. -/
theorem reindexedAlone_of_scan {out : Source} {h : Header} {qs : List Placement} {alone : ScanState}
    {f : Flow} {row : FlowRow} (hscan : scanRecords out.bytes = .ok (h, qs, alone))
    (hflows : alone.flows = [f.alone]) (hrow : f.row = .ok row) (hframe : alone.frame = f.packets)
    (hpos : 0 < f.packets) (hzero : ∀ p ∈ qs, p.flow = some 0) : ∃ again, ReindexedAlone out row again := by
  have hreached := reached_scanRecords hscan
  have hcount : row.packets.toNat = f.packets := by
    rw [(row_ok hrow).2.1, Int.toNat_natCast]
  have hinsert : insertFlows alone.flows = .ok [row.alone] := by
    simp [insertFlows, hflows, Flow.row_alone hrow hpos, bind, Except.bind, pure, Except.pure]
  obtain ⟨again, hfinish, hrows, hframes⟩ := finishIndex_eq out h hinsert
  have hbuilt : buildIndex out = .ok again := by
    simp only [buildIndex, hscan, hfinish, bind, Except.bind]
  have hrecords : recordsOf (placements out) 0 = qs.map (·.record) := by
    rw [placements, hscan, recordsOf, List.filter_eq_self.mpr fun p hp => by simpa using hzero p hp]
  have hread := (framesOf hbuilt (hrows ▸ List.mem_singleton_self row.alone)).frames
  refine ⟨again, hbuilt, hrows, ?_, by rw [hframes, hframe, hcount]⟩
  rw [hcount, ← hframe, hreached.loopInv.frame, ← hreached.frames_eq]
  have hmap : qs.map (·.record.frame) = (qs.map (·.record)).map Record.frame := by
    rw [List.map_map]
    rfl
  rw [hmap, ← hrecords]
  exact hread

/-- RE-INDEXING IS THE IDENTITY ON A FLOW: an extracted file is indexed as the one flow it was extracted
for. -/
theorem reindex_alone {source : Source} {index : Index}
    (hlen : source.bytes.length < 2 ^ 32 - 16) (hbuild : buildIndex source = .ok index)
    {f : FlowRow} (hf : f ∈ index.manifest.flows) {dir : IndexDir} (hdir : dir.Holds index) :
    ∃ file, extract dir source f.id = .ok file ∧
      ∀ out : Source, out.bytes = file → ∃ again, ReindexedAlone out f again := by
  obtain ⟨h, ps, st, hheader, hscan, hbuilt⟩ := buildIndex_scan hbuild
  have hreached := reached_scanRecords hscan
  obtain ⟨flow, hflow, hrow⟩ := hbuilt.exists_flow hf
  have hflowOf := hreached.tablesInv.flows f.id flow hflow
  have hcount := hflowOf.tallied.count
  have hpos : 0 < flow.packets := by
    obtain ⟨r, q, rest, hpackets, -⟩ := hflowOf.first
    rw [hcount, hpackets]
    exact Nat.succ_pos _
  have hfile : extract dir source f.id = .ok (fileOf source.bytes (packetsOf ps f.id)) := by
    rw [hdir.extract, hbuilt.extract_ok (fits_refLog hbuilt.inv hlen) hf, hreached.recordsOf_eq,
      List.flatMap_map, fileOf]
  refine ⟨_, hfile, fun out hout => ?_⟩
  obtain ⟨qs, alone, halone, hmirrors, hend, hzero⟩ := hreached.mirrored hbuilt.header f.id []
  rw [List.append_nil, ← hout] at halone
  have hagain : scanRecords out.bytes = .ok (h, qs, alone) := by
    refine halone.scanRecords_eq ?_ (by rw [hout, hend]; omega)
    rw [hout, readHeader_fileOf hbuilt.header, hheader]
  refine reindexedAlone_of_scan hagain ?_ hrow (by rw [hmirrors.frame, hcount]) hpos hzero
  rw [hmirrors.flows, hflow]
  rfl

/-- A directory that offers an index. -/
def IndexDir.offering (index : Index) : IndexDir :=
  ⟨some "", some ⟨0, index.refs⟩, some ⟨0, some index.manifest⟩, none, none⟩

/-- The first of two interleaved connections, extracted and indexed again. -/
theorem reindex_alone_interleaved : ∃ index f file, buildIndex interleaved = .ok index ∧
    f ∈ index.manifest.flows ∧ f.packets = 2 ∧
    extract (IndexDir.offering index) interleaved f.id = .ok file ∧
    ∀ out : Source, out.bytes = file → ∃ again, ReindexedAlone out f again := by
  have hrun : (buildIndex interleaved).map (fun i => i.manifest.flows.head?.map FlowRow.packets) =
      .ok (some 2) := by decide +kernel
  cases hbuild : buildIndex interleaved with
  | error e =>
    rw [hbuild] at hrun
    cases hrun
  | ok index =>
    rw [hbuild] at hrun
    obtain ⟨f, hf, hpackets⟩ := Option.map_eq_some_iff.mp (Except.ok.inj hrun)
    have hmem := List.mem_of_head? hf
    obtain ⟨file, hfile⟩ := reindex_alone (by decide +kernel) hbuild hmem
      (⟨rfl, rfl, rfl⟩ : (IndexDir.offering index).Holds index)
    exact ⟨index, f, file, rfl, hmem, hpackets, hfile⟩

end PacketTrain.Indexer
