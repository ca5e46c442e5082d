import PacketTrain.Laws.Indexer.Flows
import PacketTrain.Laws.Indexer.Parse
import PacketTrain.Laws.Indexer.RoundTrip

/-!
# No capture faults the scan

The record loop on any bytes. A record is read only where its header fits, and its packet only where
it fits (`readRecord_reads`); the tables name flows that are there, so placing a packet answers
(`placePacket_answers`); every iteration moves on by a record. So a scan ends in one of four ways,
none of them a fault (`scan_ends`): a header it refuses, the end of the file, a record that the file
cuts off, or the frame number that no longer fits in 32 bits.
-/

namespace PacketTrain.Indexer

open Fallible

/-! ## Reading a record -/

theorem u32At_answers {data : Bytes} {off : Nat} (e : Endian) (h : off + 4 ≤ data.length) :
    Answers (u32At data off e) := by
  unfold u32At
  rw [Bytes.slice_of_le (Nat.le_add_right _ _) h]
  cases e <;> exact answers_ok _

/-- What reading a record comes to, at a position that its header fits. -/
inductive Reading (map : Bytes) (h : Header) (st : ScanState) :
    Except ScanError (Record × Bytes) → Prop
  | truncated (incl : Nat) : u32At map (st.pos + 8) h.endian = .ok incl →
      map.length < st.pos + 16 + incl → Reading map h st (.error (.truncatedRecord (st.frame + 1)))
  | overflow : 2 ^ 32 ≤ st.frame + 1 → Reading map h st (.error .frameOverflow)
  | record (r : Record) (packet : Bytes) : readRecord map h st = .ok (r, packet) →
      Reading map h st (.ok (r, packet))

theorem readRecord_reads {map : Bytes} (h : Header) {st : ScanState}
    (hroom : st.pos + 16 ≤ map.length) :
    Reading map h st (readRecord map h st) := by
  obtain ⟨sec, hsec⟩ : Answers (u32At map st.pos h.endian) := u32At_answers h.endian (by omega)
  obtain ⟨frac, hfrac⟩ : Answers (u32At map (st.pos + 4) h.endian) :=
    u32At_answers h.endian (by omega)
  obtain ⟨incl, hincl⟩ : Answers (u32At map (st.pos + 8) h.endian) :=
    u32At_answers h.endian (by omega)
  have hread : readRecord map h st =
      if map.length - (st.pos + 16) < incl then .error (.truncatedRecord (st.frame + 1))
      else if 2 ^ 32 ≤ st.frame + 1 then .error .frameOverflow
      else liftFault (sliceAt map (st.pos + 16) (st.pos + 16 + incl)) >>= fun packet =>
        .ok (⟨st.pos, sec, frac, incl, st.frame + 1⟩, packet) := by
    simp only [readRecord, hsec, hfrac, hincl, subAt_of_le hroom, liftFault, bind, Except.bind]
  by_cases hcut : map.length - (st.pos + 16) < incl
  · rw [hread, if_pos hcut]
    exact .truncated incl hincl (by omega)
  by_cases hframe : 2 ^ 32 ≤ st.frame + 1
  · rw [hread, if_neg hcut, if_pos hframe]
    exact .overflow hframe
  · obtain ⟨packet, hpacket⟩ : Answers (sliceAt map (st.pos + 16) (st.pos + 16 + incl)) :=
      sliceAt_answers (Nat.le_add_right _ _) (by omega)
    have hok : readRecord map h st = .ok (⟨st.pos, sec, frac, incl, st.frame + 1⟩, packet) := by
      rw [hread, if_neg hcut, if_neg hframe, hpacket]
      rfl
    rw [hok]
    exact .record _ _ hok

/-! ## Placing a packet -/

/-- The tables name flows of the vector. -/
structure TablesIn (st : ScanState) : Prop where
  active : ∀ key i, st.active key = some i → i < st.flows.length
  fragments : ∀ fk i, st.fragments fk = some i → i < st.flows.length

/-- A flow can be chosen for every packet that came through the parser, and it is in the vector. -/
theorem flowIndex_answers {st : ScanState} {p : ParsedPacket} (htables : TablesIn st)
    (hkey : p.nonInitialFragment = false → ∃ key, p.key = some key) :
    ∃ target, flowIndex st p = .ok target ∧
      ∀ i mid, target = some (i, mid) → i < mid.flows.length := by
  unfold flowIndex
  by_cases hlater : p.nonInitialFragment = true
  · rw [if_pos hlater]
    cases p.fragment with
    | none => exact ⟨none, rfl, fun _ _ h => (nomatch h)⟩
    | some fk =>
      refine ⟨_, rfl, fun i mid hmid => ?_⟩
      obtain ⟨j, hj, heq⟩ := Option.map_eq_some_iff.mp hmid
      cases heq
      exact htables.fragments fk i hj
  rw [if_neg hlater]
  rw [Bool.not_eq_true] at hlater
  obtain ⟨key, hkey⟩ := hkey hlater
  have hopen : ∀ i mid, some (st.openFlow key p.srcIsLeft) = some (i, mid) →
      i < mid.flows.length := by
    intro i mid heq
    cases heq
    show st.flows.length < (st.flows ++ [_]).length
    rw [List.length_append]
    exact Nat.lt_succ_self _
  simp only [hkey]
  cases hactive : st.active key with
  | none => exact ⟨_, rfl, hopen⟩
  | some i =>
    have hi := htables.active key i hactive
    have hjoin : ∀ j mid, some (i, st) = some (j, mid) → j < mid.flows.length := by
      intro j mid heq
      cases heq
      exact hi
    simp only [List.getElem?_eq_getElem hi]
    split
    · split
      · exact ⟨_, rfl, hopen⟩
      · exact ⟨_, rfl, hjoin⟩
    · exact ⟨_, rfl, hjoin⟩

theorem placePacket_answers (nanos : Bool) (st : ScanState) (r : Record) {p : ParsedPacket}
    (htables : TablesIn st) (hkey : p.nonInitialFragment = false → ∃ key, p.key = some key) :
    Answers (placePacket nanos st r p) := by
  obtain ⟨target, htarget, hin⟩ := flowIndex_answers htables hkey
  unfold placePacket
  rw [htarget]
  rcases target with _ | ⟨i, mid⟩
  · exact answers_ok _
  · show Answers (appendPacket nanos mid r p i >>= _)
    refine Answers.bind ?_ fun st _ => answers_ok _
    unfold appendPacket
    rw [List.getElem?_eq_getElem (hin i mid rfl)]
    exact answers_ok _

theorem Reached.tablesIn {map : Bytes} {h : Header} {ps : List Placement} {st : ScanState}
    (hr : Reached map h ps st) : TablesIn st where
  active key i hactive := by
    obtain ⟨f, hf, -⟩ := hr.tablesInv.active key i hactive
    exact (List.getElem?_eq_some_iff.mp hf).1
  fragments := hr.tablesInv.fragments

/-! ## The loop -/

/-- How the record loop ends. -/
inductive LoopEnds (map : Bytes) (h : Header) : Except ScanError (List Placement × ScanState) → Prop
  /-- Behind the last complete record, with less than a record header left. -/
  | complete (ps : List Placement) (st : ScanState) : Reached map h ps st → st.pos ≤ map.length →
      map.length < st.pos + 16 → LoopEnds map h (.ok (ps, st))
  /-- At a record whose packet runs past the end of the file. -/
  | truncated (ps : List Placement) (st : ScanState) (incl : Nat) : Reached map h ps st →
      st.pos + 16 ≤ map.length → u32At map (st.pos + 8) h.endian = .ok incl →
      map.length < st.pos + 16 + incl → LoopEnds map h (.error (.truncatedRecord (ps.length + 1)))
  /-- At the record that no frame number is left for. -/
  | overflow (ps : List Placement) (st : ScanState) : Reached map h ps st →
      st.pos + 16 ≤ map.length → ps.length + 1 = 2 ^ 32 → LoopEnds map h (.error .frameOverflow)

/-- An iteration places its record, unless the record cannot be read. -/
theorem scanRecord_ends {map : Bytes} {h : Header} {ps : List Placement} {st : ScanState}
    (hr : Reached map h ps st) (hroom : st.pos + 16 ≤ map.length) :
    (∃ p st', scanRecord map h st = .ok (p, st')) ∨
      ∃ e, scanRecord map h st = .error e ∧ LoopEnds map h (.error e) := by
  have hframe := hr.loopInv.frame
  have hlt := hr.loopInv.frame_lt
  unfold scanRecord
  have hreads := readRecord_reads h hroom
  generalize readRecord map h st = reading at hreads
  cases hreads with
  | truncated incl hincl hcut =>
    rw [hframe]
    exact .inr ⟨_, rfl, .truncated ps st incl hr hroom hincl hcut⟩
  | overflow hoverflow => exact .inr ⟨_, rfl, .overflow ps st hr hroom (by omega)⟩
  | record r packet hread =>
    left
    obtain ⟨parsed, hparsed⟩ := parseTcp_answers packet h.linktype
    show ∃ p st', (liftFault (parseTcp packet h.linktype) >>= _) = .ok (p, st')
    rw [hparsed]
    cases parsed with
    | none => exact ⟨_, _, rfl⟩
    | some q =>
      have htables := hr.tablesIn
      obtain ⟨⟨p, st'⟩, hplace⟩ := placePacket_answers h.nanos
        { st.advance r with tcpPackets := st.tcpPackets + 1 } r ⟨htables.active, htables.fragments⟩
        (parseTcp_key hparsed)
      exact ⟨p, st', hplace⟩

/-- From any state that is reached, the loop ends in one of the three ways. -/
theorem scanLoop_ends {map : Bytes} {h : Header} (hmap : 24 ≤ map.length) (fuel : Nat) :
    ∀ {ps : List Placement} {st : ScanState}, Reached map h ps st → map.length - st.pos < fuel →
      LoopEnds map h ((scanLoop map h fuel st).map fun out => (ps ++ out.1, out.2)) := by
  induction fuel with
  | zero => exact fun _ hfuel => absurd hfuel (Nat.not_lt_zero _)
  | succ fuel ih =>
    intro ps st hr hfuel
    have hpos := hr.pos_le hmap
    unfold scanLoop
    by_cases hroom : st.pos + 16 ≤ map.length
    · rw [if_pos hroom]
      rcases scanRecord_ends hr hroom with ⟨p, st', hs⟩ | ⟨e, he, hends⟩
      · have hnext := scanRecord_pos hs
        have hrest := ih (hr.step hs) (by omega)
        rw [hs]
        show LoopEnds map h ((scanLoop map h fuel st' >>= _).map _)
        cases hloop : scanLoop map h fuel st' with
        | error e =>
          rw [hloop] at hrest
          exact hrest
        | ok out =>
          rw [hloop] at hrest
          simpa only [Except.map, bind, Except.bind, List.append_assoc, List.singleton_append]
            using hrest
      · rw [he]
        exact hends
    · rw [if_neg hroom]
      show LoopEnds map h (.ok (ps ++ [], st))
      rw [List.append_nil]
      exact .complete ps st hr hpos.2 (by omega)

/-! ## The scan -/

/-- How a scan of some bytes ends: with a header that is refused, or as its loop ends. -/
inductive ScanEnds (map : Bytes) : Except ScanError (Header × List Placement × ScanState) → Prop
  | refused (e : ScanError) : e = .shortHeader ∨ e = .notClassicPcap ∨ (∃ n, e = .notEthernet n) →
      ScanEnds map (.error e)
  | looped (h : Header) (out : Except ScanError (List Placement × ScanState)) :
      readHeader map = .ok h → LoopEnds map h out →
        ScanEnds map (out.map fun out => (h, out.1, out.2))

theorem readHeader_refuses {map : Bytes} {e : ScanError} (h : readHeader map = .error e) :
    e = .shortHeader ∨ e = .notClassicPcap ∨ ∃ n, e = .notEthernet n := by
  unfold readHeader at h
  split at h
  · cases h
    exact .inl rfl
  next hlong =>
    split at h
    · cases h
      exact .inr (.inl rfl)
    next endian nanos _ =>
      obtain ⟨linktype, hlinktype⟩ : Answers (u32At map 20 endian) :=
        u32At_answers endian (by omega)
      rw [hlinktype] at h
      replace h : (if linktype ≠ 1 then _ else _) = _ := h
      split at h
      · cases h
        exact .inr (.inr ⟨linktype, rfl⟩)
      · cases h

theorem scanRecords_ends (map : Bytes) : ScanEnds map (scanRecords map) := by
  unfold scanRecords
  cases hheader : readHeader map with
  | error e => exact .refused e (readHeader_refuses hheader)
  | ok h =>
    have hmap := readHeader_length hheader
    have hfuel : map.length - ScanState.start.pos < map.length := by
      show map.length - 24 < map.length
      omega
    have hends := scanLoop_ends (h := h) hmap map.length .start hfuel
    have hsame : (scanLoop map h map.length .start).map (fun out => ([] ++ out.1, out.2)) =
        scanLoop map h map.length .start := by
      cases scanLoop map h map.length .start <;> rfl
    rw [hsame] at hends
    have hlooped := ScanEnds.looped h _ hheader hends
    show ScanEnds map (scanLoop map h map.length .start >>= _)
    cases hloop : scanLoop map h map.length .start with
    | error e =>
      rw [hloop] at hlooped
      exact hlooped
    | ok out =>
      rw [hloop] at hlooped
      exact hlooped

/-- What holds of a scan of any bytes. -/
structure ScanSafe (map : Bytes) : Prop where
  ends : ScanEnds map (scanRecords map)
  /-- No index and no slice leaves its bounds, no subtraction goes below zero, and the loop ends. -/
  noFault : ∀ f, scanRecords map ≠ .error (.fault f)
  /-- Every record that is read, on the way to any end, lies in the file. -/
  inside : ∀ h ps st, Reached map h ps st → ∀ p ∈ ps, p.record.offset + p.record.len ≤ map.length

/-- NO CAPTURE FAULTS THE SCAN: the parser answers on every frame, and a scan of any bytes ends in
one of the ways of `ScanEnds`. -/
theorem scan_safe :
    (∀ packet linktype, Answers (parseTcp packet linktype)) ∧ ∀ map, ScanSafe map := by
  refine ⟨parseTcp_answers, fun map => ⟨scanRecords_ends map, fun f hfault => ?_, ?_⟩⟩
  · have hends := scanRecords_ends map
    rw [hfault] at hends
    generalize hout : (Except.error (.fault f) : Except ScanError _) = out at hends
    cases hends with
    | refused e he =>
      cases hout
      rcases he with he | he | ⟨n, he⟩ <;> cases he
    | looped h out _ hloop => cases hloop <;> cases hout
  · exact fun h ps st hr => hr.loopInv.inside

/-! ## A capture with too many records -/

/-- A little-endian capture header, with microseconds, of link type Ethernet. -/
def captureHeader : Bytes := [0xd4, 0xc3, 0xb2, 0xa1] ++ List.replicate 16 0 ++ [1, 0, 0, 0]

/-- A capture whose records have no bytes. -/
def emptyRecords (n : Nat) : Bytes := captureHeader ++ List.replicate (16 * n) 0

theorem length_emptyRecords (n : Nat) : (emptyRecords n).length = 24 + 16 * n := by
  rw [emptyRecords, List.length_append, List.length_replicate]
  rfl

theorem readHeader_emptyRecords (n : Nat) :
    readHeader (emptyRecords n) = .ok ⟨.little, false, 1⟩ := by
  have hlong : ¬(emptyRecords n).length < 24 := by
    rw [length_emptyRecords]
    omega
  have hslice : (emptyRecords n).slice 20 24 = some [1, 0, 0, 0] :=
    Bytes.slice_append ([0xd4, 0xc3, 0xb2, 0xa1] ++ List.replicate 16 0) [1, 0, 0, 0] _ rfl rfl
  have hlinktype : u32At (emptyRecords n) 20 .little = .ok 1 := by
    rw [u32At, hslice]
    rfl
  unfold readHeader
  rw [if_neg hlong]
  show (u32At (emptyRecords n) 20 .little >>= _) = _
  rw [hlinktype]
  rfl

theorem slice_emptyRecords {n a b : Nat} (ha : 24 ≤ a) (hab : a ≤ b) (hb : b ≤ 24 + 16 * n) :
    (emptyRecords n).slice a b = some (List.replicate (b - a) 0) := by
  have hsize : min (b - 24 - (a - 24)) (16 * n - (a - 24)) = b - a := by omega
  rw [emptyRecords, Bytes.slice_skip (n := 24) _ rfl ha hab,
    Bytes.slice_of_le (by omega) (by rw [List.length_replicate]; omega), List.drop_replicate,
    List.take_replicate, hsize]

/-- Each record is read and left alone, as long as there are frame numbers. -/
theorem scanRecord_emptyRecords {n k : Nat} {st : ScanState} (hk : k < n)
    (hpos : st.pos = 24 + 16 * k) (hframe : st.frame = k) :
    scanRecord (emptyRecords n) ⟨.little, false, 1⟩ st =
      if 2 ^ 32 ≤ k + 1 then .error .frameOverflow
      else .ok (⟨⟨st.pos, 0, 0, 0, k + 1⟩, none, none⟩, st.advance ⟨st.pos, 0, 0, 0, k + 1⟩) := by
  have hroom : st.pos + 16 ≤ (emptyRecords n).length := by
    rw [length_emptyRecords]
    omega
  have hzero : ∀ d, d + 4 ≤ 16 → u32At (emptyRecords n) (st.pos + d) .little = .ok 0 := by
    intro d hd
    have hfour : st.pos + d + 4 - (st.pos + d) = 4 := by omega
    rw [u32At, slice_emptyRecords (by omega) (by omega) (by omega), hfour]
    rfl
  have hsec : u32At (emptyRecords n) st.pos .little = .ok 0 := hzero 0 (by omega)
  have hempty : sliceAt (emptyRecords n) (st.pos + 16) (st.pos + 16) = .ok [] := by
    rw [sliceAt, slice_emptyRecords (by omega) (by omega) (by omega), Nat.sub_self]
    rfl
  simp only [scanRecord, readRecord, hsec, hzero 4 (by omega), hzero 8 (by omega),
    subAt_of_le hroom, liftFault, Nat.not_lt_zero, if_false, hframe, Nat.add_zero, hempty, bind,
    Except.bind]
  by_cases hlast : 2 ^ 32 ≤ k + 1
  · simp only [if_pos hlast]
  · simp only [if_neg hlast]
    rfl

/-- The loop over them ends at the first that has no frame number. -/
theorem scanLoop_emptyRecords {n : Nat} (hn : 2 ^ 32 ≤ n) (fuel : Nat) :
    ∀ {k : Nat} {st : ScanState}, st.pos = 24 + 16 * k → st.frame = k → k < 2 ^ 32 →
      2 ^ 32 ≤ k + fuel →
        scanLoop (emptyRecords n) ⟨.little, false, 1⟩ fuel st = .error .frameOverflow := by
  induction fuel with
  | zero => omega
  | succ fuel ih =>
    intro k st hpos hframe hk hfuel
    have hroom : st.pos + 16 ≤ (emptyRecords n).length := by
      rw [length_emptyRecords]
      omega
    unfold scanLoop
    rw [if_pos hroom, scanRecord_emptyRecords (by omega) hpos hframe]
    by_cases hlast : 2 ^ 32 ≤ k + 1
    · rw [if_pos hlast]
      rfl
    · rw [if_neg hlast]
      show (scanLoop _ _ fuel (st.advance ⟨st.pos, 0, 0, 0, k + 1⟩) >>= _) = _
      rw [ih (k := k + 1) (show st.pos + 16 = _ by omega) rfl (by omega) (by omega)]
      rfl

theorem scanLoop_emptyRecords_start {n : Nat} (hn : 2 ^ 32 ≤ n) :
    scanLoop (emptyRecords n) ⟨.little, false, 1⟩ (emptyRecords n).length .start =
      .error .frameOverflow := by
  have hfuel : 2 ^ 32 ≤ 0 + (emptyRecords n).length := by
    rw [length_emptyRecords]
    omega
  exact scanLoop_emptyRecords hn _ rfl rfl (Nat.two_pow_pos 32) hfuel

/-- A capture of 64 GiB can hold more records than there are frame numbers, and the loop then ends
neither behind its last record nor at one that is cut off. -/
theorem frameNumbers_runOut :
    ¬∀ map h, readHeader map = .ok h →
      (∃ ps st, scanLoop map h map.length .start = .ok (ps, st) ∧ map.length < st.pos + 16) ∨
        ∃ frame, scanLoop map h map.length .start = .error (.truncatedRecord frame) := by
  intro hends
  have hloop := scanLoop_emptyRecords_start (Nat.le_refl (2 ^ 32))
  rcases hends _ _ (readHeader_emptyRecords (2 ^ 32)) with ⟨ps, st, hok, -⟩ | ⟨frame, htruncated⟩
  · rw [hloop] at hok
    cases hok
  · rw [hloop] at htruncated
    cases htruncated

end PacketTrain.Indexer
