import PacketTrain.Indexer.Index
import PacketTrain.Lib.Chain
import PacketTrain.Lib.Fallible

/-!
# The record loop, step by step

What one iteration of `scan` can do, said once (`scanRecord_ok`), and the induction that carries a
property of the placements so far and the state from the first record to the last (`scanLoop_rule`).

`LoopInv` is the invariant the references need. It says that `refs.bin` is, row for row, the log a
chain writer leaves (`Chain.build`) when it is given the assigned records in order, that every
flow's counters describe its own chain in that log, and that no flow is empty. Nothing in it
depends on how packets are parsed or how a flow is chosen: any interleaving of flows, fragments and
reused tuples keeps it.
-/

namespace PacketTrain.Indexer

open Fallible

/-! ## One iteration -/

theorem liftFault_eq_ok {α : Type} {x : Except Fault α} {a : α} :
    liftFault x = .ok a ↔ x = .ok a := by
  cases x with
  | error f => constructor <;> intro h <;> cases h
  | ok b => constructor <;> intro h <;> cases h <;> rfl

theorem sliceAt_eq_ok {data out : Bytes} {a b : Nat} (h : sliceAt data a b = .ok out) :
    data.slice a b = some out := by
  unfold sliceAt at h
  split at h
  · next hs => cases h; exact hs
  · cases h

theorem subAt_of_le {a b : Nat} (h : b ≤ a) : subAt a b = .ok (a - b) := if_pos h

/-- A record that was read stands at the loop's position, has the next frame number, and lies in
the capture. -/
structure RecordRead (map : Bytes) (st : ScanState) (r : Record) (packet : Bytes) : Prop where
  offset : r.offset = st.pos
  frame : r.frame = st.frame + 1
  frame_lt : r.frame < 2 ^ 32
  inside : r.offset + r.len ≤ map.length
  packet : map.slice (r.offset + 16) (r.offset + r.len) = some packet

theorem readRecord_ok {map : Bytes} {h : Header} {st : ScanState} {r : Record} {packet : Bytes}
    (hr : readRecord map h st = .ok (r, packet)) : RecordRead map st r packet := by
  unfold readRecord at hr
  obtain ⟨sec, -, hr⟩ := bind_eq_ok.mp hr
  obtain ⟨frac, -, hr⟩ := bind_eq_ok.mp hr
  obtain ⟨incl, -, hr⟩ := bind_eq_ok.mp hr
  obtain ⟨rest, -, hr⟩ := bind_eq_ok.mp hr
  split at hr
  · cases hr
  split at hr
  · cases hr
  next hframe =>
    obtain ⟨bytes, hbytes, hr⟩ := bind_eq_ok.mp hr
    cases hr
    have hslice := sliceAt_eq_ok (liftFault_eq_ok.mp hbytes)
    have hin := (Bytes.slice_eq_some hslice).2.1
    refine ⟨rfl, rfl, Nat.lt_of_not_le hframe, ?_, ?_⟩
    · show st.pos + (16 + incl) ≤ map.length
      omega
    · show map.slice (st.pos + 16) (st.pos + (16 + incl)) = some packet
      rw [← Nat.add_assoc]
      exact hslice

/-- How a packet reaches a flow: it opens one for its key, or it joins one that a table names. -/
inductive Reaches (st : ScanState) (p : ParsedPacket) : Nat → ScanState → Prop
  | opens (key : FlowKey) : p.key = some key → p.nonInitialFragment = false →
      (st.active key = none ∨ ∃ i f, st.active key = some i ∧ st.flows[i]? = some f ∧
        f.closed = true ∧ p.syn = true ∧ p.ack = false) →
      Reaches st p (st.openFlow key p.srcIsLeft).1 (st.openFlow key p.srcIsLeft).2
  | joins (key : FlowKey) (i : Nat) : p.key = some key → p.nonInitialFragment = false →
      st.active key = some i →
      (p.syn = true → p.ack = false → ∀ f, st.flows[i]? = some f → f.closed = false) →
      Reaches st p i st
  | follows (fk : FragmentKey) (i : Nat) : p.fragment = some fk → p.nonInitialFragment = true →
      st.fragments fk = some i → Reaches st p i st

theorem flowIndex_some {st st' : ScanState} {p : ParsedPacket} {i : Nat}
    (h : flowIndex st p = .ok (some (i, st'))) : Reaches st p i st' := by
  unfold flowIndex at h
  split at h
  · next hni =>
    cases hf : p.fragment with
    | none => rw [hf] at h; cases h
    | some fk =>
      rw [hf] at h
      obtain ⟨j, hj, heq⟩ := Option.map_eq_some_iff.mp (Except.ok.inj h)
      cases heq
      exact .follows fk i hf hni hj
  · next hni =>
    have hni : p.nonInitialFragment = false := by simpa using hni
    cases hk : p.key with
    | none => rw [hk] at h; cases h
    | some key =>
      simp only [hk] at h
      cases ha : st.active key with
      | none =>
        simp only [ha] at h
        cases h
        exact .opens key hk hni (.inl ha)
      | some j =>
        simp only [ha] at h
        split at h
        · next hsyn =>
          simp only [Bool.and_eq_true, Bool.not_eq_true'] at hsyn
          cases hf : st.flows[j]? with
          | none => simp only [hf] at h; cases h
          | some f =>
            simp only [hf] at h
            split at h
            · next hc =>
              cases h
              exact .opens key hk hni (.inr ⟨j, f, ha, hf, hc, hsyn.1, hsyn.2⟩)
            · next hc =>
              cases h
              refine .joins key i hk hni ha fun _ _ g hg => ?_
              rw [hf] at hg
              cases hg
              simpa using hc
        · next hsyn =>
          cases h
          refine .joins key i hk hni ha fun h1 h2 => absurd ?_ hsyn
          rw [h1, h2]
          rfl

/-- The flow a packet reaches is in the vector, and every other flow is as it was. -/
theorem appendPacket_ok {nanos : Bool} {st st' : ScanState} {r : Record} {p : ParsedPacket} {i : Nat}
    (h : appendPacket nanos st r p i = .ok st') : ∃ f, st.flows[i]? = some f ∧
      st' = { st with
        fragments :=
          match p.fragment with
          | some fk => KeyMap.insert st.fragments fk i
          | none => st.fragments
        refs := st.refs ++ writeRef r.offset (r.len % 2 ^ 32) r.frame (f.account r nanos p).lastRef
          (f.account r nanos p).id
        flows := st.flows.set i ((f.account r nanos p).link st.refCount)
        refCount := st.refCount + 1 } := by
  unfold appendPacket at h
  split at h
  · cases h
  · next f hf => exact ⟨f, hf, (Except.ok.inj h).symm⟩

/-- The three ends of an iteration, with everything each one does. -/
inductive Step (h : Header) (st : ScanState) (r : Record) : Placement → ScanState → Prop
  | skipped : Step h st r ⟨r, none, none⟩ (st.advance r)
  | orphaned (p : ParsedPacket) :
      Step h st r ⟨r, some p, none⟩ { st.advance r with tcpPackets := st.tcpPackets + 1 }
  | assigned (p : ParsedPacket) (i : Nat) (mid st' : ScanState) :
      Reaches { st.advance r with tcpPackets := st.tcpPackets + 1 } p i mid →
      appendPacket h.nanos mid r p i = .ok st' → Step h st r ⟨r, some p, some i⟩ st'

/-- An iteration reads a record, parses its packet, and comes to one of the three ends. -/
theorem scanRecord_read {map : Bytes} {h : Header} {st st' : ScanState} {p : Placement}
    (hs : scanRecord map h st = .ok (p, st')) :
    ∃ packet, readRecord map h st = .ok (p.record, packet) ∧
      parseTcp packet h.linktype = .ok p.parsed ∧ Step h st p.record p st' := by
  unfold scanRecord at hs
  obtain ⟨⟨r, packet⟩, hr, hs⟩ := bind_eq_ok.mp hs
  obtain ⟨parsed, hp, hs⟩ := bind_eq_ok.mp hs
  have hp := liftFault_eq_ok.mp hp
  cases parsed with
  | none =>
    cases hs
    exact ⟨packet, hr, hp, .skipped⟩
  | some q =>
    unfold placePacket at hs
    obtain ⟨target, ht, hs⟩ := bind_eq_ok.mp hs
    cases target with
    | none =>
      cases hs
      exact ⟨packet, hr, hp, .orphaned q⟩
    | some target =>
      obtain ⟨i, mid⟩ := target
      obtain ⟨last, hlast, hs⟩ := bind_eq_ok.mp hs
      cases hs
      exact ⟨packet, hr, hp, .assigned q i mid _ (flowIndex_some ht) hlast⟩

theorem scanRecord_ok {map : Bytes} {h : Header} {st st' : ScanState} {p : Placement}
    (hs : scanRecord map h st = .ok (p, st')) :
    ∃ packet, RecordRead map st p.record packet ∧ parseTcp packet h.linktype = .ok p.parsed ∧
      Step h st p.record p st' := by
  obtain ⟨packet, hr, hp, hstep⟩ := scanRecord_read hs
  exact ⟨packet, readRecord_ok hr, hp, hstep⟩

/-- Choosing a flow and appending a reference leave the position alone. -/
theorem Step.pos {h : Header} {st st' : ScanState} {r : Record} {p : Placement}
    (hs : Step h st r p st') : st'.pos = st.pos + r.len := by
  cases hs with
  | skipped => rfl
  | orphaned => rfl
  | assigned p i mid _ hreach happend =>
    obtain ⟨f, -, rfl⟩ := appendPacket_ok happend
    cases hreach <;> rfl

/-- An iteration consumes a record that lies in the capture. -/
theorem scanRecord_pos {map : Bytes} {h : Header} {st st' : ScanState} {p : Placement}
    (hs : scanRecord map h st = .ok (p, st')) : st.pos + 16 ≤ st'.pos ∧ st'.pos ≤ map.length := by
  obtain ⟨_, hread, -, hstep⟩ := scanRecord_ok hs
  have hpos := hstep.pos
  have hlen : p.record.len = 16 + p.record.incl := rfl
  have hinside := hread.inside
  rw [hread.offset] at hinside
  omega

/-! ## The loop rule -/

/-- A property of the placements so far and the state, kept by every iteration, holds at the end. -/
theorem scanLoop_rule {map : Bytes} {h : Header} {P : List Placement → ScanState → Prop}
    (step : ∀ ps st p st', P ps st → scanRecord map h st = .ok (p, st') → P (ps ++ [p]) st') :
    ∀ (fuel : Nat) (ps qs : List Placement) (st st' : ScanState), P ps st →
      scanLoop map h fuel st = .ok (qs, st') → P (ps ++ qs) st' := by
  intro fuel
  induction fuel with
  | zero =>
    intro ps qs st st' hP hl
    unfold scanLoop at hl
    split at hl
    · cases hl
    · cases hl
      rw [List.append_nil]
      exact hP
  | succ fuel ih =>
    intro ps qs st st' hP hl
    unfold scanLoop at hl
    split at hl
    · obtain ⟨⟨p, mid⟩, hp, hl⟩ := bind_eq_ok.mp hl
      obtain ⟨⟨rest, last⟩, hrest, hl⟩ := bind_eq_ok.mp hl
      cases hl
      have := ih (ps ++ [p]) rest mid _ (step ps st p mid hP hp) hrest
      rwa [List.append_assoc] at this
    · cases hl
      rw [List.append_nil]
      exact hP

/-- The loop rule for a whole capture. -/
theorem scanRecords_rule {map : Bytes} {P : List Placement → ScanState → Prop} {h : Header}
    {ps : List Placement} {st : ScanState} (hs : scanRecords map = .ok (h, ps, st))
    (init : P [] .start)
    (step : ∀ ps st p st', P ps st → scanRecord map h st = .ok (p, st') → P (ps ++ [p]) st') :
    P ps st := by
  unfold scanRecords at hs
  obtain ⟨h', -, hs⟩ := bind_eq_ok.mp hs
  obtain ⟨⟨ps', st'⟩, hl, hs⟩ := bind_eq_ok.mp hs
  cases hs
  simpa using scanLoop_rule step _ [] ps _ st init hl

/-! ## The log the references spell -/

/-- The assigned records with their flows, in the order of the capture. -/
def assignments (ps : List Placement) : List (Nat × Record) :=
  ps.filterMap fun p => p.flow.map fun i => (i, p.record)

/-- The log a chain writer leaves of them. -/
def refLog (ps : List Placement) : List (Chain.Link Nat Record) := Chain.build (assignments ps)

/-- A position as `refs.bin` spells it. -/
def refOf : Option Nat → Nat
  | some i => i
  | none => noRef

/-- A log entry as `refs.bin` spells it. -/
def encodeLink (l : Chain.Link Nat Record) : Bytes :=
  writeRef l.item.offset (l.item.len % 2 ^ 32) l.item.frame (refOf l.prev) (l.owner % 2 ^ 32)

@[simp] theorem length_encodeLink (l : Chain.Link Nat Record) : (encodeLink l).length = refSize :=
  length_writeRef _ _ _ _ _

theorem refLog_concat (ps : List Placement) (p : Placement) :
    refLog (ps ++ [p]) =
      match p.flow with
      | some i => Chain.append (refLog ps) i p.record
      | none => refLog ps := by
  unfold refLog assignments
  rw [List.filterMap_append]
  cases hp : p.flow with
  | none => simp [hp]
  | some i =>
    have : List.filterMap (fun p => p.flow.map fun i => (i, p.record)) [p] = [(i, p.record)] := by
      simp [hp]
    rw [this, Chain.build_concat]

theorem length_refLog_le (ps : List Placement) : (refLog ps).length ≤ ps.length := by
  rw [refLog, Chain.length_build]
  exact List.length_filterMap_le _ _

/-! ## The invariant -/

/-- A flow's counters describe the flow's own chain. -/
structure FlowInv (log : List (Chain.Link Nat Record)) (i : Nat) (f : Flow) : Prop where
  id : f.id = i % 2 ^ 32
  packets : f.packets = (Chain.owned log i).length
  firstRef : f.firstRef = refOf ((Chain.owned log i).head?.map Prod.snd)
  lastRef : f.lastRef = refOf (Chain.lastOf log i)

/-- The part of the invariant that a flow opened in the middle of an iteration keeps. -/
structure RefsInv (log : List (Chain.Link Nat Record)) (st : ScanState) : Prop where
  refs : st.refs = log.flatMap encodeLink
  refCount : st.refCount = log.length
  count_lt : log.length < 2 ^ 32
  flows : ∀ (i : Nat) (f : Flow), st.flows[i]? = some f → FlowInv log i f
  owners : ∀ l ∈ log, l.owner < st.flows.length

/-- The loop invariant: where the records stand, and what the references spell. -/
structure LoopInv (map : Bytes) (ps : List Placement) (st : ScanState) : Prop where
  frame : st.frame = ps.length
  frame_lt : st.frame < 2 ^ 32
  frames : (ps.map (·.record.frame)).Pairwise (· < ·)
  frame_le : ∀ p ∈ ps, p.record.frame ≤ st.frame
  inside : ∀ p ∈ ps, p.record.offset + p.record.len ≤ map.length
  refsInv : RefsInv (refLog ps) st
  started : ∀ i < st.flows.length, Chain.owned (refLog ps) i ≠ []
  few : st.flows.length ≤ (refLog ps).length

/-- A flow's id is its place. -/
theorem LoopInv.id_eq {map : Bytes} {ps : List Placement} {st : ScanState} (h : LoopInv map ps st)
    {i : Nat} {f : Flow} (hf : st.flows[i]? = some f) : f.id = i := by
  have hi := (List.getElem?_eq_some_iff.mp hf).1
  have hfew := h.few
  have hcount := h.refsInv.count_lt
  rw [(h.refsInv.flows i f hf).id, Nat.mod_eq_of_lt (by omega)]

theorem loopInv_start (map : Bytes) : LoopInv map [] .start where
  frame := rfl
  frame_lt := by decide
  frames := .nil
  frame_le := fun _ h => nomatch h
  inside := fun _ h => nomatch h
  refsInv := ⟨rfl, rfl, by decide, (fun _ _ h => nomatch h), (fun _ h => nomatch h)⟩
  started := fun _ h => nomatch h
  few := Nat.le_refl 0

/-! ### Choosing the flow -/

/-- A flow opened past the log owns nothing yet. -/
theorem owned_fresh {log : List (Chain.Link Nat Record)} {n : Nat}
    (h : ∀ l ∈ log, l.owner < n) : Chain.owned log n = [] := by
  apply List.filter_eq_nil_iff.mpr
  intro e he
  have hmem : e.1 ∈ log := List.mem_of_getElem? (List.mem_zipIdx_iff_getElem?.mp he)
  have := h e.1 hmem
  simp only [decide_eq_true_eq]
  omega

/-- Choosing the flow keeps the references and starts no flow but the chosen one. -/
theorem reaches_refsInv {log : List (Chain.Link Nat Record)} {st mid : ScanState} {p : ParsedPacket}
    {i : Nat} (hlog : Chain.Linked log) (hinv : RefsInv log st) (h : Reaches st p i mid) :
    RefsInv log mid ∧ mid.flows.length ≤ st.flows.length + 1 ∧
      ∀ j < mid.flows.length, j = i ∨ j < st.flows.length := by
  cases h with
  | joins | follows => exact ⟨hinv, Nat.le_succ _, fun j hj => .inr hj⟩
  | opens key =>
    have hfresh := owned_fresh hinv.owners
    have hlast : Chain.lastOf log st.flows.length = none := by
      rw [Chain.lastOf_eq_getLast hlog, hfresh]
      rfl
    refine ⟨⟨hinv.refs, hinv.refCount, hinv.count_lt, fun j f hf => ?_, fun l hl => ?_⟩, ?_, ?_⟩
    · simp only [ScanState.openFlow] at hf
      rcases Nat.lt_or_ge j st.flows.length with hj | hj
      · rw [List.getElem?_append_left hj] at hf
        exact hinv.flows j f hf
      · rw [List.getElem?_append_right hj] at hf
        obtain ⟨hz, rfl⟩ := List.getElem?_eq_some_iff.mp hf
        have : j = st.flows.length := by
          simp only [List.length_singleton] at hz
          omega
        subst this
        simp only [List.getElem_singleton]
        exact ⟨rfl, by rw [hfresh]; rfl, by rw [hfresh]; rfl, by rw [hlast]; rfl⟩
    · simp only [ScanState.openFlow, List.length_append, List.length_singleton]
      have := hinv.owners l hl
      omega
    · simp only [ScanState.openFlow, List.length_append, List.length_singleton]
      omega
    · intro j hj
      simp only [ScanState.openFlow, List.length_append, List.length_singleton] at hj ⊢
      omega

/-! ### Appending the reference -/

/-- A position in a log of fewer than `2 ^ 32` entries is not `NO_REF`. -/
theorem owned_ne_noRef {log : List (Chain.Link Nat Record)} (hlt : log.length < 2 ^ 32) {k : Nat}
    {e : Chain.Link Nat Record × Nat} (he : e ∈ Chain.owned log k) : e.2 ≠ noRef := by
  have hpos := (List.getElem?_eq_some_iff.mp (Chain.mem_owned.mp he).1).1
  unfold noRef
  omega

/-- One more packet on its own flow: the counters describe the longer chain. -/
theorem flowInv_append {log : List (Chain.Link Nat Record)} {i : Nat} {f : Flow} {r : Record}
    (hlt : log.length < 2 ^ 32) (h : FlowInv log i f) (nanos : Bool) (p : ParsedPacket) :
    FlowInv (Chain.append log i r) i ((f.account r nanos p).link log.length) where
  id := by simpa only [Flow.link, Flow.account_id] using h.id
  packets := by
    simp only [Flow.link, Flow.account_packets, Chain.owned_append, if_true, List.length_append,
      List.length_singleton, h.packets]
  firstRef := by
    simp only [Flow.link, Flow.account_firstRef, Chain.owned_append, if_true, h.firstRef]
    cases ho : Chain.owned log i with
    | nil => rfl
    | cons e es =>
      have hne : e.2 ≠ noRef := owned_ne_noRef hlt (ho ▸ List.mem_cons_self)
      exact if_neg hne
  lastRef := by rw [Chain.lastOf_append, if_pos rfl]; rfl

/-- The other flows' counters do not move, and neither do their chains. -/
theorem flowInv_other {log : List (Chain.Link Nat Record)} {i j : Nat} {f : Flow} {r : Record}
    (hij : i ≠ j) (h : FlowInv log j f) : FlowInv (Chain.append log i r) j f := by
  have hown : Chain.owned (Chain.append log i r) j = Chain.owned log j := by
    rw [Chain.owned_append, if_neg hij, List.append_nil]
  refine ⟨h.id, ?_, ?_, ?_⟩
  · rw [hown]; exact h.packets
  · rw [hown]; exact h.firstRef
  · rw [Chain.lastOf_append, if_neg hij]; exact h.lastRef

theorem append_refsInv {log : List (Chain.Link Nat Record)} {nanos : Bool} {mid st' : ScanState}
    {r : Record} {p : ParsedPacket} {i : Nat} (hinv : RefsInv log mid)
    (hlt : log.length + 1 < 2 ^ 32) (h : appendPacket nanos mid r p i = .ok st') :
    RefsInv (Chain.append log i r) st' ∧ st'.flows.length = mid.flows.length ∧
      i < mid.flows.length := by
  obtain ⟨f, hf, rfl⟩ := appendPacket_ok h
  have hi : i < mid.flows.length := (List.getElem?_eq_some_iff.mp hf).1
  have hfi := hinv.flows i f hf
  refine ⟨⟨?_, ?_, ?_, ?_, ?_⟩, List.length_set, hi⟩
  · simp only [Chain.append, List.flatMap_append, List.flatMap_singleton, hinv.refs, encodeLink,
      Flow.account_lastRef, Flow.account_id, hfi.lastRef, hfi.id]
  · simp only [Chain.length_append, hinv.refCount]
  · simpa only [Chain.length_append] using hlt
  · intro j g hg
    rw [hinv.refCount] at hg
    by_cases hij : i = j
    · subst hij
      rw [List.getElem?_set_self hi] at hg
      cases hg
      exact flowInv_append hinv.count_lt hfi nanos p
    · rw [List.getElem?_set_ne hij] at hg
      exact flowInv_other hij (hinv.flows j g hg)
  · intro l hl
    simp only [List.length_set]
    rcases List.mem_append.mp hl with hl | hl
    · exact hinv.owners l hl
    · obtain rfl := List.mem_singleton.mp hl
      exact hi

/-! ### The step -/

/-- Every iteration keeps the invariant. -/
theorem loopInv_step {map : Bytes} {h : Header} (ps : List Placement) (st : ScanState)
    (p : Placement) (st' : ScanState) (hinv : LoopInv map ps st)
    (hs : scanRecord map h st = .ok (p, st')) : LoopInv map (ps ++ [p]) st' := by
  obtain ⟨packet, hread, -, hstep⟩ := scanRecord_ok hs
  have hframe : p.record.frame = ps.length + 1 := by rw [hread.frame, hinv.frame]
  have hframe_lt := hread.frame_lt
  have hlen := length_refLog_le ps
  -- what every end of the iteration shares: the record is the next one and lies in the capture
  have hframes : ((ps ++ [p]).map (·.record.frame)).Pairwise (· < ·) := by
    rw [List.map_append, List.pairwise_append]
    refine ⟨hinv.frames, List.pairwise_singleton _ _, fun a ha b hb => ?_⟩
    obtain ⟨q, hq, rfl⟩ := List.mem_map.mp ha
    obtain rfl := List.mem_singleton.mp hb
    have hq := hinv.frame_le q hq
    show q.record.frame < p.record.frame
    rw [hinv.frame] at hq
    omega
  have hle : ∀ q ∈ ps ++ [p], q.record.frame ≤ p.record.frame := by
    intro q hq
    rcases List.mem_append.mp hq with hq | hq
    · have := hinv.frame_le q hq
      rw [hinv.frame] at this
      omega
    · rw [List.mem_singleton.mp hq]
  have hinside : ∀ q ∈ ps ++ [p], q.record.offset + q.record.len ≤ map.length := by
    intro q hq
    rcases List.mem_append.mp hq with hq | hq
    · exact hinv.inside q hq
    · rw [List.mem_singleton.mp hq]
      exact hread.inside
  have hcount : p.record.frame = (ps ++ [p]).length := by
    rw [hframe, List.length_append, List.length_singleton]
  have hr := hinv.refsInv
  generalize hrec : p.record = r at *
  cases hstep with
  | skipped =>
    have hlog := refLog_concat ps ⟨r, none, none⟩
    refine ⟨hcount, hframe_lt, hframes, hle, hinside, ?_, ?_, ?_⟩
    · rw [hlog]
      exact ⟨hr.refs, hr.refCount, hr.count_lt, hr.flows, hr.owners⟩
    · rw [hlog]; exact hinv.started
    · rw [hlog]; exact hinv.few
  | orphaned q =>
    have hlog := refLog_concat ps ⟨r, some q, none⟩
    refine ⟨hcount, hframe_lt, hframes, hle, hinside, ?_, ?_, ?_⟩
    · rw [hlog]
      exact ⟨hr.refs, hr.refCount, hr.count_lt, hr.flows, hr.owners⟩
    · rw [hlog]; exact hinv.started
    · rw [hlog]; exact hinv.few
  | assigned q i mid _ hreach happ =>
    have hlog := refLog_concat ps ⟨r, some q, some i⟩
    have hmid : RefsInv (refLog ps) { st.advance r with tcpPackets := st.tcpPackets + 1 } :=
      ⟨hr.refs, hr.refCount, hr.count_lt, hr.flows, hr.owners⟩
    obtain ⟨hmid, hgrow, hnew⟩ := reaches_refsInv (Chain.linked_build _) hmid hreach
    have hroom : (refLog ps).length + 1 < 2 ^ 32 := by omega
    obtain ⟨hlast, hsize, hi⟩ := append_refsInv hmid hroom happ
    have hpos : st'.frame = r.frame := by
      obtain ⟨f, -, rfl⟩ := appendPacket_ok happ
      cases hreach <;> rfl
    refine ⟨hpos.trans hcount, hpos ▸ hframe_lt, hframes, fun p hp => hpos ▸ hle p hp, hinside, ?_,
      ?_, ?_⟩
    · rw [hlog]; exact hlast
    · intro j hj
      rw [hlog]
      show Chain.owned (Chain.append (refLog ps) i r) j ≠ []
      rw [Chain.owned_append]
      rcases hnew j (hsize ▸ hj) with rfl | hj
      · rw [if_pos rfl]
        exact List.append_ne_nil_of_right_ne_nil _ (List.cons_ne_nil _ _)
      · exact List.append_ne_nil_of_left_ne_nil (hinv.started j hj) _
    · rw [hlog]
      show _ ≤ (Chain.append (refLog ps) i r).length
      rw [Chain.length_append, hsize]
      have := hinv.few
      have : mid.flows.length ≤ st.flows.length + 1 := hgrow
      omega

/-- The invariant at the end of a capture. -/
theorem scanRecords_inv {map : Bytes} {h : Header} {ps : List Placement} {st : ScanState}
    (hs : scanRecords map = .ok (h, ps, st)) : LoopInv map ps st :=
  scanRecords_rule hs (loopInv_start map) loopInv_step

end PacketTrain.Indexer
