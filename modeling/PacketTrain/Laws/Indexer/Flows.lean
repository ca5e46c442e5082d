import PacketTrain.Laws.Indexer.ScanLoop

/-!
# What a flow is made of

The loop keeps a flow's counters in one record and its packets nowhere. Here a flow is read off the
placements: `packetsOf` lists the packets scan assigned to it, and the counters are what accounting
these packets, in order, leaves (`FlowOf`). The identity of a flow (its id, its generation, the frames
and references) depends on the capture; the rest, its `bare` part, on its packets alone.

`Assigned` says once what an iteration that assigns a packet does to the flows and the tables. Every
invariant of the tables is derived from it.
-/

namespace PacketTrain.Indexer

/-- The states of the record loop, each with the placements that led to it. -/
inductive Reached (map : Bytes) (h : Header) : List Placement → ScanState → Prop
  | start : Reached map h [] .start
  | step {ps : List Placement} {st st' : ScanState} {p : Placement} : Reached map h ps st →
      scanRecord map h st = .ok (p, st') → Reached map h (ps ++ [p]) st'

/-- A scan ends in such a state. -/
theorem reached_scanRecords {map : Bytes} {h : Header} {ps : List Placement} {st : ScanState}
    (hs : scanRecords map = .ok (h, ps, st)) : Reached map h ps st :=
  scanRecords_rule hs .start fun _ _ _ _ hreached hs => hreached.step hs

theorem Reached.loopInv {map : Bytes} {h : Header} {ps : List Placement} {st : ScanState}
    (hr : Reached map h ps st) : LoopInv map ps st := by
  induction hr with
  | start => exact loopInv_start map
  | step _ hs ih => exact loopInv_step _ _ _ _ ih hs

theorem Reached.pos_le {map : Bytes} {h : Header} {ps : List Placement} {st : ScanState}
    (hr : Reached map h ps st) (hmap : 24 ≤ map.length) :
    24 + 16 * ps.length ≤ st.pos ∧ st.pos ≤ map.length := by
  induction hr with
  | start => exact ⟨le_rfl, hmap⟩
  | step hr hs ih =>
    have hpos := scanRecord_pos hs
    rw [List.length_append, List.length_singleton]
    omega

/-! ## The packets of a flow -/

/-- A placement's packet, when it was assigned to a flow. -/
def Placement.packet (i : Nat) (p : Placement) : Option (Record × ParsedPacket) :=
  if p.flow = some i then p.parsed.map fun q => (p.record, q) else none

/-- The packets scan assigned to a flow, in source order. -/
def packetsOf (ps : List Placement) (i : Nat) : List (Record × ParsedPacket) :=
  ps.filterMap (·.packet i)

theorem packetsOf_append (ps qs : List Placement) (i : Nat) :
    packetsOf (ps ++ qs) i = packetsOf ps i ++ packetsOf qs i :=
  List.filterMap_append

/-- A packet joins the list of its own flow. -/
theorem packetsOf_assigned (ps : List Placement) (r : Record) (q : ParsedPacket) (i j : Nat) :
    packetsOf (ps ++ [⟨r, some q, some i⟩]) j =
      packetsOf ps j ++ if i = j then [(r, q)] else [] := by
  rw [packetsOf_append]
  congr 1
  by_cases hij : i = j <;> simp [packetsOf, Placement.packet, hij]

/-- A record without a flow joins none. -/
theorem packetsOf_unassigned (ps : List Placement) (r : Record) (q : Option ParsedPacket) (j : Nat) :
    packetsOf (ps ++ [⟨r, q, none⟩]) j = packetsOf ps j := by
  simp [packetsOf, Placement.packet]

/-! ## The counters of a flow -/

/-- A flow without what depends on the rest of the capture. -/
def Flow.bare (f : Flow) : Flow :=
  { f with id := 0, generation := 0, firstFrame := 0, lastFrame := 0, firstRef := 0, lastRef := 0 }

/-- A flow after some packets, in order. -/
def Flow.accountAll (nanos : Bool) (f : Flow) (packets : List (Record × ParsedPacket)) : Flow :=
  packets.foldl (fun f a => f.account a.1 nanos a.2) f

@[simp] theorem Flow.bare_link (f : Flow) (idx : Nat) : (f.link idx).bare = f.bare := rfl

@[simp] theorem Flow.link_key (f : Flow) (idx : Nat) : (f.link idx).key = f.key := rfl

@[simp] theorem Flow.link_generation (f : Flow) (idx : Nat) :
    (f.link idx).generation = f.generation := rfl

@[simp] theorem Flow.link_clientIsLeft (f : Flow) (idx : Nat) :
    (f.link idx).clientIsLeft = f.clientIsLeft := rfl

@[simp] theorem Flow.link_firstFrame (f : Flow) (idx : Nat) :
    (f.link idx).firstFrame = f.firstFrame := rfl

@[simp] theorem Flow.link_lastFrame (f : Flow) (idx : Nat) :
    (f.link idx).lastFrame = f.lastFrame := rfl

@[simp] theorem Flow.opened_key (id generation frame : Nat) (key : FlowKey) (srcIsLeft : Bool) :
    (Flow.opened id generation key frame srcIsLeft).key = key := rfl

@[simp] theorem Flow.opened_generation (id generation frame : Nat) (key : FlowKey)
    (srcIsLeft : Bool) :
    (Flow.opened id generation key frame srcIsLeft).generation = generation := rfl

@[simp] theorem Flow.opened_clientIsLeft (id generation frame : Nat) (key : FlowKey)
    (srcIsLeft : Bool) : (Flow.opened id generation key frame srcIsLeft).clientIsLeft = srcIsLeft := rfl

@[simp] theorem Flow.opened_firstFrame (id generation frame : Nat) (key : FlowKey)
    (srcIsLeft : Bool) : (Flow.opened id generation key frame srcIsLeft).firstFrame = frame := rfl

@[simp] theorem Flow.bare_opened (id generation frame : Nat) (key : FlowKey) (srcIsLeft : Bool) :
    (Flow.opened id generation key frame srcIsLeft).bare = (Flow.opened 0 0 key 0 srcIsLeft).bare := rfl

/-- Accounting a packet looks at the bare part only. -/
theorem Flow.bare_account (f : Flow) (r : Record) (nanos : Bool) (p : ParsedPacket) :
    (f.account r nanos p).bare = (f.bare.account r nanos p).bare := by
  unfold Flow.account
  split <;> rfl

@[simp] theorem Flow.account_key (f : Flow) (r : Record) (nanos : Bool) (p : ParsedPacket) :
    (f.account r nanos p).key = f.key := by
  unfold Flow.account
  split <;> rfl

@[simp] theorem Flow.account_generation (f : Flow) (r : Record) (nanos : Bool) (p : ParsedPacket) :
    (f.account r nanos p).generation = f.generation := by
  unfold Flow.account
  split <;> rfl

@[simp] theorem Flow.account_clientIsLeft (f : Flow) (r : Record) (nanos : Bool)
    (p : ParsedPacket) : (f.account r nanos p).clientIsLeft = f.clientIsLeft := by
  unfold Flow.account
  split <;> rfl

@[simp] theorem Flow.account_firstFrame (f : Flow) (r : Record) (nanos : Bool) (p : ParsedPacket) :
    (f.account r nanos p).firstFrame = f.firstFrame := by
  unfold Flow.account
  split <;> rfl

@[simp] theorem Flow.account_lastFrame (f : Flow) (r : Record) (nanos : Bool) (p : ParsedPacket) :
    (f.account r nanos p).lastFrame = r.frame := by
  unfold Flow.account
  split <;> rfl

/-- A closed flow stays closed. -/
theorem Flow.account_closed {f : Flow} (h : f.closed = true) (r : Record) (nanos : Bool)
    (p : ParsedPacket) : (f.account r nanos p).closed = true := by
  unfold Flow.account
  split
  · exact h
  · show (f.closed || _) = true
    rw [h, Bool.true_or]

theorem Flow.accountAll_concat (nanos : Bool) (f : Flow) (packets : List (Record × ParsedPacket))
    (a : Record × ParsedPacket) :
    f.accountAll nanos (packets ++ [a]) = (f.accountAll nanos packets).account a.1 nanos a.2 := by
  rw [Flow.accountAll, List.foldl_append]
  rfl

/-- A flow is what its packets make it. -/
structure FlowOf (nanos : Bool) (packets : List (Record × ParsedPacket)) (f : Flow) : Prop where
  /-- The first packet has a TCP header, and gives the flow its key and its client. -/
  first : ∃ r q rest, packets = (r, q) :: rest ∧ q.nonInitialFragment = false ∧
    q.key = some f.key ∧ q.srcIsLeft = f.clientIsLeft ∧ r.frame = f.firstFrame
  last : ∃ a, packets.getLast? = some a ∧ a.1.frame = f.lastFrame
  /-- Every TCP header of the flow has the flow's key. -/
  keys : ∀ a ∈ packets, a.2.nonInitialFragment = false → a.2.key = some f.key
  counters : f.bare = ((Flow.opened 0 0 f.key 0 f.clientIsLeft).accountAll nanos packets).bare

/-- One more packet. -/
theorem FlowOf.account {nanos : Bool} {packets : List (Record × ParsedPacket)} {f : Flow}
    (hf : FlowOf nanos packets f) (r : Record) {q : ParsedPacket}
    (hq : q.nonInitialFragment = false → q.key = some f.key) (idx : Nat) :
    FlowOf nanos (packets ++ [(r, q)]) ((f.account r nanos q).link idx) where
  first := by
    obtain ⟨r', q', rest, hpackets, hfirst⟩ := hf.first
    exact ⟨r', q', rest ++ [(r, q)], by rw [hpackets, List.cons_append], by simpa using hfirst⟩
  last := ⟨(r, q), List.getLast?_concat, by simp⟩
  keys a ha hheader := by
    rw [Flow.link_key, Flow.account_key]
    rcases List.mem_append.mp ha with ha | ha
    · exact hf.keys a ha hheader
    · obtain rfl := List.mem_singleton.mp ha
      exact hq hheader
  counters := by
    rw [Flow.link_key, Flow.account_key, Flow.link_clientIsLeft, Flow.account_clientIsLeft,
      Flow.accountAll_concat, Flow.bare_link, Flow.bare_account, hf.counters, ← Flow.bare_account]

/-- The first packet. -/
theorem FlowOf.opened (nanos : Bool) (r : Record) {q : ParsedPacket} {key : FlowKey}
    (hheader : q.nonInitialFragment = false) (hkey : q.key = some key) (id generation idx : Nat) :
    FlowOf nanos [(r, q)]
      (((Flow.opened id generation key r.frame q.srcIsLeft).account r nanos q).link idx) where
  first := ⟨r, q, [], rfl, by simpa using ⟨hheader, hkey⟩⟩
  last := ⟨(r, q), rfl, by simp⟩
  keys a ha _ := by
    obtain rfl := List.mem_singleton.mp ha
    simpa using hkey
  counters := by
    rw [Flow.link_key, Flow.account_key, Flow.link_clientIsLeft, Flow.account_clientIsLeft,
      Flow.bare_link, Flow.bare_account, Flow.bare_opened, ← Flow.bare_account]
    rfl

/-! ## An iteration that assigns a packet -/

/-- The number of the generation that a key opens next. -/
def nextGeneration (st : ScanState) (key : FlowKey) : Nat :=
  match st.generations key with
  | some g => g + 1
  | none => 0

/-- How a packet enters a flow: `f` is the flow before the packet is accounted. -/
inductive Enters (st : ScanState) (r : Record) (q : ParsedPacket) (i : Nat) (f : Flow)
    (st' : ScanState) : Prop
  | opens (key : FlowKey) : q.nonInitialFragment = false → q.key = some key →
      (st.active key = none ∨ ∃ j g, st.active key = some j ∧ st.flows[j]? = some g ∧
        g.closed = true ∧ q.syn = true ∧ q.ack = false) →
      i = st.flows.length → f = .opened i (nextGeneration st key) key r.frame q.srcIsLeft →
      st'.active = KeyMap.insert st.active key i →
      st'.generations = KeyMap.insert st.generations key (nextGeneration st key) →
      Enters st r q i f st'
  | joins (key : FlowKey) : q.nonInitialFragment = false → q.key = some key →
      st.active key = some i → st.flows[i]? = some f →
      (q.syn = true → q.ack = false → f.closed = false) →
      st'.active = st.active → st'.generations = st.generations → Enters st r q i f st'
  | follows (fk : FragmentKey) : q.nonInitialFragment = true → q.fragment = some fk →
      st.fragments fk = some i → st.flows[i]? = some f →
      st'.active = st.active → st'.generations = st.generations → Enters st r q i f st'

/-- An iteration that assigns a packet to a flow: everything it does to the flows and the tables. -/
structure Assigned (nanos : Bool) (st : ScanState) (r : Record) (q : ParsedPacket) (i : Nat)
    (st' : ScanState) : Prop where
  self : ∃ f, Enters st r q i f st' ∧
    st'.flows[i]? = some ((f.account r nanos q).link st.refCount)
  others : ∀ j, j ≠ i → st'.flows[j]? = st.flows[j]?
  fragments : st'.fragments =
    match q.fragment with
    | some fk => KeyMap.insert st.fragments fk i
    | none => st.fragments
  pos : st'.pos = st.pos + r.len
  frame : st'.frame = r.frame

theorem assigned_ok {nanos : Bool} {st mid st' : ScanState} {r : Record} {q : ParsedPacket} {i : Nat}
    (hreach : Reaches { st.advance r with tcpPackets := st.tcpPackets + 1 } q i mid)
    (happ : appendPacket nanos mid r q i = .ok st') : Assigned nanos st r q i st' := by
  obtain ⟨f, hf, rfl⟩ := appendPacket_ok happ
  have hi := (List.getElem?_eq_some_iff.mp hf).1
  cases hreach with
  | opens key hkey hheader hnew =>
    simp only [ScanState.openFlow, ScanState.advance] at hf hi ⊢
    rw [List.getElem?_concat_length] at hf
    cases hf
    refine ⟨⟨_, .opens key hheader hkey hnew rfl rfl rfl rfl, List.getElem?_set_self hi⟩, fun j hj => ?_,
      rfl, rfl, rfl⟩
    rw [List.getElem?_set_ne (Ne.symm hj)]
    rcases Nat.lt_or_ge j st.flows.length with hlt | hge
    · exact List.getElem?_append_left hlt
    · rw [List.getElem?_eq_none hge, List.getElem?_eq_none]
      simp only [List.length_append, List.length_singleton]
      omega
  | joins key _ hkey hheader hactive hopen =>
    exact ⟨⟨f, .joins key hheader hkey hactive hf (fun hsyn hack => hopen hsyn hack f hf) rfl rfl,
      List.getElem?_set_self hi⟩, fun j hj => List.getElem?_set_ne (Ne.symm hj), rfl, rfl, rfl⟩
  | follows fk _ hfragment hheader htable =>
    exact ⟨⟨f, .follows fk hheader hfragment htable hf rfl rfl, List.getElem?_set_self hi⟩,
      fun j hj => List.getElem?_set_ne (Ne.symm hj), rfl, rfl, rfl⟩

/-- A flow that a packet enters is new or was there. -/
theorem Enters.flow_cases {st st' : ScanState} {r : Record} {q : ParsedPacket} {i : Nat} {f : Flow}
    (h : Enters st r q i f st') :
    (i = st.flows.length ∧ ∃ key, q.nonInitialFragment = false ∧ q.key = some key ∧
        f = .opened i (nextGeneration st key) key r.frame q.srcIsLeft) ∨
      st.flows[i]? = some f := by
  cases h with
  | opens key hheader hkey _ hi hf => exact .inl ⟨hi, key, hheader, hkey, hf⟩
  | joins key _ _ _ hf => exact .inr hf
  | follows fk _ _ _ hf => exact .inr hf

theorem Assigned.length_eq {nanos : Bool} {st st' : ScanState} {r : Record} {q : ParsedPacket}
    {i : Nat} (h : Assigned nanos st r q i st') :
    st'.flows.length = max st.flows.length (i + 1) ∧ i ≤ st.flows.length := by
  obtain ⟨f, henters, hself⟩ := h.self
  have hi := (List.getElem?_eq_some_iff.mp hself).1
  have hle : i ≤ st.flows.length := by
    rcases henters.flow_cases with ⟨hnew, -⟩ | hold
    · exact hnew.le
    · exact (List.getElem?_eq_some_iff.mp hold).1.le
  have hbelow : ∀ j, j ≠ i → (j < st'.flows.length ↔ j < st.flows.length) := by
    intro j hj
    rw [← not_iff_not, Nat.not_lt, Nat.not_lt, ← List.getElem?_eq_none_iff,
      ← List.getElem?_eq_none_iff, h.others j hj]
  refine ⟨?_, hle⟩
  have hup := hbelow st'.flows.length
  have hdown := hbelow st.flows.length
  have hnext := hbelow (st'.flows.length - 1)
  omega

/-- A fragment key names what it named, or the flow of the packet. -/
theorem Assigned.fragments_eq_some {nanos : Bool} {st st' : ScanState} {r : Record} {q : ParsedPacket}
    {i : Nat} (h : Assigned nanos st r q i st') {fk : FragmentKey} {j : Nat}
    (hj : st'.fragments fk = some j) : j = i ∨ st.fragments fk = some j := by
  rw [h.fragments] at hj
  cases hfragment : q.fragment with
  | none =>
    rw [hfragment] at hj
    exact .inr hj
  | some fk' =>
    rw [hfragment] at hj
    simp only [KeyMap.insert] at hj
    split at hj
    · exact .inl (Option.some.inj hj).symm
    · exact .inr hj

/-! ## The tables -/

/-- What the tables say of the flows, and what every flow is made of. -/
structure TablesInv (nanos : Bool) (ps : List Placement) (st : ScanState) : Prop where
  flows : ∀ i f, st.flows[i]? = some f → FlowOf nanos (packetsOf ps i) f
  beyond : ∀ i, st.flows.length ≤ i → packetsOf ps i = []
  fragments : ∀ fk i, st.fragments fk = some i → i < st.flows.length
  active : ∀ key i, st.active key = some i → ∃ f, st.flows[i]? = some f ∧ f.key = key
  /-- The active flow of a key is its last, and the earlier ones are closed. -/
  latest : ∀ i f, st.flows[i]? = some f →
    ∃ j, st.active f.key = some j ∧ i ≤ j ∧ (i < j → f.closed = true)

theorem tablesInv_start (nanos : Bool) : TablesInv nanos [] .start where
  flows _ _ h := by cases h
  beyond _ _ := rfl
  fragments _ _ h := by cases h
  active _ _ h := by cases h
  latest _ _ h := by cases h

section

variable {nanos : Bool} {ps : List Placement} {st st' : ScanState} {r : Record} {q : ParsedPacket}
  {i : Nat}

/-- A flow that a packet joins has the packet's key, when the packet has one. -/
theorem TablesInv.key_of_enters (hinv : TablesInv nanos ps st) {f : Flow}
    (h : Enters st r q i f st') (hheader : q.nonInitialFragment = false) : q.key = some f.key := by
  cases h with
  | opens key _ hkey _ _ hf => rw [hf, hkey, Flow.opened_key]
  | joins key _ hkey hactive hf =>
    obtain ⟨g, hg, hgkey⟩ := hinv.active key i hactive
    rw [hf] at hg
    rw [hkey, ← hgkey, Option.some.inj hg]
  | follows fk hfragment =>
    rw [hheader] at hfragment
    cases hfragment

/-- The flow of the packet has one packet more, and the others have what they had. -/
theorem TablesInv.flows_assigned (hinv : TablesInv nanos ps st) (h : Assigned nanos st r q i st')
    {j : Nat} {g : Flow} (hg : st'.flows[j]? = some g) :
    FlowOf nanos (packetsOf (ps ++ [⟨r, some q, some i⟩]) j) g := by
  obtain ⟨f, henters, hself⟩ := h.self
  have hkey := hinv.key_of_enters henters
  by_cases hij : j = i
  · subst hij
    rw [hself] at hg
    cases hg
    rw [packetsOf_assigned, if_pos rfl]
    rcases henters.flow_cases with ⟨rfl, key, hheader, hqkey, rfl⟩ | hold
    · rw [hinv.beyond _ le_rfl, List.nil_append]
      exact .opened nanos r hheader hqkey _ _ _
    · exact (hinv.flows j f hold).account r hkey _
  · rw [h.others j hij] at hg
    rw [packetsOf_assigned, if_neg (Ne.symm hij), List.append_nil]
    exact hinv.flows j g hg

theorem TablesInv.fragments_assigned (hinv : TablesInv nanos ps st) (h : Assigned nanos st r q i st')
    {fk : FragmentKey} {j : Nat} (hj : st'.fragments fk = some j) : j < st'.flows.length := by
  obtain ⟨hlength, hle⟩ := h.length_eq
  rcases h.fragments_eq_some hj with rfl | hold
  · omega
  · have hlt := hinv.fragments fk j hold
    omega

theorem TablesInv.active_assigned (hinv : TablesInv nanos ps st) (h : Assigned nanos st r q i st')
    {key : FlowKey} {j : Nat} (hj : st'.active key = some j) :
    ∃ g, st'.flows[j]? = some g ∧ g.key = key := by
  obtain ⟨f, henters, hself⟩ := h.self
  have hold : ∀ {key' j'}, st.active key' = some j' →
      ∃ g, st'.flows[j']? = some g ∧ g.key = key' := fun {key' j'} h' => by
    obtain ⟨g, hg, hgkey⟩ := hinv.active key' j' h'
    by_cases hij : j' = i
    · subst hij
      rcases henters.flow_cases with ⟨hnew, -⟩ | hthere
      · have := (List.getElem?_eq_some_iff.mp hg).1
        omega
      · rw [hthere] at hg
        cases hg
        exact ⟨_, hself, by simpa using hgkey⟩
    · exact ⟨g, by rw [h.others j' hij, hg], hgkey⟩
  cases henters with
  | opens key' _ _ _ _ hf hactive =>
    rw [hactive] at hj
    simp only [KeyMap.insert] at hj
    split at hj
    · next heq =>
      cases hj
      exact ⟨_, hself, by simp [hf, heq]⟩
    · exact hold hj
  | joins _ _ _ _ _ _ hactive | follows _ _ _ _ _ hactive => exact hold (hactive ▸ hj)

/-- A flow is opened over none or over a closed one, which is then an earlier flow of its key. -/
theorem TablesInv.latest_assigned (hinv : TablesInv nanos ps st) (h : Assigned nanos st r q i st')
    {j : Nat} {g : Flow} (hg : st'.flows[j]? = some g) :
    ∃ l, st'.active g.key = some l ∧ j ≤ l ∧ (j < l → g.closed = true) := by
  obtain ⟨f, henters, hself⟩ := h.self
  cases henters with
  | opens key' _ _ hopen hi hf hactive =>
    by_cases hij : j = i
    · subst hij
      rw [hself] at hg
      cases hg
      exact ⟨j, by simp [hactive, hf, KeyMap.insert], le_rfl, fun h => absurd h (lt_irrefl _)⟩
    · rw [h.others j hij] at hg
      obtain ⟨k, hk, hjk, hclosed⟩ := hinv.latest j g hg
      by_cases hsame : g.key = key'
      · refine ⟨i, by simp [hactive, hsame, KeyMap.insert], ?_, fun _ => ?_⟩
        · have := (List.getElem?_eq_some_iff.mp hg).1
          omega
        · rcases lt_or_eq_of_le hjk with hlt | rfl
          · exact hclosed hlt
          · rw [hsame] at hk
            rcases hopen with hnone | ⟨l, g', hl, hg', hclosed', -⟩
            · rw [hnone] at hk
              cases hk
            · rw [hl] at hk
              cases hk
              rw [hg'] at hg
              cases hg
              exact hclosed'
      · exact ⟨k, by rw [hactive, KeyMap.insert, if_neg hsame, hk], hjk, hclosed⟩
  | joins _ _ _ _ hf _ hactive | follows _ _ _ _ hf hactive =>
    rw [hactive]
    by_cases hij : j = i
    · subst hij
      rw [hself] at hg
      cases hg
      obtain ⟨k, hk, hjk, hclosed⟩ := hinv.latest j f hf
      exact ⟨k, by simpa using hk, hjk, fun hlt =>
        Flow.account_closed (hclosed hlt) r nanos q⟩
    · rw [h.others j hij] at hg
      exact hinv.latest j g hg

theorem TablesInv.assigned (hinv : TablesInv nanos ps st) (h : Assigned nanos st r q i st') :
    TablesInv nanos (ps ++ [⟨r, some q, some i⟩]) st' where
  flows _ _ hg := hinv.flows_assigned h hg
  beyond j hj := by
    obtain ⟨hlength, hle⟩ := h.length_eq
    rw [packetsOf_assigned, if_neg (by omega), List.append_nil]
    exact hinv.beyond j (by omega)
  fragments _ _ hj := hinv.fragments_assigned h hj
  active _ _ hj := hinv.active_assigned h hj
  latest _ _ hg := hinv.latest_assigned h hg

end

/-- What an iteration does, as far as flows go: it assigns a packet, or leaves flows and tables alone. -/
theorem step_cases {h : Header} {st st' : ScanState} {r : Record} {p : Placement}
    (hstep : Step h st r p st') :
    (∃ q i, p = ⟨r, some q, some i⟩ ∧ Assigned h.nanos st r q i st') ∨
      (∃ q, p = ⟨r, q, none⟩) ∧ st'.flows = st.flows ∧ st'.active = st.active ∧
        st'.generations = st.generations ∧ st'.fragments = st.fragments ∧
        st'.pos = st.pos + r.len ∧ st'.frame = r.frame := by
  cases hstep with
  | skipped => exact .inr ⟨⟨none, rfl⟩, rfl, rfl, rfl, rfl, rfl, rfl⟩
  | orphaned q => exact .inr ⟨⟨some q, rfl⟩, rfl, rfl, rfl, rfl, rfl, rfl⟩
  | assigned q i mid _ hreach happ => exact .inl ⟨q, i, rfl, assigned_ok hreach happ⟩

theorem Reached.tablesInv {map : Bytes} {h : Header} {ps : List Placement} {st : ScanState}
    (hr : Reached map h ps st) : TablesInv h.nanos ps st := by
  induction hr with
  | start => exact tablesInv_start _
  | step _ hs ih =>
    obtain ⟨_, -, -, hstep⟩ := scanRecord_ok hs
    rcases step_cases hstep with ⟨q, i, hp, hassigned⟩ | ⟨⟨q, hp⟩, hflows, hactive, -, hfragments, -⟩
    · rw [hp]
      exact ih.assigned hassigned
    · rw [hp]
      refine ⟨?_, ?_, ?_, ?_, ?_⟩
      · simpa only [packetsOf_unassigned, hflows] using ih.flows
      · simpa only [packetsOf_unassigned, hflows] using ih.beyond
      · simpa only [hfragments, hflows] using ih.fragments
      · simpa only [hactive, hflows] using ih.active
      · simpa only [hactive, hflows] using ih.latest

end PacketTrain.Indexer
