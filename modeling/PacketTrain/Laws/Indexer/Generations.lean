import Mathlib.Tactic.IntervalCases
import PacketTrain.Laws.Indexer.Flows
import PacketTrain.Laws.Indexer.RoundTrip
import PacketTrain.Lib.Ordered

/-!
# Generations of a key

A tuple can carry several connections, one after the other, and scan keeps a flow for each. This file
says how it tells them apart, in every state of the record loop (`SeparatesGenerations`): a key's flows
are numbered in order, a new one starts with a SYN when the one before is closed, and no TCP header
reaches a flow of the key but its last. `Tallied` says what the counters of a flow count.
-/

namespace PacketTrain.Indexer

/-- A connection request: a TCP header with SYN and without ACK. -/
def ParsedPacket.Opens (q : ParsedPacket) : Prop :=
  q.nonInitialFragment = false ∧ q.syn = true ∧ q.ack = false

/-- The packets with a TCP header. -/
def headers (packets : List (Record × ParsedPacket)) : List (Record × ParsedPacket) :=
  packets.filter fun a => a.2.nonInitialFragment = false

/-- Some packet has a FIN of one side. -/
def HasFin (left : Bool) (packets : List (Record × ParsedPacket)) : Prop :=
  ∃ a ∈ headers packets, a.2.fin = true ∧ a.2.srcIsLeft = left

/-- A connection ends with an RST, or with a FIN from both sides. -/
def Ended (packets : List (Record × ParsedPacket)) : Prop :=
  (∃ a ∈ headers packets, a.2.rst = true) ∨ HasFin true packets ∧ HasFin false packets

/-- The payload that one side sent. -/
def payloadBy (left : Bool) (packets : List (Record × ParsedPacket)) : Nat :=
  (((headers packets).filter fun a => a.2.srcIsLeft = left).map fun a => a.2.payload).sum

/-- What the counters of a flow count. -/
structure Tallied (packets : List (Record × ParsedPacket)) (f : Flow) : Prop where
  count : f.packets = packets.length
  captured : f.capturedBytes = (packets.map fun a => a.1.incl).sum
  payload : f.payloadBytes = ((headers packets).map fun a => a.2.payload).sum
  left : f.leftPayloadBytes = payloadBy true packets
  right : f.rightPayloadBytes = payloadBy false packets
  rst : f.rstSeen = true ↔ ∃ a ∈ headers packets, a.2.rst = true
  leftFin : f.finMask % 2 = 1 ↔ HasFin true packets
  rightFin : f.finMask / 2 = 1 ↔ HasFin false packets
  mask : f.finMask < 4
  closed : f.closed = (f.rstSeen || f.finMask = 3)

/-! ## Counting -/

theorem headers_concat (packets : List (Record × ParsedPacket)) (a : Record × ParsedPacket) :
    headers (packets ++ [a]) =
      headers packets ++ if a.2.nonInitialFragment = false then [a] else [] := by
  rw [headers, List.filter_append]
  congr 1
  by_cases h : a.2.nonInitialFragment = false <;> simp [h]

theorem hasFin_concat (left : Bool) (packets : List (Record × ParsedPacket))
    (a : Record × ParsedPacket) : HasFin left (packets ++ [a]) ↔ HasFin left packets ∨
      a.2.nonInitialFragment = false ∧ a.2.fin = true ∧ a.2.srcIsLeft = left := by
  rw [HasFin, headers_concat]
  by_cases h : a.2.nonInitialFragment = false
  · simp [h, HasFin, or_and_right, exists_or]
  · simp [h, HasFin]

theorem payloadBy_concat (left : Bool) (packets : List (Record × ParsedPacket))
    (a : Record × ParsedPacket) : payloadBy left (packets ++ [a]) = payloadBy left packets +
      if a.2.nonInitialFragment = false ∧ a.2.srcIsLeft = left then a.2.payload else 0 := by
  rw [payloadBy, headers_concat]
  by_cases h : a.2.nonInitialFragment = false
  · by_cases hleft : a.2.srcIsLeft = left <;> simp [h, hleft, payloadBy]
  · simp [h, payloadBy]

theorem tallied_opened (key : FlowKey) (srcIsLeft : Bool) :
    Tallied [] (Flow.opened 0 0 key 0 srcIsLeft) where
  count := rfl
  captured := rfl
  payload := rfl
  left := rfl
  right := rfl
  rst := by simp [Flow.opened, headers]
  leftFin := by simp [Flow.opened, HasFin, headers]
  rightFin := by simp [Flow.opened, HasFin, headers]
  mask := by simp [Flow.opened]
  closed := rfl

/-- The FIN bit of one side, set. -/
theorem finMask_or (mask : Nat) (left : Bool) (h : mask < 4) :
    (mask ||| if left then 1 else 2) < 4 ∧
      ((mask ||| if left then 1 else 2) % 2 = 1 ↔ mask % 2 = 1 ∨ left = true) ∧
      ((mask ||| if left then 1 else 2) / 2 = 1 ↔ mask / 2 = 1 ∨ left = false) := by
  interval_cases mask <;> cases left <;> decide

/-- A TCP header is counted once. -/
theorem Tallied.accountTcp {packets : List (Record × ParsedPacket)} {f : Flow} (h : Tallied packets f)
    (r : Record) (nanos : Bool) {q : ParsedPacket} (hheader : q.nonInitialFragment = false) :
    Tallied (packets ++ [(r, q)]) ((f.touch r nanos).accountTcp q) := by
  have hmore : headers (packets ++ [(r, q)]) = headers packets ++ [(r, q)] := by
    rw [headers_concat, if_pos hheader]
  have hleft := hasFin_concat true packets (r, q)
  have hright := hasFin_concat false packets (r, q)
  simp only [hheader, true_and] at hleft hright
  obtain ⟨hmask, hodd, hhigh⟩ := finMask_or f.finMask q.srcIsLeft h.mask
  refine ⟨?_, ?_, ?_, ?_, ?_, ?_, ?_, ?_, ?_, ?_⟩
  · simp [Flow.accountTcp, Flow.touch, h.count]
  · simp [Flow.accountTcp, Flow.touch, h.captured]
  · simp [hmore, Flow.accountTcp, Flow.touch, h.payload]
  · rw [payloadBy_concat, ← h.left]
    cases hside : q.srcIsLeft <;> simp [Flow.accountTcp, Flow.touch, hheader, hside]
  · rw [payloadBy_concat, ← h.right]
    cases hside : q.srcIsLeft <;> simp [Flow.accountTcp, Flow.touch, hheader, hside]
  · simp [hmore, Flow.accountTcp, Flow.touch, h.rst, or_and_right, exists_or]
  · rw [hleft, ← h.leftFin]
    by_cases hfin : q.fin = true
    · simpa [Flow.accountTcp, Flow.touch, hfin] using hodd
    · simp [Flow.accountTcp, Flow.touch, hfin]
  · rw [hright, ← h.rightFin]
    by_cases hfin : q.fin = true
    · simpa [Flow.accountTcp, Flow.touch, hfin] using hhigh
    · simp [Flow.accountTcp, Flow.touch, hfin]
  · by_cases hfin : q.fin = true
    · simpa [Flow.accountTcp, Flow.touch, hfin] using hmask
    · simpa [Flow.accountTcp, Flow.touch, hfin] using h.mask
  · -- the mask only grows, so a flow that its FINs closed stays closed
    have hclosed := h.closed
    have hstays : 3 ||| (if q.srcIsLeft then 1 else 2) = 3 := by cases q.srcIsLeft <;> rfl
    by_cases hfin : q.fin = true
    · by_cases h3 : f.finMask = 3
      · simp [Flow.accountTcp, Flow.touch, hfin, hclosed, h3, hstays]
      · simp only [Flow.accountTcp, Flow.touch, hfin, hclosed, h3, if_true, decide_false,
          Bool.or_false, Bool.or_assoc]
    · simp only [Flow.accountTcp, Flow.touch, hfin, hclosed]
      cases f.rstSeen <;> cases q.rst <;> simp

/-- One more packet is counted once. -/
theorem Tallied.account {packets : List (Record × ParsedPacket)} {f : Flow} (h : Tallied packets f)
    (r : Record) (nanos : Bool) (q : ParsedPacket) :
    Tallied (packets ++ [(r, q)]) (f.account r nanos q) := by
  unfold Flow.account
  split
  · next hfragment =>
    have hsame : headers (packets ++ [(r, q)]) = headers packets := by
      rw [headers_concat, if_neg (by simp [hfragment]), List.append_nil]
    refine ⟨?_, ?_, ?_, ?_, ?_, ?_, ?_, ?_, h.mask, h.closed⟩
    · simp [Flow.touch, h.count]
    · simp [Flow.touch, h.captured]
    · simpa [hsame, Flow.touch] using h.payload
    · simpa [payloadBy, hsame, Flow.touch] using h.left
    · simpa [payloadBy, hsame, Flow.touch] using h.right
    · simpa [hsame, Flow.touch] using h.rst
    · simpa [HasFin, hsame, Flow.touch] using h.leftFin
    · simpa [HasFin, hsame, Flow.touch] using h.rightFin
  · next hfragment => exact h.accountTcp r nanos (Bool.eq_false_of_not_eq_true hfragment)

/-- The counters of a flow count its packets. -/
theorem FlowOf.tallied {nanos : Bool} {packets : List (Record × ParsedPacket)} {f : Flow}
    (h : FlowOf nanos packets f) : Tallied packets f := by
  have hall : ∀ packets, Tallied packets
      ((Flow.opened 0 0 f.key 0 f.clientIsLeft).accountAll nanos packets) := by
    intro packets
    induction packets using List.reverseRecOn with
    | nil => exact tallied_opened _ _
    | append_singleton packets a ih =>
      rw [Flow.accountAll_concat]
      exact ih.account a.1 nanos a.2
  have hbare : Tallied packets f.bare := by
    have := hall packets
    rw [h.counters]
    exact ⟨this.count, this.captured, this.payload, this.left, this.right, this.rst, this.leftFin,
      this.rightFin, this.mask, this.closed⟩
  exact ⟨hbare.count, hbare.captured, hbare.payload, hbare.left, hbare.right, hbare.rst,
    hbare.leftFin, hbare.rightFin, hbare.mask, hbare.closed⟩

/-- A flow is closed when its connection has ended. -/
theorem Tallied.closed_iff {packets : List (Record × ParsedPacket)} {f : Flow}
    (h : Tallied packets f) : f.closed = true ↔ Ended packets := by
  have hmask := h.mask
  have hboth : f.finMask = 3 ↔ f.finMask % 2 = 1 ∧ f.finMask / 2 = 1 := by omega
  rw [h.closed, Bool.or_eq_true, decide_eq_true_eq, hboth, h.rst, h.leftFin, h.rightFin, Ended]

/-- Every payload byte was sent by one of the two sides. -/
theorem payloadBy_add (packets : List (Record × ParsedPacket)) :
    payloadBy true packets + payloadBy false packets =
      ((headers packets).map fun a => a.2.payload).sum := by
  unfold payloadBy
  induction headers packets with
  | nil => rfl
  | cons a rest ih =>
    cases hside : a.2.srcIsLeft <;> simp [hside, ← ih] <;> omega

/-! ## The keys of the flows -/

section

variable {nanos : Bool} {st st' : ScanState} {r : Record} {q : ParsedPacket} {i : Nat}

/-- What an iteration does to a flow's column that no packet changes. -/
theorem Assigned.map_flows {α : Type} (h : Assigned nanos st r q i st') (column : Flow → α)
    (hkeep : ∀ f idx, column ((f.account r nanos q).link idx) = column f) :
    ∃ f, Enters st r q i f st' ∧ st'.flows.map column =
      st.flows.map column ++ if i = st.flows.length then [column f] else [] := by
  obtain ⟨f, henters, hself⟩ := h.self
  obtain ⟨hlength, hle⟩ := h.length_eq
  refine ⟨f, henters, List.ext_getElem? fun j => ?_⟩
  rw [List.getElem?_map]
  by_cases hij : j = i
  · subst hij
    rw [hself, Option.map_some, hkeep]
    rcases Nat.lt_or_ge j st.flows.length with hlt | hge
    · rw [if_neg (by omega), List.append_nil, List.getElem?_map]
      rcases henters.flow_cases with ⟨hnew, -⟩ | hold
      · omega
      · rw [hold, Option.map_some]
    · have hj : j = st.flows.length := by omega
      rw [if_pos hj, List.getElem?_append_right (by rw [List.length_map]; omega), List.length_map,
        hj, Nat.sub_self]
      rfl
  · rw [h.others j hij, ← List.getElem?_map]
    rcases Nat.lt_or_ge j st.flows.length with hlt | hge
    · rw [List.getElem?_append_left (by rwa [List.length_map])]
    · rw [List.getElem?_eq_none (by rwa [List.length_map]), eq_comm, List.getElem?_eq_none_iff]
      split <;> simp <;> omega

end

/-- The key of every flow, in id order. -/
def flowKeys (st : ScanState) : List FlowKey := st.flows.map Flow.key

/-- What the loop keeps true of the generations. -/
structure GenerationsInv (ps : List Placement) (st : ScanState) : Prop where
  /-- A flow's generation counts the flows of its key before it. -/
  numbered : ∀ i f, st.flows[i]? = some f → f.generation = ((flowKeys st).take i).count f.key
  counter : ∀ key, nextGeneration st key = (flowKeys st).count key
  opened : ∀ i f, st.flows[i]? = some f → 0 < f.generation →
    ∃ a rest, packetsOf ps i = a :: rest ∧ a.2.Opens
  noLateSyn : ∀ i before a rest, packetsOf ps i = before ++ a :: rest → a.2.Opens → ¬ Ended before
  ordered : ∀ i j f g, st.flows[i]? = some f → st.flows[j]? = some g → f.key = g.key → i < j →
    ∀ a ∈ headers (packetsOf ps i), ∀ b ∈ packetsOf ps j, a.1.frame < b.1.frame

theorem generationsInv_start : GenerationsInv [] .start where
  numbered _ _ h := by cases h
  counter _ := rfl
  opened _ _ h := by cases h
  noLateSyn _ before a rest h := by simp [packetsOf] at h
  ordered _ _ _ _ h := by cases h

section

variable {nanos : Bool} {ps : List Placement} {st st' : ScanState} {r : Record} {q : ParsedPacket}
  {i : Nat}

/-- A flow that an iteration leaves has its key and generation from before, or was opened by it. -/
theorem Assigned.column_cases (h : Assigned nanos st r q i st') {j : Nat} {f' : Flow}
    (hf' : st'.flows[j]? = some f') :
    (∃ f, st.flows[j]? = some f ∧ f.key = f'.key ∧ f.generation = f'.generation) ∨
      j = st.flows.length ∧ j = i ∧ q.key = some f'.key ∧
        f'.generation = nextGeneration st f'.key := by
  obtain ⟨f, henters, hself⟩ := h.self
  by_cases hij : j = i
  · subst hij
    rw [hself] at hf'
    cases hf'
    rcases henters.flow_cases with ⟨hnew, key, -, hkey, rfl⟩ | hold
    · exact .inr ⟨hnew, rfl, by simpa using hkey, by simp⟩
    · exact .inl ⟨f, hold, by simp, by simp⟩
  · rw [h.others j hij] at hf'
    exact .inl ⟨f', hf', rfl, rfl⟩

theorem Assigned.flowKeys_eq (h : Assigned nanos st r q i st') :
    ∃ f, Enters st r q i f st' ∧
      flowKeys st' = flowKeys st ++ if i = st.flows.length then [f.key] else [] :=
  h.map_flows Flow.key fun f idx => by simp

/-- The generation of a flow that is opened is the number of its key's flows so far. -/
theorem GenerationsInv.numbered_assigned (hinv : GenerationsInv ps st)
    (h : Assigned nanos st r q i st') {j : Nat} {f' : Flow} (hf' : st'.flows[j]? = some f') :
    f'.generation = ((flowKeys st').take j).count f'.key := by
  obtain ⟨f, -, hkeys⟩ := h.flowKeys_eq
  have htake : j ≤ st.flows.length → (flowKeys st').take j = (flowKeys st).take j := fun hj => by
    rw [hkeys, List.take_append_of_le_length (by rwa [flowKeys, List.length_map])]
  rcases h.column_cases hf' with ⟨g, hg, hkey, hgeneration⟩ | ⟨hnew, -, -, hgeneration⟩
  · rw [htake (List.getElem?_eq_some_iff.mp hg).1.le, ← hkey, ← hgeneration]
    exact hinv.numbered j g hg
  · rw [htake hnew.le, hgeneration, hinv.counter,
      List.take_of_length_le (by rw [flowKeys, List.length_map, hnew])]

theorem GenerationsInv.counter_assigned (hinv : GenerationsInv ps st)
    (h : Assigned nanos st r q i st') (key : FlowKey) :
    nextGeneration st' key = (flowKeys st').count key := by
  obtain ⟨f, henters, hkeys⟩ := h.flowKeys_eq
  rw [hkeys, List.count_append, ← hinv.counter]
  cases henters with
  | opens key' _ _ _ hi hf _ hgenerations =>
    rw [if_pos hi, hf, Flow.opened_key, List.count_singleton, nextGeneration, hgenerations,
      KeyMap.insert]
    by_cases hkey : key = key'
    · simp [hkey]
    · simp [hkey, Ne.symm hkey, nextGeneration]
  | joins _ _ _ _ hf _ _ hgenerations | follows _ _ _ _ hf _ hgenerations =>
    have hi := (List.getElem?_eq_some_iff.mp hf).1
    rw [if_neg hi.ne, List.count_nil, Nat.add_zero, nextGeneration, nextGeneration, hgenerations]

/-- A flow opened after another of its key starts with a connection request. -/
theorem GenerationsInv.opened_assigned (hinv : GenerationsInv ps st) (htables : TablesInv nanos ps st)
    (h : Assigned nanos st r q i st') {j : Nat} {f' : Flow} (hf' : st'.flows[j]? = some f')
    (hlater : 0 < f'.generation) :
    ∃ a rest, packetsOf (ps ++ [⟨r, some q, some i⟩]) j = a :: rest ∧ a.2.Opens := by
  rw [packetsOf_assigned]
  rcases h.column_cases hf' with ⟨g, hg, hkey, hgeneration⟩ | ⟨hnew, rfl, hqkey, hgeneration⟩
  · obtain ⟨a, rest, hpackets, hopens⟩ := hinv.opened j g hg (by omega)
    exact ⟨a, rest ++ _, by rw [hpackets, List.cons_append], hopens⟩
  · refine ⟨(r, q), [], by rw [htables.beyond j hnew.ge, if_pos rfl, List.nil_append], ?_⟩
    -- the key has a flow already, so this packet opened its own by the second of the two reasons
    have hcount : 0 < (flowKeys st).count f'.key := by rw [← hinv.counter]; omega
    obtain ⟨g, hg, hgkey⟩ := List.mem_map.mp (List.count_pos_iff.mp hcount)
    obtain ⟨k, hk⟩ := List.mem_iff_getElem?.mp hg
    obtain ⟨l, hactive, -⟩ := htables.latest k g hk
    obtain ⟨f, henters, -⟩ := h.self
    cases henters with
    | opens key hheader hkey hopen =>
      rw [hkey, Option.some.injEq] at hqkey
      rcases hopen with hnone | ⟨m, f, -, -, -, hsyn, hack⟩
      · rw [hgkey, ← hqkey, hnone] at hactive
        cases hactive
      · exact ⟨hheader, hsyn, hack⟩
    | joins _ _ _ _ hf | follows _ _ _ _ hf =>
      have := (List.getElem?_eq_some_iff.mp hf).1
      omega

/-- A connection request does not join a flow that has ended. -/
theorem GenerationsInv.noLateSyn_assigned (hinv : GenerationsInv ps st)
    (htables : TablesInv nanos ps st) (h : Assigned nanos st r q i st') {j : Nat}
    {before rest : List (Record × ParsedPacket)} {a : Record × ParsedPacket}
    (hpackets : packetsOf (ps ++ [⟨r, some q, some i⟩]) j = before ++ a :: rest)
    (hopens : a.2.Opens) : ¬ Ended before := by
  rw [packetsOf_assigned] at hpackets
  by_cases hij : i = j
  · subst hij
    rw [if_pos rfl] at hpackets
    rcases List.eq_nil_or_concat rest with rfl | ⟨rest', x, rfl⟩
    · obtain ⟨hbefore, hlast⟩ := List.append_inj' hpackets rfl
      obtain rfl := List.singleton_inj.mp hlast
      obtain ⟨f, henters, -⟩ := h.self
      rw [← hbefore]
      cases henters with
      | opens _ _ _ _ hi =>
        rw [htables.beyond i hi.ge]
        simp [Ended, HasFin, headers]
      | joins _ _ _ _ hf hopen =>
        rw [← (htables.flows i f hf).tallied.closed_iff, hopen hopens.2.1 hopens.2.2]
        exact Bool.false_ne_true
      | follows _ hfragment => exact absurd (hopens.1.symm.trans hfragment) Bool.false_ne_true
    · rw [List.concat_eq_append, ← List.cons_append, ← List.append_assoc] at hpackets
      exact hinv.noLateSyn i before a rest' (List.append_inj' hpackets rfl).1 hopens
  · rw [if_neg hij, List.append_nil] at hpackets
    exact hinv.noLateSyn j before a rest hpackets hopens

/-- The packets of a flow are among the records read. -/
theorem frame_le_of_mem {map : Bytes} (hloop : LoopInv map ps st) {j : Nat}
    {a : Record × ParsedPacket} (ha : a ∈ packetsOf ps j) : a.1.frame ≤ st.frame := by
  obtain ⟨p, hp, hpacket⟩ := List.mem_filterMap.mp ha
  unfold Placement.packet at hpacket
  split at hpacket
  · obtain ⟨q, -, rfl⟩ := Option.map_eq_some_iff.mp hpacket
    exact hloop.frame_le p hp
  · cases hpacket

/-- A TCP header reaches no flow but the last of its key. -/
theorem GenerationsInv.ordered_assigned {map : Bytes} (hinv : GenerationsInv ps st)
    (htables : TablesInv nanos ps st) (hloop : LoopInv map ps st) (hframe : r.frame = st.frame + 1)
    (h : Assigned nanos st r q i st') {j k : Nat} {f g : Flow} (hf : st'.flows[j]? = some f)
    (hg : st'.flows[k]? = some g) (hkey : f.key = g.key) (hjk : j < k) :
    ∀ a ∈ headers (packetsOf (ps ++ [⟨r, some q, some i⟩]) j),
      ∀ b ∈ packetsOf (ps ++ [⟨r, some q, some i⟩]) k, a.1.frame < b.1.frame := by
  intro a ha b hb
  obtain ⟨ha, hheader⟩ := List.mem_filter.mp ha
  rw [packetsOf_assigned] at ha hb
  have hlength := h.length_eq
  have hk := (List.getElem?_eq_some_iff.mp hg).1
  obtain ⟨f₀, hf₀, hfkey, -⟩ : ∃ f₀, st.flows[j]? = some f₀ ∧ f₀.key = f.key ∧ _ := by
    rcases h.column_cases hf with hold | ⟨hnew, hij, -⟩
    · exact hold
    · omega
  rcases List.mem_append.mp ha with hold | hlast
  · rcases List.mem_append.mp hb with hb | hb
    · rcases h.column_cases hg with ⟨g₀, hg₀, hgkey, -⟩ | ⟨hnew, -⟩
      · exact hinv.ordered j k f₀ g₀ hf₀ hg₀ (by rw [hfkey, hgkey, hkey]) hjk a
          (List.mem_filter.mpr ⟨hold, hheader⟩) b hb
      · rw [htables.beyond k hnew.ge] at hb
        cases hb
    · have hle := frame_le_of_mem hloop hold
      split at hb
      · obtain rfl := List.mem_singleton.mp hb
        show a.1.frame < r.frame
        omega
      · cases hb
  · -- the header joined flow `j`, so `j` is the active flow of its key, and nothing comes after it
    split at hlast
    · next hij =>
      subst hij
      obtain rfl := List.mem_singleton.mp hlast
      obtain ⟨f₁, henters, -⟩ := h.self
      obtain ⟨g₀, hg₀, hgkey, -⟩ : ∃ g₀, st.flows[k]? = some g₀ ∧ g₀.key = g.key ∧ _ := by
        rcases h.column_cases hg with hold | ⟨-, hki, -⟩
        · exact hold
        · omega
      obtain ⟨l, hactive, hkl, -⟩ := htables.latest k g₀ hg₀
      cases henters with
      | opens _ _ _ _ hi => omega
      | joins key _ _ hjoined hf₁ =>
        obtain ⟨f₂, hf₂, hf₂key⟩ := htables.active key i hjoined
        rw [hf₀] at hf₂
        cases hf₂
        rw [hgkey, ← hkey, ← hfkey, hf₂key, hjoined] at hactive
        cases hactive
        omega
      | follows _ hfragment => simp [hfragment] at hheader
    · cases hlast

end

theorem Reached.generationsInv {map : Bytes} {h : Header} {ps : List Placement} {st : ScanState}
    (hr : Reached map h ps st) : GenerationsInv ps st := by
  induction hr with
  | start => exact generationsInv_start
  | step hr hs ih =>
    obtain ⟨_, hread, -, hstep⟩ := scanRecord_ok hs
    have htables := hr.tablesInv
    rcases step_cases hstep with ⟨q, i, hp, h⟩ | ⟨⟨q, hp⟩, hflows, -, hgenerations, -⟩
    · rw [hp]
      exact ⟨fun j f hf => ih.numbered_assigned h hf, ih.counter_assigned h,
        fun j f hf => ih.opened_assigned htables h hf,
        fun j before a rest => ih.noLateSyn_assigned htables h,
        fun j k f g hf hg => ih.ordered_assigned htables hr.loopInv hread.frame h hf hg⟩
    · rw [hp]
      refine ⟨?_, ?_, ?_, ?_, ?_⟩
      · simpa only [hflows, flowKeys] using ih.numbered
      · simpa only [hflows, flowKeys, nextGeneration, hgenerations] using ih.counter
      · simpa only [hflows, packetsOf_unassigned] using ih.opened
      · simpa only [packetsOf_unassigned] using ih.noLateSyn
      · simpa only [hflows, packetsOf_unassigned] using ih.ordered

/-! ## The law -/

/-- The flows of one key, in id order. -/
def flowsOf (st : ScanState) (key : FlowKey) : List Flow := st.flows.filter fun f => f.key = key

/-- The flows of a key separate the connections of its tuple, and every counter of theirs counts. -/
structure SeparatesGenerations (ps : List Placement) (st : ScanState) (key : FlowKey) : Prop where
  inIdOrder : ((flowsOf st key).map Flow.id).Pairwise (· < ·)
  numbered : (flowsOf st key).map Flow.generation = List.range (flowsOf st key).length
  active : st.active key = (flowsOf st key).getLast?.map Flow.id
  earlierClosed : ∀ f ∈ flowsOf st key, ∀ g ∈ flowsOf st key, f.generation < g.generation →
    f.closed = true
  /-- A later generation starts with a SYN without ACK. -/
  opened : ∀ f ∈ flowsOf st key, 1 ≤ f.generation →
    ∃ a rest, packetsOf ps f.id = a :: rest ∧ a.2.Opens
  /-- No SYN without ACK was added to a flow that had ended. -/
  noLateSyn : ∀ f ∈ flowsOf st key, ∀ before a rest, packetsOf ps f.id = before ++ a :: rest →
    a.2.Opens → ¬ Ended before
  /-- Every TCP header of a generation comes before every packet of a later one. -/
  ordered : ∀ f ∈ flowsOf st key, ∀ g ∈ flowsOf st key, f.generation < g.generation →
    ∀ a ∈ headers (packetsOf ps f.id), ∀ b ∈ packetsOf ps g.id, a.1.frame < b.1.frame
  closed_iff : ∀ f ∈ flowsOf st key, f.closed = true ↔ Ended (packetsOf ps f.id)
  tallied : ∀ f ∈ flowsOf st key, Tallied (packetsOf ps f.id) f ∧
    f.payloadBytes = f.leftPayloadBytes + f.rightPayloadBytes

section

variable {map : Bytes} {ps : List Placement} {st : ScanState} {key : FlowKey} {f g : Flow}

/-- A flow of a key stands at its id. -/
theorem getElem?_of_mem_flowsOf (hloop : LoopInv map ps st) (hf : f ∈ flowsOf st key) :
    st.flows[f.id]? = some f ∧ f.key = key := by
  obtain ⟨hmem, hkey⟩ := List.mem_filter.mp hf
  obtain ⟨i, hi⟩ := List.mem_iff_getElem?.mp hmem
  exact ⟨hloop.id_eq hi ▸ hi, by simpa using hkey⟩

theorem flowsOf_inIdOrder (hloop : LoopInv map ps st) (key : FlowKey) :
    ((flowsOf st key).map Flow.id).Pairwise (· < ·) := by
  have hids : st.flows.map Flow.id = List.range st.flows.length := by
    apply List.ext_getElem (by simp)
    intro i hi _
    rw [List.length_map] at hi
    rw [List.getElem_map, List.getElem_range]
    exact hloop.id_eq (List.getElem?_eq_getElem hi)
  refine List.Pairwise.sublist (List.Sublist.map Flow.id List.filter_sublist) ?_
  rw [hids]
  exact List.pairwise_lt_range

/-- Generations count up with ids. -/
theorem GenerationsInv.id_lt (hinv : GenerationsInv ps st) (hloop : LoopInv map ps st)
    (hf : f ∈ flowsOf st key) (hg : g ∈ flowsOf st key) (hlt : f.generation < g.generation) :
    f.id < g.id := by
  obtain ⟨hf, hfkey⟩ := getElem?_of_mem_flowsOf hloop hf
  obtain ⟨hg, hgkey⟩ := getElem?_of_mem_flowsOf hloop hg
  by_contra hle
  have hcount := (List.take_sublist_take_left (l := flowKeys st) (Nat.le_of_not_lt hle)).count_le key
  rw [hinv.numbered _ f hf, hinv.numbered _ g hg, hfkey, hgkey] at hlt
  omega

/-- The active flow of a key is its last. -/
theorem active_eq_getLast {nanos : Bool} (htables : TablesInv nanos ps st)
    (hloop : LoopInv map ps st) (key : FlowKey) :
    st.active key = (flowsOf st key).getLast?.map Flow.id := by
  cases hlast : (flowsOf st key).getLast? with
  | none =>
    cases hactive : st.active key with
    | none => rfl
    | some i =>
      obtain ⟨f, hf, hkey⟩ := htables.active key i hactive
      have hmem : f ∈ flowsOf st key :=
        List.mem_filter.mpr ⟨List.mem_of_getElem? hf, by simpa using hkey⟩
      rw [List.getLast?_eq_none_iff.mp hlast] at hmem
      cases hmem
  | some g =>
    obtain ⟨init, hinit⟩ := List.getLast?_eq_some_iff.mp hlast
    obtain ⟨hg, hgkey⟩ := getElem?_of_mem_flowsOf hloop (List.mem_of_getLast? hlast)
    obtain ⟨i, hactive, hle, -⟩ := htables.latest g.id g hg
    obtain ⟨f, hf, hkey⟩ := htables.active _ i hactive
    rw [hgkey] at hactive hkey
    have hmem : f ∈ flowsOf st key :=
      List.mem_filter.mpr ⟨List.mem_of_getElem? hf, by simpa using hkey⟩
    have hid := hloop.id_eq hf
    have horder := flowsOf_inIdOrder hloop key
    rw [hinit, List.map_append, List.pairwise_append] at horder
    rw [hactive, Option.map_some, Option.some.injEq]
    rw [hinit] at hmem
    rcases List.mem_append.mp hmem with hf | hf
    · have := horder.2.2 f.id (List.mem_map_of_mem hf) g.id (by simp)
      omega
    · rw [← hid, List.mem_singleton.mp hf]

end

/-- GENERATIONS ARE SEPARATED: for every key, in every state the record loop reaches. -/
theorem generations_separated {map : Bytes} {h : Header} {ps : List Placement} {st : ScanState}
    (hr : Reached map h ps st) (key : FlowKey) : SeparatesGenerations ps st key := by
  have hloop := hr.loopInv
  have htables := hr.tablesInv
  have hinv := hr.generationsInv
  have hat : ∀ f ∈ flowsOf st key, st.flows[f.id]? = some f ∧ f.key = key :=
    fun f hf => getElem?_of_mem_flowsOf hloop hf
  have htallied : ∀ f ∈ flowsOf st key, Tallied (packetsOf ps f.id) f :=
    fun f hf => (htables.flows f.id f (hat f hf).1).tallied
  refine ⟨flowsOf_inIdOrder hloop key, map_filter_eq_range Flow.key Flow.generation key hinv.numbered,
    active_eq_getLast htables hloop key, fun f hf g hg hlt => ?_, fun f hf hlater => ?_,
    fun f _ before a rest => hinv.noLateSyn f.id before a rest, fun f hf g hg hlt => ?_,
    fun f hf => (htallied f hf).closed_iff, fun f hf => ⟨htallied f hf, ?_⟩⟩
  · obtain ⟨i, hactive, -, hclosed⟩ := htables.latest f.id f (hat f hf).1
    obtain ⟨j, hactive', hle, -⟩ := htables.latest g.id g (hat g hg).1
    rw [(hat f hf).2] at hactive
    rw [(hat g hg).2, hactive] at hactive'
    cases hactive'
    exact hclosed (lt_of_lt_of_le (hinv.id_lt hloop hf hg hlt) hle)
  · exact hinv.opened f.id f (hat f hf).1 hlater
  · exact hinv.ordered f.id g.id f g (hat f hf).1 (hat g hg).1 ((hat f hf).2.trans (hat g hg).2.symm)
      (hinv.id_lt hloop hf hg hlt)
  · rw [(htallied f hf).payload, (htallied f hf).left, (htallied f hf).right, payloadBy_add]

/-- A connection that is reset, and another of the same tuple, between segments of a third. -/
def reusedTuple : Bytes :=
  interleaved.bytes ++ segmentRecord 1 9 7 80 4 ++ segmentRecord 2 9 8 80 16 ++ segmentRecord 1 9 7 80 2

/-- The tuple of the reset connection. -/
def reusedKey : FlowKey :=
  ⟨4, ⟨addr4 [10, 0, 0, 1], 7⟩, ⟨addr4 [10, 0, 0, 9], 80⟩⟩

/-- The law at work: the tuple has a closed flow of three packets and an open one of one. -/
theorem generations_separated_reused : ∃ h ps st, Reached reusedTuple h ps st ∧
    (flowsOf st reusedKey).map (fun f => (f.id, f.generation, f.packets, f.closed)) =
      [(0, 0, 3, true), (2, 1, 1, false)] ∧ SeparatesGenerations ps st reusedKey := by
  have hrun : (scanRecords reusedTuple).map (fun out => (flowsOf out.2.2 reusedKey).map fun f =>
      (f.id, f.generation, f.packets, f.closed)) = .ok [(0, 0, 3, true), (2, 1, 1, false)] := by
    decide +kernel
  cases hs : scanRecords reusedTuple with
  | error e =>
    rw [hs] at hrun
    cases hrun
  | ok out =>
    obtain ⟨h, ps, st⟩ := out
    rw [hs] at hrun
    have hreached := reached_scanRecords hs
    exact ⟨h, ps, st, hreached, Except.ok.inj hrun, generations_separated hreached reusedKey⟩

end PacketTrain.Indexer
