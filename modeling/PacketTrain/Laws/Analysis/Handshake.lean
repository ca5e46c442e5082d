import Mathlib.Data.List.Find
import PacketTrain.Analysis.Handshake
import PacketTrain.Laws.Analysis.Detail

/-!
# The handshake and the round-trip time

The response takes the longer leg of the handshake for the round-trip time when it knows the capture
side, and the median ACK round-trip time otherwise. `stream_detail` takes the leg of the side, whichever
is longer and whether or not both were captured: `rtt_rule_iff`. The legs are those of the first segments
with the right flags, in time order: `oneHandshake_iff` says when these are of one attempt.
-/

namespace PacketTrain.Analysis

/-! ## The groups of a stream -/

/-- `group`, the packets of the response. -/
def responsePackets (packets : List Packet) (stream : ℕ) : List FlowPacket :=
  (accountingInput packets stream).map FlowPacket.dropTs

/-- The first TTL of a direction. -/
def firstTtl (group : List FlowPacket) (direction : Direction) : Option ℕ :=
  (group.find? fun p => p.direction = direction ∧ p.ttl ≠ 0).map (·.ttl)

/-- The client sends what goes out. -/
theorem direction_responsePackets {packets : List Packet} {stream : ℕ} {first : Packet}
    {rest : List Packet} (hstream : streamPackets packets stream = first :: rest) {p : FlowPacket}
    (hp : p ∈ responsePackets packets stream) :
    (p.src, p.sport) = ((summaryOf first rest).client, (summaryOf first rest).clientPort) ↔
      p.direction = .out := by
  rw [responsePackets, accountingInput, hstream] at hp
  obtain ⟨q, hq, rfl⟩ := List.mem_map.mp hp
  obtain ⟨r, -, rfl⟩ := List.mem_map.mp hq
  simp only [FlowPacket.dropTs, flowPacket]
  split
  · next heq => exact iff_of_true heq rfl
  · next hne => exact iff_of_false hne Direction.noConfusion

/-- The TTLs of the two endpoints are those of the two directions. -/
theorem ttls_responsePackets {packets : List Packet} {stream : ℕ} {first : Packet} {rest : List Packet}
    (hstream : streamPackets packets stream = first :: rest) :
    let client := ((summaryOf first rest).client, (summaryOf first rest).clientPort)
    clientTtl (responsePackets packets stream) client = firstTtl (responsePackets packets stream) .out ∧
      serverTtl (responsePackets packets stream) client =
        firstTtl (responsePackets packets stream) .in_ := by
  constructor
  · rw [clientTtl, firstTtl]
    congr 1
    apply List.find?_congr
    intro p hp
    rw [decide_eq_decide, direction_responsePackets hstream hp]
  · rw [serverTtl, firstTtl]
    congr 1
    apply List.find?_congr
    intro p hp
    rw [decide_eq_decide, ne_eq, direction_responsePackets hstream hp]
    cases p.direction <;> simp

/-! ## The round-trip time -/

/-- The element in the middle of the sorted list, the upper one of two. -/
def upperMedian (samples : List ℚ) : Option ℚ := (sortOn id samples)[samples.length / 2]?

/-- The ACK round-trip times above zero and below a minute. -/
def ackSamples (group : List FlowPacket) : List ℚ :=
  (group.map (·.ackRttMs)).filter fun sample => 0 < sample ∧ sample < 60000

theorem ackRtts_eq (group : List FlowPacket) : ackRtts group = sortOn id (ackSamples group) := rfl

/-- The longer leg when the side is known and both legs were captured, or else the median. -/
def documentedRtt (side : Option Side) (legs : Legs) (samples : List ℚ) : Option ℚ :=
  match side, legs.both with
  | some _, some (leg1, leg2) => some (max leg1 leg2)
  | _, _ => upperMedian samples

/-- The response of a stream, if there is one, has the documented round-trip time. -/
def RttRule (packets : List Packet) (stream : ℕ) : Prop :=
  ∀ detail, streamHandshake packets stream = some detail →
    let group := responsePackets packets stream
    detail.rttMs =
      (documentedRtt detail.captureSide (handshakeLegs group) (ackSamples group)).map (roundTo 2)

def Legs.of (legs : Legs) : Side → Option ℚ
  | .client => legs.leg1
  | .server => legs.leg2

/-- When both legs were captured, the leg of the side is the longer one; when a leg is missing, that of
the side is missing or not as the median is, and equal to it. All to a hundredth of a millisecond. -/
def LegsAgree (legs : Legs) (samples : List ℚ) (side : Side) : Prop :=
  (∀ leg1 leg2, legs.leg1 = some leg1 → legs.leg2 = some leg2 →
    (legs.of side).map (roundTo 2) = some (roundTo 2 (max leg1 leg2))) ∧
  (legs.leg1 = none ∨ legs.leg2 = none →
    (legs.of side).map (roundTo 2) = (upperMedian samples).map (roundTo 2))

/-- When the TTLs say which endpoint is nearer, the legs agree with them. -/
def TtlAgrees (packets : List Packet) (stream : ℕ) : Prop :=
  let group := responsePackets packets stream
  ∀ side, ttlSide (firstTtl group .out) (firstTtl group .in_) = some side →
    LegsAgree (handshakeLegs group) (ackSamples group) side

theorem both_eq (legs : Legs) :
    (∃ leg1 leg2, legs.leg1 = some leg1 ∧ legs.leg2 = some leg2 ∧ legs.both = some (leg1, leg2)) ∨
      (legs.leg1 = none ∨ legs.leg2 = none) ∧ legs.both = none := by
  cases h1 : legs.leg1 with
  | none => exact .inr ⟨.inl rfl, by rw [Legs.both, h1]; rfl⟩
  | some leg1 =>
    cases h2 : legs.leg2 with
    | none => exact .inr ⟨.inr rfl, by rw [Legs.both, h1, h2]; rfl⟩
    | some leg2 => exact .inl ⟨leg1, leg2, rfl, rfl, by rw [Legs.both, h1, h2]; rfl⟩

/-- An interval that tells the side is the longer one. -/
theorem leg_of_intervalSide {legs : Legs} {side : Side} (h : intervalSide legs = some side) :
    ∃ leg1 leg2, legs.both = some (leg1, leg2) ∧ legs.of side = some (max leg1 leg2) := by
  rw [intervalSide] at h
  rcases both_eq legs with ⟨leg1, leg2, h1, h2, hboth⟩ | ⟨-, hboth⟩
  · refine ⟨leg1, leg2, hboth, ?_⟩
    rw [hboth] at h
    simp only at h
    split at h
    · cases h
    · next hneg =>
      have hboth : 0 ≤ leg1 ∧ 0 ≤ leg2 := le_min_iff.mp (not_lt.mp hneg)
      have hmax1 := le_max_left leg1 (1 / 1000 : ℚ)
      have hmax2 := le_max_left leg2 (1 / 1000 : ℚ)
      split at h
      · next hclient =>
        obtain rfl := Option.some.inj h
        rw [Legs.of, h1, max_eq_left (by linarith)]
      · split at h
        · next hserver =>
          obtain rfl := Option.some.inj h
          rw [Legs.of, h2, max_eq_right (by linarith)]
        · cases h
  · rw [hboth] at h
    cases h

theorem side_positionEvidence (packets : List FlowPacket) (client : String × ℕ) (legs : Legs) :
    (positionEvidence packets client legs).side =
      (ttlSide (clientTtl packets client) (serverTtl packets client)).or (intervalSide legs) := by
  simp only [positionEvidence]
  cases ttlSide (clientTtl packets client) (serverTtl packets client) with
  | none => cases intervalSide legs <;> rfl
  | some side =>
    cases intervalSide legs with
    | none => rfl
    | some timing =>
      simp only
      split <;> rfl

theorem rttOf_eq (side : Option Side) (legs : Legs) (samples : List ℚ) :
    (rttOf side legs (sortOn id samples)).1 =
      match side with
      | some side => legs.of side
      | none => upperMedian samples := by
  have hlength := (perm_sortOn id samples).length_eq
  cases side with
  | none =>
    rw [rttOf, upperMedian, hlength]
    cases (sortOn id samples)[samples.length / 2]? <;> rfl
  | some side => cases side <;> rfl

/-- The leg of a side that the TTLs tell is the documented time when it agrees with the legs; the leg of
a side that only the intervals tell always is. -/
theorem rtt_eq_iff (ttl : Option Side) (legs : Legs) (samples : List ℚ) :
    (rttOf (ttl.or (intervalSide legs)) legs (sortOn id samples)).1.map (roundTo 2) =
        (documentedRtt (ttl.or (intervalSide legs)) legs samples).map (roundTo 2) ↔
      ∀ side, ttl = some side → LegsAgree legs samples side := by
  rw [rttOf_eq]
  cases ttl with
  | none =>
    rw [Option.none_or]
    apply iff_of_true
    · cases hside : intervalSide legs with
      | none => rfl
      | some side =>
        obtain ⟨leg1, leg2, hboth, hleg⟩ := leg_of_intervalSide hside
        simp only [documentedRtt, hboth, hleg]
    · intro side hside
      cases hside
  | some side =>
    rw [Option.some_or]
    rcases both_eq legs with ⟨leg1, leg2, h1, h2, hboth⟩ | ⟨hmissing, hboth⟩
    · simp only [documentedRtt, hboth]
      constructor
      · intro heq side' hside
        obtain rfl := Option.some.inj hside
        refine ⟨?_, ?_⟩
        · intro leg1' leg2' h1' h2'
          obtain rfl := Option.some.inj (h1.symm.trans h1')
          obtain rfl := Option.some.inj (h2.symm.trans h2')
          exact heq
        · intro hmissing
          rw [h1, h2] at hmissing
          rcases hmissing with h | h <;> cases h
      · intro hagree
        exact (hagree side rfl).1 leg1 leg2 h1 h2
    · simp only [documentedRtt, hboth]
      constructor
      · intro heq side' hside
        obtain rfl := Option.some.inj hside
        refine ⟨?_, fun _ => heq⟩
        intro leg1 leg2 h1 h2
        rcases hmissing with h | h
        · rw [h] at h1
          cases h1
        · rw [h] at h2
          cases h2
      · intro hagree
        exact (hagree side rfl).2 hmissing

theorem streamHandshake_eq {packets : List Packet} {stream : ℕ} {first : Packet} {rest : List Packet}
    (hstream : streamPackets packets stream = first :: rest) :
    streamHandshake packets stream = some (handshakeOf (responsePackets packets stream)
      ((summaryOf first rest).client, (summaryOf first rest).clientPort)) := by
  rw [streamHandshake, hstream]
  rfl

/-- A stream without packets has no response. -/
theorem handshake_of_nil {packets : List Packet} {stream : ℕ} (h : streamPackets packets stream = []) :
    streamHandshake packets stream = none ∧ responsePackets packets stream = [] := by
  unfold streamHandshake responsePackets accountingInput
  rw [h]
  exact ⟨rfl, rfl⟩

/-- The response has the documented round-trip time exactly when the TTLs, where they tell the side,
agree with the legs. -/
theorem rtt_rule_iff (packets : List Packet) (stream : ℕ) :
    RttRule packets stream ↔ TtlAgrees packets stream := by
  cases hstream : streamPackets packets stream with
  | nil =>
    obtain ⟨hdetail, hgroup⟩ := handshake_of_nil hstream
    apply iff_of_true
    · intro detail h
      rw [hdetail] at h
      cases h
    · intro side hside
      rw [hgroup] at hside
      cases hside
  | cons first rest =>
    have hdetail := streamHandshake_eq hstream
    obtain ⟨hout, hin⟩ := ttls_responsePackets hstream
    simp only [RttRule, hdetail, Option.some.injEq, forall_eq', handshakeOf, ackRtts_eq]
    rw [side_positionEvidence, hout, hin]
    exact rtt_eq_iff _ _ _

/-- A capture of the middle of a connection, near the client. The server's hops cannot be told. -/
def midConnection : List Packet :=
  [ { plainAck with ttl := 64, ts := 0 },
    { serverAck with ttl := 50, ackRttMs := 20, ts := 1 / 50 } ]

/-- The position is known, the round-trip time is not reported although there is a sample of it. -/
theorem midConnection_unreported : ¬RttRule midConnection 0 := by
  intro h
  have hreported : (streamHandshake midConnection 0).map (·.rttMs) = some none := by decide +kernel
  have hdocumented : ∀ side, documentedRtt side (handshakeLegs (responsePackets midConnection 0))
      (ackSamples (responsePackets midConnection 0)) = some 20 := by
    intro side
    rcases side with _ | _ | _ <;> decide +kernel
  obtain ⟨detail, hdetail, hnone⟩ := Option.map_eq_some_iff.mp hreported
  have hrule := h detail hdetail
  simp only [hnone, hdocumented] at hrule
  cases hrule

/-! ## One handshake -/

/-- The second segment acknowledges the SYN or the SYN-ACK before it, and nothing else. -/
def AcksOpening (p q : FlowPacket) : Prop := p.ack % 2 ^ 32 = (q.seq + 1) % 2 ^ 32

instance (p q : FlowPacket) : Decidable (AcksOpening p q) := inferInstanceAs (Decidable (_ = _))

/-- The three packets of one attempt. -/
structure SameAttempt (syn synack third : FlowPacket) : Prop where
  answers : AcksOpening synack syn
  completes : AcksOpening third synack

/-- When a response reports the legs of the handshake, the three packets are of one attempt. -/
def OneHandshake (packets : List Packet) (stream : ℕ) : Prop :=
  ∀ detail legs, streamHandshake packets stream = some detail → detail.handshakeLegsMs = some legs →
    let group := responsePackets packets stream
    ∃ syn synack third, synOf group = some syn ∧ synackOf group (some syn) = some synack ∧
      thirdOf group (some synack) = some third ∧
      legs = (roundTo 3 (synack.timeMs - syn.timeMs), roundTo 3 (third.timeMs - synack.timeMs)) ∧
      SameAttempt syn synack third

/-- A SYN of the client. -/
def IsSyn (p : FlowPacket) : Prop := p.syn = true ∧ p.ackFlag = false ∧ p.direction = .out

/-- A SYN-ACK of the server, later than a SYN. -/
def AnswersSyn (syn p : FlowPacket) : Prop :=
  p.syn = true ∧ p.ackFlag = true ∧ p.direction = .in_ ∧ syn.timeMs < p.timeMs

/-- An ACK of the client, later than a SYN-ACK. -/
def FollowsSynack (synack p : FlowPacket) : Prop :=
  p.ackFlag = true ∧ p.syn = false ∧ p.direction = .out ∧ synack.timeMs < p.timeMs

/-- The packet is the first of its kind. -/
def FirstOf (kind : FlowPacket → Prop) (group : List FlowPacket) (p : FlowPacket) : Prop :=
  kind p ∧ ∃ before after, group = before ++ p :: after ∧ ∀ q ∈ before, ¬kind q

/-- Every packet of the kind that is not good comes after one that is. -/
def GoodFirst (kind good : FlowPacket → Prop) (group : List FlowPacket) : Prop :=
  ∀ before p after, group = before ++ p :: after → kind p → ¬good p → ∃ q ∈ before, kind q ∧ good q

/-- After the first SYN of the client, no SYN-ACK that does not acknowledge it comes before all that do;
and after the first SYN-ACK no ACK of the client that does not acknowledge this one does, when there is
an ACK at all. -/
def UnmixedAttempts (group : List FlowPacket) : Prop :=
  ∀ syn synack third, FirstOf IsSyn group syn → FirstOf (AnswersSyn syn) group synack → third ∈ group →
    FollowsSynack synack third →
      GoodFirst (AnswersSyn syn) (AcksOpening · syn) group ∧
        GoodFirst (FollowsSynack synack) (AcksOpening · synack) group

theorem find?_eq_some_iff_firstOf {kind : FlowPacket → Prop} {test : FlowPacket → Bool}
    (htest : ∀ q, test q = true ↔ kind q) {group : List FlowPacket} {p : FlowPacket} :
    group.find? test = some p ↔ FirstOf kind group p := by
  rw [List.find?_eq_some_iff_append, FirstOf, htest]
  simp only [← htest, Bool.not_eq_true', Bool.not_eq_true]

theorem FirstOf.mem {kind : FlowPacket → Prop} {group : List FlowPacket} {p : FlowPacket}
    (h : FirstOf kind group p) : p ∈ group := by
  obtain ⟨-, before, after, rfl, -⟩ := h
  exact List.mem_append_right _ List.mem_cons_self

/-- Of a kind that a packet has there is a first packet. -/
theorem exists_firstOf {kind : FlowPacket → Prop} {group : List FlowPacket} {p : FlowPacket}
    (hp : p ∈ group) (hkind : kind p) : ∃ q, FirstOf kind group q := by
  classical
  have htest : ∀ q, decide (kind q) = true ↔ kind q := fun _ => decide_eq_true_iff
  have hsome : (group.find? fun q => kind q).isSome = true :=
    List.find?_isSome.mpr ⟨p, hp, (htest p).mpr hkind⟩
  obtain ⟨q, hq⟩ := Option.isSome_iff_exists.mp hsome
  exact ⟨q, (find?_eq_some_iff_firstOf htest).mp hq⟩

/-- The first of a kind is good when the others come after good ones. -/
theorem FirstOf.goodFirst_iff {kind good : FlowPacket → Prop} {group : List FlowPacket} {p : FlowPacket}
    (h : FirstOf kind group p) : GoodFirst kind good group ↔ good p := by
  obtain ⟨hkind, before, after, rfl, hnone⟩ := h
  constructor
  · intro hgood
    by_contra hbad
    obtain ⟨q, hq, hkindq, -⟩ := hgood before p after rfl hkind hbad
    exact hnone q hq hkindq
  · intro hgood before' q after' heq hkindq hbad
    refine ⟨p, ?_, hkind, hgood⟩
    rcases List.append_eq_append_iff.mp heq with ⟨l, rfl, htail⟩ | ⟨l, rfl, htail⟩
    · cases l with
      | nil =>
        obtain ⟨rfl, -⟩ := List.cons.inj htail
        exact absurd hgood hbad
      | cons r l =>
        obtain ⟨rfl, -⟩ := List.cons.inj htail
        exact List.mem_append_right _ List.mem_cons_self
    · cases l with
      | nil =>
        obtain ⟨rfl, -⟩ := List.cons.inj htail
        exact absurd hgood hbad
      | cons r l =>
        obtain ⟨rfl, -⟩ := List.cons.inj htail
        exact absurd hkindq (hnone q (List.mem_append_right _ List.mem_cons_self))

section

variable {group : List FlowPacket}

theorem synOf_eq_some {syn : FlowPacket} : synOf group = some syn ↔ FirstOf IsSyn group syn :=
  find?_eq_some_iff_firstOf fun _ => decide_eq_true_iff

theorem synackOf_eq_some {syn synack : FlowPacket} :
    synackOf group (some syn) = some synack ↔ FirstOf (AnswersSyn syn) group synack := by
  apply find?_eq_some_iff_firstOf
  intro q
  simp only [Option.all_some, decide_eq_true_eq, AnswersSyn]

theorem thirdOf_eq_some {synack third : FlowPacket} :
    thirdOf group (some synack) = some third ↔ FirstOf (FollowsSynack synack) group third := by
  apply find?_eq_some_iff_firstOf
  intro q
  simp only [Option.any_some, decide_eq_true_eq, FollowsSynack]

/-- Both legs are there when the three packets are. -/
theorem both_handshakeLegs {legs : ℚ × ℚ} :
    (handshakeLegs group).both = some legs ↔
      ∃ syn synack third, synOf group = some syn ∧ synackOf group (some syn) = some synack ∧
        thirdOf group (some synack) = some third ∧
          legs = (synack.timeMs - syn.timeMs, third.timeMs - synack.timeMs) := by
  rw [handshakeLegs]
  cases hsyn : synOf group with
  | none => simp [Legs.both]
  | some syn =>
    cases hsynack : synackOf group (some syn) with
    | none => simp [Legs.both, hsynack]
    | some synack =>
      cases hthird : thirdOf group (some synack) with
      | none => simp [Legs.both, hsynack, hthird]
      | some third => simp [Legs.both, hsynack, hthird, eq_comm]

end

/-- A response reports the legs of the first packets of their kinds. -/
theorem reported_legs_iff {packets : List Packet} {stream : ℕ} {legs : ℚ × ℚ} :
    (∃ detail, streamHandshake packets stream = some detail ∧ detail.handshakeLegsMs = some legs) ↔
      let group := responsePackets packets stream
      ∃ syn synack third, synOf group = some syn ∧ synackOf group (some syn) = some synack ∧
        thirdOf group (some synack) = some third ∧
          legs = (roundTo 3 (synack.timeMs - syn.timeMs), roundTo 3 (third.timeMs - synack.timeMs)) := by
  cases hstream : streamPackets packets stream with
  | nil =>
    obtain ⟨hdetail, hgroup⟩ := handshake_of_nil hstream
    rw [hdetail, hgroup]
    simp [synOf]
  | cons first rest =>
    rw [streamHandshake_eq hstream]
    simp only [Option.some.injEq, exists_eq_left', handshakeOf, Option.map_eq_some_iff,
      both_handshakeLegs]
    constructor
    · intro h
      obtain ⟨-, ⟨syn, synack, third, hsyn, hsynack, hthird, rfl⟩, rfl⟩ := h
      exact ⟨syn, synack, third, hsyn, hsynack, hthird, rfl⟩
    · intro h
      obtain ⟨syn, synack, third, hsyn, hsynack, hthird, rfl⟩ := h
      exact ⟨_, ⟨syn, synack, third, hsyn, hsynack, hthird, rfl⟩, rfl⟩

/-- The legs that a response reports are of one attempt exactly when attempts are not mixed. -/
theorem oneHandshake_iff (packets : List Packet) (stream : ℕ) :
    OneHandshake packets stream ↔ UnmixedAttempts (responsePackets packets stream) := by
  constructor
  · intro hone syn synack third hsyn hsynack hmem hfollows
    obtain ⟨first, hfirst⟩ := exists_firstOf hmem hfollows
    obtain ⟨detail, hdetail, hlegs⟩ := reported_legs_iff.mpr ⟨syn, synack, first,
      synOf_eq_some.mpr hsyn, synackOf_eq_some.mpr hsynack, thirdOf_eq_some.mpr hfirst, rfl⟩
    obtain ⟨syn', synack', first', hsyn', hsynack', hfirst', -, hsame⟩ := hone detail _ hdetail hlegs
    obtain rfl := Option.some.inj ((synOf_eq_some.mpr hsyn).symm.trans hsyn')
    obtain rfl := Option.some.inj ((synackOf_eq_some.mpr hsynack).symm.trans hsynack')
    obtain rfl := Option.some.inj ((thirdOf_eq_some.mpr hfirst).symm.trans hfirst')
    exact ⟨hsynack.goodFirst_iff.mpr hsame.answers, hfirst.goodFirst_iff.mpr hsame.completes⟩
  · intro hunmixed detail legs hdetail hlegs
    obtain ⟨syn, synack, third, hsyn, hsynack, hthird, htimes⟩ :=
      reported_legs_iff.mp ⟨detail, hdetail, hlegs⟩
    have hthird' := thirdOf_eq_some.mp hthird
    obtain ⟨hanswers, hcompletes⟩ := hunmixed syn synack third (synOf_eq_some.mp hsyn)
      (synackOf_eq_some.mp hsynack) hthird'.mem hthird'.1
    exact ⟨syn, synack, third, hsyn, hsynack, hthird, htimes,
      (synackOf_eq_some.mp hsynack).goodFirst_iff.mp hanswers, hthird'.goodFirst_iff.mp hcompletes⟩

/-- The client gives up its first attempt and opens again. -/
def abandonedSyn : List Packet :=
  [ { plainAck with syn := true, ackFlag := false, seq := 100, ack := 0, ts := 0 },
    { plainAck with syn := true, ackFlag := false, seq := 500, ack := 0, ts := 3 },
    { serverAck with syn := true, seq := 900, ack := 501, ts := 31 / 10 },
    { plainAck with seq := 501, ack := 901, ts := 32 / 10 } ]

/-- The first leg is measured from the SYN that was given up. -/
theorem abandonedSyn_measured : ¬OneHandshake abandonedSyn 0 := by
  intro h
  have hreported : (streamHandshake abandonedSyn 0).map (·.handshakeLegsMs) = some (some (3100, 100)) := by
    decide +kernel
  obtain ⟨detail, hdetail, hlegs⟩ := Option.map_eq_some_iff.mp hreported
  obtain ⟨syn, synack, third, hsyn, hsynack, -, -, hsame⟩ := h detail _ hdetail hlegs
  have hfirst : (synOf (responsePackets abandonedSyn 0)).map (·.seq) = some 100 := by decide +kernel
  have hanswer : ∀ p ∈ responsePackets abandonedSyn 0, p.direction = .in_ → p.ack = 501 := by
    decide +kernel
  have hseq : syn.seq = 100 := by
    rw [hsyn] at hfirst
    exact Option.some.inj hfirst
  have hkind := synackOf_eq_some.mp hsynack
  have hack := hanswer synack hkind.mem hkind.1.2.2.1
  have hanswers := hsame.answers
  rw [AcksOpening, hseq, hack] at hanswers
  omega

end PacketTrain.Analysis
