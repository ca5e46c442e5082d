import PacketTrain.Analysis.Detail

/-!
# The two lists of `stream_detail`

What the later laws use of `accountingInput` and of the packets that the response carries: both are the
packets of one stream on one clock, and only the first has capture times.
-/

namespace PacketTrain.Analysis

/-- Every packet carries its capture time. -/
def Stamped (packets : List FlowPacket) : Prop := ∀ p ∈ packets, p.ts.isSome = true

/-- The packets are on the clock of one first packet. -/
def OnClock (firstTs : ℚ) (packets : List FlowPacket) : Prop :=
  ∀ p ∈ packets, ∃ ts, p.ts = some ts ∧ p.timeMs = roundTo 3 ((ts - firstTs) * 1000)

theorem OnClock.stamped {firstTs : ℚ} {packets : List FlowPacket} (h : OnClock firstTs packets) :
    Stamped packets := by
  intro p hp
  obtain ⟨ts, hts, -⟩ := h p hp
  rw [hts, Option.isSome_some]

/-- The stream's clock starts at its first packet. -/
theorem accountingInput_onClock {packets : List Packet} {stream : ℕ} {first : Packet}
    {rest : List Packet} (h : streamPackets packets stream = first :: rest) :
    OnClock first.ts (accountingInput packets stream) := by
  rw [accountingInput, h]
  intro p hp
  obtain ⟨q, -, rfl⟩ := List.mem_map.mp hp
  exact ⟨q.ts, rfl, rfl⟩

theorem exists_onClock (packets : List Packet) (stream : ℕ) :
    ∃ firstTs, OnClock firstTs (accountingInput packets stream) := by
  cases h : streamPackets packets stream with
  | nil =>
    refine ⟨0, ?_⟩
    rw [accountingInput, h]
    exact fun p hp => nomatch hp
  | cons first rest => exact ⟨first.ts, accountingInput_onClock h⟩

theorem accountingInput_stamped (packets : List Packet) (stream : ℕ) :
    Stamped (accountingInput packets stream) := by
  obtain ⟨firstTs, hclock⟩ := exists_onClock packets stream
  exact hclock.stamped

/-- A stream with a response has a first packet, whose capture time starts the clock. -/
theorem accountingInput_clock {packets : List Packet} {stream : ℕ} {detail : StreamDetail}
    (h : streamDetail packets stream = some detail) :
    ∃ firstTs, OnClock firstTs (accountingInput packets stream) ∧
      ∃ p ∈ accountingInput packets stream, p.ts = some firstTs := by
  rw [streamDetail] at h
  cases hstream : streamPackets packets stream with
  | nil =>
    rw [hstream] at h
    cases h
  | cons first rest =>
    refine ⟨first.ts, accountingInput_onClock hstream, ?_⟩
    rw [accountingInput, hstream]
    exact ⟨_, List.mem_map_of_mem List.mem_cons_self, rfl⟩

/-- What a response is, when there is one. -/
theorem streamDetail_eq_some {packets : List Packet} {stream : ℕ} {detail : StreamDetail}
    (h : streamDetail packets stream = some detail) :
    let group := (accountingInput packets stream).map FlowPacket.dropTs
    detail.packets = group ∧ detail.rttDistribution = rttDistribution group ∧
      detail.retransmissions = retransmissionAnalysis group ∧
      detail.receiverWindow = receiverWindowAnalysis group := by
  rw [streamDetail] at h
  cases hstream : streamPackets packets stream with
  | nil =>
    rw [hstream] at h
    cases h
  | cons first rest =>
    rw [hstream] at h
    cases h
    exact ⟨rfl, rfl, rfl, rfl⟩

/-- An ACK without payload of the client `192.0.2.1:50000`, to vary. -/
def plainAck : Fields where
  frame := 1
  stream := 0
  src := "192.0.2.1"
  dst := "198.51.100.2"
  sport := 50000
  dport := 443
  seq := 1000
  ack := 1
  length := 0
  sliced := false
  syn := false
  ackFlag := true
  fin := false
  rst := false
  retrans := false
  dupAck := false
  sack := false
  window := 500
  windowPresent := true
  ackRttMs := 0
  tlsRecord := ""
  wscale := -1

/-- The same from the server. -/
def serverAck : Fields :=
  { plainAck with
    src := "198.51.100.2"
    dst := "192.0.2.1"
    sport := 443
    dport := 50000 }

end PacketTrain.Analysis
