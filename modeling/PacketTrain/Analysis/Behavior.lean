import PacketTrain.Analysis.Packet

/-!
# Traffic shape

`packettrain/behavior.py`, `classify_stream`: the payload records of a stream in time order, the bursts
they come in, and the label that the shape of the traffic gets.

The deviation of the client's intervals over their mean is a root, so the model keeps its square
(`cvSquared`), compares that with the square of the bound and rounds the root (`sqrtTo`).
-/

namespace PacketTrain.Analysis

/-- `statistics.median`; an empty list raises. -/
def median (l : List ℚ) : Option ℚ :=
  let sorted := sortOn id l
  if l.length % 2 = 1 then sorted[l.length / 2]?
  else do
    let lower ← sorted[l.length / 2 - 1]?
    let upper ← sorted[l.length / 2]?
    some ((lower + upper) / 2)

def mean (l : List ℚ) : ℚ := if l = [] then 0 else l.sum / l.length

/-- The square of `statistics.pstdev`. -/
def pvariance (l : List ℚ) : ℚ := mean (l.map fun x => (x - mean l) ^ 2)

/-- `f"{x:g}"`, of a number of bytes or the middle of two. -/
def halfText (x : ℚ) : String :=
  toString ⌊x⌋.toNat ++ if x = ⌊x⌋ then "" else ".5"

/-! ## Bursts -/

/-- An entry of `bursts`. -/
structure SideBurst where
  side : Side
  start : ℚ
  stop : ℚ
  bytes : ℕ
  records : ℕ
deriving DecidableEq, Repr

section

variable (client : String × ℕ)

def sideOf (p : Packet) : Side := if (p.src, p.sport) = client then .client else .server

def SideBurst.fresh (p : Packet) : SideBurst := ⟨sideOf client p, p.ts, p.ts, p.length, 1⟩

/-- One round of the loop over the payload records; the burst in hand is `bursts[-1]`. -/
def addRecord (bursts : List SideBurst) (p : Packet) : List SideBurst :=
  match bursts.getLast? with
  | none => [SideBurst.fresh client p]
  | some b =>
    if b.side = sideOf client p ∧ p.ts - b.stop ≤ 1 / 5 then
      bursts.dropLast ++
        [{ b with stop := p.ts, bytes := b.bytes + p.length, records := b.records + 1 }]
    else bursts ++ [SideBurst.fresh client p]

/-- `data`. -/
def payloadRecords (packets : List Packet) : List Packet :=
  sortOn (·.ts) (packets.filter (0 < ·.length))

/-- `bursts`. -/
def sideBursts (packets : List Packet) : List SideBurst :=
  (payloadRecords packets).foldl (addRecord client) []

end

/-! ## The shape -/

/-- The variables of `classify_stream` that the label depends on. -/
structure TrafficShape where
  records : List Packet
  duration : ℚ
  bytes : Side → ℕ
  counts : Side → ℕ
  bursts : List SideBurst

section

variable (packets : List Packet) (client : String × ℕ)

def trafficShape : TrafficShape where
  records := payloadRecords packets
  duration :=
    match packets.head?, packets.getLast? with
    | some first, some last => max 0 (last.ts - first.ts)
    | _, _ => 0
  bytes side := (((payloadRecords packets).filter (sideOf client · = side)).map (·.length)).sum
  counts side := ((payloadRecords packets).filter (sideOf client · = side)).length
  bursts := sideBursts client packets

end

namespace TrafficShape

variable (s : TrafficShape)

def total : ℕ := s.bytes .client + s.bytes .server

/-- `max(bytes_by_side, key=bytes_by_side.get)`. -/
def dominant : Side := if s.bytes .client < s.bytes .server then .server else .client

def share : ℚ := if s.total = 0 then 0 else s.bytes s.dominant / s.total

def turns : ℕ := (adjacent s.bursts).countP fun ab => ab.1.side ≠ ab.2.side

def clientBursts : List SideBurst := s.bursts.filter (·.side = .client)

/-- The times from the start of each burst to the start of the next. -/
def startGaps (bursts : List SideBurst) : List ℚ :=
  (adjacent bursts).map fun ab => ab.2.start - ab.1.start

def intervalMean : ℚ := mean (startGaps s.clientBursts)

/-- The square of `interval_cv`. -/
def cvSquared : Option ℚ :=
  if s.intervalMean = 0 then none
  else some (pvariance (startGaps s.clientBursts) / s.intervalMean ^ 2)

def responseDelays : List ℚ :=
  (adjacent s.bursts).filterMap fun ab =>
    if ab.1.side = .client ∧ ab.2.side = .server then some (ab.2.start - ab.1.stop) else none

def typicalReply : Option ℚ := median s.responseDelays

def typical : ℚ := (median (s.records.map fun p => (p.length : ℚ))).getD 0

/-- `total >= 256_000 and share >= 0.85`. -/
def IsBulk : Prop := 256000 ≤ s.total ∧ 85 / 100 ≤ s.share

/-- The client asks at even intervals and is soon answered. -/
def IsPeriodic : Prop :=
  4 ≤ s.clientBursts.length ∧ 3 ≤ s.counts .server ∧ 1 ≤ s.intervalMean ∧
    (∃ cv ∈ s.cvSquared, cv ≤ (35 / 100) ^ 2) ∧
    (∃ reply ∈ s.typicalReply, reply ≤ min (1 / 2) (s.intervalMean * (25 / 100))) ∧ s.typical < 8192

def IsInteractive : Prop :=
  5 ≤ s.duration ∧ 3 ≤ s.counts .client ∧ 3 ≤ s.counts .server ∧ 4 ≤ s.turns ∧ s.typical ≤ 1024 ∧
    (s.bursts.length < 2 ∨ ∃ gap ∈ median (startGaps s.bursts), 1 / 2 ≤ gap)

def IsSparse : Prop :=
  10 ≤ s.duration ∧ 85 / 100 ≤ s.share ∧ 3 ≤ s.bursts.length ∧ s.total < 256000 ∧
    ∃ gap ∈ median (startGaps s.bursts), 2 ≤ gap

instance : Decidable s.IsBulk := inferInstanceAs (Decidable (_ ∧ _))

instance : Decidable s.IsPeriodic :=
  inferInstanceAs (Decidable (_ ∧ _ ∧ _ ∧ (∃ _ ∈ _, _) ∧ (∃ _ ∈ _, _) ∧ _))

instance : Decidable s.IsInteractive :=
  inferInstanceAs (Decidable (_ ∧ _ ∧ _ ∧ _ ∧ _ ∧ (_ ∨ ∃ _ ∈ _, _)))

instance : Decidable s.IsSparse := inferInstanceAs (Decidable (_ ∧ _ ∧ _ ∧ _ ∧ ∃ _ ∈ _, _))

end TrafficShape

/-! ## The label -/

structure PatternMetrics where
  clientBytes : ℕ
  serverBytes : ℕ
  durationS : ℚ
  dominantShare : ℚ
  payloadRecords : ℕ
  bursts : ℕ
  turns : ℕ
  typicalPayloadBytes : ℚ
  clientIntervalS : Option ℚ
  clientIntervalCv : Option ℚ
  typicalReplyS : Option ℚ
deriving DecidableEq, Repr

structure TrafficVerdict where
  label : String
  confidence : String
  evidence : List String
deriving DecidableEq, Repr

structure TrafficPattern extends TrafficVerdict where
  metrics : PatternMetrics
  scope : String
deriving DecidableEq, Repr

namespace TrafficShape

variable (s : TrafficShape)

def metrics : PatternMetrics where
  clientBytes := s.bytes .client
  serverBytes := s.bytes .server
  durationS := roundTo 3 s.duration
  dominantShare := roundTo 3 s.share
  payloadRecords := s.records.length
  bursts := s.bursts.length
  turns := s.turns
  typicalPayloadBytes := s.typical
  clientIntervalS := if s.intervalMean = 0 then none else some (roundTo 2 s.intervalMean)
  clientIntervalCv := s.cvSquared.map (sqrtTo 2)
  typicalReplyS := s.typicalReply.map (roundTo 2)

/-- Of a stream with payload. -/
def verdict : TrafficVerdict :=
  if s.IsBulk then
    { label := match s.dominant with
        | .server => "Bulk download pattern"
        | .client => "Bulk upload pattern"
      confidence := if 95 / 100 ≤ s.share then "high" else "moderate"
      evidence :=
        [ grouped (s.bytes s.dominant) ++ " payload bytes from " ++ s.dominant.text,
          percent0 s.share ++ " of payload in one direction" ] }
  else if s.IsPeriodic then
    { label := "Periodic polling pattern"
      confidence := "moderate"
      evidence :=
        [ toString s.clientBursts.length ++ " client request bursts",
          "Mean interval " ++ fixed1 s.intervalMean ++ "s; variation " ++
            fixed2 (sqrtTo 2 (s.cvSquared.getD 0)) ] }
  else if s.IsInteractive then
    { label := "Interactive exchange pattern"
      confidence := "moderate"
      evidence :=
        [ toString s.turns ++ " direction changes",
          "Typical payload " ++ halfText s.typical ++ " bytes",
          "Activity spans " ++ fixed1 s.duration ++ "s" ] }
  else if s.IsSparse then
    { label := "Sparse notifications pattern"
      confidence := "moderate"
      evidence :=
        [ toString s.bursts.length ++ " separated bursts",
          percent0 s.share ++ " of payload from " ++ s.dominant.text ] }
  else if s.bytes .client ≠ 0 ∧ s.bytes .server ≠ 0 then
    { label := "Request/response pattern"
      confidence := if s.turns ≠ 0 then "moderate" else "low"
      evidence :=
        [ toString s.turns ++ " direction changes",
          grouped (s.bytes .client) ++ " bytes client → server",
          grouped (s.bytes .server) ++ " bytes server → client" ] }
  else if 10 ≤ s.duration ∧ 128000 ≤ s.total then
    { label := "Sustained one-way transfer"
      confidence := "low"
      evidence :=
        [ grouped s.total ++ " payload bytes", "Activity spans " ++ fixed1 s.duration ++ "s" ] }
  else
    { label := "Insufficient pattern"
      confidence := "low"
      evidence :=
        [ toString s.records.length ++ " payload records",
          "Activity spans " ++ fixed1 s.duration ++ "s" ] }

end TrafficShape

/-- Of a stream without. -/
def silentVerdict (packets : List Packet) : TrafficVerdict where
  label :=
    if packets.any (fun p => p.syn ∧ !p.ackFlag) ∧ ¬ packets.any (fun p => p.syn ∧ p.ackFlag) then
      "Connection attempt"
    else "Control-only / idle"
  confidence := "moderate"
  evidence := ["No TCP payload observed", toString packets.length ++ " captured TCP records"]

/-- `classify_stream`. -/
def classifyStream (packets : List Packet) (client : String × ℕ) : TrafficPattern :=
  let shape := trafficShape packets client
  { toTrafficVerdict := if shape.records = [] then silentVerdict packets else shape.verdict
    metrics := shape.metrics
    scope := "Traffic behavior only; encrypted payloads and partial captures " ++
      "limit application identification." }

end PacketTrain.Analysis
