import PacketTrain.Analysis.Packet

/-!
# RTT distribution

`packettrain/rtt.py`. One pass over the stream decides which ACK RTT samples count and why the others
do not; the rest is order statistics of the samples that are left.
-/

namespace PacketTrain.Analysis

/-- `IDLE_GAP_MS`. -/
def idleGapMs : ℚ := 5000

/-- `MAX_SAMPLE_MS`. -/
def maxSampleMs : ℚ := 60000

/-- `MIN_SAMPLE_MS`. -/
def minSampleMs : ℚ := 1 / 100

/-- `MIN_SAMPLES`. -/
def minSamples : ℕ := 3

/-- How many samples were rejected, by reason. -/
structure Rejected where
  missing : ℕ
  retransmittedAck : ℕ
  idleGap : ℕ
  sliced : ℕ
  implausible : ℕ
deriving DecidableEq, Repr

/-- What one packet contributes. -/
inductive Sample
  | missing
  | retransmittedAck
  | sliced
  | idleGap
  | implausible
  | accepted (rttMs : ℚ)
deriving DecidableEq, Repr

/-- The time since the previous packet, when both times are there. -/
def gapMs (previous ts : Option ℚ) : Option ℚ :=
  match ts, previous with
  | some ts, some previous => some ((ts - previous) * 1000)
  | _, _ => none

/-- The tests of the loop of `_samples`, in their order. -/
def sampleOf (previous : Option ℚ) (p : FlowPacket) : Sample :=
  if p.ackRttMs ≤ 0 then .missing
  else if p.retrans then .retransmittedAck
  else if p.sliced then .sliced
  else if ∃ gap ∈ gapMs previous p.ts, idleGapMs < gap then .idleGap
  else if minSampleMs ≤ p.ackRttMs ∧ p.ackRttMs ≤ maxSampleMs then .accepted p.ackRttMs
  else Sample.implausible

/-- The loop of `_samples`; `previous` is the last capture time met. -/
def sampleLoop : Option ℚ → List FlowPacket → List Sample
  | _, [] => []
  | previous, p :: rest => sampleOf previous p :: sampleLoop (p.ts.or previous) rest

def Sample.rtt : Sample → Option ℚ
  | .accepted rttMs => some rttMs
  | _ => none

/-- `_samples`: the accepted samples, and the rejections. -/
def samples (group : List FlowPacket) : List ℚ × Rejected :=
  let found := sampleLoop none group
  (found.filterMap Sample.rtt,
    { missing := found.count .missing
      retransmittedAck := found.count .retransmittedAck
      idleGap := found.count .idleGap
      sliced := found.count .sliced
      implausible := found.count Sample.implausible })

/-- `_percentile`: linear interpolation on a sorted list. -/
def percentile (sorted : List ℚ) (fraction : ℚ) : Option ℚ :=
  match sorted with
  | [] => none
  | [value] => some value
  | values =>
    let position := (values.length - 1 : ℚ) * fraction
    let lower := ⌊position⌋.toNat
    let upper := min (lower + 1) (values.length - 1)
    let weight := position - lower
    some (values.getD lower 0 * (1 - weight) + values.getD upper 0 * weight)

/-- The statistics of the accepted samples. -/
structure RttStatistics where
  minMs : ℚ
  medianMs : ℚ
  p95Ms : ℚ
  maxMs : ℚ
  meanMs : ℚ
  stdevMs : ℚ
  variability : Option ℚ
  tailRatio : Option ℚ
deriving DecidableEq, Repr

/-- The response of `rtt_distribution`; without samples it has no statistics. -/
structure RttDistribution where
  samples : ℕ
  statistics : Option RttStatistics
  rejected : Rejected
  insufficient : Bool
  reason : Option String
deriving DecidableEq, Repr

/-- The statistics of a sorted, non-empty list of samples. -/
def rttStatistics (values : List ℚ) : RttStatistics :=
  let median := (percentile values (1 / 2)).getD 0
  let p95 := (percentile values (95 / 100)).getD 0
  let mean : ℚ := values.sum / values.length
  let variance : ℚ := (values.map fun value => (value - mean) ^ 2).sum / values.length
  { minMs := roundTo 3 (values.headD 0)
    medianMs := roundTo 3 median
    p95Ms := roundTo 3 p95
    maxMs := roundTo 3 (values.getLastD 0)
    meanMs := roundTo 3 mean
    stdevMs := sqrtTo 3 variance
    -- the deviation over the median is the root of the variance over its square
    variability := if median = 0 then none else some (sqrtTo 3 (variance / median ^ 2))
    tailRatio := if median = 0 then none else some (roundTo 2 (p95 / median)) }

/-- `rtt_distribution`. -/
def rttDistribution (group : List FlowPacket) : RttDistribution :=
  let (accepted, rejected) := samples group
  if accepted.isEmpty then
    { samples := 0
      statistics := none
      rejected := rejected
      insufficient := true
      reason := some "no valid ACK RTT samples in this capture" }
  else
    let values := sortOn id accepted
    { samples := values.length
      statistics := some (rttStatistics values)
      rejected := rejected
      insufficient := values.length < minSamples
      reason := if minSamples ≤ values.length then none
        else some "too few valid samples for percentiles" }

end PacketTrain.Analysis
