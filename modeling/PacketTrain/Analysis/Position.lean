import PacketTrain.Analysis.Packet

/-!
# The capture position

`packettrain/position.py`: near which endpoint a stream was captured, from the TTL of each endpoint and
the two intervals of the handshake. An observed TTL is compared with the usual initial values.

Binary64 is modelled by exact rationals: one interval is three times the other when it is exactly. At a tie,
such as 0.3 and 0.1 ms, the source may find a little less.
-/

namespace PacketTrain.Analysis

/-! ## TTL -/

/-- `INITIAL_TTL_CANDIDATES`. -/
def initialTtlCandidates : List ℕ := [64, 128, 255]

inductive TtlHint
  | atInitial
  | fewHops
  | indeterminate
deriving DecidableEq, Repr

structure TtlObservation where
  ttl : ℕ
  hint : TtlHint
  initialTtl : Option ℕ
  hops : Option ℕ
  note : String
deriving DecidableEq, Repr

/-- The observation of a TTL from an initial value that it is at or a few hops below. -/
def ttlFrom (ttl initial : ℕ) : Option TtlObservation :=
  if ttl = initial then
    some ⟨ttl, .atInitial, some initial, none,
      "TTL " ++ toString ttl ++ " equals a common initial value"⟩
  else if 0 < ttl ∧ ttl < initial ∧ initial - ttl ≤ 4 then
    some ⟨ttl, .fewHops, some initial, some (initial - ttl),
      "TTL " ++ toString ttl ++ " suggests " ++ toString (initial - ttl) ++
        " hop(s) from an initial " ++ toString initial⟩
  else none

/-- `_ttl_observation`. -/
def ttlObservation (value : Option ℕ) : Option TtlObservation :=
  (value.filter (· ≠ 0)).map fun ttl =>
    (initialTtlCandidates.findSome? (ttlFrom ttl)).getD
      ⟨ttl, .indeterminate, none, none,
        "TTL " ++ toString ttl ++ " does not match a common initial value"⟩

/-- `ttl_hops`. -/
def ttlHops (obs : TtlObservation) : Option ℕ :=
  match obs.hint with
  | .atInitial => some 0
  | .fewHops => obs.hops
  | .indeterminate => none

/-! ## Evidence -/

inductive Evidence
  | handshakeIntervals (legSynToSynackMs legSynackToAckMs : Option ℚ) (note : String)
  | ttl (side : Side) (obs : TtlObservation)
  | ttlPair (note : String)
deriving DecidableEq, Repr

inductive Confidence
  | high
  | moderate
  | low
deriving DecidableEq, Repr

inductive PrimaryFactor
  | ttl
  | handshakeTiming
  | unavailable
deriving DecidableEq, Repr

structure Position where
  /-- `none` is `"unknown"`. -/
  side : Option Side
  confidence : Confidence
  primaryFactor : PrimaryFactor
  evidence : List Evidence
  conflicts : List String
  limitation : String
deriving DecidableEq, Repr

/-- The two intervals of the handshake, SYN to SYN-ACK and SYN-ACK to ACK, in milliseconds. -/
structure Legs where
  leg1 : Option ℚ
  leg2 : Option ℚ
deriving DecidableEq, Repr

/-- Both legs, when both were captured. -/
def Legs.both (legs : Legs) : Option (ℚ × ℚ) := do
  let leg1 ← legs.leg1
  let leg2 ← legs.leg2
  some (leg1, leg2)

def handshakeEvidence (legs : Legs) : Evidence :=
  match legs.both with
  | some (leg1, leg2) => .handshakeIntervals (some (roundTo 3 leg1)) (some (roundTo 3 leg2))
      ("The larger interval is the leg that crossed the network; " ++
        "the smaller one was observed near its endpoint.")
  | none => .handshakeIntervals none none
      "Handshake legs unavailable; the capture may be sliced or mid-stream."

/-- `interval_side`: an interval that is three times the other one crossed the network. -/
def intervalSide (legs : Legs) : Option Side :=
  match legs.both with
  | none => none
  | some (leg1, leg2) =>
    if min leg1 leg2 < 0 then none
    else if 3 * max leg2 (1 / 1000) ≤ leg1 then some .client
    else if 3 * max leg1 (1 / 1000) ≤ leg2 then some .server
    else none

/-- `client_ttl`: the first TTL that the client sent. -/
def clientTtl (packets : List FlowPacket) (client : String × ℕ) : Option ℕ :=
  (packets.find? fun p => (p.src, p.sport) = client ∧ p.ttl ≠ 0).map (·.ttl)

/-- `server_ttl`. -/
def serverTtl (packets : List FlowPacket) (client : String × ℕ) : Option ℕ :=
  (packets.find? fun p => (p.src, p.sport) ≠ client ∧ p.ttl ≠ 0).map (·.ttl)

/-- `ttl_side`: the endpoint with fewer hops, or the only one whose hops are known; nothing when an
endpoint has no TTL. -/
def ttlSide (clientTtl serverTtl : Option ℕ) : Option Side :=
  match ttlObservation clientTtl, ttlObservation serverTtl with
  | some clientObs, some serverObs =>
    match ttlHops clientObs, ttlHops serverObs with
    | some clientHops, some serverHops =>
      if clientHops = serverHops then none
      else if clientHops < serverHops then some .client
      else some .server
    | some _, none => some .client
    | none, some _ => some .server
    | none, none => none
  | _, _ => none

/-- The observation that the TTLs of both endpoints are as far from an initial value. -/
def ttlTie (clientTtl serverTtl : Option ℕ) : List Evidence :=
  match ttlObservation clientTtl, ttlObservation serverTtl with
  | some clientObs, some serverObs =>
    if (ttlHops clientObs).isSome ∧ ttlHops clientObs = ttlHops serverObs then
      [.ttlPair ("Both endpoints have the same inferred TTL distance (client " ++
        toString clientObs.ttl ++ ", server " ++ toString serverObs.ttl ++
        "); TTL does not distinguish the nearer endpoint.")]
    else []
  | _, _ => []

/-- `position_evidence`. -/
def positionEvidence (packets : List FlowPacket) (client : String × ℕ) (legs : Legs) : Position :=
  let clientTtl := clientTtl packets client
  let serverTtl := serverTtl packets client
  let evidence := handshakeEvidence legs ::
    (((ttlObservation clientTtl).map (Evidence.ttl .client)).toList ++
      ((ttlObservation serverTtl).map (Evidence.ttl .server)).toList ++ ttlTie clientTtl serverTtl)
  let limitation := "Position is inferred, not measured. TTL is the primary factor, " ++
    "but remains a proximity hint: initial values are assumed and " ++
    "a proxy, NAT or non-standard stack defeats it. Handshake " ++
    "timing is supporting evidence and includes host response delay."
  match ttlSide clientTtl serverTtl, intervalSide legs with
  | some side, none => ⟨some side, .moderate, .ttl, evidence, [], limitation⟩
  | some side, some timing =>
    if timing = side then ⟨some side, .high, .ttl, evidence, [], limitation⟩
    else
      ⟨some side, .moderate, .ttl, evidence,
        ["TTL (primary) suggests near " ++ side.text ++ "; handshake timing " ++
          "(supporting) suggests near " ++ timing.text], limitation⟩
  | none, some timing => ⟨some timing, .moderate, .handshakeTiming, evidence, [], limitation⟩
  | none, none =>
    ⟨none, .low, .unavailable, evidence,
      ["No handshake timing or TTL evidence established a position"], limitation⟩

end PacketTrain.Analysis
