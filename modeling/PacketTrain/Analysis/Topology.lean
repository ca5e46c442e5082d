import Mathlib.Algebra.Order.Group.Int
import Mathlib.Data.Finset.Sort
import Mathlib.Data.Prod.Lex
import Mathlib.Data.String.Basic
import PacketTrain.Analysis.Streams
import PacketTrain.Indexer.Publish
import PacketTrain.Lib.Dict
import PacketTrain.Lib.Lines

/-!
# Host pairs

The topology page has two sources. `packettrain/topology.py`, `build_topology`, adds up the stream list.
The other counts in the database: `indexer/src/main.rs`, `topology`, groups the manifest by host pair
and prints a line for each; `packettrain/indexing.py`, `topology_pairs`, reads the lines; and
`topology_from_pairs` makes hosts of them.

`ipaddress` is a parameter: what it says of an address, or that it takes the text for none. So is the
order in which SQLite meets the groups, which its `GROUP BY` leaves open.

Left out: the command line between the two programs, which repeats the check of the limit, and a
database that cannot be read. A set is sorted before it is shown, so its own order is left out too.
-/

namespace PacketTrain.Analysis

open Indexer (FlowRow IndexDir Written)
open Lines (Text decimal printLines readInt splitLines)

/-! ## Hosts -/

/-- What `ipaddress.ip_address` says of an address. -/
structure AddressKind where
  isPrivate : Bool
  isMulticast : Bool
  isLoopback : Bool
deriving DecidableEq, Repr

/-- An entry of `hosts`. -/
structure HostTotals where
  bytes : ℤ
  packets : ℤ
  peers : Finset String
deriving DecidableEq

def HostTotals.zero : HostTotals := ⟨0, 0, ∅⟩

def HostTotals.add (peer : String) (bytes packets : ℤ) (h : HostTotals) : HostTotals where
  bytes := h.bytes + bytes
  packets := h.packets + packets
  peers := insert peer h.peers

/-- `for x, y in ((a, b), (b, a))`: a host that is its own peer is met twice. -/
def addHosts (a b : String) (bytes packets : ℤ) (hosts : Dict String HostTotals) :
    Dict String HostTotals :=
  [(a, b), (b, a)].foldl
    (fun hosts xy => Dict.update .zero xy.1 (HostTotals.add xy.2 bytes packets) hosts) hosts

structure Node where
  id : String
  role : String
  bytes : ℤ
  packets : ℤ
  peers : ℕ
deriving DecidableEq, Repr

/-- The answer of either, with its edges. -/
structure Topology (ε : Type) where
  nodes : List Node
  edges : List ε
  totalPairs : Option ℕ
  shownPairs : ℕ
  metric : String
  engine : Option String
deriving DecidableEq, Repr

section

variable (ipAddress : String → Option AddressKind)

def roleOf (address : String) : String :=
  match ipAddress address with
  | none => "unknown"
  | some ip =>
    if ip.isMulticast then "multicast"
    else if ip.isLoopback then "loopback"
    else if ip.isPrivate then "internal"
    else "external"

def nodeOf (address : String) (h : HostTotals) : Node where
  id := address
  role := roleOf ipAddress address
  bytes := h.bytes
  packets := h.packets
  peers := h.peers.card

/-- `nodes.sort(key=lambda node: (-node["bytes"], node["id"]))`. -/
def sortNodes (nodes : List Node) : List Node := sortOn (fun n => toLex (-n.bytes, n.id)) nodes

end

/-! ## `build_topology` -/

/-- An entry of `edges`. -/
structure EdgeTotals where
  bytes : ℤ
  packets : ℤ
  streams : ℕ
  stream : Option ℕ
  ports : Finset ℕ
deriving DecidableEq

def EdgeTotals.zero : EdgeTotals := ⟨0, 0, 0, none, ∅⟩

def EdgeTotals.add (d : EdgeTotals) (s : StreamSummary) : EdgeTotals where
  bytes := d.bytes + s.bytes
  packets := d.packets + s.packets
  streams := d.streams + 1
  stream := d.stream.or (some s.id)
  ports := if d.ports.card < 32 then insert s.serverPort d.ports else d.ports

/-- `tuple(sorted((a, b)))`. -/
def sortedPair (a b : String) : String × String := if b < a then (b, a) else (a, b)

/-- The two dictionaries of the loop. -/
structure PairTables where
  edges : Dict (String × String) EdgeTotals
  hosts : Dict String HostTotals

def PairTables.addStream (t : PairTables) (s : StreamSummary) : PairTables where
  edges := Dict.update .zero (sortedPair s.client s.server) (·.add s) t.edges
  hosts := addHosts s.client s.server s.bytes s.packets t.hosts

def pairTables (streams : List StreamSummary) : PairTables :=
  streams.foldl PairTables.addStream ⟨[], []⟩

/-- An edge of `build_topology`. -/
structure Link where
  source : String
  target : String
  bytes : ℤ
  packets : ℤ
  streams : ℕ
  stream : Option ℕ
  ports : List ℕ
deriving DecidableEq, Repr

def linkOf (item : (String × String) × EdgeTotals) : Link where
  source := item.1.1
  target := item.1.2
  bytes := item.2.bytes
  packets := item.2.packets
  streams := item.2.streams
  stream := item.2.stream
  ports := item.2.ports.sort (· ≤ ·)

/-- `selected`. -/
def selectedPairs (edges : Dict (String × String) EdgeTotals) (limit : ℤ) :
    Dict (String × String) EdgeTotals :=
  (sortOn (fun item => toLex (-item.2.bytes, -item.2.packets)) edges).take
    (max 1 (min limit 500)).toNat

def buildTopology (ipAddress : String → Option AddressKind) (streams : List StreamSummary)
    (limit : ℤ) : Topology Link :=
  let tables := pairTables streams
  let selected := selectedPairs tables.edges limit
  let visible := (selected.flatMap fun item => [item.1.1, item.1.2]).dedup
  { nodes := sortNodes (visible.map fun address =>
      nodeOf ipAddress address (Dict.get .zero tables.hosts address))
    edges := selected.map linkOf
    totalPairs := some tables.edges.length
    shownPairs := selected.length
    metric := "TCP payload bytes"
    engine := none }

/-! ## `topology` in the indexer -/

/-- Why the indexer's `topology` fails. -/
inductive NativeError
  | incomplete
  | sql
deriving DecidableEq, Repr

def NativeError.text : NativeError → String
  | .incomplete => "index is incomplete"
  | .sql => "sqlite"

/-- A row of the query. -/
structure PairRow where
  a : String
  b : String
  bytes : ℤ
  packets : ℤ
  flows : ℤ
  stream : ℤ
  port : ℤ
  wire : ℤ
  rsts : ℤ
  syns : ℤ
  closed : ℤ
  first : ℤ
  last : ℤ
  zeros : ℤ
deriving DecidableEq, Repr

/-- `SUM` of integers: SQLite adds them in 64 bits and refuses to overflow. -/
def sqlSum (l : List ℤ) : Except NativeError ℤ :=
  l.foldlM (fun sum n =>
    if -2 ^ 63 ≤ sum + n ∧ sum + n < 2 ^ 63 then .ok (sum + n) else .error .sql) 0

/-- `MIN` and `MAX`, of a group, which is not empty. -/
def sqlMin {κ : Type} [LinearOrder κ] [Zero κ] (l : List κ) : κ := l.min?.getD 0

def sqlMax {κ : Type} [LinearOrder κ] [Zero κ] (l : List κ) : κ := l.max?.getD 0

/-- `CASE WHEN … THEN 1 ELSE 0 END`. -/
def sqlFlag (flag : Bool) : ℤ := if flag then 1 else 0

/-- The aggregates of one group. -/
def pairRow (pair : String × String) (rows : List FlowRow) : Except NativeError PairRow := do
  let bytes ← sqlSum (rows.map FlowRow.payloadBytes)
  let packets ← sqlSum (rows.map FlowRow.packets)
  let wire ← sqlSum (rows.map FlowRow.capturedBytes)
  let rsts ← sqlSum (rows.map fun row => sqlFlag row.rstSeen)
  let syns ← sqlSum (rows.map fun row => sqlFlag row.synSeen)
  let closed ← sqlSum (rows.map fun row => sqlFlag row.closed)
  let zeros ← sqlSum (rows.map FlowRow.zeroWindowEvents)
  .ok {
    a := pair.1
    b := pair.2
    bytes := bytes
    packets := packets
    flows := rows.length
    stream := (sqlMin (rows.map FlowRow.id) : ℕ)
    port := (sqlMin (rows.map fun row =>
      if row.clientIsLeft then row.key.right.port else row.key.left.port) : ℕ)
    wire := wire
    rsts := rsts
    syns := syns
    closed := closed
    first := sqlMin (rows.map FlowRow.firstTsNs)
    last := sqlMax (rows.map FlowRow.lastTsNs)
    zeros := zeros }

/-- The fields of a printed line. -/
def PairRow.fields (r : PairRow) : List Text :=
  [r.a.toList, r.b.toList] ++
    [r.bytes, r.packets, r.flows, r.stream, r.port, r.wire, r.rsts, r.syns, r.closed, r.first, r.last,
      r.zeros].map decimal

section

variable (text : ℕ → Bytes → String)

/-- The two columns a row is grouped by. -/
def rowPair (row : FlowRow) : String × String :=
  let left := text row.key.family row.key.left.addr
  let right := text row.key.family row.key.right.addr
  (if left < right then left else right, if left < right then right else left)

variable (groupOrder : List (String × String) → List (String × String))

/-- The rows of the query. -/
def pairRows (flows : List FlowRow) (limit : ℕ) : Except NativeError (List PairRow) := do
  let rows ← (groupOrder (flows.map (rowPair text)).dedup).mapM fun pair =>
    pairRow pair (flows.filter fun row => rowPair text row = pair)
  .ok ((sortOn (fun r => toLex (-r.bytes, -r.packets)) rows).take limit)

/-- `topology`, up to what it prints. -/
def topology (dir : IndexDir) (limit : ℕ) : Except NativeError Text :=
  if dir.ready.isNone then .error .incomplete
  else
    match dir.sqlite.map Written.content with
    | some (some manifest) => do
      let rows ← pairRows text groupOrder manifest.flows limit
      .ok (printLines (rows.map fun r => ['\t'].intercalate r.fields))
    | _ => .error .sql

end

/-! ## `topology_pairs` and `topology_from_pairs` -/

/-- Why `topology_pairs` raises. -/
inductive PairsError
  | notReady
  | badLimit
  | process (e : NativeError)
  | malformed
  | notANumber (field : Text)
deriving DecidableEq, Repr

/-- The text of an error; of a failed process, what that prints. -/
def PairsError.text : PairsError → String
  | .notReady => "Flow index is not ready"
  | .badLimit => "Topology limit must be 1..500"
  | .process e => e.text
  | .malformed => "Malformed native topology output"
  | .notANumber field => "invalid literal for int() with base 10: '" ++ String.ofList field ++ "'"

/-- An edge of `topology_pairs`. -/
structure PairEdge where
  source : String
  target : String
  bytes : ℤ
  packets : ℤ
  streams : ℤ
  stream : ℤ
  ports : List ℤ
  capturedBytes : ℤ
  resets : ℤ
  synFlows : ℤ
  closedFlows : ℤ
  durationMs : ℚ
  zeroWindowEvents : ℤ
deriving DecidableEq, Repr

/-- `int(field)`. -/
def intField (field : Text) : Except PairsError ℤ :=
  match readInt field with
  | none => .error (.notANumber field)
  | some n => .ok n

/-- One line. -/
def readPair (line : Text) : Except PairsError PairEdge :=
  match line.splitOn '\t' with
  | [a, b, nbytes, packets, streams, stream, port, captured, resets, syns, closed, first, last, zeros] =>
    do
      let nbytes ← intField nbytes
      let packets ← intField packets
      let streams ← intField streams
      let stream ← intField stream
      let port ← intField port
      let captured ← intField captured
      let resets ← intField resets
      let syns ← intField syns
      let closed ← intField closed
      let last ← intField last
      let first ← intField first
      let zeros ← intField zeros
      .ok {
        source := String.ofList a
        target := String.ofList b
        bytes := nbytes
        packets := packets
        streams := streams
        stream := stream
        ports := [port]
        capturedBytes := captured
        resets := resets
        synFlows := syns
        closedFlows := closed
        durationMs := max 0 ((last - first : ℤ) / 1000000)
        zeroWindowEvents := zeros }
  | _ => .error .malformed

def topologyPairs (text : ℕ → Bytes → String)
    (groupOrder : List (String × String) → List (String × String)) (dir : IndexDir) (limit : ℤ) :
    Except PairsError (List PairEdge) :=
  if !dir.isReady then .error .notReady
  else if ¬ (1 ≤ limit ∧ limit ≤ 500) then .error .badLimit
  else
    match topology text groupOrder dir limit.toNat with
    | .error e => .error (.process e)
    | .ok stdout => (splitLines stdout).mapM readPair

def topologyFromPairs (ipAddress : String → Option AddressKind) (edges : List PairEdge) :
    Topology PairEdge :=
  let hosts := edges.foldl
    (fun hosts edge => addHosts edge.source edge.target edge.bytes edge.packets hosts) []
  { nodes := sortNodes (hosts.map fun item => nodeOf ipAddress item.1 item.2)
    edges := edges
    totalPairs := none
    shownPairs := edges.length
    metric := "TCP payload bytes"
    engine := some "rust-sqlite" }

end PacketTrain.Analysis
