import PacketTrain.Indexer.Frames
import PacketTrain.Lifecycle.Model

/-!
# `/api/flow` on an index — readers beside the builds

`app.py`, `flow`, for an indexed capture, with `extracted_flow` and the extractor process inside it.
The route reads the index directory many times: `is_ready`, `flow_packet_count`, the two reads of
`original_frames`, `is_ready` again, and the three reads of `packettrain-index extract`. Nothing holds
the directory between two of them, so each is one step here and any step of the lifecycle can come
between.

A reader also writes. Its extraction goes through a temporary file and a `.part` beside it, both under a
name of its own; and the extractor opens `capture.sqlite` for writing, which creates an empty database
where there is none.

Left out: what TShark makes of the extracted file. It is the body of the `with`, and can only end it.
-/

namespace PacketTrain.Indexer

/-- What a query of `capture.sqlite` finds: nothing when the file is missing or has no table. -/
def IndexDir.query (dir : IndexDir) : Option Manifest := dir.sqlite.bind Written.content

/-- The extractor's `Connection::open`: it creates a missing database, without tables. No scan wrote
it, so the number it carries is nobody's. -/
def IndexDir.openDb (dir : IndexDir) : IndexDir :=
  if dir.sqlite.isSome then dir else { dir with sqlite := some ⟨0, none⟩ }

/-- What the route answers to an exception of `original_frames`: a `KeyError`, a `struct.error`, which
no handler takes, or one of the others. -/
def FramesError.httpStatus : FramesError → Nat
  | .missing _ => 404
  | .unpack => 500
  | _ => 422

end PacketTrain.Indexer

namespace PacketTrain.Lifecycle

open Indexer

/-- The lifecycle's configuration, and `MAX_PACKETS`. -/
structure Service extends Config where
  maxPackets : Nat

/-- How a request for a flow ends. -/
inductive FlowReply
  /-- The index was not ready: the route decodes the whole capture. -/
  | plain
  /-- The extracted file as the body found it, and the capture's frames for its packets. -/
  | answered (frames : List Nat) (file : Bytes)
  | refused (status : Nat)
deriving DecidableEq, Repr

/-- Where a reader stands: the next thing it does, with what it has read so far. -/
inductive ReaderPc
  | checkReady
  | checkSqlite
  | checkRefs
  | countPackets
  | frameRow
  | frameRefs (manifest : Manifest)
  | againReady (frames : List Nat)
  | againSqlite (frames : List Nat)
  | againRefs (frames : List Nat)
  | createTemp (frames : List Nat)
  | extractReady (frames : List Nat)
  | extractDb (frames : List Nat)
  | extractRefs (frames : List Nat) (manifest : Manifest)
  | createPart (frames : List Nat) (chain : List Hop)
  | copy (frames : List Nat) (chain : List Hop)
  | rename (frames : List Nat)
  | body (frames : List Nat)
  | unlinkOutput (reply : FlowReply)
  | unlinkPart (reply : FlowReply)
  | done (reply : FlowReply)
deriving DecidableEq, Repr

/-- A reader with its two files. -/
structure Reader where
  flowId : Nat
  pc : ReaderPc
  output : Option Bytes
  part : Option Bytes
deriving DecidableEq, Repr

inductive ReadEvent
  | go
  /-- The extractor's buffer handed on what it held. -/
  | flush (content : Bytes)
  /-- The operation raised, and the route answers with this status. -/
  | fail (status : Nat)
deriving DecidableEq, Repr

/-- The next operation of a reader, and what it leaves of the directory. -/
def readGo (sv : Service) (dir : IndexDir) (r : Reader) : Option (Reader × IndexDir) :=
  match r.pc with
  | .checkReady =>
    some ({ r with pc := if dir.ready.isSome then .checkSqlite else .done .plain }, dir)
  | .checkSqlite =>
    some ({ r with pc := if dir.sqlite.isSome then .checkRefs else .done .plain }, dir)
  | .checkRefs =>
    some ({ r with pc := if dir.refs.isSome then .countPackets else .done .plain }, dir)
  | .countPackets =>
    match dir.query with
    | none => some ({ r with pc := .done (.refused 422) }, dir)
    | some manifest =>
      match manifest.flows.find? fun row => row.id = r.flowId with
      | none => some ({ r with pc := .done (.refused 404) }, dir)
      | some row =>
        some ({ r with pc :=
          if (sv.maxPackets : Int) < row.packets then .done (.refused 413) else .frameRow }, dir)
  | .frameRow =>
    match dir.query with
    | none => some ({ r with pc := .done (.refused 422) }, dir)
    | some manifest =>
      match manifest.flows.find? fun row => row.id = r.flowId with
      | none => some ({ r with pc := .done (.refused 404) }, dir)
      | some _ => some ({ r with pc := .frameRefs manifest }, dir)
  | .frameRefs manifest =>
    match dir.refs with
    | none => some ({ r with pc := .done (.refused 422) }, dir)
    | some refs =>
      match originalFrames refs.content manifest r.flowId with
      | .error e => some ({ r with pc := .done (.refused e.httpStatus) }, dir)
      | .ok frames => some ({ r with pc := .againReady frames }, dir)
  | .againReady frames =>
    some ({ r with pc :=
      if dir.ready.isSome then .againSqlite frames else .done (.refused 422) }, dir)
  | .againSqlite frames =>
    some ({ r with pc :=
      if dir.sqlite.isSome then .againRefs frames else .done (.refused 422) }, dir)
  | .againRefs frames =>
    some ({ r with pc :=
      if dir.refs.isSome then .createTemp frames else .done (.refused 422) }, dir)
  | .createTemp frames => some ({ r with pc := .extractReady frames, output := some [] }, dir)
  | .extractReady frames =>
    some ({ r with pc :=
      if dir.ready.isSome then .extractDb frames else .unlinkOutput (.refused 422) }, dir)
  | .extractDb frames =>
    match dir.openDb.query with
    | none => some ({ r with pc := .unlinkOutput (.refused 422) }, dir.openDb)
    | some manifest =>
      if sv.source.bytes.length ≠ manifest.metadata.sourceSize ∨
          sv.source.mtimeNs ≠ manifest.metadata.sourceMtimeNs then
        some ({ r with pc := .unlinkOutput (.refused 422) }, dir.openDb)
      else some ({ r with pc := .extractRefs frames manifest }, dir.openDb)
  | .extractRefs frames manifest =>
    match dir.refs with
    | none => some ({ r with pc := .unlinkOutput (.refused 422) }, dir)
    | some refs =>
      match flowChain refs.content manifest r.flowId with
      | .error _ => some ({ r with pc := .unlinkOutput (.refused 422) }, dir)
      | .ok chain => some ({ r with pc := .createPart frames chain }, dir)
  | .createPart frames chain => some ({ r with pc := .copy frames chain, part := some [] }, dir)
  | .copy frames chain =>
    match sv.source.bytes.slice 0 24, copyRecords sv.source.bytes chain with
    | some header, .ok records =>
      some ({ r with pc := .rename frames, part := some (header ++ records) }, dir)
    | _, _ => some ({ r with pc := .unlinkOutput (.refused 422) }, dir)
  | .rename frames => some ({ r with pc := .body frames, output := r.part, part := none }, dir)
  | .body frames =>
    match r.output with
    | none => some ({ r with pc := .unlinkOutput (.refused 422) }, dir)
    | some file => some ({ r with pc := .unlinkOutput (.answered frames file) }, dir)
  | .unlinkOutput reply => some ({ r with pc := .unlinkPart reply, output := none }, dir)
  | .unlinkPart reply => some ({ r with pc := .done reply, part := none }, dir)
  | .done _ => none

/-- Where an exception leads: past the temporary file through the `finally`, whose own errors are
suppressed, and before it out of the route. -/
def ReaderPc.raised (status : Nat) : ReaderPc → Option ReaderPc
  | .extractReady _ | .extractDb _ | .extractRefs _ _ | .createPart _ _ | .copy _ _ | .rename _
  | .body _ => some (.unlinkOutput (.refused status))
  | .unlinkOutput reply => some (.unlinkPart reply)
  | .unlinkPart reply => some (.done reply)
  | .done _ => none
  | _ => some (.done (.refused status))

/-- What an event does to a reader and the directory. -/
def readStep (sv : Service) (dir : IndexDir) (r : Reader) : ReadEvent → Option (Reader × IndexDir)
  | .go => readGo sv dir r
  | .flush content =>
    match r.pc with
    | .copy _ _ => some ({ r with part := some content }, dir)
    | _ => none
  | .fail status => (r.pc.raised status).map fun pc => ({ r with pc := pc }, dir)

/-! ## The served system -/

/-- The files and their builders, and the readers beside them. -/
structure Served where
  world : World
  readers : List Reader

inductive ServeAct
  | world (a : Act)
  /-- A request for a flow comes in. -/
  | request (flowId : Nat)
  | read (i : Nat) (e : ReadEvent)
deriving DecidableEq, Repr

def serveStep (sv : Service) (s : Served) : ServeAct → Option Served
  | .world a => (step sv.toConfig s.world a).map fun w => { s with world := w }
  | .request flowId =>
    some { s with readers := s.readers ++
      [⟨flowId, if sv.supported then .checkReady else .done .plain, none, none⟩] }
  | .read i e => do
    let r ← s.readers[i]?
    let (r', dir') ← readStep sv s.world.dir r e
    some { world := { s.world with dir := dir' }, readers := s.readers.set i r' }

end PacketTrain.Lifecycle
