import PacketTrain.Indexer.Index

/-!
# `scan` — the process and its files

`indexer/src/main.rs`, `scan` again, now as a process that works on an index directory one
file-system operation at a time. `Indexer.Index` says what a scan computes; this module says in
which order the results reach the disk. Between any two operations the process can be killed, and
every operation can fail.

A `ScanPc` is the operation the process does next, with what the process holds in memory at that
point. The loop over the records is one operation a record: the references it writes pass through a
buffer, so any prefix of them can be in the file (`ScanEvent.flush`).

An operation on a path acts on the file that is there. Two scans of one directory share the
temporary paths; then this model keeps track of which paths exist, and no longer of the bytes a
process writes through a handle whose file another process has renamed.
-/

namespace PacketTrain.Indexer

/-- The operations of `scan`, in the order it does them. -/
inductive Stage
  | createDir
  | clearReady
  | openSource
  | createRefs
  | records
  | syncRefs
  | clearDbTmp
  | openDb
  | fillDb
  | closeDb
  | clearRefs
  | clearDb
  | publishRefs
  | publishDb
  | createReady
  | writeReady
deriving DecidableEq, Repr

/-- Why a scan returned an error: the operation failed, or the code bailed. -/
inductive ScanFailure
  | io
  | bail (e : ScanError)
deriving DecidableEq, Repr

/-- Where a scan process stands. -/
inductive ScanPc
  | createDir
  | clearReady
  | openSource
  | createRefs (h : Header)
  | records (h : Header) (st : ScanState)
  | syncRefs (h : Header) (st : ScanState)
  | clearDbTmp (h : Header) (st : ScanState)
  | openDb (h : Header) (st : ScanState)
  | fillDb (h : Header) (st : ScanState)
  | closeDb (index : Index)
  | clearRefs (index : Index)
  | clearDb (index : Index)
  | publishRefs (index : Index)
  | publishDb (index : Index)
  | createReady (index : Index)
  | writeReady (index : Index)
  /-- The scan returned `Ok`. -/
  | returned (index : Index)
  /-- The scan returned an error from an operation. -/
  | failed (stage : Stage) (error : ScanFailure)
  | killed

/-- The operation a process does next; `none` once it has ended. -/
def ScanPc.stage : ScanPc → Option Stage
  | .createDir => some .createDir
  | .clearReady => some .clearReady
  | .openSource => some .openSource
  | .createRefs _ => some .createRefs
  | .records _ _ => some .records
  | .syncRefs _ _ => some .syncRefs
  | .clearDbTmp _ _ => some .clearDbTmp
  | .openDb _ _ => some .openDb
  | .fillDb _ _ => some .fillDb
  | .closeDb _ => some .closeDb
  | .clearRefs _ => some .clearRefs
  | .clearDb _ => some .clearDb
  | .publishRefs _ => some .publishRefs
  | .publishDb _ => some .publishDb
  | .createReady _ => some .createReady
  | .writeReady _ => some .writeReady
  | .returned _ | .failed _ _ | .killed => none

/-- What can happen to a running process. -/
inductive ScanEvent
  /-- The next operation is done, or refused by the code. -/
  | go
  /-- The buffer hands bytes on, up to this many bytes of the references. -/
  | flush (upTo : Nat)
  /-- The next operation fails. -/
  | fail
  | kill
deriving DecidableEq, Repr

/-- The content of READY. -/
def readyText : String := "packettrain-index 0.2.0\n"

/-- A write through a path: it changes the file there, and creates none. -/
def IndexDir.writeRefs (dir : IndexDir) (content : Bytes) : IndexDir :=
  { dir with refsTmp := dir.refsTmp.map fun f => { f with content := content } }

/-- The committed transaction. -/
def IndexDir.commit (dir : IndexDir) (manifest : Manifest) : IndexDir :=
  { dir with sqliteTmp := dir.sqliteTmp.map fun f => { f with content := some manifest } }

/-- One operation of scan process `id`. An error on the way out of the record loop drops the
buffered writer, which hands on what it still holds. -/
def scanGo (source : Source) (id : Nat) (dir : IndexDir) : ScanPc → Option (ScanPc × IndexDir)
  | .createDir => some (.clearReady, dir)
  | .clearReady => some (.openSource, { dir with ready := none })
  | .openSource =>
    match readHeader source.bytes with
    | .error e => some (.failed .openSource (.bail e), dir)
    | .ok h => some (.createRefs h, dir)
  | .createRefs h => some (.records h .start, { dir with refsTmp := some ⟨id, []⟩ })
  | .records h st =>
    if st.pos + 16 ≤ source.bytes.length then
      match scanRecord source.bytes h st with
      | .error e => some (.failed .records (.bail e), dir.writeRefs st.refs)
      | .ok (_, st) => some (.records h st, dir)
    else some (.syncRefs h st, dir)
  | .syncRefs h st => some (.clearDbTmp h st, dir.writeRefs st.refs)
  | .clearDbTmp h st => some (.openDb h st, { dir with sqliteTmp := none })
  | .openDb h st =>
    match dir.sqliteTmp with
    | none => some (.fillDb h st, { dir with sqliteTmp := some ⟨id, none⟩ })
    -- another process's file: its tables exist
    | some _ => some (.failed .openDb .io, dir)
  | .fillDb h st =>
    match finishIndex source h st with
    | .error e => some (.failed .fillDb (.bail e), dir)
    | .ok index => some (.closeDb index, dir.commit index.manifest)
  | .closeDb index => some (.clearRefs index, dir)
  | .clearRefs index => some (.clearDb index, { dir with refs := none })
  | .clearDb index => some (.publishRefs index, { dir with sqlite := none })
  | .publishRefs index =>
    match dir.refsTmp with
    | none => some (.failed .publishRefs .io, dir)
    | some f => some (.publishDb index, { dir with refs := some f, refsTmp := none })
  | .publishDb index =>
    match dir.sqliteTmp with
    | none => some (.failed .publishDb .io, dir)
    | some f => some (.createReady index, { dir with sqlite := some f, sqliteTmp := none })
  -- `fs::write` is two operations: the file is created, then its content is written
  | .createReady index => some (.writeReady index, { dir with ready := some "" })
  | .writeReady index => some (.returned index, { dir with ready := some readyText })
  | .returned _ | .failed _ _ | .killed => none

/-- What an event does to a process and the directory. -/
def scanStep (source : Source) (id : Nat) (s : ScanPc × IndexDir) :
    ScanEvent → Option (ScanPc × IndexDir)
  | .go => scanGo source id s.2 s.1
  | .flush upTo =>
    match s.1 with
    | .records _ st | .syncRefs _ st =>
      let written := (s.2.refsTmp.map fun f => f.content.length).getD 0
      some (s.1, s.2.writeRefs (st.refs.take (max written upTo)))
    | _ => none
  | .fail => s.1.stage.map fun stage => (.failed stage .io, s.2)
  | .kill => s.1.stage.map fun _ => (.killed, s.2)

/-- `indexing.is_ready`. -/
def IndexDir.isReady (dir : IndexDir) : Bool :=
  dir.ready.isSome && dir.sqlite.isSome && dir.refs.isSome

end PacketTrain.Indexer
