import PacketTrain.Indexer.Publish

/-!
# `indexing.py` — the life of one index

`packettrain/indexing.py`, `request_index` and `_run_index`, for one capture key: any number of
requests, the build threads they start, the scan process of each build, and the files they share.
The capture does not change, so `paths(path)` names the same files throughout.

A `World` is those files and where every party stands. Each step is one file-system operation of one
party, or the clock moving on; nothing is scheduled, so a run is any order of steps. Requests run in
threads or in worker processes: they share only files, and the model gives them nothing else.

The lock file carries a ghost beside its modification time: the number of its creation. No party
reads it. It is how a theorem says whose lock a file is.

The status file is replaced whole, so a write is one operation. Left out of it are the times and the
indexer's own output, which nothing in this module reads back. Two clocks of the source, wall time
and monotonic time, are one clock here.
-/

namespace PacketTrain.Lifecycle

open Indexer

/-- What a process of the application is configured with, and the capture. -/
structure Config where
  /-- `INDEX_TIMEOUT`. -/
  timeout : Nat
  /-- `supported(path)`. -/
  supported : Bool
  source : Source

/-- The content of the status file. -/
inductive Status
  | indexing (frame flows : Nat)
  | ready
  | error (message : String)
deriving DecidableEq, Repr

structure LockFile where
  id : Nat
  mtime : Nat
deriving DecidableEq, Repr

/-- The answer of `request_index`. -/
inductive Reply
  | unsupported
  | ready
  /-- What the status file says, or `indexing` when it says nothing. -/
  | status (current : Option Status)
  /-- The call started a build. -/
  | started
  /-- The call raised. -/
  | raised
deriving DecidableEq, Repr

/-- The `state` of an answer. -/
def Reply.state : Reply → Option String
  | .unsupported => some "unsupported"
  | .ready => some "ready"
  | .status none | .status (some (.indexing _ _)) | .started => some "indexing"
  | .status (some .ready) => some "ready"
  | .status (some (.error _)) => some "error"
  | .raised => none

/-! ## The parties -/

/-- Where a request stands: the next thing it does, with what it has read so far. -/
inductive CallPc
  | supported
  | checkReady
  | checkSqlite
  | checkRefs
  | readStatus
  | lockExists (current : Option Status)
  | readClock (current : Option Status)
  | statLock (current : Option Status) (now : Nat)
  | unlinkStale
  | create
  | reread
  | startThread (lock : Nat)
  | answered (reply : Reply)
deriving DecidableEq, Repr

/-- Where a build thread stands. -/
inductive BuildPc
  | writeIndexing
  | popen
  | watch (deadline : Nat)
  | writeReady
  | writeError (message : String)
  | unlink
  | done
  /-- The first status write raised, outside the `try`: nothing removes the lock. -/
  | died
deriving DecidableEq, Repr

/-- A build thread, the lock its request took, and its scan process once there is one. -/
structure Build where
  lock : Nat
  pc : BuildPc
  process : Option ScanPc

structure World where
  clock : Nat
  lock : Option LockFile
  nextLock : Nat
  status : Option Status
  dir : IndexDir
  calls : List CallPc
  builds : List Build

/-- The next operation succeeds, or it fails with an exception. -/
inductive CallEvent
  | go
  | fail
deriving DecidableEq, Repr

inductive BuildEvent
  | go
  /-- A progress line was read. -/
  | progress (frame flows : Nat)
  /-- `poll` found that the process has ended; `output` is what it left on its streams. -/
  | exited (output : String)
  /-- The deadline was tested, and had passed. -/
  | expired
  | fail (message : String)
deriving DecidableEq, Repr

inductive Act
  | begin
  | call (i : Nat) (e : CallEvent)
  | build (j : Nat) (e : BuildEvent)
  | scan (j : Nat) (e : ScanEvent)
  | tick (d : Nat)
deriving DecidableEq, Repr

/-! ## `request_index` -/

/-- One operation of a request. A refusal of the operating system in the two branches that take the
lock over is passed over; anywhere else it leaves the call. -/
def callStep (cfg : Config) (w : World) : CallPc → CallEvent → Option (CallPc × World)
  | .supported, .go =>
    some (if cfg.supported then .checkReady else .answered .unsupported, w)
  | .checkReady, .go => some (if w.dir.ready.isSome then .checkSqlite else .readStatus, w)
  | .checkSqlite, .go => some (if w.dir.sqlite.isSome then .checkRefs else .readStatus, w)
  | .checkRefs, .go => some (if w.dir.refs.isSome then .answered .ready else .readStatus, w)
  | .readStatus, .go => some (.lockExists w.status, w)
  | .lockExists current, .go => some (if w.lock.isSome then .readClock current else .create, w)
  | .readClock current, .go => some (.statLock current w.clock, w)
  | .statLock current now, .go =>
    match w.lock with
    -- the lock is gone: `stat` raises, and the call goes on to take it
    | none => some (.create, w)
    | some l =>
      some (if now < l.mtime + cfg.timeout then .answered (.status current) else .unlinkStale, w)
  -- whatever lock is there by now; a missing file raises and is passed over
  | .unlinkStale, .go => some (.create, { w with lock := none })
  | .unlinkStale, .fail => some (.create, w)
  | .create, .go =>
    match w.lock with
    | none => some (.startThread w.nextLock,
        { w with lock := some ⟨w.nextLock, w.clock⟩, nextLock := w.nextLock + 1 })
    | some _ => some (.reread, w)
  | .create, .fail => some (.answered .raised, w)
  | .reread, .go => some (.answered (.status w.status), w)
  | .startThread lock, .go =>
    some (.answered .started, { w with builds := w.builds ++ [⟨lock, .writeIndexing, none⟩] })
  | .startThread _, .fail => some (.answered .raised, w)
  | _, _ => none

/-! ## `_run_index` -/

/-- The text a failed build reports: the tail of the process's output, or its bare failure. -/
def failureText (output : String) : String :=
  if output = "" then "indexer exited" else output

/-- The process is running. -/
def Build.alive (b : Build) : Bool := (b.process.bind ScanPc.stage).isSome

/-- `process.kill(); process.wait()`. -/
def Build.killed (b : Build) : Build :=
  if b.alive then { b with process := some .killed } else b

/-- The process has ended, and well. -/
def Build.succeeded (b : Build) : Bool :=
  match b.process with
  | some (.returned _) => true
  | _ => false

/-- One operation of a build thread. -/
def buildStep (cfg : Config) (w : World) (b : Build) : BuildEvent → Option (Build × World)
  | .go =>
    match b.pc with
    | .writeIndexing => some ({ b with pc := .popen }, { w with status := some (.indexing 0 0) })
    | .popen =>
      some ({ b with pc := .watch (w.clock + cfg.timeout), process := some .createDir }, w)
    | .writeReady => some ({ b with pc := .unlink }, { w with status := some .ready })
    | .writeError message =>
      some ({ b with pc := .unlink }, { w with status := some (.error message) })
    -- whatever lock is there by now
    | .unlink => some ({ b with pc := .done }, { w with lock := none })
    | .watch _ | .done | .died => none
  | .progress frame flows =>
    match b.pc with
    | .watch _ => some (b, { w with status := some (.indexing frame flows) })
    | _ => none
  | .exited output =>
    match b.pc with
    | .watch _ =>
      if b.alive then none
      else if b.succeeded then some ({ b with pc := .writeReady }, w)
      else some ({ b with pc := .writeError (failureText output) }, w)
    | _ => none
  | .expired =>
    match b.pc with
    | .watch deadline =>
      if deadline < w.clock then
        some ({ b.killed with
          pc := .writeError s!"indexing exceeded {cfg.timeout} seconds" }, w)
      else none
    | _ => none
  | .fail message =>
    match b.pc with
    | .writeIndexing => some ({ b with pc := .died }, w)
    -- the handler of the loop reports the exception; a running process is left to itself
    | .popen | .watch _ | .writeReady => some ({ b with pc := .writeError message }, w)
    -- `finally` runs whatever the handler raised; the error of an unlink is suppressed
    | .writeError _ => some ({ b with pc := .unlink }, w)
    | .unlink => some ({ b with pc := .done }, w)
    | .done | .died => none

/-! ## The system -/

/-- One step of the system. -/
def step (cfg : Config) (w : World) : Act → Option World
  | .begin => some { w with calls := w.calls ++ [.supported] }
  | .call i e => do
    let pc ← w.calls[i]?
    let (pc', w') ← callStep cfg w pc e
    some { w' with calls := w'.calls.set i pc' }
  | .build j e => do
    let b ← w.builds[j]?
    let (b', w') ← buildStep cfg w b e
    some { w' with builds := w'.builds.set j b' }
  | .scan j e => do
    let b ← w.builds[j]?
    let pc ← b.process
    let (pc', dir') ← scanStep cfg.source j (pc, w.dir) e
    some { w with dir := dir', builds := w.builds.set j { b with process := some pc' } }
  | .tick d => some { w with clock := w.clock + d }

/-- The world before the first request: any files, no party at work. -/
structure World.Fresh (w : World) : Prop where
  calls : w.calls = []
  builds : w.builds = []
  lock : ∀ l, w.lock = some l → l.id < w.nextLock

/-- Nothing on disk. -/
def World.empty : World := ⟨0, none, 0, none, .empty, [], []⟩

theorem World.fresh_empty : World.empty.Fresh where
  calls := rfl
  builds := rfl
  lock := fun _ hl => by cases hl

end PacketTrain.Lifecycle
