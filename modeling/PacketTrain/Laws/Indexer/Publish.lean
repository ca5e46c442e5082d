import PacketTrain.Indexer.Publish
import PacketTrain.Laws.Indexer.RoundTrip
import PacketTrain.Lib.System

/-!
# READY implies a complete pair

The files of an index directory, over every run of one scan process: any number of its operations,
stopped anywhere, each of them failing or not. `Facts` says what holds at each operation, `scanGo_facts`
and `scanStep_facts` that every event keeps it, and `publish_safe` reads the promises off.

READY is removed before anything else is touched and created after both files carry their final
names. So READY is never there beside a half-built pair. It can be there beside an error: creating it
is one operation, writing its text another, and the second can fail.
-/

namespace PacketTrain.Indexer

open Fallible

/-! ## The promises -/

/-- The two files are complete, and one scan of one capture wrote both. -/
structure Pair (source : Source) (id : Nat) (index : Index) (dir : IndexDir) : Prop where
  built : buildIndex source = .ok index
  refs : dir.refs = some ⟨id, index.refs⟩
  sqlite : dir.sqlite = some ⟨id, some index.manifest⟩

def CompletePair (dir : IndexDir) : Prop := ∃ source id index, Pair source id index dir

/-- The process has removed READY. -/
def Stage.pastRemoval : Stage → Bool
  | .createDir | .clearReady => false
  | _ => true

/-- The system of one scan process. -/
abbrev scanSystem (source : Source) (id : Nat) := scanStep source id

/-! ## The record loop, one record at a time -/

/-- The process is in the loop: what is left of the loop is what is left of the whole scan. The fuel
covers it, for a record takes sixteen bytes. -/
def Scanning (source : Source) (h : Header) (st : ScanState) : Prop :=
  readHeader source.bytes = .ok h ∧ ∃ ps fuel, source.bytes.length ≤ st.pos + 16 * fuel ∧
    ∀ qs last, scanLoop source.bytes h fuel st = .ok (qs, last) →
      scanLoop source.bytes h source.bytes.length .start = .ok (ps ++ qs, last)

/-- The loop has ended. -/
def Scanned (source : Source) (h : Header) (st : ScanState) : Prop :=
  ∃ ps, scanRecords source.bytes = .ok (h, ps, st)

theorem scanning_start {source : Source} {h : Header} (hh : readHeader source.bytes = .ok h) :
    Scanning source h .start := by
  refine ⟨hh, [], source.bytes.length, ?_, fun _ _ hl => hl⟩
  show source.bytes.length ≤ 24 + 16 * source.bytes.length
  omega

theorem scanning_step {source : Source} {h : Header} {st st' : ScanState} {p : Placement}
    (hs : Scanning source h st) (hin : st.pos + 16 ≤ source.bytes.length)
    (hr : scanRecord source.bytes h st = .ok (p, st')) : Scanning source h st' := by
  obtain ⟨hh, ps, fuel, hfuel, hrest⟩ := hs
  obtain ⟨packet, hread, -, hstep⟩ := scanRecord_ok hr
  have hpos := hstep.pos
  have hlen : p.record.len = 16 + p.record.incl := rfl
  obtain ⟨fuel, rfl⟩ : ∃ k, fuel = k + 1 := ⟨fuel - 1, by omega⟩
  refine ⟨hh, ps ++ [p], fuel, by omega, ?_⟩
  intro qs last hl
  have hloop : scanLoop source.bytes h (fuel + 1) st = .ok (p :: qs, last) := by
    unfold scanLoop
    rw [if_pos hin]
    show (scanRecord source.bytes h st >>= fun r => _) = _
    rw [hr]
    show (scanLoop source.bytes h fuel st' >>= fun r => _) = _
    rw [hl]
    rfl
  rw [hrest _ _ hloop, List.append_assoc, List.singleton_append]

theorem scanning_end {source : Source} {h : Header} {st : ScanState} (hs : Scanning source h st)
    (hin : ¬ st.pos + 16 ≤ source.bytes.length) : Scanned source h st := by
  obtain ⟨hh, ps, fuel, -, hrest⟩ := hs
  have hloop : scanLoop source.bytes h fuel st = .ok ([], st) := by
    unfold scanLoop
    rw [if_neg hin]
  refine ⟨ps, ?_⟩
  unfold scanRecords
  rw [hh]
  show (scanLoop source.bytes h source.bytes.length .start >>= fun r => _) = _
  rw [hrest _ _ hloop, List.append_nil]
  rfl

theorem Scanned.buildIndex {source : Source} {h : Header} {st : ScanState} {index : Index}
    (hs : Scanned source h st) (hf : finishIndex source h st = .ok index) :
    buildIndex source = .ok index ∧ index.refs = st.refs := by
  obtain ⟨ps, hs⟩ := hs
  constructor
  · unfold Indexer.buildIndex
    rw [hs]
    exact hf
  · unfold finishIndex at hf
    obtain ⟨rows, -, hf⟩ := bind_eq_ok.mp hf
    cases hf
    rfl

/-! ## What holds at each operation -/

/-- The temporary files hold the index. -/
structure Prepared (source : Source) (id : Nat) (index : Index) (dir : IndexDir) : Prop where
  built : buildIndex source = .ok index
  refsTmp : dir.refsTmp = some ⟨id, index.refs⟩
  sqliteTmp : dir.sqliteTmp = some ⟨id, some index.manifest⟩

/-- The references are published, the database is not. -/
structure HalfPublished (source : Source) (id : Nat) (index : Index) (dir : IndexDir) : Prop where
  built : buildIndex source = .ok index
  refs : dir.refs = some ⟨id, index.refs⟩
  sqliteTmp : dir.sqliteTmp = some ⟨id, some index.manifest⟩

/-- The references are complete in their temporary file. -/
structure Flushed (source : Source) (id : Nat) (h : Header) (st : ScanState) (dir : IndexDir) :
    Prop where
  scanned : Scanned source h st
  refsTmp : dir.refsTmp = some ⟨id, st.refs⟩

/-- What an error from an operation leaves. `before` is the directory the process started on. -/
def FailedAt (source : Source) (id : Nat) (before dir : IndexDir) (stage : Stage) : Prop :=
  if stage.pastRemoval then
    dir.ready = none ∨ stage = .writeReady ∧ ∃ index, Pair source id index dir
  else dir = before

/-- What holds when the process is about to do an operation, or has ended. -/
def Facts (source : Source) (id : Nat) (before dir : IndexDir) : ScanPc → Prop
  | .createDir | .clearReady => dir = before
  | .openSource => dir.ready = none
  | .createRefs h => dir.ready = none ∧ readHeader source.bytes = .ok h
  | .records h st => dir.ready = none ∧ Scanning source h st ∧ ∃ c, dir.refsTmp = some ⟨id, c⟩
  | .syncRefs h st => dir.ready = none ∧ Scanned source h st ∧ ∃ c, dir.refsTmp = some ⟨id, c⟩
  | .clearDbTmp h st | .openDb h st => dir.ready = none ∧ Flushed source id h st dir
  | .fillDb h st => dir.ready = none ∧ Flushed source id h st dir ∧ dir.sqliteTmp = some ⟨id, none⟩
  | .closeDb index | .clearRefs index | .clearDb index | .publishRefs index =>
    dir.ready = none ∧ Prepared source id index dir
  | .publishDb index => dir.ready = none ∧ HalfPublished source id index dir
  | .createReady index => dir.ready = none ∧ Pair source id index dir
  | .writeReady index | .returned index => dir.ready.isSome ∧ Pair source id index dir
  | .failed stage _ => FailedAt source id before dir stage
  | .killed => dir.ready = none ∨ dir = before ∨ ∃ index, Pair source id index dir

theorem writeRefs_refsTmp {dir : IndexDir} {id : Nat} {c content : Bytes}
    (h : dir.refsTmp = some ⟨id, c⟩) : (dir.writeRefs content).refsTmp = some ⟨id, content⟩ := by
  show dir.refsTmp.map (fun f => { f with content := content }) = _
  rw [h]
  rfl

theorem commit_sqliteTmp {dir : IndexDir} {id : Nat} {c : Database} {manifest : Manifest}
    (h : dir.sqliteTmp = some ⟨id, c⟩) :
    (dir.commit manifest).sqliteTmp = some ⟨id, some manifest⟩ := by
  show dir.sqliteTmp.map (fun f => { f with content := some manifest }) = _
  rw [h]
  rfl

variable {source : Source} {id : Nat} {before dir dir' : IndexDir} {pc pc' : ScanPc}

/-- An operation leads to what holds at the next one. -/
theorem scanGo_facts (hf : Facts source id before dir pc)
    (hgo : scanGo source id dir pc = some (pc', dir')) : Facts source id before dir' pc' := by
  cases pc with
  | createDir =>
    cases hgo
    exact hf
  | clearReady =>
    cases hgo
    rfl
  | openSource =>
    simp only [scanGo] at hgo
    cases hh : readHeader source.bytes with
    | error e =>
      rw [hh] at hgo
      cases hgo
      exact .inl hf
    | ok h =>
      rw [hh] at hgo
      cases hgo
      exact ⟨hf, hh⟩
  | createRefs h =>
    cases hgo
    exact ⟨hf.1, scanning_start hf.2, [], rfl⟩
  | records h st =>
    obtain ⟨hready, hscan, c, hc⟩ := hf
    simp only [scanGo] at hgo
    split at hgo
    · next hin =>
      cases hr : scanRecord source.bytes h st with
      | error e =>
        rw [hr] at hgo
        cases hgo
        exact .inl hready
      | ok next =>
        obtain ⟨p, st'⟩ := next
        rw [hr] at hgo
        cases hgo
        exact ⟨hready, scanning_step hscan hin hr, c, hc⟩
    · next hin =>
      cases hgo
      exact ⟨hready, scanning_end hscan hin, c, hc⟩
  | syncRefs h st =>
    obtain ⟨hready, hscan, c, hc⟩ := hf
    cases hgo
    exact ⟨hready, hscan, writeRefs_refsTmp hc⟩
  | clearDbTmp h st =>
    cases hgo
    exact ⟨hf.1, hf.2.scanned, hf.2.refsTmp⟩
  | openDb h st =>
    simp only [scanGo] at hgo
    cases ht : dir.sqliteTmp with
    | none =>
      rw [ht] at hgo
      cases hgo
      exact ⟨hf.1, ⟨hf.2.scanned, hf.2.refsTmp⟩, rfl⟩
    | some f =>
      rw [ht] at hgo
      cases hgo
      exact .inl hf.1
  | fillDb h st =>
    obtain ⟨hready, hflushed, ht⟩ := hf
    simp only [scanGo] at hgo
    cases hi : finishIndex source h st with
    | error e =>
      rw [hi] at hgo
      cases hgo
      exact .inl hready
    | ok index =>
      rw [hi] at hgo
      cases hgo
      obtain ⟨hbuilt, hrefs⟩ := hflushed.scanned.buildIndex hi
      exact ⟨hready, hbuilt, hrefs ▸ hflushed.refsTmp, commit_sqliteTmp ht⟩
  | closeDb index =>
    cases hgo
    exact hf
  | clearRefs index | clearDb index =>
    cases hgo
    exact ⟨hf.1, hf.2.built, hf.2.refsTmp, hf.2.sqliteTmp⟩
  | publishRefs index =>
    simp only [scanGo, hf.2.refsTmp] at hgo
    cases hgo
    exact ⟨hf.1, hf.2.built, rfl, hf.2.sqliteTmp⟩
  | publishDb index =>
    simp only [scanGo, hf.2.sqliteTmp] at hgo
    cases hgo
    exact ⟨hf.1, hf.2.built, hf.2.refs, rfl⟩
  | createReady index | writeReady index =>
    cases hgo
    exact ⟨rfl, hf.2.built, hf.2.refs, hf.2.sqlite⟩
  | returned _ | failed _ _ | killed => cases hgo

/-- What holds of a process that stops where it stands. -/
theorem Facts.stopped {stage : Stage} (hf : Facts source id before dir pc)
    (hstage : pc.stage = some stage) (error : ScanFailure) :
    Facts source id before dir (.failed stage error) ∧ Facts source id before dir .killed := by
  cases pc with
  | createDir | clearReady =>
    cases hstage
    exact ⟨hf, .inr (.inl hf)⟩
  | openSource =>
    cases hstage
    exact ⟨.inl hf, .inl hf⟩
  | writeReady index =>
    cases hstage
    exact ⟨.inr ⟨rfl, index, hf.2⟩, .inr (.inr ⟨index, hf.2⟩)⟩
  | createRefs _ | records _ _ | syncRefs _ _ | clearDbTmp _ _ | openDb _ _ | fillDb _ _
  | closeDb _ | clearRefs _ | clearDb _ | publishRefs _ | publishDb _ | createReady _ =>
    cases hstage
    exact ⟨.inl hf.1, .inl hf.1⟩
  | returned _ | failed _ _ | killed => cases hstage

/-- Every event keeps the facts. -/
theorem scanStep_facts {e : ScanEvent} (hf : Facts source id before dir pc)
    (hstep : scanStep source id (pc, dir) e = some (pc', dir')) :
    Facts source id before dir' pc' := by
  cases e with
  | go => exact scanGo_facts hf hstep
  | flush upTo =>
    cases pc with
    | records h st | syncRefs h st =>
      obtain ⟨hready, hscan, c, hc⟩ := hf
      cases hstep
      exact ⟨hready, hscan, _, writeRefs_refsTmp hc⟩
    | _ => cases hstep
  | fail =>
    obtain ⟨stage, hstage, heq⟩ := Option.map_eq_some_iff.mp hstep
    cases heq
    exact (hf.stopped hstage .io).1
  | kill =>
    obtain ⟨stage, hstage, heq⟩ := Option.map_eq_some_iff.mp hstep
    cases heq
    exact (hf.stopped hstage .io).2

/-- The facts hold wherever a run of the process gets. -/
theorem run_facts {events : List ScanEvent}
    (hrun : System.run (scanSystem source id) (.createDir, before) events = some (pc, dir)) :
    Facts source id before dir pc :=
  have hstart : Facts source id before before .createDir := rfl
  System.reachable_induction (fun s => Facts source id before s.2 s.1)
    (fun _ _ _ hf hstep => scanStep_facts hf hstep) hstart ⟨events, hrun⟩

/-! ## The law -/

/-- What READY and an error mean on a directory that a scan process worked on. -/
structure PublishSafe (source : Source) (id : Nat) (pc : ScanPc) (dir : IndexDir) : Prop where
  /-- READY implies a complete pair from one scan. -/
  ready : dir.ready.isSome → CompletePair dir
  /-- An error past the removal leaves no READY, short of the error of READY's own text. -/
  error : ∀ stage e, pc = .failed stage e → stage.pastRemoval → stage ≠ .writeReady →
    dir.ready = none
  /-- That error comes when this scan's pair is complete. -/
  written : ∀ e, pc = .failed .writeReady e → dir.ready.isSome → ∃ index, Pair source id index dir
  /-- A scan that returned has published its own pair. -/
  returned : ∀ index, pc = .returned index → dir.ready.isSome ∧ Pair source id index dir

theorem Facts.complete (hbefore : before.ready.isSome → CompletePair before)
    (hf : Facts source id before dir pc) (hready : dir.ready.isSome) : CompletePair dir := by
  have hnone : ¬ dir.ready = none := fun h => by
    rw [h] at hready
    cases hready
  cases pc with
  | createDir | clearReady =>
    cases hf
    exact hbefore hready
  | openSource => exact absurd hf hnone
  | writeReady index | returned index => exact ⟨source, id, index, hf.2⟩
  | failed stage e =>
    rw [Facts, FailedAt] at hf
    split at hf
    · rcases hf with hf | ⟨-, index, hpair⟩
      · exact absurd hf hnone
      · exact ⟨source, id, index, hpair⟩
    · cases hf
      exact hbefore hready
  | killed =>
    rcases hf with hf | rfl | ⟨index, hpair⟩
    · exact absurd hf hnone
    · exact hbefore hready
    · exact ⟨source, id, index, hpair⟩
  | createRefs _ | records _ _ | syncRefs _ _ | clearDbTmp _ _ | openDb _ _ | fillDb _ _
  | closeDb _ | clearRefs _ | clearDb _ | publishRefs _ | publishDb _ | createReady _ =>
    exact absurd hf.1 hnone

/-- CRASH CONSISTENCY: wherever a scan process is stopped, READY stands for a complete pair. -/
theorem publish_safe {events : List ScanEvent}
    (hbefore : before.ready.isSome → CompletePair before)
    (hrun : System.run (scanSystem source id) (.createDir, before) events = some (pc, dir)) :
    PublishSafe source id pc dir := by
  have hf := run_facts hrun
  refine ⟨hf.complete hbefore, ?_, ?_, ?_⟩
  · rintro stage e rfl hpast hne
    rw [Facts, FailedAt, if_pos hpast] at hf
    rcases hf with hf | ⟨hw, -⟩
    · exact hf
    · exact absurd hw hne
  · rintro e rfl hready
    rcases hf with hf | ⟨-, hpair⟩
    · rw [hf] at hready
      cases hready
    · exact hpair
  · rintro index rfl
    exact hf

/-- The failure a process ended with. -/
def ScanPc.failure : ScanPc → Option (Stage × ScanFailure)
  | .failed stage e => some (stage, e)
  | _ => none

/-- A scan that gets to the last write and fails there, on a full disk say: it returns an error and
READY is there. -/
theorem ready_beside_error :
    ∃ pc dir, System.run (scanSystem interleaved 0) (.createDir, .empty)
        (List.replicate 18 .go ++ [.fail]) = some (pc, dir) ∧
      pc.failure = some (.writeReady, .io) ∧ Stage.writeReady.pastRemoval = true ∧
      dir.ready.isSome = true := by
  have hrun : (System.run (scanSystem interleaved 0) (.createDir, .empty)
      (List.replicate 18 .go ++ [.fail])).map (fun s => (s.1.failure, s.2.ready.isSome)) =
        some (some (.writeReady, .io), true) := by decide +kernel
  obtain ⟨⟨pc, dir⟩, hs, heq⟩ := Option.map_eq_some_iff.mp hrun
  obtain ⟨hfailure, hready⟩ := Prod.mk.inj heq
  exact ⟨pc, dir, hs, hfailure, rfl, hready⟩

/-- The law at work: a rebuild over a ready index, killed between the two renames. -/
theorem publish_safe_rebuild :
    ∃ pc₁ first pc₂ last,
      System.run (scanSystem interleaved 0) (.createDir, .empty) (List.replicate 19 .go) =
        some (pc₁, first) ∧ first.ready.isSome = true ∧
      System.run (scanSystem interleaved 1) (.createDir, first)
        (List.replicate 16 .go ++ [.kill]) = some (pc₂, last) ∧
      last.refs.isSome = true ∧ last.ready = none ∧ PublishSafe interleaved 1 pc₂ last := by
  have hfirst : (System.run (scanSystem interleaved 0) (.createDir, .empty)
      (List.replicate 19 .go)).map (fun s => s.2.ready.isSome) = some true := by decide +kernel
  have hsecond : ((System.run (scanSystem interleaved 0) (.createDir, .empty)
      (List.replicate 19 .go)).bind fun s => System.run (scanSystem interleaved 1)
        (.createDir, s.2) (List.replicate 16 .go ++ [.kill])).map
          (fun s => (s.2.refs.isSome, s.2.ready)) = some (true, none) := by decide +kernel
  obtain ⟨⟨pc₁, first⟩, h₁, hready⟩ := Option.map_eq_some_iff.mp hfirst
  rw [h₁, Option.bind_some] at hsecond
  obtain ⟨⟨pc₂, last⟩, h₂, heq⟩ := Option.map_eq_some_iff.mp hsecond
  obtain ⟨hrefs, hlast⟩ := Prod.mk.inj heq
  have hbefore : first.ready.isSome → CompletePair first :=
    (publish_safe (fun h => absurd h (by decide)) h₁).ready
  exact ⟨pc₁, first, pc₂, last, h₁, hready, h₂, hrefs, hlast, publish_safe hbefore h₂⟩

end PacketTrain.Indexer
