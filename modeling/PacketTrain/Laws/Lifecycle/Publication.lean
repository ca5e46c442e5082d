import PacketTrain.Laws.Indexer.Publish
import PacketTrain.Laws.Lifecycle.Ready
import PacketTrain.Lifecycle.Serve

/-!
# One directory, many scans

`Laws.Indexer.Publish` follows one scan process over its directory. Here the directory is the one all
builds share, in any order of steps, with processes killed, threads failing and readers opening files.
`Genuine` is what the two published files are whenever they are there, READY or not: this capture's own
index. `PublishInv` carries it through the lifecycle: at most one process runs, and what
`Laws.Indexer.Publish` says of it holds of the shared directory. `PublishInv.step` and
`PublishInv.openDb` keep it.
-/

namespace PacketTrain.Lifecycle

open Indexer

/-! ## The files -/

/-- The published files hold this capture's index. A database can also be one that has no table. -/
structure Genuine (source : Source) (dir : IndexDir) : Prop where
  refs : ∀ f, dir.refs = some f → ∃ index, buildIndex source = .ok index ∧ f.content = index.refs
  sqlite : ∀ f manifest, dir.sqlite = some f → f.content = some manifest →
    ∃ index, buildIndex source = .ok index ∧ manifest = index.manifest

/-- A capture has one index. -/
theorem index_unique {source : Source} {a b : Index} (ha : buildIndex source = .ok a)
    (hb : buildIndex source = .ok b) : a = b :=
  Except.ok.inj (ha.symm.trans hb)

theorem Genuine.query {source : Source} {dir : IndexDir} (h : Genuine source dir)
    {manifest : Manifest} (hm : dir.query = some manifest) :
    ∃ index, buildIndex source = .ok index ∧ manifest = index.manifest := by
  obtain ⟨f, hf, hcontent⟩ := Option.bind_eq_some_iff.mp hm
  exact h.sqlite f manifest hf hcontent

/-- A complete pair of genuine files is this capture's. -/
theorem Genuine.pair {source : Source} {dir : IndexDir} (h : Genuine source dir)
    (hpair : CompletePair dir) : ∃ id index, Pair source id index dir := by
  obtain ⟨_, id, index, hp⟩ := hpair
  obtain ⟨own, hown, hrefs⟩ := h.refs _ hp.refs
  obtain ⟨own', hown', hmanifest⟩ := h.sqlite _ _ hp.sqlite rfl
  cases index_unique hown hown'
  refine ⟨id, own, hown, ?_, ?_⟩
  · rw [hp.refs, show index.refs = own.refs from hrefs]
  · rw [hp.sqlite, hmanifest]

/-- Only the two renames put a file under its final name, and then it is complete. -/
theorem scanGo_genuine {source : Source} {id : Nat} {before dir dir' : IndexDir} {pc pc' : ScanPc}
    (hf : Facts source id before dir pc) (h : Genuine source dir)
    (hgo : scanGo source id dir pc = some (pc', dir')) : Genuine source dir' := by
  cases pc with
  | publishRefs index =>
    simp only [scanGo, hf.2.refsTmp] at hgo
    cases hgo
    refine ⟨?_, h.sqlite⟩
    rintro f ⟨⟩
    exact ⟨index, hf.2.built, rfl⟩
  | publishDb index =>
    simp only [scanGo, hf.2.sqliteTmp] at hgo
    cases hgo
    refine ⟨h.refs, ?_⟩
    rintro f manifest ⟨⟩ ⟨⟩
    exact ⟨index, hf.2.built, rfl⟩
  | clearRefs index =>
    cases hgo
    refine ⟨?_, h.sqlite⟩
    rintro f ⟨⟩
  | clearDb index =>
    cases hgo
    refine ⟨h.refs, ?_⟩
    rintro f manifest ⟨⟩
  | returned _ | failed _ _ | killed => cases hgo
  | createDir | clearReady | openSource | createRefs _ | records _ _ | syncRefs _ _ | clearDbTmp _ _
  | openDb _ _ | fillDb _ _ | closeDb _ | createReady _ | writeReady _ =>
    simp only [scanGo] at hgo
    repeat' split at hgo
    all_goals
      cases hgo
      exact ⟨h.refs, h.sqlite⟩

theorem scanStep_genuine {source : Source} {id : Nat} {before dir dir' : IndexDir}
    {pc pc' : ScanPc} {e : ScanEvent} (hf : Facts source id before dir pc) (h : Genuine source dir)
    (hs : scanStep source id (pc, dir) e = some (pc', dir')) : Genuine source dir' := by
  cases e with
  | go => exact scanGo_genuine hf h hs
  | flush upTo =>
    cases pc with
    | records _ _ | syncRefs _ _ =>
      cases hs
      exact ⟨h.refs, h.sqlite⟩
    | _ => cases hs
  | fail | kill =>
    obtain ⟨stage, -, heq⟩ := Option.map_eq_some_iff.mp hs
    cases heq
    exact h

/-! ## A database opened beside a scan -/

theorem openDb_of_pair {source : Source} {id : Nat} {index : Index} {dir : IndexDir}
    (h : Pair source id index dir) : dir.openDb = dir := by
  rw [IndexDir.openDb, h.sqlite]
  rfl

theorem openDb_ready (dir : IndexDir) : dir.openDb.ready = dir.ready := by
  unfold IndexDir.openDb
  split <;> rfl

theorem openDb_refs (dir : IndexDir) : dir.openDb.refs = dir.refs := by
  unfold IndexDir.openDb
  split <;> rfl

theorem openDb_refsTmp (dir : IndexDir) : dir.openDb.refsTmp = dir.refsTmp := by
  unfold IndexDir.openDb
  split <;> rfl

theorem openDb_sqliteTmp (dir : IndexDir) : dir.openDb.sqliteTmp = dir.sqliteTmp := by
  unfold IndexDir.openDb
  split <;> rfl

theorem Genuine.openDb {source : Source} {dir : IndexDir} (h : Genuine source dir) :
    Genuine source dir.openDb := by
  refine ⟨fun f hf => h.refs f (openDb_refs dir ▸ hf), fun f manifest hf hcontent => ?_⟩
  unfold IndexDir.openDb at hf
  split at hf
  · exact h.sqlite f manifest hf hcontent
  · cases hf
    cases hcontent

/-- READY, where it is, stands for a complete pair; so opening the database changes nothing there. -/
theorem complete_openDb {dir : IndexDir} (h : dir.ready.isSome → CompletePair dir) :
    dir.openDb.ready.isSome → CompletePair dir.openDb := by
  intro hready
  rw [openDb_ready] at hready
  obtain ⟨source, id, index, hp⟩ := h hready
  rw [openDb_of_pair hp]
  exact ⟨source, id, index, hp⟩

/-- The database a scan finds may have been opened by a reader meanwhile. -/
theorem facts_openDb {source : Source} {id : Nat} {before dir : IndexDir} {pc : ScanPc}
    (hbefore : before.ready.isSome → CompletePair before) (hf : Facts source id before dir pc) :
    ∃ before', (before'.ready.isSome → CompletePair before') ∧
      Facts source id before' dir.openDb pc := by
  have hpair : ∀ {index}, Pair source id index dir → Pair source id index dir.openDb := by
    intro index hp
    rw [openDb_of_pair hp]
    exact hp
  have hnone : dir.ready = none → dir.openDb.ready = none := (openDb_ready dir).trans
  cases pc with
  | createDir | clearReady =>
    cases hf
    exact ⟨before.openDb, complete_openDb hbefore, rfl⟩
  | failed stage e =>
    rw [Facts, FailedAt] at hf
    split at hf
    · next hpast =>
      refine ⟨before, hbefore, ?_⟩
      rw [Facts, FailedAt, if_pos hpast]
      rcases hf with hf | ⟨hstage, index, hp⟩
      · exact .inl (hnone hf)
      · exact .inr ⟨hstage, index, hpair hp⟩
    · next hpast =>
      cases hf
      refine ⟨before.openDb, complete_openDb hbefore, ?_⟩
      rw [Facts, FailedAt, if_neg hpast]
  | killed =>
    rcases hf with hf | rfl | ⟨index, hp⟩
    · exact ⟨before, hbefore, .inl (hnone hf)⟩
    · exact ⟨dir.openDb, complete_openDb hbefore, .inr (.inl rfl)⟩
    · exact ⟨before, hbefore, .inr (.inr ⟨index, hpair hp⟩)⟩
  | openSource => exact ⟨before, hbefore, hnone hf⟩
  | createRefs h => exact ⟨before, hbefore, hnone hf.1, hf.2⟩
  | records h st | syncRefs h st =>
    refine ⟨before, hbefore, hnone hf.1, hf.2.1, ?_⟩
    rw [openDb_refsTmp]
    exact hf.2.2
  | clearDbTmp h st | openDb h st =>
    refine ⟨before, hbefore, hnone hf.1, hf.2.scanned, ?_⟩
    rw [openDb_refsTmp]
    exact hf.2.refsTmp
  | fillDb h st =>
    refine ⟨before, hbefore, hnone hf.1, ⟨hf.2.1.scanned, ?_⟩, ?_⟩
    · rw [openDb_refsTmp]
      exact hf.2.1.refsTmp
    · rw [openDb_sqliteTmp]
      exact hf.2.2
  | closeDb index | clearRefs index | clearDb index | publishRefs index =>
    refine ⟨before, hbefore, hnone hf.1, hf.2.built, ?_, ?_⟩
    · rw [openDb_refsTmp]
      exact hf.2.refsTmp
    · rw [openDb_sqliteTmp]
      exact hf.2.sqliteTmp
  | publishDb index =>
    refine ⟨before, hbefore, hnone hf.1, hf.2.built, ?_, ?_⟩
    · rw [openDb_refs]
      exact hf.2.refs
    · rw [openDb_sqliteTmp]
      exact hf.2.sqliteTmp
  | createReady index => exact ⟨before, hbefore, hnone hf.1, hpair hf.2⟩
  | writeReady index | returned index =>
    refine ⟨before, hbefore, ?_, hpair hf.2⟩
    rw [openDb_ready]
    exact hf.1

/-! ## The shared directory -/

/-- What holds of a running process: the facts of its next operation, over some directory it started
on. -/
def Proceeds (source : Source) (id : Nat) (dir : IndexDir) (pc : ScanPc) : Prop :=
  ∃ before, (before.ready.isSome → CompletePair before) ∧ Facts source id before dir pc

structure PublishInv (source : Source) (w : World) : Prop where
  exclusive : Lock.Exclusive w.lockState
  /-- A running indexer is watched. -/
  watched : ∀ (j : Nat) (b : Build), w.builds[j]? = some b → b.alive = true →
    ∃ deadline, b.pc = .watch deadline
  ready : w.dir.ready.isSome → CompletePair w.dir
  files : Genuine source w.dir
  running : ∀ (j : Nat) (b : Build) (pc : ScanPc), w.builds[j]? = some b → b.process = some pc →
    pc.stage.isSome → Proceeds source j w.dir pc

/-- The step takes no lock of a party at work for stale, and leaves no running indexer behind. -/
def Undisturbed (w : World) (a : Act) : Prop := SparesHeldLock w a ∧ KeepsProcess w a

instance (w : World) (a : Act) : Decidable (Undisturbed w a) := by
  unfold Undisturbed
  infer_instance

theorem World.Fresh.publishInv {source : Source} {w : World} (h : w.Fresh)
    (hready : w.dir.ready.isSome → CompletePair w.dir) (hfiles : Genuine source w.dir) :
    PublishInv source w where
  exclusive := h.exclusive
  watched := fun j b hb => by
    rw [h.builds] at hb
    cases hb
  ready := hready
  files := hfiles
  running := fun j b pc hb => by
    rw [h.builds] at hb
    cases hb

variable {cfg : Config} {w w' : World}

theorem alive_of_stage {b : Build} {pc : ScanPc} (hpc : b.process = some pc)
    (h : pc.stage.isSome) : b.alive = true := by
  rw [Build.alive, hpc, Option.bind_some]
  exact h

/-- The process of a build that is not in its loop has ended. -/
theorem PublishInv.not_alive {source : Source} (h : PublishInv source w) {j : Nat} {b : Build}
    (hb : w.builds[j]? = some b) (hpc : ∀ deadline, b.pc ≠ .watch deadline) : b.alive = false := by
  cases ha : b.alive with
  | false => rfl
  | true =>
    obtain ⟨deadline, hw⟩ := h.watched j b hb ha
    exact absurd hw (hpc deadline)

/-- Beside a watched process no other runs. -/
theorem PublishInv.alone {source : Source} (h : PublishInv source w) {j k : Nat} {b c : Build}
    (hb : w.builds[j]? = some b) (hc : w.builds[k]? = some c) (hbpc : b.pc.unfinished = true)
    (ha : c.alive = true) : k = j := by
  obtain ⟨deadline, hw⟩ := h.watched k c hc ha
  have hj : w.holds (.build j) = some b.lock := by
    rw [holds_build hb, Build.holds, if_pos hbpc]
  have hk : w.holds (.build k) = some c.lock := by
    rw [holds_build hc, Build.holds, hw]
    rfl
  exact Party.build.inj (h.exclusive.one _ _ c.lock b.lock hk hj)

/-! ### Steps -/

/-- A build thread's step: the directory stays, and so do the other processes. -/
theorem PublishInv.setBuild {source : Source} (h : PublishInv source w) {j : Nat} {b' : Build}
    {lock : Option LockFile} {status : Option Status}
    (halive : b'.alive = true → ∃ deadline, b'.pc = .watch deadline)
    (hrun : ∀ pc, b'.process = some pc → pc.stage.isSome → Proceeds source j w.dir pc)
    (hex : Lock.Exclusive (World.lockState { w with
      lock := lock, status := status, builds := w.builds.set j b' })) :
    PublishInv source { w with lock := lock, status := status, builds := w.builds.set j b' } := by
  refine ⟨hex, ?_, h.ready, h.files, ?_⟩
  · intro k c hc ha
    rcases getElem?_set_cases hc with ⟨rfl, rfl⟩ | ⟨-, hc⟩
    · exact halive ha
    · exact h.watched k c hc ha
  · intro k c pc hc hpc hstage
    rcases getElem?_set_cases hc with ⟨rfl, rfl⟩ | ⟨-, hc⟩
    · exact hrun pc hpc hstage
    · exact h.running k c pc hc hpc hstage

theorem PublishInv.build_step (h : PublishInv cfg.source w) {j : Nat} {e : BuildEvent}
    {b b' : Build} (hb : w.builds[j]? = some b) (he : BuildEffect cfg w b e b' w')
    (hkeeps : KeepsProcess w (.build j e))
    (hex : Lock.Exclusive (World.lockState { w' with builds := w'.builds.set j b' })) :
    PublishInv cfg.source { w' with builds := w'.builds.set j b' } := by
  -- a build whose process has ended asks nothing of the directory
  have hdead : ∀ {c : Build} {lock : Option LockFile} {status : Option Status}, c.alive = false →
      Lock.Exclusive (World.lockState { w with
        lock := lock, status := status, builds := w.builds.set j c }) →
      PublishInv cfg.source { w with lock := lock, status := status, builds := w.builds.set j c } := by
    intro c lock status hc hex
    refine h.setBuild (fun ha => absurd (hc.symm.trans ha) Bool.false_ne_true) ?_ hex
    intro pc hpc hstage
    exact absurd (hc.symm.trans (alive_of_stage hpc hstage)) Bool.false_ne_true
  cases he with
  | begins _ _ hpc _ | closes _ _ hpc _ | notStarted _ hpc | unlocks hpc =>
    have ha : b.alive = false := h.not_alive hb fun deadline heq => by
      rw [heq] at hpc
      cases hpc
    exact hdead ha hex
  | popens hpc =>
    refine h.setBuild (fun _ => ⟨_, rfl⟩) ?_ hex
    rintro pc ⟨⟩ -
    exact ⟨w.dir, h.ready, rfl⟩
  | progress deadline _ _ hpc =>
    exact h.setBuild (fun _ => ⟨deadline, hpc⟩) (h.running j b · hb) hex
  | leaves deadline _ hpc _ _ ha _ => exact hdead ha hex
  | abandons deadline message hpc hfail =>
    subst hfail
    have ha : b.alive = false := hkeeps b hb
    exact hdead ha hex

theorem PublishInv.call_step (h : PublishInv cfg.source w) {i : Nat} {e : CallEvent}
    {pc pc' : CallPc} (he : CallEffect cfg w e pc pc' w')
    (hex : Lock.Exclusive (World.lockState { w' with calls := w'.calls.set i pc' })) :
    PublishInv cfg.source { w' with calls := w'.calls.set i pc' } := by
  cases he with
  | reads | removes | creates _ | raises _ => exact ⟨hex, h.watched, h.ready, h.files, h.running⟩
  | starts lock =>
    have hcases : ∀ {k : Nat} {c : Build},
        (w.builds ++ [⟨lock, .writeIndexing, none⟩])[k]? = some c →
          c.process = none ∨ w.builds[k]? = some c := by
      intro k c hc
      rcases Nat.lt_or_ge k w.builds.length with hlt | hge
      · rw [List.getElem?_append_left hlt] at hc
        exact .inr hc
      · rw [List.getElem?_append_right hge] at hc
        rw [List.mem_singleton.mp (List.mem_of_getElem? hc)]
        exact .inl rfl
    refine ⟨hex, ?_, h.ready, h.files, ?_⟩
    · intro k c hc ha
      rcases hcases hc with hnone | hc
      · rw [Build.alive, hnone] at ha
        cases ha
      · exact h.watched k c hc ha
    · intro k c pc hc hpc hstage
      rcases hcases hc with hnone | hc
      · rw [hnone] at hpc
        cases hpc
      · exact h.running k c pc hc hpc hstage

theorem PublishInv.scan_step (h : PublishInv cfg.source w) {j : Nat} {e : ScanEvent} {b : Build}
    {pc pc' : ScanPc} {dir : IndexDir} (hb : w.builds[j]? = some b) (hpc : b.process = some pc)
    (hs : scanStep cfg.source j (pc, w.dir) e = some (pc', dir))
    (hex : Lock.Exclusive (World.lockState { w with
      dir := dir, builds := w.builds.set j { b with process := some pc' } })) :
    PublishInv cfg.source { w with
      dir := dir, builds := w.builds.set j { b with process := some pc' } } := by
  obtain ⟨stage, hstage⟩ := alive_of_scanStep hs
  have hsome : pc.stage.isSome := by
    rw [hstage]
    rfl
  have halive : b.alive = true := alive_of_stage hpc hsome
  obtain ⟨deadline, hwatch⟩ := h.watched j b hb halive
  obtain ⟨before, hbefore, hfacts⟩ := h.running j b pc hb hpc hsome
  have hfacts' := scanStep_facts hfacts hs
  refine ⟨hex, ?_, hfacts'.complete hbefore, scanStep_genuine hfacts h.files hs, ?_⟩
  · intro k c hc ha
    rcases getElem?_set_cases hc with ⟨rfl, rfl⟩ | ⟨-, hc⟩
    · exact ⟨deadline, hwatch⟩
    · exact h.watched k c hc ha
  · intro k c q hc hq hqs
    rcases getElem?_set_cases hc with ⟨rfl, rfl⟩ | ⟨hne, hc⟩
    · cases hq
      exact ⟨before, hbefore, hfacts'⟩
    · have hsame := h.alone hb hc (by rw [hwatch]; rfl) (alive_of_stage hq hqs)
      exact absurd hsame hne

/-- Every such step keeps the invariant. -/
theorem PublishInv.step {a : Act} (h : PublishInv cfg.source w) (hg : Undisturbed w a)
    (hs : step cfg w a = some w') : PublishInv cfg.source w' := by
  have hex := h.exclusive.move (step_move hg.1 hs)
  cases step_effect hs with
  | begin | tick _ => exact ⟨hex, h.watched, h.ready, h.files, h.running⟩
  | call i e pc pc' _ _ hcall => exact h.call_step (callStep_effect hcall) hex
  | build j e b b' _ hb hbuild => exact h.build_step hb (buildStep_effect hbuild) hg.2 hex
  | scan j e b pc pc' dir hb hpc hscan => exact h.scan_step hb hpc hscan hex

/-- So does a reader that opens the database. -/
theorem PublishInv.openDb {source : Source} (h : PublishInv source w) :
    PublishInv source { w with dir := w.dir.openDb } where
  exclusive := h.exclusive
  watched := h.watched
  ready := complete_openDb h.ready
  files := h.files.openDb
  running := by
    intro j b pc hb hpc hstage
    obtain ⟨before, hbefore, hfacts⟩ := h.running j b pc hb hpc hstage
    exact facts_openDb hbefore hfacts

end PacketTrain.Lifecycle
