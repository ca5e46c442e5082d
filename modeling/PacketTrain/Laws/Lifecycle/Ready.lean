import PacketTrain.Laws.Lifecycle.Exclusion

/-!
# A ready index

Once `is_ready` holds it keeps holding, in a run that meets three conditions: no lock is removed as
stale (`NoLockTimeout`, a build does not outlive its lock), no request takes the lock of an index that
is already ready (`TakesUnready`), and no build thread leaves its loop by an exception while its
indexer runs (`KeepsProcess`). `ReadyInv` is the invariant: while the index is ready, no party is on
its way to a scan, and a scan that is still running has nothing left but READY's text.

The second condition is the one that fails in an ordinary run. `request_index` tests readiness first
and takes the lock later; a build that publishes READY and drops its lock between the two leaves the
request a free lock and a stale answer. `rebuilt` is the run.
-/

namespace PacketTrain.Lifecycle

open Indexer

/-! ## The conditions -/

/-- No lock is removed as stale. -/
def NoLockTimeout (w : World) : Act → Prop
  | .call i .go => w.calls[i]? ≠ some .unlinkStale
  | _ => True

/-- A request creates the lock of an index that is not ready. -/
def TakesUnready (w : World) : Act → Prop
  | .call i .go => w.calls[i]? = some .create → w.lock = none → w.dir.isReady = false
  | _ => True

/-- A build thread does not leave a running indexer behind. -/
def KeepsProcess (w : World) : Act → Prop
  | .build j (.fail _) => ∀ b ∈ w.builds[j]?, b.alive = false
  | _ => True

/-- A step that meets the three. -/
def KeepsReady (w : World) (a : Act) : Prop := NoLockTimeout w a ∧ TakesUnready w a ∧ KeepsProcess w a

instance (w : World) : (a : Act) → Decidable (NoLockTimeout w a)
  | .call i .go => inferInstanceAs (Decidable (¬ w.calls[i]? = some .unlinkStale))
  | .call _ .fail | .begin | .build _ _ | .scan _ _ | .tick _ => .isTrue trivial

instance (w : World) : (a : Act) → Decidable (TakesUnready w a)
  | .call i .go => inferInstanceAs (Decidable
      (w.calls[i]? = some .create → w.lock = none → w.dir.isReady = false))
  | .call _ .fail | .begin | .build _ _ | .scan _ _ | .tick _ => .isTrue trivial

instance (w : World) (a : Act) : Decidable (KeepsProcess w a) := by
  unfold KeepsProcess
  split <;> infer_instance

instance (w : World) (a : Act) : Decidable (KeepsReady w a) := by
  unfold KeepsReady
  infer_instance

/-- The step starts a scan. -/
def StartsScan (w : World) (a : Act) : Prop :=
  ∃ j b, a = .build j .go ∧ w.builds[j]? = some b ∧ b.pc = .popen

/-! ## A scan and READY -/

/-- Between the removal of READY and its creation. -/
def Cleared (stage : Stage) : Prop :=
  stage ≠ .createDir ∧ stage ≠ .clearReady ∧ stage ≠ .writeReady

/-- The process has ended, or only the text of READY is left to write. -/
def Harmless (pc : ScanPc) : Prop := ∀ stage, pc.stage = some stage → stage = .writeReady

theorem harmless_ended {pc : ScanPc} (h : pc.stage = none) : Harmless pc := by
  intro stage hs
  exact nomatch h.symm.trans hs

theorem not_ready_of_none {dir : IndexDir} (h : dir.ready = none) : dir.isReady = false := by
  rw [IndexDir.isReady, h]
  rfl

/-- What a step of a scan does to READY, from a state where a scan past the removal has none. -/
structure ScanReady (pc : ScanPc) (dir : IndexDir) (pc' : ScanPc) (dir' : IndexDir) : Prop where
  cleared : ∀ stage, pc'.stage = some stage → Cleared stage → dir'.ready = none
  made : dir'.isReady = true → dir.isReady = true ∨ Harmless pc'
  last : Harmless pc → pc'.stage = none ∧ (dir.isReady = true → dir'.isReady = true)

theorem scanReady_of_absent {pc pc' : ScanPc} {dir dir' : IndexDir} (h : dir'.ready = none)
    (hlast : ¬ Harmless pc) : ScanReady pc dir pc' dir' where
  cleared := fun _ _ _ => h
  made := fun hready => nomatch (not_ready_of_none h).symm.trans hready
  last := fun hpc => absurd hpc hlast

theorem scanReady_ended {pc pc' : ScanPc} {dir : IndexDir} (h : pc'.stage = none) :
    ScanReady pc dir pc' dir where
  cleared := fun _ hs => nomatch h.symm.trans hs
  made := Or.inl
  last := fun _ => ⟨h, id⟩

theorem scanGo_ready {source : Source} {id : Nat} {pc pc' : ScanPc} {dir dir' : IndexDir}
    (hcleared : ∀ stage, pc.stage = some stage → Cleared stage → dir.ready = none)
    (h : scanGo source id dir pc = some (pc', dir')) : ScanReady pc dir pc' dir' := by
  have hnot : ∀ {stage}, pc.stage = some stage → stage ≠ .writeReady → ¬ Harmless pc :=
    fun hs hne hpc => hne (hpc _ hs)
  cases pc with
  | createDir =>
    cases h
    refine ⟨?_, Or.inl, fun hpc => absurd hpc (hnot rfl (by decide))⟩
    rintro stage hs ⟨-, hne, -⟩
    exact absurd (Option.some.inj hs).symm hne
  | clearReady =>
    cases h
    exact scanReady_of_absent rfl (hnot rfl (by decide))
  | writeReady index =>
    cases h
    refine ⟨(fun _ hs => nomatch hs), fun _ => .inr (harmless_ended rfl), fun _ => ⟨rfl, ?_⟩⟩
    intro hready
    simp only [IndexDir.isReady, Bool.and_eq_true] at hready ⊢
    exact ⟨⟨rfl, hready.1.2⟩, hready.2⟩
  | createReady index =>
    cases h
    refine ⟨?_, fun _ => .inr ?_, fun hpc => absurd hpc (hnot rfl (by decide))⟩
    · rintro stage hs ⟨-, -, hne⟩
      exact absurd (Option.some.inj hs).symm hne
    · intro stage hs
      exact (Option.some.inj hs).symm
  | returned _ | failed _ _ | killed => cases h
  | openSource | createRefs _ | records _ _ | syncRefs _ _ | clearDbTmp _ _ | openDb _ _
  | fillDb _ _ | closeDb _ | clearRefs _ | clearDb _ | publishRefs _ | publishDb _ =>
    refine scanReady_of_absent ?_ (hnot rfl (by decide))
    have hnone := hcleared _ rfl ⟨by decide, by decide, by decide⟩
    simp only [scanGo] at h
    repeat' split at h
    all_goals
      cases h
      exact hnone

theorem scanStep_ready {source : Source} {id : Nat} {pc pc' : ScanPc} {dir dir' : IndexDir}
    {e : ScanEvent} (hcleared : ∀ stage, pc.stage = some stage → Cleared stage → dir.ready = none)
    (h : scanStep source id (pc, dir) e = some (pc', dir')) : ScanReady pc dir pc' dir' := by
  cases e with
  | go => exact scanGo_ready hcleared h
  | flush upTo =>
    cases pc with
    | records _ _ | syncRefs _ _ =>
      have hnone := hcleared _ rfl ⟨by decide, by decide, by decide⟩
      cases h
      exact scanReady_of_absent hnone fun hpc => nomatch hpc _ rfl
    | _ => cases h
  | fail | kill =>
    obtain ⟨stage, -, heq⟩ := Option.map_eq_some_iff.mp h
    cases heq
    exact scanReady_ended rfl

/-! ## The invariant -/

/-- Nothing this build still does takes READY away. -/
structure Build.Settled (b : Build) : Prop where
  begun : b.pc ≠ .writeIndexing
  started : b.pc ≠ .popen
  process : ∀ pc, b.process = some pc → Harmless pc

structure ReadyInv (w : World) : Prop where
  exclusive : Lock.Exclusive w.lockState
  /-- A running indexer is watched. -/
  watched : ∀ (j : Nat) (b : Build), w.builds[j]? = some b → b.alive = true →
    ∃ deadline, b.pc = .watch deadline
  /-- READY is absent while a scan is between its removal and its creation. -/
  cleared : ∀ (j : Nat) (b : Build) (pc : ScanPc), w.builds[j]? = some b → b.process = some pc →
    ∀ stage, pc.stage = some stage → Cleared stage → w.dir.ready = none
  /-- While the index is ready, no party is on its way to a scan. -/
  calls : w.dir.isReady = true → ∀ i lock : Nat, w.calls[i]? ≠ some (.startThread lock)
  builds : w.dir.isReady = true → ∀ (j : Nat) (b : Build), w.builds[j]? = some b → b.Settled

theorem World.Fresh.readyInv {w : World} (h : w.Fresh) : ReadyInv w where
  exclusive := h.exclusive
  watched := fun j b hb => by
    rw [h.builds] at hb
    cases hb
  cleared := fun j b pc hb => by
    rw [h.builds] at hb
    cases hb
  calls := fun _ i lock hi => by
    rw [h.calls] at hi
    cases hi
  builds := fun _ j b hb => by
    rw [h.builds] at hb
    cases hb

variable {cfg : Config} {w w' : World}

/-- A process that does not run is harmless. -/
theorem harmless_of_not_alive {b : Build} (h : b.alive = false) {pc : ScanPc}
    (hpc : b.process = some pc) : Harmless pc := by
  rw [Build.alive, hpc, Option.bind_some] at h
  exact harmless_ended (Option.isSome_eq_false_iff.mp h |> Option.isNone_iff_eq_none.mp)

/-- Only a build thread in its loop has a running process. -/
theorem ReadyInv.not_alive (h : ReadyInv w) {j : Nat} {b : Build} (hb : w.builds[j]? = some b)
    (hpc : ∀ deadline, b.pc ≠ .watch deadline) : b.alive = false := by
  cases ha : b.alive with
  | false => rfl
  | true =>
    obtain ⟨deadline, hw⟩ := h.watched j b hb ha
    exact absurd hw (hpc deadline)

theorem ReadyInv.settled_of_finished (h : ReadyInv w) {j : Nat} {b : Build}
    (hb : w.builds[j]? = some b) (hfin : b.pc.unfinished = false) : b.Settled := by
  have hne : ∀ pc : BuildPc, pc.unfinished = true → b.pc ≠ pc := by
    rintro pc hpc rfl
    exact nomatch hfin.symm.trans hpc
  exact ⟨hne _ rfl, hne _ rfl,
    fun pc => harmless_of_not_alive (h.not_alive hb fun _ => hne _ rfl)⟩

/-- Beside an unfinished build there is no other party at work. -/
theorem ReadyInv.alone (h : ReadyInv w) {j : Nat} {b : Build} (hb : w.builds[j]? = some b)
    (hun : b.pc.unfinished = true) :
    (∀ i lock : Nat, w.calls[i]? ≠ some (.startThread lock)) ∧
      ∀ (k : Nat) (c : Build), k ≠ j → w.builds[k]? = some c → c.pc.unfinished = false := by
  have hj : w.holds (.build j) = some b.lock := by
    rw [holds_build hb, Build.holds, if_pos hun]
  constructor
  · intro i lock hi
    have hsame := h.exclusive.one (.call i) (.build j) lock b.lock (holds_call hi) hj
    cases hsame
  · intro k c hne hc
    cases hu : c.pc.unfinished with
    | false => rfl
    | true =>
      have hk : w.holds (.build k) = some c.lock := by
        rw [holds_build hc, Build.holds, if_pos hu]
      exact absurd (Party.build.inj (h.exclusive.one _ _ c.lock b.lock hk hj)) hne

/-! ### Steps -/

/-- A request's step that leaves the builds alone. -/
theorem ReadyInv.setCall (h : ReadyInv w) {i : Nat} {pc' : CallPc} {lock : Option LockFile}
    {nextLock : Nat}
    (hpc : w.dir.isReady = true → ∀ lock, pc' ≠ .startThread lock)
    (hex : Lock.Exclusive (World.lockState { w with
      lock := lock, nextLock := nextLock, calls := w.calls.set i pc' })) :
    ReadyInv { w with lock := lock, nextLock := nextLock, calls := w.calls.set i pc' } where
  exclusive := hex
  watched := h.watched
  cleared := h.cleared
  calls := by
    intro hready k l hk
    rcases getElem?_set_cases hk with ⟨-, heq⟩ | ⟨-, hk⟩
    · exact hpc hready l heq.symm
    · exact h.calls hready k l hk
  builds := h.builds

/-- A build thread's step. -/
theorem ReadyInv.setBuild (h : ReadyInv w) {j : Nat} {b' : Build} {lock : Option LockFile}
    {status : Option Status}
    (halive : b'.alive = true → ∃ deadline, b'.pc = .watch deadline)
    (hcleared : ∀ pc, b'.process = some pc → ∀ stage, pc.stage = some stage → Cleared stage →
      w.dir.ready = none)
    (hsettled : w.dir.isReady = true → b'.Settled)
    (hex : Lock.Exclusive (World.lockState { w with
      lock := lock, status := status, builds := w.builds.set j b' })) :
    ReadyInv { w with lock := lock, status := status, builds := w.builds.set j b' } := by
  have hcases : ∀ {k : Nat} {c : Build}, (w.builds.set j b')[k]? = some c →
      c = b' ∨ w.builds[k]? = some c := by
    intro k c hc
    rcases getElem?_set_cases hc with ⟨-, rfl⟩ | ⟨-, hc⟩
    · exact .inl rfl
    · exact .inr hc
  refine ⟨hex, ?_, ?_, h.calls, ?_⟩
  · intro k c hc ha
    rcases hcases hc with rfl | hc
    · exact halive ha
    · exact h.watched k c hc ha
  · intro k c pc hc hpc
    rcases hcases hc with rfl | hc
    · exact hcleared pc hpc
    · exact h.cleared k c pc hc hpc
  · intro hready k c hc
    rcases hcases hc with rfl | hc
    · exact hsettled hready
    · exact h.builds hready k c hc

theorem ReadyInv.call_step (h : ReadyInv w) {i : Nat} {e : CallEvent} {pc pc' : CallPc}
    (hpc : w.calls[i]? = some pc) (he : CallEffect cfg w e pc pc' w')
    (htakes : TakesUnready w (.call i e))
    (hex : Lock.Exclusive (World.lockState { w' with calls := w'.calls.set i pc' })) :
    ReadyInv { w' with calls := w'.calls.set i pc' } := by
  cases he with
  | reads _ _ _ _ hold' =>
    refine h.setCall (fun _ lock heq => ?_) hex
    rw [heq] at hold'
    cases hold'
  | removes => exact h.setCall (fun _ lock heq => nomatch heq) hex
  | creates hnone =>
    refine h.setCall (fun hready => ?_) hex
    rw [htakes hpc hnone] at hready
    cases hready
  | raises lock => exact h.setCall (fun _ _ heq => nomatch heq) hex
  | starts lock =>
    -- the request held the lock, so the index is not ready
    have hunready : ¬ w.dir.isReady = true := fun hready => h.calls hready i lock hpc
    have hcases : ∀ {k : Nat} {c : Build},
        (w.builds ++ [⟨lock, .writeIndexing, none⟩])[k]? = some c →
          c.process = none ∨ w.builds[k]? = some c := by
      intro k c hc
      rcases List.mem_append.mp (List.mem_of_getElem? hc) with hmem | hmem
      · rcases Nat.lt_or_ge k w.builds.length with hlt | hge
        · rw [List.getElem?_append_left hlt] at hc
          exact .inr hc
        · rw [List.getElem?_append_right hge] at hc
          have := List.mem_singleton.mp (List.mem_of_getElem? hc)
          exact .inl (by rw [this])
      · exact .inl (by rw [List.mem_singleton.mp hmem])
    refine ⟨hex, ?_, ?_, fun hready => absurd hready hunready, fun hready => absurd hready hunready⟩
    · intro k c hc ha
      rcases hcases hc with hnone | hc
      · rw [Build.alive, hnone] at ha
        cases ha
      · exact h.watched k c hc ha
    · intro k c pc hc hpc
      rcases hcases hc with hnone | hc
      · exact nomatch hnone.symm.trans hpc
      · exact h.cleared k c pc hc hpc

theorem ReadyInv.build_step (h : ReadyInv w) {j : Nat} {e : BuildEvent} {b b' : Build}
    (hb : w.builds[j]? = some b) (he : BuildEffect cfg w b e b' w')
    (hkeeps : KeepsProcess w (.build j e))
    (hex : Lock.Exclusive (World.lockState { w' with builds := w'.builds.set j b' })) :
    ReadyInv { w' with builds := w'.builds.set j b' } := by
  have hdead : ∀ {c : Build}, c.alive = false → ∀ pc, c.process = some pc → ∀ stage,
      pc.stage = some stage → Cleared stage → w.dir.ready = none := by
    intro c hc pc hpc stage hs hcl
    exact absurd (harmless_of_not_alive hc hpc stage hs) hcl.2.2
  have hawake : ∀ {c : Build}, c.alive = false → c.alive = true → ∃ deadline, c.pc = .watch deadline :=
    fun hc ha => nomatch hc.symm.trans ha
  cases he with
  | begins pc status hpc hnext =>
    have ha : b.alive = false := h.not_alive hb (by rw [hpc]; exact fun _ heq => nomatch heq)
    refine h.setBuild (hawake ha) (hdead ha) (fun hready => ?_) hex
    exact absurd hpc (h.builds hready j b hb).begun
  | popens hpc =>
    refine h.setBuild (fun _ => ⟨_, rfl⟩) ?_ (fun hready => ?_) hex
    · rintro pc ⟨⟩ stage ⟨⟩ hcl
      exact absurd rfl hcl.1
    · exact absurd hpc (h.builds hready j b hb).started
  | notStarted message hpc =>
    have ha : b.alive = false := h.not_alive hb (by rw [hpc]; exact fun _ heq => nomatch heq)
    refine h.setBuild (hawake ha) (hdead ha) (fun hready => ?_) hex
    exact absurd hpc (h.builds hready j b hb).started
  | progress deadline _ _ hpc =>
    exact h.setBuild (fun _ => ⟨deadline, hpc⟩) (h.cleared j b · hb) (h.builds · j b hb) hex
  | leaves deadline _ hpc hlock hclosing ha _ =>
    refine h.setBuild (hawake ha) (hdead ha) (fun _ => ⟨?_, ?_, ?_⟩) hex
    · intro heq
      rw [heq] at hclosing
      cases hclosing
    · intro heq
      rw [heq] at hclosing
      cases hclosing
    · exact fun pc => harmless_of_not_alive ha
  | abandons deadline message hpc hfail =>
    subst hfail
    have ha : b.alive = false := hkeeps b hb
    exact h.setBuild (hawake ha) (hdead ha)
      (fun _ => ⟨nofun, nofun, fun pc => harmless_of_not_alive ha⟩) hex
  | closes pc status hpc hnext =>
    have ha : b.alive = false := h.not_alive hb fun deadline heq => by
      rw [heq] at hpc
      cases hpc
    refine h.setBuild (hawake ha) (hdead ha) (fun _ => ⟨?_, ?_, ?_⟩) hex
    · rintro rfl
      rcases hnext with hnext | hnext <;> cases hnext
    · rintro rfl
      rcases hnext with hnext | hnext <;> cases hnext
    · exact fun pc => harmless_of_not_alive ha
  | unlocks hpc =>
    have ha : b.alive = false := h.not_alive hb (by rw [hpc]; exact fun _ heq => nomatch heq)
    exact h.setBuild (hawake ha) (hdead ha)
      (fun _ => ⟨nofun, nofun, fun pc => harmless_of_not_alive ha⟩) hex

/-- A process that takes a step is running. -/
theorem alive_of_scanStep {source : Source} {id : Nat} {pc pc' : ScanPc} {dir dir' : IndexDir}
    {e : ScanEvent} (h : scanStep source id (pc, dir) e = some (pc', dir')) :
    ∃ stage, pc.stage = some stage := by
  cases hs : pc.stage with
  | some stage => exact ⟨stage, rfl⟩
  | none =>
    cases pc with
    | returned _ | failed _ _ | killed => cases e <;> cases h
    | _ => cases hs

theorem ReadyInv.scan_step (h : ReadyInv w) {j : Nat} {e : ScanEvent} {b : Build} {pc pc' : ScanPc}
    {dir : IndexDir} (hb : w.builds[j]? = some b) (hpc : b.process = some pc)
    (hs : scanStep cfg.source j (pc, w.dir) e = some (pc', dir))
    (hex : Lock.Exclusive (World.lockState { w with
      dir := dir, builds := w.builds.set j { b with process := some pc' } })) :
    ReadyInv { w with dir := dir, builds := w.builds.set j { b with process := some pc' } } := by
  obtain ⟨stage, hstage⟩ := alive_of_scanStep hs
  have halive : b.alive = true := by
    rw [Build.alive, hpc, Option.bind_some, hstage]
    rfl
  obtain ⟨deadline, hwatch⟩ := h.watched j b hb halive
  obtain ⟨hcalls, hothers⟩ := h.alone hb (by rw [hwatch]; rfl)
  have hready := scanStep_ready (h.cleared j b pc hb hpc) hs
  refine ⟨hex, ?_, ?_, fun _ => hcalls, ?_⟩
  · intro k c hc ha
    rcases getElem?_set_cases hc with ⟨rfl, rfl⟩ | ⟨-, hc⟩
    · exact ⟨deadline, hwatch⟩
    · exact h.watched k c hc ha
  · intro k c q hc hq s hqs hcl
    rcases getElem?_set_cases hc with ⟨rfl, rfl⟩ | ⟨hne, hc⟩
    · cases hq
      exact hready.cleared s hqs hcl
    · have hdone := (h.settled_of_finished hc (hothers k c hne hc)).process q hq
      exact absurd (hdone s hqs) hcl.2.2
  · intro hnow k c hc
    rcases getElem?_set_cases hc with ⟨rfl, rfl⟩ | ⟨hne, hc⟩
    · refine ⟨(by rw [hwatch]; exact nofun), (by rw [hwatch]; exact nofun), ?_⟩
      rintro q ⟨⟩
      rcases hready.made hnow with hbefore | hharm
      · exact harmless_ended (hready.last ((h.builds hbefore k b hb).process pc hpc)).1
      · exact hharm
    · exact h.settled_of_finished hc (hothers k c hne hc)

/-- Every step that meets the conditions keeps the invariant. -/
theorem ReadyInv.step {a : Act} (h : ReadyInv w) (hg : KeepsReady w a)
    (hs : step cfg w a = some w') : ReadyInv w' := by
  have hspares : SparesHeldLock w a := by
    unfold SparesHeldLock
    split
    · exact fun hstale => absurd hstale hg.1
    · trivial
  have hex := h.exclusive.move (step_move hspares hs)
  cases step_effect hs with
  | begin =>
    refine ⟨hex, h.watched, h.cleared, ?_, h.builds⟩
    intro hready i lock hi
    rcases List.mem_append.mp (List.mem_of_getElem? hi) with hmem | hmem
    · obtain ⟨k, hk⟩ := List.mem_iff_getElem?.mp hmem
      exact h.calls hready k lock hk
    · cases List.mem_singleton.mp hmem
  | call i e pc pc' _ hpc hcall => exact h.call_step hpc (callStep_effect hcall) hg.2.1 hex
  | build j e b b' _ hb hbuild => exact h.build_step hb (buildStep_effect hbuild) hg.2.2 hex
  | scan j e b pc pc' dir hb hpc hscan => exact h.scan_step hb hpc hscan hex
  | tick d => exact ⟨hex, h.watched, h.cleared, h.calls, h.builds⟩

/-- A step from a ready index leaves it ready, and starts no scan. -/
theorem ReadyInv.stays {a : Act} (h : ReadyInv w) (hready : w.dir.isReady = true)
    (hs : Lifecycle.step cfg w a = some w') : w'.dir.isReady = true ∧ ¬ StartsScan w a := by
  constructor
  · cases step_effect hs with
    | begin | tick _ => exact hready
    | call i e pc pc' _ hpc hcall =>
      cases callStep_effect hcall <;> exact hready
    | build j e b b' _ hb hbuild =>
      cases buildStep_effect hbuild <;> exact hready
    | scan j e b pc pc' dir hb hpc hscan =>
      have hharm := (h.builds hready j b hb).process pc hpc
      exact ((scanStep_ready (h.cleared j b pc hb hpc) hscan).last hharm).2 hready
  · rintro ⟨j, b, rfl, hb, hpc⟩
    exact (h.builds hready j b hb).started hpc

/-! ## The law -/

/-- A READY INDEX STAYS READY: from a state of the run where `is_ready` holds, it holds at the end, and
no step in between starts a scan. -/
theorem ready_stays {w₀ : World} {before after : List Act} (hfresh : w₀.Fresh)
    (hguard : System.Along (step cfg) KeepsReady w₀ (before ++ after))
    (hbefore : System.run (step cfg) w₀ before = some w) (hready : w.dir.isReady = true)
    (hafter : System.run (step cfg) w after = some w') :
    w'.dir.isReady = true ∧ System.Along (step cfg) (fun v a => ¬ StartsScan v a) w after := by
  obtain ⟨hfirst, hlast⟩ := System.along_append hbefore hguard
  have hinv : ReadyInv w :=
    System.along_induction ReadyInv (fun _ _ _ h hg hs => h.step hg hs) hfresh.readyInv hfirst hbefore
  have hstep : ∀ v a v', ReadyInv v ∧ v.dir.isReady = true → KeepsReady v a →
      step cfg v a = some v' → (ReadyInv v' ∧ v'.dir.isReady = true) ∧ ¬ StartsScan v a := by
    rintro v a v' ⟨hv, hr⟩ hg hs
    obtain ⟨hr', hno⟩ := hv.stays hr hs
    exact ⟨⟨hv.step hg hs, hr'⟩, hno⟩
  constructor
  · have hend := System.along_induction (fun v => ReadyInv v ∧ v.dir.isReady = true)
      (fun v a v' h hg hs => (hstep v a v' h hg hs).1) ⟨hinv, hready⟩ hlast hafter
    exact hend.2
  · exact System.along_of_invariant hstep ⟨hinv, hready⟩ hlast hafter

/-- A build from its indexer's first operation to its own end. -/
def finishBuild (j : Nat) : List Act :=
  List.replicate 16 (.scan j .go) ++ [.build j (.exited "")] ++ List.replicate 2 (.build j .go)

/-- The law at work: a request after the build, then another that finds the index ready. -/
theorem ready_stays_request :
    ∃ w w', System.run (step (config headerOnly)) .empty
        (firstRequest 0 ++ popenBuild 0 ++ finishBuild 0) = some w ∧
      System.run (step (config headerOnly)) w (.begin :: List.replicate 4 (.call 1 .go)) =
        some w' ∧
      w'.calls = [.answered .started, .answered .ready] ∧
      w'.dir.isReady = true ∧ System.Along (step (config headerOnly))
        (fun v a => ¬ StartsScan v a) w (.begin :: List.replicate 4 (.call 1 .go)) := by
  have hrun : (System.run (step (config headerOnly)) .empty
      (firstRequest 0 ++ popenBuild 0 ++ finishBuild 0)).map (·.dir.isReady) = some true := by
    decide +kernel
  have hend : ((System.run (step (config headerOnly)) .empty
      (firstRequest 0 ++ popenBuild 0 ++ finishBuild 0)).bind fun w =>
        System.run (step (config headerOnly)) w (.begin :: List.replicate 4 (.call 1 .go))).map
          World.calls = some [.answered .started, .answered .ready] := by decide +kernel
  obtain ⟨w, hw, hready⟩ := Option.map_eq_some_iff.mp hrun
  rw [hw, Option.bind_some] at hend
  obtain ⟨w', hw', hcalls⟩ := Option.map_eq_some_iff.mp hend
  have hlaw := ready_stays World.fresh_empty (by decide +kernel) hw hready hw'
  exact ⟨w, w', hw, hw', hcalls, hlaw⟩

/-- A request that tested readiness before the build published, and takes the lock after the build
dropped it: the index was ready, no lock was stale, and a second scan removes READY. -/
theorem rebuilt :
    ∃ w w', System.run (step (config headerOnly)) .empty
        (firstRequest 0 ++ popenBuild 0 ++ .begin :: List.replicate 2 (.call 1 .go) ++
          finishBuild 0) = some w ∧
      System.run (step (config headerOnly)) w
        (List.replicate 4 (.call 1 .go) ++ popenBuild 1 ++ List.replicate 2 (.scan 1 .go)) =
          some w' ∧
      System.Along (step (config headerOnly)) NoLockTimeout .empty
        ((firstRequest 0 ++ popenBuild 0 ++ .begin :: List.replicate 2 (.call 1 .go) ++
          finishBuild 0) ++
          (List.replicate 4 (.call 1 .go) ++ popenBuild 1 ++ List.replicate 2 (.scan 1 .go))) ∧
      w.dir.isReady = true ∧ w'.dir.isReady = false := by
  have hrun : (System.run (step (config headerOnly)) .empty
      (firstRequest 0 ++ popenBuild 0 ++ .begin :: List.replicate 2 (.call 1 .go) ++
        finishBuild 0)).map (·.dir.isReady) = some true := by decide +kernel
  have hend : ((System.run (step (config headerOnly)) .empty
      (firstRequest 0 ++ popenBuild 0 ++ .begin :: List.replicate 2 (.call 1 .go) ++
        finishBuild 0)).bind fun w => System.run (step (config headerOnly)) w
          (List.replicate 4 (.call 1 .go) ++ popenBuild 1 ++
            List.replicate 2 (.scan 1 .go))).map (·.dir.isReady) = some false := by decide +kernel
  obtain ⟨w, hw, hready⟩ := Option.map_eq_some_iff.mp hrun
  rw [hw, Option.bind_some] at hend
  obtain ⟨w', hw', hunready⟩ := Option.map_eq_some_iff.mp hend
  exact ⟨w, w', hw, hw', by decide +kernel, hready, hunready⟩

end PacketTrain.Lifecycle
