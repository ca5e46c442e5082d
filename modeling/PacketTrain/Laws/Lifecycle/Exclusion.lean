import PacketTrain.Laws.Lifecycle.Steps

/-!
# Mutual exclusion of builds

The lifecycle runs the lock protocol: `step_move` maps every step to a move of `Lock.Move`, as long as
no request removes, as stale, the lock of a party that is still at work. `mutual_exclusion` carries
exclusion over every run of such steps.

The condition is needed. A lock is stale once it is older than `INDEX_TIMEOUT`, and a build can be
older than that: its deadline starts later than its lock, and is tested only between two lines of the
indexer's standard error. `two_builds` is the run.
-/

namespace PacketTrain.Lifecycle

open Indexer

/-! ## Every step is a move -/

variable {cfg : Config} {w w' : World}

/-- A claim that stays as it was. -/
theorem update_holds {p : Party} {claim : Option Nat} (h : w.holds p = claim) :
    Function.update w.holds p claim = w.holds := by
  rw [← h]
  exact Function.update_eq_self p w.holds

/-- A move, read off the lock file and the claims it leaves. -/
theorem move_to {s : Lock.State Party Nat} (hmove : Lock.Move w.lockState s)
    (hlock : w'.lock.map LockFile.id = s.lock) (hholds : w'.holds = s.holds) :
    Lock.Move w.lockState w'.lockState := by
  rw [World.lockState, World.lockState, hlock, hholds]
  exact hmove

theorem call_move {i : Nat} {e : CallEvent} {pc pc' : CallPc} (hpc : w.calls[i]? = some pc)
    (hs : callStep cfg w pc e = some (pc', w')) (hguard : SparesHeldLock w (.call i e)) :
    Lock.Move w.lockState (World.lockState { w' with calls := w'.calls.set i pc' }) := by
  have hp := holds_call hpc
  have hset := holds_setCall pc' hpc
  cases callStep_effect hs with
  | reads _ _ _ hold hold' =>
    rw [hold', update_holds (hp.trans hold)] at hset
    exact move_to (.idle _) rfl hset
  | removes =>
    refine move_to (.steal w.lockState ?_) rfl (hset.trans (update_holds hp))
    intro p id hid hlock
    obtain ⟨l, hl, rfl⟩ := Option.map_eq_some_iff.mp hlock
    have hfree := hguard hpc
    rw [lockHeld_of_holds hl hid] at hfree
    cases hfree
  | creates hnone =>
    refine move_to (.take w.lockState (.call i) w.nextLock ?_) rfl hset
    rw [World.lockState, hnone]
    rfl
  | starts lock =>
    refine move_to (.pass w.lockState (.call i) (.build w.builds.length) lock hp) rfl ?_
    show _ = Function.update (Function.update w.holds (.call i) none) (.build w.builds.length) _
    rw [show Function.update w.holds (.call i) none = _ from hset.symm]
    exact holds_addBuild { w with calls := w.calls.set i (.answered .started) }
      ⟨lock, .writeIndexing, none⟩
  | raises lock => exact move_to (.abandon w.lockState (.call i)) rfl hset

theorem build_move {j : Nat} {b b' : Build} {e : BuildEvent} (hb : w.builds[j]? = some b)
    (he : BuildEffect cfg w b e b' w') :
    Lock.Move w.lockState (World.lockState { w' with builds := w'.builds.set j b' }) := by
  have hp := holds_build hb
  have hset := holds_setBuild b' hb
  -- a step that leaves the lock file alone keeps the claim or drops it
  have hquiet : ∀ {status : Option Status}, b'.holds = b.holds ∨ b'.holds = none →
      Lock.Move w.lockState (World.lockState { w with
        status := status, builds := w.builds.set j b' }) := by
    rintro status (hclaim | hclaim)
    · rw [hclaim, update_holds hp] at hset
      exact move_to (.idle _) rfl hset
    · rw [hclaim] at hset
      exact move_to (.abandon w.lockState (.build j)) rfl hset
  have hclaim : b.pc.unfinished = true → b.holds = some b.lock := fun h => by
    rw [Build.holds, if_pos h]
  cases he with
  | begins pc status hpc hnext =>
    apply hquiet
    rw [hclaim (by rw [hpc]; rfl)]
    rcases hnext with rfl | rfl
    · exact .inl rfl
    · exact .inr rfl
  | popens hpc | notStarted _ hpc | abandons _ _ hpc _ =>
    refine hquiet (.inl ?_)
    rw [hclaim (by rw [hpc]; rfl)]
    rfl
  | progress _ _ _ _ => exact hquiet (.inl rfl)
  | leaves _ _ hpc hlock hclosing _ _ =>
    refine hquiet (.inl ?_)
    rw [hclaim (by rw [hpc]; rfl), Build.holds,
      if_pos (BuildPc.unfinished_of_closing hclosing), hlock]
  | closes pc status hpc hnext =>
    apply hquiet
    rw [hclaim (BuildPc.unfinished_of_closing hpc)]
    rcases hnext with hnext | rfl
    · left
      rw [Build.holds, if_pos (BuildPc.unfinished_of_closing hnext)]
    · exact .inr rfl
  | unlocks hpc =>
    have hown : w.holds (.build j) = some b.lock := hp.trans (hclaim (by rw [hpc]; rfl))
    exact move_to (.unlock w.lockState (.build j) b.lock hown) rfl hset

/-- THE SIMULATION: a step that spares the locks of parties at work is a move of the lock protocol. -/
theorem step_move {a : Act} (hguard : SparesHeldLock w a) (h : step cfg w a = some w') :
    Lock.Move w.lockState w'.lockState := by
  cases step_effect h with
  | begin => exact move_to (.idle _) rfl (holds_addCall w)
  | call i e pc pc' _ hpc hs => exact call_move hpc hs hguard
  | build j e b b' _ hb hs => exact build_move hb (buildStep_effect hs)
  | scan j e b pc pc' dir hb hpc hs =>
    have hclaim : w.holds (.build j) = b.holds := holds_build hb
    exact move_to (.idle _) rfl ((holds_setBuild _ hb).trans (update_holds hclaim))
  | tick d => exact .idle _

theorem World.Fresh.exclusive (h : w.Fresh) : Lock.Exclusive w.lockState := by
  have hnone : w.holds = fun _ => none := by
    ext1 p
    cases p with
    | call i => rw [World.holds, h.calls]; rfl
    | build j => rw [World.holds, h.builds]; rfl
  rw [World.lockState, hnone]
  exact Lock.exclusive_idle _

/-- Exclusion over a run. -/
theorem run_exclusive {w₀ : World} {acts : List Act} (hfresh : w₀.Fresh)
    (hguard : System.Along (step cfg) SparesHeldLock w₀ acts)
    (hrun : System.run (step cfg) w₀ acts = some w) : Lock.Exclusive w.lockState :=
  System.along_induction (fun w => Lock.Exclusive w.lockState)
    (fun _ _ _ hinv hg hs => hinv.move (step_move hg hs)) hfresh.exclusive hguard hrun

/-! ## The law -/

/-- At most one build is past `Popen` and not past its last removal, and that removal finds its own
lock. -/
structure MutualExclusion (w : World) : Prop where
  one : ∀ (i j : Nat) (b c : Build), w.builds[i]? = some b → w.builds[j]? = some c →
    b.running = true → c.running = true → i = j
  own : ∀ (j : Nat) (b : Build) (l : LockFile), w.builds[j]? = some b → b.pc = .unlink →
    w.lock = some l → l.id = b.lock

theorem mutualExclusion_of_exclusive (h : Lock.Exclusive w.lockState) : MutualExclusion w := by
  have hholds : ∀ {j b}, w.builds[j]? = some b → b.pc.unfinished = true →
      w.holds (.build j) = some b.lock := by
    intro j b hb hpc
    rw [holds_build hb, Build.holds, if_pos hpc]
  constructor
  · intro i j b c hb hc hrb hrc
    simp only [Build.running, Bool.and_eq_true] at hrb hrc
    exact Party.build.inj (h.one _ _ b.lock c.lock (hholds hb hrb.2) (hholds hc hrc.2))
  · intro j b l hb hpc hl
    have hown := h.own (.build j) b.lock (hholds hb (by rw [hpc]; rfl))
    rw [World.lockState, hl] at hown
    exact Option.some.inj hown

/-- The smallest capture that can be indexed: a header and no record. -/
def headerOnly : Source where
  bytes := [0xd4, 0xc3, 0xb2, 0xa1, 2, 0, 4, 0, 0, 0, 0, 0, 0, 0, 0, 0, 0, 0, 1, 0, 1, 0, 0, 0]
  path := "capture.pcap"
  mtimeNs := 1

/-- The default timeout. -/
def config (source : Source) : Config := ⟨900, true, source⟩

/-- A request that finds no index and no lock, up to its answer. -/
def firstRequest (i : Nat) : List Act := .begin :: List.replicate 6 (.call i .go)

/-- A request that finds a stale lock, and no index, up to its answer. -/
def staleRequest (i : Nat) : List Act := .begin :: List.replicate 9 (.call i .go)

/-- A build thread up to its indexer. -/
def popenBuild (j : Nat) : List Act := List.replicate 2 (.build j .go)

/-- MUTUAL EXCLUSION: it holds in every state of a run that removes no lock of a party at work as
stale. -/
theorem mutual_exclusion {w₀ : World} {acts : List Act} (hfresh : w₀.Fresh)
    (hguard : System.Along (step cfg) SparesHeldLock w₀ acts)
    (hrun : System.run (step cfg) w₀ acts = some w) : MutualExclusion w :=
  mutualExclusion_of_exclusive (run_exclusive hfresh hguard hrun)

/-- The law at work: an abandoned lock is removed as stale, and the build that follows excludes. -/
theorem mutual_exclusion_takeover :
    ∃ w, System.run (step (config headerOnly)) { World.empty with
          clock := 1000, lock := some ⟨0, 0⟩, nextLock := 1 }
        (staleRequest 0 ++ popenBuild 0 ++ firstRequest 1) = some w ∧
      w.builds.map Build.running = [true] ∧ MutualExclusion w := by
  have hrun : (System.run (step (config headerOnly)) { World.empty with
        clock := 1000, lock := some ⟨0, 0⟩, nextLock := 1 }
      (staleRequest 0 ++ popenBuild 0 ++ firstRequest 1)).map (fun w => w.builds.map Build.running) =
        some [true] := by decide +kernel
  obtain ⟨w, hw, hrunning⟩ := Option.map_eq_some_iff.mp hrun
  have hfresh : World.Fresh { World.empty with
      clock := 1000, lock := some ⟨0, 0⟩, nextLock := 1 } :=
    ⟨rfl, rfl, fun l hl => by cases hl; exact Nat.zero_lt_one⟩
  exact ⟨w, hw, hrunning, mutual_exclusion hfresh (by decide +kernel) hw⟩

/-- The build outlives its lock: a second request removes the lock and starts a second build, and the
first build is about to remove the second one's lock. -/
theorem two_builds :
    ∃ w, System.run (step (config headerOnly)) .empty (firstRequest 0 ++ popenBuild 0 ++ [.tick 1000] ++
        staleRequest 1 ++ popenBuild 1 ++ [.build 0 .expired, .build 0 .go]) = some w ∧
      w.builds.map Build.running = [true, true] ∧ w.builds.map Build.pc = [.unlink, .watch 1900] ∧
      w.builds.map Build.lock = [0, 1] ∧ w.lock.map LockFile.id = some 1 := by
  have hrun : (System.run (step (config headerOnly)) .empty (firstRequest 0 ++ popenBuild 0 ++ [.tick 1000] ++
      staleRequest 1 ++ popenBuild 1 ++ [.build 0 .expired, .build 0 .go])).map (fun w =>
        (w.builds.map Build.running, w.builds.map Build.pc, w.builds.map Build.lock,
          w.lock.map LockFile.id)) =
        some ([true, true], [.unlink, .watch 1900], [0, 1], some 1) := by decide +kernel
  obtain ⟨w, hw, heq⟩ := Option.map_eq_some_iff.mp hrun
  simp only [Prod.mk.injEq] at heq
  exact ⟨w, hw, heq⟩

end PacketTrain.Lifecycle
