import PacketTrain.Lib.Lock
import PacketTrain.Lib.System
import PacketTrain.Lifecycle.Model

/-!
# What a step of the lifecycle can do

One inversion for each party: `CallEffect` lists the ends of a request's operation, `BuildEffect`
those of a build thread's, each with everything it changes. The laws of this folder split on these
and never unfold the transition functions again.

Then the lock. `World.holds` says who counts on which creation of the lock file, and `step_move` that
every step is a move of the lock protocol, provided it does not remove the lock of a party at work.
-/

namespace PacketTrain.Lifecycle

open Indexer

/-! ## Requests -/

/-- The creation of the lock file that a request counts on. -/
def CallPc.holds : CallPc → Option Nat
  | .startThread lock => some lock
  | _ => none

/-- The ends of a request's operation. -/
inductive CallEffect (cfg : Config) (w : World) : CallEvent → CallPc → CallPc → World → Prop
  /-- It read something, or an error was passed over. -/
  | reads (e : CallEvent) (pc pc' : CallPc) : pc.holds = none → pc'.holds = none →
      CallEffect cfg w e pc pc' w
  | removes : CallEffect cfg w .go .unlinkStale .create { w with lock := none }
  | creates : w.lock = none → CallEffect cfg w .go .create (.startThread w.nextLock)
      { w with lock := some ⟨w.nextLock, w.clock⟩, nextLock := w.nextLock + 1 }
  | starts (lock : Nat) : CallEffect cfg w .go (.startThread lock) (.answered .started)
      { w with builds := w.builds ++ [⟨lock, .writeIndexing, none⟩] }
  | raises (lock : Nat) : CallEffect cfg w .fail (.startThread lock) (.answered .raised) w

theorem callStep_effect {cfg : Config} {w w' : World} {pc pc' : CallPc} {e : CallEvent}
    (h : callStep cfg w pc e = some (pc', w')) : CallEffect cfg w e pc pc' w' := by
  cases e with
  | go =>
    cases pc with
    | supported | checkReady | checkSqlite | checkRefs | lockExists _ =>
      cases h
      refine .reads _ _ _ rfl ?_
      split <;> rfl
    | readStatus | readClock _ | reread =>
      cases h
      exact .reads _ _ _ rfl rfl
    | statLock current now =>
      simp only [callStep] at h
      split at h
      · cases h
        exact .reads _ _ _ rfl rfl
      · cases h
        refine .reads _ _ _ rfl ?_
        split <;> rfl
    | unlinkStale =>
      cases h
      exact .removes
    | create =>
      simp only [callStep] at h
      split at h
      · next hnone =>
        cases h
        exact .creates hnone
      · cases h
        exact .reads _ _ _ rfl rfl
    | startThread lock =>
      cases h
      exact .starts lock
    | answered _ => cases h
  | fail =>
    cases pc with
    | unlinkStale | create =>
      cases h
      exact .reads _ _ _ rfl rfl
    | startThread lock =>
      cases h
      exact .raises lock
    | _ => cases h

/-! ## Build threads -/

def BuildPc.unfinished : BuildPc → Bool
  | .done | .died => false
  | _ => true

/-- The creation of the lock file that a build thread counts on. -/
def Build.holds (b : Build) : Option Nat := if b.pc.unfinished then some b.lock else none

/-- The thread is past `Popen` and not past its last removal of the lock. -/
def Build.running (b : Build) : Bool := b.process.isSome && b.pc.unfinished

/-- The thread has left its loop, and is on its way to the last removal of the lock. -/
def BuildPc.closing : BuildPc → Bool
  | .writeReady | .writeError _ | .unlink => true
  | _ => false

theorem BuildPc.unfinished_of_closing {pc : BuildPc} (h : pc.closing = true) :
    pc.unfinished = true := by
  cases pc with
  | writeReady | writeError _ | unlink => rfl
  | _ => cases h

/-- The ends of a build thread's operation. -/
inductive BuildEffect (cfg : Config) (w : World) (b : Build) (e : BuildEvent) :
    Build → World → Prop
  /-- The first status write. -/
  | begins (pc : BuildPc) (status : Option Status) : b.pc = .writeIndexing →
      pc = .popen ∨ pc = .died →
      BuildEffect cfg w b e { b with pc := pc } { w with status := status }
  | popens : b.pc = .popen → BuildEffect cfg w b e
      { b with pc := .watch (w.clock + cfg.timeout), process := some .createDir } w
  /-- `Popen` raised. -/
  | notStarted (message : String) : b.pc = .popen →
      BuildEffect cfg w b e { b with pc := .writeError message } w
  | progress (deadline frame flows : Nat) : b.pc = .watch deadline →
      BuildEffect cfg w b e b { w with status := some (.indexing frame flows) }
  /-- The loop ended, and its process had ended. -/
  | leaves (deadline : Nat) (b' : Build) : b.pc = .watch deadline → b'.lock = b.lock →
      b'.pc.closing = true → b'.alive = false → b'.process.isSome = b.process.isSome →
      BuildEffect cfg w b e b' w
  /-- The loop raised: the process may be alive. -/
  | abandons (deadline : Nat) (message : String) : b.pc = .watch deadline → e = .fail message →
      BuildEffect cfg w b e { b with pc := .writeError message } w
  /-- A last status write, or a removal that failed. -/
  | closes (pc : BuildPc) (status : Option Status) : b.pc.closing = true →
      pc.closing = true ∨ pc = .done →
      BuildEffect cfg w b e { b with pc := pc } { w with status := status }
  | unlocks : b.pc = .unlink → BuildEffect cfg w b e { b with pc := .done } { w with lock := none }

theorem Build.killed_alive (b : Build) : b.killed.alive = false := by
  unfold Build.killed
  split
  · rfl
  · next h => simpa using h

theorem Build.killed_isSome (b : Build) : b.killed.process.isSome = b.process.isSome := by
  unfold Build.killed
  split
  · next h =>
    unfold Build.alive at h
    cases hp : b.process with
    | none =>
      rw [hp] at h
      cases h
    | some _ => rfl
  · rfl

theorem Build.killed_lock (b : Build) : b.killed.lock = b.lock := by
  unfold Build.killed
  split <;> rfl

theorem buildStep_effect {cfg : Config} {w w' : World} {b b' : Build} {e : BuildEvent}
    (h : buildStep cfg w b e = some (b', w')) : BuildEffect cfg w b e b' w' := by
  cases e with
  | go =>
    simp only [buildStep] at h
    cases hpc : b.pc with
    | writeIndexing =>
      rw [hpc] at h
      cases h
      exact .begins _ _ hpc (.inl rfl)
    | popen =>
      rw [hpc] at h
      cases h
      exact .popens hpc
    | writeReady | writeError _ =>
      rw [hpc] at h
      cases h
      exact .closes _ _ (by rw [hpc]; rfl) (.inl rfl)
    | unlink =>
      rw [hpc] at h
      cases h
      exact .unlocks hpc
    | watch _ | done | died =>
      rw [hpc] at h
      cases h
  | progress frame flows =>
    simp only [buildStep] at h
    split at h
    · next deadline hpc =>
      cases h
      exact .progress deadline frame flows hpc
    · cases h
  | exited output =>
    simp only [buildStep] at h
    split at h
    · next deadline hpc =>
      split at h
      · cases h
      next halive =>
        have halive : b.alive = false := by simpa using halive
        split at h
        · cases h
          exact .leaves deadline _ hpc rfl rfl halive rfl
        · cases h
          exact .leaves deadline _ hpc rfl rfl halive rfl
    · cases h
  | expired =>
    simp only [buildStep] at h
    split at h
    · next deadline hpc =>
      split at h
      · cases h
        exact .leaves deadline _ hpc b.killed_lock rfl b.killed_alive b.killed_isSome
      · cases h
    · cases h
  | fail message =>
    simp only [buildStep] at h
    cases hpc : b.pc with
    | writeIndexing =>
      rw [hpc] at h
      cases h
      exact .begins _ _ hpc (.inr rfl)
    | popen =>
      rw [hpc] at h
      cases h
      exact .notStarted message hpc
    | watch deadline =>
      rw [hpc] at h
      cases h
      exact .abandons deadline message hpc rfl
    | writeReady | writeError _ =>
      rw [hpc] at h
      cases h
      exact .closes _ _ (by rw [hpc]; rfl) (.inl rfl)
    | unlink =>
      rw [hpc] at h
      cases h
      exact .closes _ _ (by rw [hpc]; rfl) (.inr rfl)
    | done | died =>
      rw [hpc] at h
      cases h

/-! ## Steps -/

/-- One step, party by party. -/
inductive StepEffect (cfg : Config) (w : World) : Act → World → Prop
  | begin : StepEffect cfg w .begin { w with calls := w.calls ++ [.supported] }
  | call (i : Nat) (e : CallEvent) (pc pc' : CallPc) (w' : World) : w.calls[i]? = some pc →
      callStep cfg w pc e = some (pc', w') →
      StepEffect cfg w (.call i e) { w' with calls := w'.calls.set i pc' }
  | build (j : Nat) (e : BuildEvent) (b b' : Build) (w' : World) : w.builds[j]? = some b →
      buildStep cfg w b e = some (b', w') →
      StepEffect cfg w (.build j e) { w' with builds := w'.builds.set j b' }
  | scan (j : Nat) (e : ScanEvent) (b : Build) (pc pc' : ScanPc) (dir : IndexDir) :
      w.builds[j]? = some b → b.process = some pc →
      scanStep cfg.source j (pc, w.dir) e = some (pc', dir) →
      StepEffect cfg w (.scan j e)
        { w with dir := dir, builds := w.builds.set j { b with process := some pc' } }
  | tick (d : Nat) : StepEffect cfg w (.tick d) { w with clock := w.clock + d }

theorem step_effect {cfg : Config} {w w' : World} {a : Act} (h : step cfg w a = some w') :
    StepEffect cfg w a w' := by
  cases a with
  | begin =>
    cases h
    exact .begin
  | call i e =>
    obtain ⟨pc, hpc, h⟩ := Option.bind_eq_some_iff.mp h
    obtain ⟨⟨pc', w''⟩, hs, h⟩ := Option.bind_eq_some_iff.mp h
    cases h
    exact .call i e pc pc' w'' hpc hs
  | build j e =>
    obtain ⟨b, hb, h⟩ := Option.bind_eq_some_iff.mp h
    obtain ⟨⟨b', w''⟩, hs, h⟩ := Option.bind_eq_some_iff.mp h
    cases h
    exact .build j e b b' w'' hb hs
  | scan j e =>
    obtain ⟨b, hb, h⟩ := Option.bind_eq_some_iff.mp h
    obtain ⟨pc, hpc, h⟩ := Option.bind_eq_some_iff.mp h
    obtain ⟨⟨pc', dir⟩, hs, h⟩ := Option.bind_eq_some_iff.mp h
    cases h
    exact .scan j e b pc pc' dir hb hpc hs
  | tick d =>
    cases h
    exact .tick d

/-- An entry of a list with one entry replaced. -/
theorem getElem?_set_cases {α : Type} {l : List α} {i k : Nat} {a b : α}
    (h : (l.set i a)[k]? = some b) : k = i ∧ b = a ∨ k ≠ i ∧ l[k]? = some b := by
  rcases eq_or_ne k i with rfl | hne
  · obtain ⟨hlt, heq⟩ := List.getElem?_eq_some_iff.mp h
    rw [List.getElem_set_self] at heq
    exact .inl ⟨rfl, heq.symm⟩
  · rw [List.getElem?_set_ne hne.symm] at h
    exact .inr ⟨hne, h⟩

/-! ## Who counts on the lock -/

/-- A request or a build thread, by its position. -/
inductive Party
  | call (i : Nat)
  | build (j : Nat)
deriving DecidableEq

/-- The creation of the lock file that a party counts on. -/
def World.holds (w : World) : Party → Option Nat
  | .call i => w.calls[i]?.bind CallPc.holds
  | .build j => w.builds[j]?.bind Build.holds

/-- The world as the lock protocol sees it. -/
def World.lockState (w : World) : Lock.State Party Nat := ⟨w.lock.map LockFile.id, w.holds⟩

theorem holds_call {w : World} {i : Nat} {pc : CallPc} (h : w.calls[i]? = some pc) :
    w.holds (.call i) = pc.holds := by
  rw [World.holds, h]
  rfl

theorem holds_build {w : World} {j : Nat} {b : Build} (h : w.builds[j]? = some b) :
    w.holds (.build j) = b.holds := by
  rw [World.holds, h]
  rfl

/-- A request's step changes its own claim. -/
theorem holds_setCall {w : World} {i : Nat} {pc : CallPc} (pc' : CallPc)
    (h : w.calls[i]? = some pc) :
    World.holds { w with calls := w.calls.set i pc' } =
      Function.update w.holds (.call i) pc'.holds := by
  have hlt : i < w.calls.length := (List.getElem?_eq_some_iff.mp h).1
  ext1 p
  cases p with
  | build j => rfl
  | call k =>
    rcases eq_or_ne k i with rfl | hne
    · rw [Function.update_self]
      exact holds_call (List.getElem?_set_self hlt)
    · rw [Function.update_of_ne (by simpa using hne)]
      simp only [World.holds, List.getElem?_set_ne hne.symm]

/-- A build thread's step changes its own claim. -/
theorem holds_setBuild {w : World} {j : Nat} {b : Build} (b' : Build)
    (h : w.builds[j]? = some b) :
    World.holds { w with builds := w.builds.set j b' } =
      Function.update w.holds (.build j) b'.holds := by
  have hlt : j < w.builds.length := (List.getElem?_eq_some_iff.mp h).1
  ext1 p
  cases p with
  | call i => rfl
  | build k =>
    rcases eq_or_ne k j with rfl | hne
    · rw [Function.update_self]
      exact holds_build (List.getElem?_set_self hlt)
    · rw [Function.update_of_ne (by simpa using hne)]
      simp only [World.holds, List.getElem?_set_ne hne.symm]

/-- A new request counts on nothing. -/
theorem holds_addCall (w : World) :
    World.holds { w with calls := w.calls ++ [.supported] } = w.holds := by
  ext1 p
  cases p with
  | build j => rfl
  | call k =>
    simp only [World.holds, List.getElem?_append]
    split
    · rfl
    · next hk =>
      rw [List.getElem?_eq_none (by omega : w.calls.length ≤ k)]
      cases k - w.calls.length <;> rfl

/-- A new build thread counts on the lock it was given. -/
theorem holds_addBuild (w : World) (b : Build) :
    World.holds { w with builds := w.builds ++ [b] } =
      Function.update w.holds (.build w.builds.length) b.holds := by
  ext1 p
  cases p with
  | call i => rfl
  | build k =>
    rcases eq_or_ne k w.builds.length with rfl | hne
    · rw [Function.update_self]
      exact holds_build List.getElem?_concat_length
    · rw [Function.update_of_ne (by simpa using hne)]
      simp only [World.holds]
      rcases Nat.lt_or_gt_of_ne hne with hlt | hgt
      · rw [List.getElem?_append_left hlt]
      · rw [List.getElem?_eq_none (by simp; omega), List.getElem?_eq_none (by omega)]

/-- The lock on disk is one that a party at work counts on. -/
def World.lockHeld (w : World) : Bool :=
  w.lock.any fun l => l.id ∈ w.calls.filterMap CallPc.holds ++ w.builds.filterMap Build.holds

theorem lockHeld_of_holds {w : World} {p : Party} {l : LockFile} (hl : w.lock = some l)
    (hp : w.holds p = some l.id) : w.lockHeld = true := by
  rw [World.lockHeld, hl, Option.any_some, decide_eq_true_eq, List.mem_append]
  cases p with
  | call i =>
    obtain ⟨pc, hpc, h⟩ := Option.bind_eq_some_iff.mp hp
    exact .inl (List.mem_filterMap.mpr ⟨pc, List.mem_of_getElem? hpc, h⟩)
  | build j =>
    obtain ⟨b, hb, h⟩ := Option.bind_eq_some_iff.mp hp
    exact .inr (List.mem_filterMap.mpr ⟨b, List.mem_of_getElem? hb, h⟩)

/-- The step removes no lock, as stale, that a party at work counts on. -/
def SparesHeldLock (w : World) : Act → Prop
  | .call i .go => w.calls[i]? = some .unlinkStale → w.lockHeld = false
  | _ => True

instance (w : World) (a : Act) : Decidable (SparesHeldLock w a) := by
  unfold SparesHeldLock
  split <;> infer_instance

end PacketTrain.Lifecycle
