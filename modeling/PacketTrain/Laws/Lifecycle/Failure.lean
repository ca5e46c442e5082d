import PacketTrain.Laws.Lifecycle.Exclusion

/-!
# A failed build, and the request after it

A build that fails leaves its error in the status file and drops its lock. The next request reads that
error first, and then looks for the lock: it answers the status only when somebody else holds the
lock. With the lock free it takes it, answers `indexing`, and its build overwrites the error.

`failure_reported` says both halves, over every run of the request that follows, whatever else
happens meanwhile. The error is reported when the request finds another request's lock and the failed
build's status (`FindsLock`). It is not reported when no other request takes the lock
(`OnlyTaker`), which is the ordinary case: `failure_lost`.
-/

namespace PacketTrain.Lifecycle

open Indexer

/-- A build has failed and finished: its error is written, its lock is gone. -/
structure FailureStands (w : World) (message : String) : Prop where
  status : w.status = some (.error message)
  lock : w.lock = none

/-! ## The conditions -/

/-- Request `i` finds the failed build's status when it reads it, a lock when it tries to take one,
and no ready index. -/
def FindsLock (i : Nat) (message : String) (w : World) : Act → Prop
  | .call k e => k = i →
    match w.calls[k]?, e with
    | some .checkRefs, .go => w.dir.refs = none
    | some .readStatus, .go | some .reread, .go => w.status = some (.error message)
    | some .create, .go => w.lock ≠ none
    | some .create, .fail => False
    | _, _ => True
  | _ => True

/-- No request but `i` takes the lock. -/
def OnlyTaker (i : Nat) (w : World) : Act → Prop
  | .call k .go => k ≠ i → w.calls[k]? = some .create → w.lock ≠ none
  | _ => True

instance (i : Nat) (message : String) (w : World) (a : Act) : Decidable (FindsLock i message w a) := by
  unfold FindsLock
  repeat' split
  all_goals infer_instance

instance (i : Nat) (w : World) : (a : Act) → Decidable (OnlyTaker i w a)
  | .call k .go => inferInstanceAs (Decidable
      (k ≠ i → w.calls[k]? = some .create → w.lock ≠ none))
  | .call _ .fail | .begin | .build _ _ | .scan _ _ | .tick _ => .isTrue trivial

/-! ## One request in the middle of a run -/

variable {cfg : Config} {w w' : World} {i : Nat}

/-- A step is request `i`'s own, or leaves it where it stands. -/
theorem step_request {a : Act} (h : step cfg w a = some w') {pc : CallPc}
    (hpc : w.calls[i]? = some pc) :
    (∃ e pc' v, a = .call i e ∧ callStep cfg w pc e = some (pc', v) ∧ w'.lock = v.lock ∧
      w'.calls[i]? = some pc') ∨ (∀ e, a ≠ .call i e) ∧ w'.calls[i]? = some pc := by
  have hlt : i < w.calls.length := (List.getElem?_eq_some_iff.mp hpc).1
  cases step_effect h with
  | begin =>
    refine .inr ⟨(fun _ he => nomatch he), ?_⟩
    exact (List.getElem?_append_left hlt).trans hpc
  | call k e q q' v hq hs =>
    have hcalls : v.calls = w.calls := by cases callStep_effect hs <;> rfl
    rcases eq_or_ne k i with rfl | hne
    · cases hq.symm.trans hpc
      refine .inl ⟨e, q', v, rfl, hs, rfl, ?_⟩
      rw [hcalls]
      exact List.getElem?_set_self hlt
    · refine .inr ⟨(fun _ he => hne (Act.call.inj he).1), ?_⟩
      rw [hcalls]
      exact (List.getElem?_set_ne hne).trans hpc
  | build j e b b' v hb hs =>
    have hcalls : v.calls = w.calls := by cases buildStep_effect hs <;> rfl
    refine .inr ⟨(fun _ he => nomatch he), ?_⟩
    show v.calls[i]? = _
    rw [hcalls]
    exact hpc
  | scan _ _ _ _ _ _ _ _ _ => exact .inr ⟨(fun _ he => nomatch he), hpc⟩
  | tick _ => exact .inr ⟨(fun _ he => nomatch he), hpc⟩

/-! ## The error is reported -/

/-- A request that has read the error, or will, and answers nothing else. -/
def Reporting (message : String) : CallPc → Prop
  | .lockExists current | .readClock current | .statLock current _ =>
    current = some (.error message)
  | .startThread _ => False
  | .answered reply => reply = .status (some (.error message))
  | _ => True

theorem reporting_callStep {message : String} {pc pc' : CallPc} {e : CallEvent} {v : World}
    (hsupported : cfg.supported = true) (hpc : w.calls[i]? = some pc)
    (hr : Reporting message pc) (hg : FindsLock i message w (.call i e))
    (hs : callStep cfg w pc e = some (pc', v)) : Reporting message pc' := by
  have hg := hg rfl
  rw [hpc] at hg
  cases e with
  | fail =>
    -- only the removal of a stale lock, the lock and the thread can fail
    cases pc with
    | unlinkStale =>
      cases hs
      trivial
    | create => exact hg.elim
    | startThread _ => exact hr.elim
    | _ => cases hs
  | go =>
    cases pc with
    | supported =>
      simp only [callStep, if_pos hsupported] at hs
      cases hs
      trivial
    | checkReady | checkSqlite =>
      cases hs
      split <;> trivial
    | checkRefs =>
      simp only at hg
      simp only [callStep, hg] at hs
      cases hs
      trivial
    | readStatus | reread =>
      simp only at hg
      simp only [callStep, hg] at hs
      cases hs
      rfl
    | lockExists current =>
      cases hs
      split
      · exact hr
      · trivial
    | readClock current =>
      cases hs
      exact hr
    | statLock current now =>
      simp only [callStep] at hs
      cases hr
      split at hs
      · cases hs
        trivial
      · cases hs
        split
        · rfl
        · trivial
    | unlinkStale =>
      cases hs
      trivial
    | create =>
      simp only at hg
      simp only [callStep] at hs
      split at hs
      · next hnone => exact absurd hnone hg
      · cases hs
        trivial
    | startThread _ => exact hr.elim
    | answered _ => cases hs

theorem reporting_step {message : String} {a : Act} (hsupported : cfg.supported = true)
    (hr : ∃ pc, w.calls[i]? = some pc ∧ Reporting message pc) (hg : FindsLock i message w a)
    (hs : step cfg w a = some w') : ∃ pc, w'.calls[i]? = some pc ∧ Reporting message pc := by
  obtain ⟨pc, hpc, hr⟩ := hr
  rcases step_request hs hpc with ⟨e, pc', v, rfl, hcall, -, hpc'⟩ | ⟨-, hpc'⟩
  · exact ⟨pc', hpc', reporting_callStep hsupported hpc hr hg hcall⟩
  · exact ⟨pc, hpc', hr⟩

/-! ## The error is lost -/

/-- A request that finds the lock free, and answers from no status. -/
def Taking (w : World) : CallPc → Prop
  | .readClock _ | .statLock _ _ | .unlinkStale | .reread => False
  | .startThread _ => True
  | .answered reply => ∀ current, reply ≠ .status current
  | _ => w.lock = none

theorem taking_callStep {pc pc' : CallPc} {e : CallEvent} {v : World}
    (ht : Taking w pc) (hs : callStep cfg w pc e = some (pc', v)) : Taking v pc' := by
  cases e with
  | fail =>
    cases pc with
    | unlinkStale => exact ht.elim
    | create | startThread _ =>
      cases hs
      intro _ h
      cases h
    | _ => cases hs
  | go =>
    cases pc with
    | supported =>
      cases hs
      split
      · exact ht
      · intro _ h
        cases h
    | checkReady | checkSqlite =>
      cases hs
      split <;> exact ht
    | checkRefs =>
      cases hs
      split
      · intro _ h
        cases h
      · exact ht
    | readStatus =>
      cases hs
      exact ht
    | lockExists current =>
      have hnone : w.lock = none := ht
      simp only [callStep, hnone] at hs
      cases hs
      exact hnone
    | create =>
      have hnone : w.lock = none := ht
      simp only [callStep, hnone] at hs
      cases hs
      trivial
    | startThread _ =>
      cases hs
      intro _ h
      cases h
    | readClock _ | statLock _ _ | unlinkStale | reread => exact ht.elim
    | answered _ => cases hs

/-- No other request takes a free lock, and no build thread takes one. -/
theorem lock_stays_free {a : Act} (hg : OnlyTaker i w a) (hother : ∀ e, a ≠ .call i e)
    (hnone : w.lock = none) (hs : step cfg w a = some w') : w'.lock = none := by
  cases step_effect hs with
  | begin | scan _ _ _ _ _ _ _ _ _ | tick _ => exact hnone
  | call k e pc pc' v hpc hcall =>
    have hne : k ≠ i := fun h => hother e (h ▸ rfl)
    cases callStep_effect hcall with
    | creates _ => exact absurd hnone (hg hne hpc)
    | removes => rfl
    | _ => exact hnone
  | build j e b b' v hb hbuild =>
    cases buildStep_effect hbuild with
    | unlocks _ => rfl
    | _ => exact hnone

/-- What a request needs of the lock, it needs of no other file. -/
theorem Taking.of_lock {pc : CallPc} (ht : Taking w pc) (h : w.lock = none → w'.lock = none) :
    Taking w' pc := by
  cases pc with
  | readClock _ | statLock _ _ | unlinkStale | reread | startThread _ | answered _ => exact ht
  | _ => exact h ht

theorem taking_step {a : Act} (ht : ∃ pc, w.calls[i]? = some pc ∧ Taking w pc)
    (hg : OnlyTaker i w a) (hs : step cfg w a = some w') :
    ∃ pc, w'.calls[i]? = some pc ∧ Taking w' pc := by
  obtain ⟨pc, hpc, ht⟩ := ht
  rcases step_request hs hpc with ⟨e, pc', v, rfl, hcall, hlock, hpc'⟩ | ⟨hother, hpc'⟩
  · refine ⟨pc', hpc', (taking_callStep ht hcall).of_lock fun h => ?_⟩
    rw [hlock]
    exact h
  · exact ⟨pc, hpc', ht.of_lock fun hnone => lock_stays_free hg hother hnone hs⟩

/-! ## The law -/

/-- THE REQUEST AFTER A FAILED BUILD: it answers the failure when it finds another request's lock and
the failed build's status, and it answers no error when no other request takes the lock. -/
theorem failure_reported {message : String} {acts : List Act} {reply : Reply}
    (hsupported : cfg.supported = true) (hfailure : FailureStands w message)
    (hrun : System.run (step cfg) w (.begin :: acts) = some w')
    (hanswer : w'.calls[w.calls.length]? = some (.answered reply)) :
    (System.Along (step cfg) (FindsLock w.calls.length message) w (.begin :: acts) →
      reply = .status (some (.error message))) ∧
    (System.Along (step cfg) (OnlyTaker w.calls.length) w (.begin :: acts) →
      reply.state ≠ some "error") := by
  obtain ⟨v, hbegin, hrun⟩ := System.run_cons.mp hrun
  cases hbegin
  have hnew : (w.calls ++ [.supported])[w.calls.length]? = some CallPc.supported :=
    List.getElem?_concat_length
  constructor
  · rintro ⟨-, hguard⟩
    have hinv := System.along_induction
      (fun v => ∃ pc, v.calls[w.calls.length]? = some pc ∧ Reporting message pc)
      (fun _ _ _ h hg hs => reporting_step hsupported h hg hs) ⟨.supported, hnew, trivial⟩
      (hguard _ rfl) hrun
    obtain ⟨pc, hpc, hr⟩ := hinv
    cases hanswer.symm.trans hpc
    exact hr
  · rintro ⟨-, hguard⟩
    have hstart : Taking { w with calls := w.calls ++ [.supported] } .supported := hfailure.lock
    have hinv := System.along_induction
      (fun v => ∃ pc, v.calls[w.calls.length]? = some pc ∧ Taking v pc)
      (fun _ _ _ h hg hs => taking_step h hg hs) ⟨.supported, hnew, hstart⟩ (hguard _ rfl) hrun
    obtain ⟨pc, hpc, ht⟩ := hinv
    cases hanswer.symm.trans hpc
    cases reply with
    | status current => exact absurd rfl (ht current)
    | _ => exact nofun

/-! ## Runs -/

/-- A capture the indexer refuses. -/
def shortCapture : Source where
  bytes := []
  path := "capture.pcap"
  mtimeNs := 1

/-- What the indexer leaves on its standard error for it. -/
def shortText : String := "Error: capture is shorter than a PCAP header\n"

/-- A build that fails, from its indexer's first operation to its own end. -/
def failBuild (j : Nat) : List Act :=
  List.replicate 3 (.scan j .go) ++ [.build j (.exited shortText)] ++
    List.replicate 2 (.build j .go)

/-- The first request, and the build it started, to its end. -/
def failedRun : List Act := firstRequest 0 ++ popenBuild 0 ++ failBuild 0

/-- The law at work: a request that has tested the lock before the build dropped it takes it next, and
the request after that reports the error. -/
theorem failure_reported_behind_another :
    ∃ w w', System.run (step (config shortCapture)) .empty
        (failedRun ++ .begin :: List.replicate 4 (.call 1 .go)) = some w ∧
      FailureStands w shortText ∧
      System.run (step (config shortCapture)) w
        (.begin :: .call 1 .go :: List.replicate 6 (.call 2 .go)) = some w' ∧
      w'.calls[2]? = some (.answered (.status (some (.error shortText)))) := by
  have hrun : (System.run (step (config shortCapture)) .empty
      (failedRun ++ .begin :: List.replicate 4 (.call 1 .go))).map (fun w =>
        (w.status, w.lock, w.calls.length)) = some (some (.error shortText), none, 2) := by
    decide +kernel
  have hend : ((System.run (step (config shortCapture)) .empty
      (failedRun ++ .begin :: List.replicate 4 (.call 1 .go))).bind fun w =>
        System.run (step (config shortCapture)) w
          (.begin :: .call 1 .go :: List.replicate 6 (.call 2 .go))).map (fun w => w.calls[2]?) =
        some (some (.answered (.status (some (.error shortText))))) := by decide +kernel
  have hguard : ((System.run (step (config shortCapture)) .empty
      (failedRun ++ .begin :: List.replicate 4 (.call 1 .go))).all fun w =>
        System.Along (step (config shortCapture)) (FindsLock 2 shortText) w
          (.begin :: .call 1 .go :: List.replicate 6 (.call 2 .go))) = true := by decide +kernel
  obtain ⟨w, hw, heq⟩ := Option.map_eq_some_iff.mp hrun
  simp only [Prod.mk.injEq] at heq
  obtain ⟨hstatus, hlock, hlength⟩ := heq
  rw [hw, Option.bind_some] at hend
  rw [hw, Option.all_some, decide_eq_true_eq] at hguard
  obtain ⟨w', hw', hanswer⟩ := Option.map_eq_some_iff.mp hend
  have hlaw := failure_reported rfl ⟨hstatus, hlock⟩ hw' (by rw [hlength]; exact hanswer)
  rw [hlength] at hlaw
  rw [hlaw.1 hguard] at hanswer
  exact ⟨w, w', hw, ⟨hstatus, hlock⟩, hw', hanswer⟩

/-- The failed build has finished, its error stands, and the next request starts another build, which
overwrites it. -/
theorem failure_lost :
    ∃ w w', System.run (step (config shortCapture)) .empty failedRun = some w ∧
      FailureStands w shortText ∧ w.builds.map Build.pc = [.done] ∧
      System.run (step (config shortCapture)) w (firstRequest 1 ++ [.build 1 .go]) = some w' ∧
      w'.calls[1]? = some (.answered .started) ∧ w'.status = some (.indexing 0 0) := by
  have hrun : (System.run (step (config shortCapture)) .empty failedRun).map (fun w =>
      (w.status, w.lock, w.builds.map Build.pc)) =
        some (some (.error shortText), none, [.done]) := by decide +kernel
  have hend : ((System.run (step (config shortCapture)) .empty failedRun).bind fun w =>
      System.run (step (config shortCapture)) w (firstRequest 1 ++ [.build 1 .go])).map (fun w =>
        (w.calls[1]?, w.status)) = some (some (.answered .started), some (.indexing 0 0)) := by
    decide +kernel
  obtain ⟨w, hw, heq⟩ := Option.map_eq_some_iff.mp hrun
  simp only [Prod.mk.injEq] at heq
  obtain ⟨hstatus, hlock, hbuilds⟩ := heq
  rw [hw, Option.bind_some] at hend
  obtain ⟨w', hw', heq⟩ := Option.map_eq_some_iff.mp hend
  obtain ⟨hanswer, hafter⟩ := Prod.mk.inj heq
  exact ⟨w, w', hw, ⟨hstatus, hlock⟩, hbuilds, hw', hanswer, hafter⟩

end PacketTrain.Lifecycle
