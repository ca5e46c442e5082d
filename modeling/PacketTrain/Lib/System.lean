/-!
# Guarded systems

A system is a partial step function: an action that is not enabled in a state has no successor. A run
is the list of actions it takes, so a run can be evaluated. `Along` states a condition of every step a
run takes, and the two rules carry an invariant over every run, or over every run whose steps meet a
condition. `length_le_of_measure` bounds the runs that leave the system alive.
-/

namespace PacketTrain.System

variable {σ α : Type} (step : σ → α → Option σ)

/-- The state a run reaches. -/
def run : σ → List α → Option σ
  | s, [] => some s
  | s, a :: as => (step s a).bind fun s' => run s' as

/-- Every step of the run is taken in a state that meets the condition with the step's action. -/
def Along (guard : σ → α → Prop) : σ → List α → Prop
  | _, [] => True
  | s, a :: as => guard s a ∧ ∀ s', step s a = some s' → Along guard s' as

/-- A decidable condition is decided along a run by taking the run. -/
instance decidableAlong {guard : σ → α → Prop} [∀ s a, Decidable (guard s a)] :
    ∀ (s : σ) (as : List α), Decidable (Along step guard s as)
  | _, [] => isTrue trivial
  | s, a :: as =>
    match h : step s a with
    | none => decidable_of_iff (guard s a)
        ⟨fun hg => ⟨hg, fun _ hs => nomatch h.symm.trans hs⟩, fun hg => hg.1⟩
    | some s' =>
      have : Decidable (Along step guard s' as) := decidableAlong s' as
      decidable_of_iff (guard s a ∧ Along step guard s' as)
        ⟨fun hg => ⟨hg.1, fun _ hs => Option.some.inj (h.symm.trans hs) ▸ hg.2⟩,
          fun hg => ⟨hg.1, hg.2 s' h⟩⟩

/-- A state that some run reaches. -/
def Reachable (s s' : σ) : Prop := ∃ as, run step s as = some s'

variable {step}

theorem run_cons {s s'' : σ} {a : α} {as : List α} :
    run step s (a :: as) = some s'' ↔ ∃ s', step s a = some s' ∧ run step s' as = some s'' :=
  Option.bind_eq_some_iff

theorem run_append (s : σ) (as bs : List α) :
    run step s (as ++ bs) = (run step s as).bind fun s' => run step s' bs := by
  induction as generalizing s with
  | nil => rfl
  | cons a as ih =>
    rw [List.cons_append, run, run, Option.bind_assoc]
    exact congrArg (Option.bind (step s a)) (funext ih)

/-- THE GUARDED INVARIANT RULE: what every step that meets the condition preserves holds at the end of
a run whose steps all meet it. -/
theorem along_induction {guard : σ → α → Prop} (inv : σ → Prop)
    (hstep : ∀ s a s', inv s → guard s a → step s a = some s' → inv s') :
    ∀ {s s' : σ} {as : List α}, inv s → Along step guard s as → run step s as = some s' → inv s' := by
  intro s s' as hs hguard hrun
  induction as generalizing s with
  | nil =>
    cases Option.some.inj hrun
    exact hs
  | cons a as ih =>
    obtain ⟨t, ht, hrun⟩ := run_cons.mp hrun
    obtain ⟨hg, hrest⟩ := hguard
    exact ih (hstep s a t hs hg ht) (hrest t ht) hrun

/-- What the invariant says of a step holds of every step of such a run. -/
theorem along_of_invariant {guard good : σ → α → Prop} {inv : σ → Prop}
    (hstep : ∀ s a s', inv s → guard s a → step s a = some s' → inv s' ∧ good s a) :
    ∀ {s s' : σ} {as : List α}, inv s → Along step guard s as → run step s as = some s' →
      Along step good s as := by
  intro s s' as hs hguard hrun
  induction as generalizing s with
  | nil => trivial
  | cons a as ih =>
    obtain ⟨t, ht, hrun⟩ := run_cons.mp hrun
    obtain ⟨hg, hrest⟩ := hguard
    obtain ⟨hinv, hgood⟩ := hstep s a t hs hg ht
    refine ⟨hgood, fun t' ht' => ?_⟩
    cases Option.some.inj (ht.symm.trans ht')
    exact ih hinv (hrest t ht) hrun

/-- The plain rule: what every step preserves holds in every reachable state. -/
theorem reachable_induction (inv : σ → Prop)
    (hstep : ∀ s a s', inv s → step s a = some s' → inv s') {s s' : σ} (hs : inv s)
    (h : Reachable step s s') : inv s' := by
  obtain ⟨as, hrun⟩ := h
  induction as generalizing s with
  | nil =>
    cases Option.some.inj hrun
    exact hs
  | cons a as ih =>
    obtain ⟨t, ht, hrun⟩ := run_cons.mp hrun
    exact ih (hstep s a t hs ht) hrun

/-- THE MEASURE RULE: where every step that leaves the system alive lowers the measure, and no step brings
it back to life, a run that ends alive is no longer than the measure at its start. -/
theorem length_le_of_measure {guard : σ → α → Prop} (inv alive : σ → Prop) (measure : σ → Nat)
    (hstep : ∀ s a s', inv s → guard s a → step s a = some s' → inv s' ∧
      (alive s' → alive s ∧ measure s' < measure s)) :
    ∀ {s s' : σ} {as : List α}, inv s → Along step guard s as → run step s as = some s' →
      alive s' → alive s ∧ as.length + measure s' ≤ measure s := by
  intro s s' as hs hguard hrun halive
  induction as generalizing s with
  | nil =>
    cases Option.some.inj hrun
    exact ⟨halive, by simp⟩
  | cons a as ih =>
    obtain ⟨t, ht, hrun⟩ := run_cons.mp hrun
    obtain ⟨hg, hrest⟩ := hguard
    obtain ⟨hinv, hlower⟩ := hstep s a t hs hg ht
    obtain ⟨hmid, hlength⟩ := ih hinv (hrest t ht) hrun
    obtain ⟨hfirst, hlt⟩ := hlower hmid
    refine ⟨hfirst, ?_⟩
    rw [List.length_cons]
    omega

/-- The condition holds along both parts of a run. -/
theorem along_append {guard : σ → α → Prop} {s s' : σ} {as bs : List α}
    (hrun : run step s as = some s') (h : Along step guard s (as ++ bs)) :
    Along step guard s as ∧ Along step guard s' bs := by
  induction as generalizing s with
  | nil =>
    cases Option.some.inj hrun
    exact ⟨trivial, h⟩
  | cons a as ih =>
    obtain ⟨t, ht, hrun⟩ := run_cons.mp hrun
    obtain ⟨hg, hrest⟩ := h
    refine ⟨⟨hg, ?_⟩, (ih hrun (hrest t ht)).2⟩
    intro t' ht'
    cases Option.some.inj (ht.symm.trans ht')
    exact (ih hrun (hrest t ht)).1

end PacketTrain.System
