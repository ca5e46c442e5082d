import Mathlib.Data.List.Forall2

/-!
# Fallible computations, read backward

A computation in `Except` that answers `.ok` has passed each of its steps. The laws here peel one
step at a time, so that a proof about a successful run never unfolds the monad. `Answers` is the
other way about: a computation whose steps all answer has an answer.
-/

namespace PacketTrain.Fallible

variable {ε α β : Type}

/-- A successful sequence: the first step answered, and the rest ran on its answer. -/
theorem bind_eq_ok {x : Except ε α} {f : α → Except ε β} {b : β} :
    x >>= f = .ok b ↔ ∃ a, x = .ok a ∧ f a = .ok b := by
  constructor
  · intro h
    cases x with
    | error e => cases h
    | ok a => exact ⟨a, rfl, h⟩
  · rintro ⟨a, rfl, h⟩
    exact h

/-- An error is told in other words; an answer is the same. -/
theorem mapError_eq_ok {ε' : Type} {f : ε → ε'} {x : Except ε α} {a : α} :
    x.mapError f = .ok a ↔ x = .ok a := by
  cases x with
  | error e => exact iff_of_false (fun h => nomatch h) (fun h => nomatch h)
  | ok b => exact ⟨fun h => congrArg Except.ok (Except.ok.inj h), fun h => congrArg Except.ok (Except.ok.inj h)⟩

/-- A test that refuses is passed. -/
theorem ite_error_eq_ok {p : Prop} [Decidable p] {e : ε} {x : Except ε α} {a : α} :
    (if p then .error e else x) = .ok a ↔ ¬ p ∧ x = .ok a := by
  by_cases h : p
  · rw [if_pos h]
    exact iff_of_false (fun heq => nomatch heq) fun hand => hand.1 h
  · rw [if_neg h]
    exact (and_iff_right h).symm

/-- A successful traversal answered at every element. -/
theorem mapM_eq_ok {f : α → Except ε β} {l : List α} {out : List β} (h : l.mapM f = .ok out) :
    List.Forall₂ (fun a b => f a = .ok b) l out := by
  induction l generalizing out with
  | nil => cases h; exact .nil
  | cons a l ih =>
    rw [List.mapM_cons] at h
    obtain ⟨b, hb, h⟩ := bind_eq_ok.mp h
    obtain ⟨rest, hrest, h⟩ := bind_eq_ok.mp h
    cases h
    exact .cons hb (ih hrest)

/-- A list of outcomes answers when each of them does, with what they answer. -/
theorem mapM_id_eq_ok {l : List (Except ε α)} {out : List α} : l.mapM id = .ok out ↔ l = out.map .ok := by
  constructor
  · intro h
    have hall := mapM_eq_ok h
    clear h
    induction hall with
    | nil => rfl
    | cons ha _ ih => rw [ih, List.map_cons]; exact congrArg (· :: _) ha
  · rintro rfl
    induction out with
    | nil => rfl
    | cons a out ih =>
      rw [List.map_cons, List.mapM_cons, ih]
      rfl

/-- A step that may be refused. -/
theorem ite_bind {p : Prop} [Decidable p] (a : α) (e : ε) (f : α → Except ε β) :
    (if p then Except.ok a else .error e) >>= f = if p then f a else .error e := by
  split <;> rfl

/-- A traversal that answers at every element answers with all of it. -/
theorem mapM_eq_map {f : α → Except ε β} {g : α → β} {l : List α} (h : ∀ a ∈ l, f a = .ok (g a)) :
    l.mapM f = .ok (l.map g) := by
  induction l with
  | nil => rfl
  | cons a l ih =>
    obtain ⟨ha, hl⟩ := List.forall_mem_cons.mp h
    rw [List.mapM_cons, ha, ih hl]
    rfl

/-- A traversal that each element allows or refuses with one error. -/
theorem mapM_ite {p : α → Prop} [DecidablePred p] (f : α → β) (e : ε) (l : List α) :
    (l.mapM fun a => if p a then Except.ok (f a) else .error e) =
      if ∀ a ∈ l, p a then .ok (l.map f) else .error e := by
  induction l with
  | nil => rfl
  | cons a l ih =>
    rw [List.mapM_cons, ih]
    by_cases ha : p a
    · by_cases hl : ∀ a ∈ l, p a
      · rw [if_pos ha, if_pos hl, if_pos (List.forall_mem_cons.mpr ⟨ha, hl⟩)]
        rfl
      · rw [if_pos ha, if_neg hl, if_neg fun h => hl (List.forall_mem_cons.mp h).2]
        rfl
    · rw [if_neg ha, if_neg fun h => ha (List.forall_mem_cons.mp h).1]
      rfl

/-- A traversal in `Option` answers when every element does. -/
theorem exists_mapM {f : α → Option β} {l : List α} (h : ∀ a ∈ l, (f a).isSome = true) :
    ∃ out, l.mapM f = some out := by
  induction l with
  | nil => exact ⟨[], rfl⟩
  | cons a l ih =>
    obtain ⟨b, hb⟩ := Option.isSome_iff_exists.mp (h a List.mem_cons_self)
    obtain ⟨out, hout⟩ := ih fun a' ha' => h a' (List.mem_cons_of_mem _ ha')
    refine ⟨b :: out, ?_⟩
    rw [List.mapM_cons, hb, hout]
    rfl

/-- A traversal in `Option` answered at every element. -/
theorem mapM_eq_some {f : α → Option β} {l : List α} {out : List β} (h : l.mapM f = some out) :
    List.Forall₂ (fun a b => f a = some b) l out := by
  induction l generalizing out with
  | nil => cases h; exact .nil
  | cons a l ih =>
    rw [List.mapM_cons] at h
    obtain ⟨b, hb, h⟩ := Option.bind_eq_some_iff.mp h
    obtain ⟨rest, hrest, h⟩ := Option.bind_eq_some_iff.mp h
    cases h
    exact .cons hb (ih hrest)

/-- A fallible function that commutes with two maps does so over a list. -/
theorem mapM_map {α' β' : Type} {f : α → Option β} {g : α' → Option β'} {a : α → α'} {b : β → β'}
    (h : ∀ x, g (a x) = (f x).map b) (l : List α) : (l.map a).mapM g = (l.mapM f).map (List.map b) := by
  induction l with
  | nil => rfl
  | cons x l ih =>
    rw [List.map_cons, List.mapM_cons, List.mapM_cons, ih, h]
    cases f x with
    | none => rfl
    | some y =>
      cases l.mapM f <;> rfl

/-! ## Computations without a failure -/

/-- The computation does not fail. -/
def Answers (x : Except ε α) : Prop := ∃ a, x = .ok a

theorem answers_ok (a : α) : Answers (Except.ok a : Except ε α) := ⟨a, rfl⟩

/-- A sequence answers when its first step does and the rest does on what the step answered. -/
theorem Answers.bind {x : Except ε α} {f : α → Except ε β} (hx : Answers x)
    (hf : ∀ a, x = .ok a → Answers (f a)) : Answers (x >>= f) := by
  obtain ⟨a, ha⟩ := hx
  rw [ha]
  exact hf a ha

/-- A choice answers when each branch does under its own condition. -/
theorem answers_ite {p : Prop} [Decidable p] {x y : Except ε α} (hx : p → Answers x)
    (hy : ¬p → Answers y) : Answers (if p then x else y) := by
  by_cases h : p
  · rw [if_pos h]
    exact hx h
  · rw [if_neg h]
    exact hy h

end PacketTrain.Fallible
