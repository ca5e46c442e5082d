import Mathlib.Logic.Function.Basic

/-!
# A lock that is a file

The protocol of a lock that parties take by creating a file nobody else has created, hand to one
another, and give up by removing the file, whichever file it is. Every creation has its own label.
The file does not say who holds it: a party that finds it may remove it (`Move.steal`). The protocol
excludes as long as that is done to no lock that is held, and so removing "the" file removes one's
own.
-/

namespace PacketTrain.Lock

/-- The label of the file there is, and the label of the file each party counts on. -/
structure State (P L : Type) where
  lock : Option L
  holds : P → Option L

variable {P L : Type}

/-- Whoever counts on a file counts on the one there is, and at most one party does. -/
structure Exclusive (s : State P L) : Prop where
  own : ∀ p l, s.holds p = some l → s.lock = some l
  one : ∀ p q l m, s.holds p = some l → s.holds q = some m → p = q

/-- Nobody at work. -/
theorem exclusive_idle (lock : Option L) : Exclusive (P := P) ⟨lock, fun _ => none⟩ where
  own := fun _ _ h => nomatch h
  one := fun _ _ _ _ h => nomatch h

variable [DecidableEq P]

/-- The moves of the protocol. -/
inductive Move : State P L → State P L → Prop
  | idle (s : State P L) : Move s s
  /-- A party creates the file. -/
  | take (s : State P L) (p : P) (l : L) : s.lock = none →
      Move s ⟨some l, Function.update s.holds p (some l)⟩
  /-- A party hands the lock to another. -/
  | pass (s : State P L) (p q : P) (l : L) : s.holds p = some l →
      Move s ⟨s.lock, Function.update (Function.update s.holds p none) q (some l)⟩
  /-- A party walks away and leaves the file. -/
  | abandon (s : State P L) (p : P) : Move s ⟨s.lock, Function.update s.holds p none⟩
  /-- A party removes the file, and counts on it no longer. -/
  | unlock (s : State P L) (p : P) (l : L) : s.holds p = some l →
      Move s ⟨none, Function.update s.holds p none⟩
  /-- A file that no party counts on is removed. -/
  | steal (s : State P L) : (∀ p l, s.holds p = some l → s.lock ≠ some l) → Move s ⟨none, s.holds⟩

/-- What is left when one party's claim is dropped is the other parties'. -/
theorem drop_eq_some {holds : P → Option L} {p q : P} {l : L}
    (hq : Function.update holds p none q = some l) : q ≠ p ∧ holds q = some l := by
  rcases eq_or_ne q p with rfl | hne
  · rw [Function.update_self] at hq
    cases hq
  · rw [Function.update_of_ne hne] at hq
    exact ⟨hne, hq⟩

/-- EXCLUSION: every move keeps it. -/
theorem Exclusive.move {s s' : State P L} (h : Exclusive s) (hm : Move s s') : Exclusive s' := by
  cases hm with
  | idle => exact h
  | take p l hnone =>
    -- no file, so nobody counted on one
    have hfree : ∀ q m, Function.update s.holds p (some l) q = some m → q = p ∧ m = l := by
      intro q m hq
      rcases eq_or_ne q p with rfl | hne
      · rw [Function.update_self] at hq
        exact ⟨rfl, (Option.some.inj hq).symm⟩
      · rw [Function.update_of_ne hne] at hq
        exact nomatch hnone.symm.trans (h.own q m hq)
    constructor
    · intro q m hq
      rw [(hfree q m hq).2]
    · intro q r m n hq hr
      rw [(hfree q m hq).1, (hfree r n hr).1]
  | pass p q l hp =>
    have honly : ∀ r m, Function.update (Function.update s.holds p none) q (some l) r = some m →
        r = q ∧ m = l := by
      intro r m hr
      rcases eq_or_ne r q with rfl | hne
      · rw [Function.update_self] at hr
        exact ⟨rfl, (Option.some.inj hr).symm⟩
      · rw [Function.update_of_ne hne] at hr
        obtain ⟨hrp, hr⟩ := drop_eq_some hr
        exact absurd (h.one r p m l hr hp) hrp
    constructor
    · intro r m hr
      rw [(honly r m hr).2]
      exact h.own p l hp
    · intro r t m n hr ht
      rw [(honly r m hr).1, (honly t n ht).1]
  | abandon p =>
    constructor
    · intro q m hq
      exact h.own q m (drop_eq_some hq).2
    · intro q r m n hq hr
      exact h.one q r m n (drop_eq_some hq).2 (drop_eq_some hr).2
  | unlock p l hp =>
    have hfree : ∀ q m, Function.update s.holds p none q ≠ some m := by
      intro q m hq
      obtain ⟨hne, hq⟩ := drop_eq_some hq
      exact hne (h.one q p m l hq hp)
    constructor
    · intro q m hq
      exact absurd hq (hfree q m)
    · intro q r m n hq
      exact absurd hq (hfree q m)
  | steal hno =>
    have hfree : ∀ q m, s.holds q ≠ some m := fun q m hq => hno q m hq (h.own q m hq)
    constructor
    · intro q m hq
      exact absurd hq (hfree q m)
    · intro q r m n hq
      exact absurd hq (hfree q m)

end PacketTrain.Lock
