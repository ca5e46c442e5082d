import PacketTrain.Lib.Ranges

/-!
# Arcs of a circle of integers

A counter that wraps at `m` walks a circle of `m` points, and what it counts off is an arc. `cut` is an
arc as ranges, two of them when it passes zero. Ranges measured from a base are a rotation of the
circle, so the base does not matter: `total_cuts` says that cut arcs cover as many points as the arcs
have, each counted once.
-/

namespace PacketTrain.Circular

open Ranges

variable {m : ℤ}

/-- The points of the arc of `length` points from `start`. -/
def arc (m start : ℤ) (length : ℕ) : Finset ℤ :=
  (Finset.range length).image fun i : ℕ => (start + i) % m

@[simp] theorem mem_arc {start x : ℤ} {length : ℕ} :
    x ∈ arc m start length ↔ ∃ i : ℕ, i < length ∧ (start + i) % m = x := by
  simp only [arc, Finset.mem_image, Finset.mem_range]

/-- The points of several arcs, each a start and a length. -/
def arcs (m : ℤ) (l : List (ℤ × ℕ)) : Finset ℤ := l.toFinset.biUnion fun a => arc m a.1 a.2

@[simp] theorem mem_arcs {l : List (ℤ × ℕ)} {x : ℤ} :
    x ∈ arcs m l ↔ ∃ a ∈ l, x ∈ arc m a.1 a.2 := by
  simp only [arcs, Finset.mem_biUnion, List.mem_toFinset]

theorem arcs_cons (a : ℤ × ℕ) (l : List (ℤ × ℕ)) :
    arcs m (a :: l) = arc m a.1 a.2 ∪ arcs m l := by
  ext x
  simp

/-! ## Rotation -/

/-- The circle turned by `k`. -/
def rotate (m k x : ℤ) : ℤ := (x + k) % m

theorem rotate_arc (k start : ℤ) (length : ℕ) :
    (arc m start length).image (rotate m k) = arc m (start + k) length := by
  rw [arc, Finset.image_image]
  apply Finset.image_congr
  intro i _
  rw [Function.comp, rotate, Int.emod_add_emod]
  congr 1
  omega

theorem arc_emod (start : ℤ) (length : ℕ) : arc m (start % m) length = arc m start length := by
  apply Finset.image_congr
  intro i _
  exact Int.emod_add_emod _ _ _

/-- Points of the circle that turn to one point are one point. -/
theorem rotate_inj {k x y : ℤ} (hx : x % m = x) (hy : y % m = y)
    (h : rotate m k x = rotate m k y) : x = y := by
  have hmod : x % m = y % m := by
    have hback := congrArg (fun z => (z - k) % m) h
    simpa only [rotate, Int.emod_sub_emod, Int.add_sub_cancel] using hback
  rwa [hx, hy] at hmod

/-- Turning the circle keeps the number of points. -/
theorem card_image_rotate {k : ℤ} {s : Finset ℤ} (hs : ∀ x ∈ s, x % m = x) :
    (s.image (rotate m k)).card = s.card :=
  Finset.card_image_of_injOn fun _ hx _ hy h => rotate_inj (hs _ hx) (hs _ hy) h

/-- Turning the circle keeps differences. -/
theorem image_rotate_sdiff {k : ℤ} {s t : Finset ℤ} (hs : ∀ x ∈ s, x % m = x)
    (ht : ∀ x ∈ t, x % m = x) :
    s.image (rotate m k) \ t.image (rotate m k) = (s \ t).image (rotate m k) := by
  ext x
  simp only [Finset.mem_sdiff, Finset.mem_image]
  constructor
  · rintro ⟨⟨y, hy, rfl⟩, hnot⟩
    exact ⟨y, ⟨hy, fun hyt => hnot ⟨y, hyt, rfl⟩⟩, rfl⟩
  · rintro ⟨y, ⟨hy, hnot⟩, rfl⟩
    refine ⟨⟨y, hy, rfl⟩, ?_⟩
    rintro ⟨z, hz, heq⟩
    exact hnot (rotate_inj (ht z hz) (hs y hy) heq ▸ hz)

theorem emod_of_mem_arc {start x : ℤ} {length : ℕ} (h : x ∈ arc m start length) : x % m = x := by
  obtain ⟨i, -, rfl⟩ := mem_arc.mp h
  exact Int.emod_emod_of_dvd _ dvd_rfl

theorem emod_of_mem_arcs {l : List (ℤ × ℕ)} {x : ℤ} (h : x ∈ arcs m l) : x % m = x := by
  obtain ⟨a, -, ha⟩ := mem_arcs.mp h
  exact emod_of_mem_arc ha

/-! ## Arcs as ranges -/

/-- An arc from a point of the circle, as ranges: cut where it passes zero. -/
def cut (m start : ℤ) (length : ℕ) : List Range :=
  if m < start + length then [(start, m), (0, start + length - m)] else [(start, start + length)]

theorem proper_cut {start : ℤ} (hstart : start < m) (length : ℕ) : Proper (cut m start length) := by
  intro r hr
  rw [cut] at hr
  split at hr
  · simp only [List.mem_cons, List.not_mem_nil, or_false] at hr
    rcases hr with rfl | rfl
    · exact hstart.le
    · show (0 : ℤ) ≤ start + length - m
      omega
  · rw [List.mem_singleton] at hr
    rw [hr]
    show start ≤ start + length
    omega

/-- The ranges of an arc cover its points. An arc longer than the circle would be cut into ranges that
leave it. -/
theorem mem_cut {start : ℤ} {length : ℕ} (h0 : 0 ≤ start) (hstart : start < m)
    (hlength : (length : ℤ) ≤ m) {x : ℤ} :
    (∃ r ∈ cut m start length, r.1 ≤ x ∧ x < r.2) ↔ x ∈ arc m start length := by
  rw [mem_arc, cut]
  split
  · next hcross =>
    simp only [List.mem_cons, List.not_mem_nil, or_false, exists_eq_or_imp, exists_eq_left]
    constructor
    · rintro (⟨hlo, hhi⟩ | ⟨hlo, hhi⟩)
      · refine ⟨(x - start).toNat, by omega, ?_⟩
        rw [show start + ((x - start).toNat : ℤ) = x by omega]
        exact Int.emod_eq_of_lt (by omega) hhi
      · refine ⟨(x + m - start).toNat, by omega, ?_⟩
        rw [show start + ((x + m - start).toNat : ℤ) = x + m by omega, Int.add_emod_right]
        exact Int.emod_eq_of_lt hlo (by omega)
    · rintro ⟨i, hi, rfl⟩
      by_cases hin : start + i < m
      · rw [Int.emod_eq_of_lt (by omega) hin]
        exact .inl ⟨by omega, hin⟩
      · rw [← Int.sub_emod_right, Int.emod_eq_of_lt (by omega) (by omega)]
        exact .inr ⟨by omega, by omega⟩
  · next hinside =>
    simp only [List.mem_singleton, exists_eq_left]
    constructor
    · rintro ⟨hlo, hhi⟩
      refine ⟨(x - start).toNat, by omega, ?_⟩
      rw [show start + ((x - start).toNat : ℤ) = x by omega]
      exact Int.emod_eq_of_lt (by omega) (by omega)
    · rintro ⟨i, hi, rfl⟩
      rw [Int.emod_eq_of_lt (by omega) (by omega)]
      exact ⟨by omega, by omega⟩

/-- Ranges measured from a base cover the arc turned back by the base. -/
theorem cover_cut (hm : 0 < m) (base start : ℤ) {length : ℕ} (hlength : (length : ℤ) ≤ m) :
    cover (cut m ((start - base) % m) length) = (arc m start length).image (rotate m (-base)) := by
  rw [rotate_arc, ← arc_emod, ← sub_eq_add_neg]
  ext x
  rw [mem_cover]
  exact mem_cut (Int.emod_nonneg _ hm.ne') (Int.emod_lt_of_pos _ hm) hlength

/-- The same of several arcs. -/
theorem cover_cuts (hm : 0 < m) (base : ℤ) {l : List (ℤ × ℕ)} (hl : ∀ a ∈ l, (a.2 : ℤ) ≤ m) :
    cover (l.flatMap fun a => cut m ((a.1 - base) % m) a.2) =
      (arcs m l).image (rotate m (-base)) := by
  induction l with
  | nil => rfl
  | cons a l ih =>
    rw [List.flatMap_cons, cover_append, cover_cut hm base a.1 (hl a List.mem_cons_self),
      ih fun b hb => hl b (List.mem_cons_of_mem _ hb), arcs_cons, Finset.image_union]

/-- THE BASE DOES NOT MATTER: arcs measured from any base and cut cover as many points as the arcs
have. -/
theorem total_cuts (hm : 0 < m) (base : ℤ) {l : List (ℤ × ℕ)} (hl : ∀ a ∈ l, (a.2 : ℤ) ≤ m) :
    total (l.flatMap fun a => cut m ((a.1 - base) % m) a.2) = (arcs m l).card := by
  have hproper : Proper (l.flatMap fun a => cut m ((a.1 - base) % m) a.2) := by
    intro r hr
    obtain ⟨a, -, hr⟩ := List.mem_flatMap.mp hr
    exact proper_cut (Int.emod_lt_of_pos _ hm) _ r hr
  rw [total_eq_card hproper, cover_cuts hm base hl]
  exact congrArg Nat.cast (card_image_rotate fun x hx => emod_of_mem_arcs hx)

end PacketTrain.Circular
