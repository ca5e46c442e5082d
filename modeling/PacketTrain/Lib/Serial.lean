import PacketTrain.Lib.Circular

/-!
# Serial numbers

A counter that wraps at `m` has no first number. Of two numbers less than half a turn apart one
comes before the other, and this is an order on any window of half a turn: there `before` is the
order of the places that the numbers have in the window (`before_iff`). An arc that stays in the
window is a range of places (`image_place_arcs`). `distance` is the signed distance on the circle,
which is a place only in the window (`distance_eq_place_iff`).
-/

namespace PacketTrain.Serial

open Circular Ranges

variable {m : ℤ}

/-- From `b` back to `a` is less than half a turn. -/
def before (m a b : ℤ) : Prop := m ≤ 2 * ((a - b) % m)

instance (m a b : ℤ) : Decidable (before m a b) := inferInstanceAs (Decidable (_ ≤ _))

/-- The place of a number in the window that starts at `start`. -/
def place (m start x : ℤ) : ℤ := (x - start) % m

/-- The numbers of the half turn from `start`. -/
def Within (m start x : ℤ) : Prop := 2 * place m start x < m

instance (m start x : ℤ) : Decidable (Within m start x) := inferInstanceAs (Decidable (_ < _))

theorem place_nonneg (hm : 0 < m) (start x : ℤ) : 0 ≤ place m start x := Int.emod_nonneg _ hm.ne'

/-- How far one number of a window is ahead of another. -/
theorem sub_emod_eq {start x y : ℤ} (hm : 0 < m) (hx : Within m start x) (hy : Within m start y) :
    (x - y) % m = if place m start x < place m start y then place m start x - place m start y + m
      else place m start x - place m start y := by
  have hx0 := place_nonneg hm start x
  have hy0 := place_nonneg hm start y
  unfold Within at hx hy
  have hplaces : (x - y) % m = (place m start x - place m start y) % m := by
    rw [place, place, ← Int.sub_emod]
    congr 1
    omega
  rw [hplaces]
  split
  · rw [← Int.add_emod_right, Int.emod_eq_of_lt (by omega) (by omega)]
  · exact Int.emod_eq_of_lt (by omega) (by omega)

/-- In a window, before is the order of the places. -/
theorem before_iff {start x y : ℤ} (hm : 0 < m) (hx : Within m start x) (hy : Within m start y) :
    before m x y ↔ place m start x < place m start y := by
  have hx0 := place_nonneg hm start x
  have hy0 := place_nonneg hm start y
  have hsub := sub_emod_eq hm hx hy
  unfold Within at hx hy
  unfold before
  split at hsub <;> omega

/-- A window holds each place once. -/
theorem place_inj {start x y : ℤ} (hx : x % m = x) (hy : y % m = y)
    (h : place m start x = place m start y) : x = y := by
  rw [place, place, sub_eq_add_neg, sub_eq_add_neg] at h
  exact rotate_inj hx hy h

/-! ## Signed distances -/

/-- The distance to a number from `start`, ahead of it up to half a turn and behind it from there.
-/
def distance (m start x : ℤ) : ℤ :=
  if Within m start x then place m start x else place m start x - m

/-- A signed distance is a place from some base exactly when it is measured from the base's number
and the other is in its window. -/
theorem distance_eq_place_iff (hm : 0 < m) {start base x : ℤ} :
    distance m start x = place m base x ↔ (start - base) % m = 0 ∧ Within m start x := by
  have hplaces : place m start x = place m base x ↔ (start - base) % m = 0 := by
    have hsub : x - base - (x - start) = start - base := by omega
    rw [place, place, eq_comm, Int.emod_eq_emod_iff_emod_sub_eq_zero, hsub]
  unfold distance
  split
  · next hwithin => exact hplaces.trans (and_iff_left hwithin).symm
  · next hwithin =>
    have hlt : place m start x < m := Int.emod_lt_of_pos _ hm
    have hbase := place_nonneg hm base x
    constructor
    · intro h
      omega
    · exact fun h => absurd h.2 hwithin

/-! ## Arcs in a window -/

/-- The arc stays in the half turn from `start`. -/
def ArcWithin (m start : ℤ) (a : ℤ × ℕ) : Prop := ∀ i : ℕ, i < a.2 → Within m start (a.1 + i)

instance (m start : ℤ) (a : ℤ × ℕ) : Decidable (ArcWithin m start a) :=
  inferInstanceAs (Decidable (∀ i : ℕ, i < a.2 → _))

/-- The range of places of an arc. -/
def places (m start : ℤ) (a : ℤ × ℕ) : Range := (place m start a.1, place m start a.1 + a.2)

/-- The places of an arc follow one another. -/
theorem place_add {start : ℤ} {a : ℤ × ℕ} (hm : 1 < m) (h : ArcWithin m start a) {i : ℕ}
    (hi : i < a.2) : place m start (a.1 + i) = place m start a.1 + i := by
  induction i with
  | zero => simp
  | succ i ih =>
    have hlast := h i (by omega)
    have hprev := ih (by omega)
    have h0 := place_nonneg (by omega : 0 < m) start (a.1 + i)
    unfold Within at hlast
    have hstep : place m start (a.1 + (i + 1 : ℕ)) = (place m start (a.1 + i) + 1) % m := by
      rw [place, place, Int.emod_add_emod]
      congr 1
      push_cast
      omega
    rw [hstep, Int.emod_eq_of_lt (by omega) (by omega), hprev]
    push_cast
    omega

/-- An arc of a window ends in its half turn. -/
theorem place_end {start : ℤ} {a : ℤ × ℕ} (hm : 1 < m) (h : ArcWithin m start a) (ha : 0 < a.2) :
    2 * (place m start a.1 + a.2 - 1) < m := by
  have hlast := h (a.2 - 1) (by omega)
  unfold Within at hlast
  rw [place_add hm h (by omega)] at hlast
  omega

/-- The numbers of an arc in a window, by their places, are the range of places. -/
theorem image_place_arc {start : ℤ} {a : ℤ × ℕ} (hm : 1 < m) (h : ArcWithin m start a) :
    (arc m a.1 a.2).image (place m start) = cover [places m start a] := by
  ext k
  simp only [Finset.mem_image, mem_arc, mem_cover, List.mem_singleton, exists_eq_left, places]
  constructor
  · rintro ⟨x, ⟨i, hi, rfl⟩, rfl⟩
    have hplace : place m start ((a.1 + i) % m) = place m start a.1 + i := by
      rw [place, Int.emod_sub_emod]
      exact place_add hm h hi
    rw [hplace]
    omega
  · rintro ⟨hlo, hhi⟩
    refine ⟨_, ⟨(k - place m start a.1).toNat, by omega, rfl⟩, ?_⟩
    have hplace := place_add hm h (show (k - place m start a.1).toNat < a.2 by omega)
    rw [place, Int.emod_sub_emod]
    refine hplace.trans ?_
    omega

/-- The numbers of arcs in a window, by their places, are what the ranges of places cover. -/
theorem image_place_arcs {start : ℤ} {l : List (ℤ × ℕ)} (hm : 1 < m)
    (h : ∀ a ∈ l, ArcWithin m start a) :
    (arcs m l).image (place m start) = cover (l.map (places m start)) := by
  induction l with
  | nil => rfl
  | cons a l ih =>
    rw [arcs_cons, Finset.image_union, image_place_arc hm (h a List.mem_cons_self),
      ih fun b hb => h b (List.mem_cons_of_mem _ hb), ← cover_append]
    rfl

/-- Two arcs of a window have as many numbers in common as their ranges. -/
theorem card_arc_inter {start : ℤ} {a b : ℤ × ℕ} (hm : 1 < m) (ha : ArcWithin m start a)
    (hb : ArcWithin m start b) :
    ((arc m a.1 a.2 ∩ arc m b.1 b.2).card : ℤ) = shared (places m start a) (places m start b) := by
  have hinj : Set.InjOn (place m start) ((arc m a.1 a.2 ∪ arc m b.1 b.2 : Finset ℤ) : Set ℤ) := by
    intro x hx y hy heq
    have hcircle : ∀ z ∈ arc m a.1 a.2 ∪ arc m b.1 b.2, z % m = z := by
      intro z hz
      rcases Finset.mem_union.mp hz with hz | hz
      · exact emod_of_mem_arc hz
      · exact emod_of_mem_arc hz
    exact place_inj (hcircle x hx) (hcircle y hy) heq
  rw [← card_inter_eq_shared, ← cover_singleton, ← cover_singleton, ← image_place_arc hm ha,
    ← image_place_arc hm hb, ← Finset.image_inter_of_injOn _ _ (by simpa using hinj),
    Finset.card_image_of_injOn (hinj.mono ?_)]
  rw [Finset.coe_subset]
  exact Finset.inter_subset_union

theorem within_of_mem_arcs {start x : ℤ} {l : List (ℤ × ℕ)} (h : ∀ a ∈ l, ArcWithin m start a)
    (hx : x ∈ arcs m l) : Within m start x := by
  obtain ⟨a, ha, hx⟩ := mem_arcs.mp hx
  obtain ⟨i, hi, rfl⟩ := mem_arc.mp hx
  have hin := h a ha i hi
  rwa [Within, place, Int.emod_sub_emod]

/-- Arcs of a window meet in a number exactly when their ranges meet in its place, so inclusion is
inclusion of what the ranges cover. -/
theorem arcs_subset_iff {start : ℤ} {l l' : List (ℤ × ℕ)} (hm : 1 < m)
    (h : ∀ a ∈ l, ArcWithin m start a) (h' : ∀ a ∈ l', ArcWithin m start a) :
    arcs m l ⊆ arcs m l' ↔ cover (l.map (places m start)) ⊆ cover (l'.map (places m start)) := by
  rw [← image_place_arcs hm h, ← image_place_arcs hm h']
  constructor
  · exact Finset.image_subset_image
  · intro hsub x hx
    obtain ⟨y, hy, heq⟩ := Finset.mem_image.mp (hsub (Finset.mem_image_of_mem _ hx))
    rwa [← place_inj (emod_of_mem_arcs hy) (emod_of_mem_arcs hx) heq]

/-- The numbers of arcs that do not come before one of the window, counted by places. -/
theorem card_not_before {start y : ℤ} {l : List (ℤ × ℕ)} (hm : 1 < m)
    (h : ∀ a ∈ l, ArcWithin m start a) (hy : Within m start y) :
    ((arcs m l).filter fun x => ¬ before m x y).card =
      ((cover (l.map (places m start))).filter (place m start y ≤ ·)).card := by
  have himage : (cover (l.map (places m start))).filter (place m start y ≤ ·) =
      ((arcs m l).filter fun x => ¬ before m x y).image (place m start) := by
    rw [← image_place_arcs hm h, Finset.filter_image]
    congr 1
    apply Finset.filter_congr
    intro x hx
    rw [before_iff (by omega) (within_of_mem_arcs h hx) hy, not_lt]
  rw [himage]
  refine (Finset.card_image_of_injOn fun x hx z hz heq => ?_).symm
  have hx := emod_of_mem_arcs (Finset.mem_filter.mp hx).1
  have hz := emod_of_mem_arcs (Finset.mem_filter.mp hz).1
  exact place_inj hx hz heq

end PacketTrain.Serial
