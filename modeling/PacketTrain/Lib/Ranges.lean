import Mathlib.Data.Finset.Union
import Mathlib.Data.Int.Interval
import Mathlib.Data.List.Sort

/-!
# Half-open integer ranges

The sweep that merges overlapping ranges: take them in order of their starts, and grow the last merged
range while the next one starts inside it or at its end. `total` adds up the lengths that are left.
`total_eq_card` says what the number is: how many integers the ranges cover, each counted once.
-/

namespace PacketTrain.Ranges

/-- `(start, end)`, the end excluded. -/
abbrev Range := ℤ × ℤ

/-- The order of pairs: by start, then by end. -/
def le (a b : Range) : Prop := a.1 < b.1 ∨ a.1 = b.1 ∧ a.2 ≤ b.2

instance : DecidableRel le := fun a b =>
  inferInstanceAs (Decidable (a.1 < b.1 ∨ a.1 = b.1 ∧ a.2 ≤ b.2))

/-- One step of the sweep. The last merged range stands first. -/
def absorb (merged : List Range) (r : Range) : List Range :=
  match merged with
  | [] => [r]
  | last :: rest =>
    if r.1 ≤ last.2 then (last.1, max last.2 r.2) :: rest else r :: last :: rest

/-- The merged ranges, last first. -/
def sweep (rs : List Range) : List Range := (rs.insertionSort le).foldl absorb []

/-- The length of the merged ranges. -/
def total (rs : List Range) : ℤ := ((sweep rs).map fun r => r.2 - r.1).sum

/-! ## What ranges cover -/

/-- The computable order: with more of Mathlib, `ℤ` is also found to be a preorder through its complete
lattice, which does not compute. -/
local instance intOrder : Preorder ℤ := Int.instLinearOrder.toPreorder

/-- The integers the ranges cover. -/
def cover (rs : List Range) : Finset ℤ := rs.toFinset.biUnion fun r => Finset.Ico r.1 r.2

@[simp] theorem mem_cover {rs : List Range} {x : ℤ} :
    x ∈ cover rs ↔ ∃ r ∈ rs, r.1 ≤ x ∧ x < r.2 := by
  simp only [cover, Finset.mem_biUnion, List.mem_toFinset, Finset.mem_Ico]

theorem cover_cons (r : Range) (rs : List Range) :
    cover (r :: rs) = Finset.Ico r.1 r.2 ∪ cover rs := by
  ext x
  simp only [mem_cover, Finset.mem_union, Finset.mem_Ico, List.mem_cons, exists_eq_or_imp]

theorem cover_append (rs rs' : List Range) : cover (rs ++ rs') = cover rs ∪ cover rs' := by
  ext x
  simp only [mem_cover, List.mem_append, Finset.mem_union, or_and_right, exists_or]

theorem cover_singleton (r : Range) : cover [r] = Finset.Ico r.1 r.2 := by
  ext x
  simp

/-- Ranges of which none starts after it ends. -/
def Proper (rs : List Range) : Prop := ∀ r ∈ rs, r.1 ≤ r.2

/-- Merged ranges, last first: each ends before the one after it starts. -/
def Separated (rs : List Range) : Prop := rs.Pairwise fun later earlier => earlier.2 < later.1

/-- Ranges apart from each other cover as many integers as they are long. -/
theorem sum_eq_card {rs : List Range} (hproper : Proper rs)
    (hapart : rs.Pairwise fun a b => a.2 ≤ b.1 ∨ b.2 ≤ a.1) :
    (rs.map fun r => r.2 - r.1).sum = (cover rs).card := by
  induction rs with
  | nil => rfl
  | cons r rs ih =>
    obtain ⟨hr, hrs⟩ := List.pairwise_cons.mp hapart
    have hle : r.1 ≤ r.2 := hproper r List.mem_cons_self
    have hdisjoint : Disjoint (Finset.Ico r.1 r.2) (cover rs) := by
      rw [Finset.disjoint_left]
      intro x hx hcover
      obtain ⟨q, hq, hlo, hhi⟩ := mem_cover.mp hcover
      have hbefore := hr q hq
      have hin := Finset.mem_Ico.mp hx
      omega
    rw [cover_cons, Finset.card_union_of_disjoint hdisjoint, Int.card_Ico, List.map_cons,
      List.sum_cons, ih (fun q hq => hproper q (List.mem_cons_of_mem _ hq)) hrs]
    push_cast
    omega

/-! ## The sweep -/

/-- What a step keeps: the merged ranges stay proper and separated, and cover what they covered and
the new range. The new range starts no earlier than the last merged one. -/
theorem absorb_spec {merged : List Range} {r : Range} (hproper : Proper merged)
    (hsep : Separated merged) (hr : r.1 ≤ r.2) (hstart : ∀ last ∈ merged.head?, last.1 ≤ r.1) :
    Proper (absorb merged r) ∧ Separated (absorb merged r) ∧
      cover (absorb merged r) = cover merged ∪ Finset.Ico r.1 r.2 ∧
      ∀ last ∈ (absorb merged r).head?, last.1 ≤ r.1 := by
  cases merged with
  | nil =>
    refine ⟨?_, List.pairwise_singleton _ _, ?_, ?_⟩
    · intro q hq
      rw [List.mem_singleton.mp hq]
      exact hr
    · show cover [r] = cover [] ∪ _
      rw [cover_cons, Finset.union_comm]
    · rintro last ⟨⟩
      exact le_rfl
  | cons last rest =>
    obtain ⟨hlast, hrest⟩ := List.pairwise_cons.mp hsep
    have hle := hproper last List.mem_cons_self
    have hbefore : last.1 ≤ r.1 := hstart last rfl
    have hproper' : ∀ q ∈ rest, q.1 ≤ q.2 := fun q hq => hproper q (List.mem_cons_of_mem _ hq)
    unfold absorb
    simp only
    split
    · next htouch =>
      refine ⟨?_, List.pairwise_cons.mpr ⟨hlast, hrest⟩, ?_, ?_⟩
      · intro q hq
        rcases List.mem_cons.mp hq with rfl | hq
        · exact hle.trans (le_max_left _ _)
        · exact hproper' q hq
      · ext x
        simp only [cover_cons, Finset.mem_union, Finset.mem_Ico]
        constructor
        · rintro (⟨hlo, hhi⟩ | hx)
          · rcases lt_max_iff.mp hhi with hhi | hhi
            · exact .inl (.inl ⟨hlo, hhi⟩)
            · by_cases hx : x < last.2
              · exact .inl (.inl ⟨hlo, hx⟩)
              · exact .inr ⟨by omega, hhi⟩
          · exact .inl (.inr hx)
        · rintro ((⟨hlo, hhi⟩ | hx) | ⟨hlo, hhi⟩)
          · exact .inl ⟨hlo, lt_max_of_lt_left hhi⟩
          · exact .inr hx
          · exact .inl ⟨hbefore.trans hlo, lt_max_of_lt_right hhi⟩
      · rintro q ⟨⟩
        exact hbefore
    · next hapart =>
      refine ⟨?_, ?_, ?_, ?_⟩
      · intro q hq
        rcases List.mem_cons.mp hq with rfl | hq
        · exact hr
        · exact hproper q hq
      · refine List.pairwise_cons.mpr ⟨?_, hsep⟩
        intro q hq
        rcases List.mem_cons.mp hq with rfl | hq
        · exact lt_of_not_ge hapart
        · exact (hlast q hq).trans_le hbefore
      · rw [cover_cons, Finset.union_comm]
      · rintro q ⟨⟩
        exact le_rfl

theorem foldl_absorb_spec {rs : List Range} (merged : List Range)
    (hsorted : rs.Pairwise fun a b => a.1 ≤ b.1)
    (hrs : Proper rs) (hproper : Proper merged) (hsep : Separated merged)
    (hstart : ∀ r ∈ rs, ∀ last ∈ merged.head?, last.1 ≤ r.1) :
    Proper (rs.foldl absorb merged) ∧ Separated (rs.foldl absorb merged) ∧
      cover (rs.foldl absorb merged) = cover merged ∪ cover rs := by
  induction rs generalizing merged with
  | nil =>
    refine ⟨hproper, hsep, ?_⟩
    rw [List.foldl_nil]
    ext x
    simp
  | cons r rs ih =>
    obtain ⟨hr, hsorted⟩ := List.pairwise_cons.mp hsorted
    obtain ⟨hproper', hsep', hcover, hlast⟩ := absorb_spec hproper hsep
      (hrs r List.mem_cons_self) (hstart r List.mem_cons_self)
    obtain ⟨hp, hs, hc⟩ := ih _ hsorted (fun q hq => hrs q (List.mem_cons_of_mem _ hq)) hproper' hsep'
      fun q hq last hl => (hlast last hl).trans (hr q hq)
    refine ⟨hp, hs, ?_⟩
    rw [List.foldl_cons, hc, hcover, cover_cons, Finset.union_assoc]

theorem pairwise_start (rs : List Range) :
    (rs.insertionSort le).Pairwise fun a b => a.1 ≤ b.1 := by
  have htotal : Std.Total le := ⟨fun a b => by unfold le; omega⟩
  have htrans : IsTrans Range le := ⟨fun a b c hab hbc => by unfold le at *; omega⟩
  refine (List.pairwise_insertionSort le rs).imp fun {a b} h => ?_
  unfold le at h
  omega

/-- THE SWEEP COUNTS: the merged length is the number of integers covered. -/
theorem total_eq_card {rs : List Range} (h : Proper rs) : total rs = (cover rs).card := by
  have hsorted : Proper (rs.insertionSort le) := fun r hr => h r ((List.mem_insertionSort le).mp hr)
  obtain ⟨hproper, hsep, hcover⟩ := foldl_absorb_spec [] (pairwise_start rs) hsorted
    (fun _ hr => nomatch hr) .nil (fun _ _ _ hl => nomatch hl)
  rw [total, sweep, sum_eq_card hproper (hsep.imp fun h => .inr h.le), hcover]
  congr 2
  ext x
  simp only [Finset.mem_union, mem_cover, List.mem_insertionSort]
  simp

/-- Something is covered exactly when some range is not empty. -/
theorem total_pos_iff {rs : List Range} (h : Proper rs) : 0 < total rs ↔ ∃ r ∈ rs, r.1 < r.2 := by
  rw [total_eq_card h, Int.natCast_pos, Finset.card_pos]
  constructor
  · rintro ⟨x, hx⟩
    obtain ⟨r, hr, hlo, hhi⟩ := mem_cover.mp hx
    exact ⟨r, hr, hlo.trans_lt hhi⟩
  · rintro ⟨r, hr, hlt⟩
    exact ⟨r.1, mem_cover.mpr ⟨r, hr, le_rfl, hlt⟩⟩

/-! ## What ranges share -/

/-- How many integers two ranges share. -/
def shared (a b : Range) : ℤ := max 0 (min a.2 b.2 - max a.1 b.1)

theorem shared_nonneg (a b : Range) : 0 ≤ shared a b := le_max_left _ _

theorem shared_comm (a b : Range) : shared a b = shared b a := by
  rw [shared, shared, min_comm, max_comm a.1]

/-- Ranges moved together share what they shared. -/
theorem shared_add (a b : Range) (c : ℤ) :
    shared (a.1 + c, a.2 + c) (b.1 + c, b.2 + c) = shared a b := by
  simp only [shared]
  omega

/-- A range that ends before another begins shares nothing with it. -/
theorem shared_eq_zero {a b : Range} (h : a.2 ≤ b.1) : shared a b = 0 := by
  rw [shared]
  omega

theorem card_inter_eq_shared (a b : Range) :
    ((Finset.Ico a.1 a.2 ∩ Finset.Ico b.1 b.2).card : ℤ) = shared a b := by
  rw [Finset.Ico_inter_Ico, Int.card_Ico, shared]
  omega

/-- A range shares no more with several than with each of them, added up. -/
theorem card_inter_cover_le (a : Range) (rs : List Range) :
    ((Finset.Ico a.1 a.2 ∩ cover rs).card : ℤ) ≤ (rs.map (shared a)).sum := by
  induction rs with
  | nil =>
    have hnone : Finset.Ico a.1 a.2 ∩ cover [] = ∅ := by
      ext x
      simp
    rw [hnone]
    exact le_rfl
  | cons r rs ih =>
    have hunion := Finset.card_union_le (Finset.Ico a.1 a.2 ∩ Finset.Ico r.1 r.2)
      (Finset.Ico a.1 a.2 ∩ cover rs)
    have hshared := card_inter_eq_shared a r
    rw [cover_cons, Finset.inter_union_distrib_left, List.map_cons, List.sum_cons]
    omega

/-- A range that shares nothing with any of several covers nothing that they cover. -/
theorem cover_sdiff_of_shared_eq_zero {a : Range} {rs : List Range}
    (h : (rs.map (shared a)).sum = 0) : cover [a] \ cover rs = cover [a] := by
  have hle := card_inter_cover_le a rs
  have hnone : Finset.Ico a.1 a.2 ∩ cover rs = ∅ := by
    rw [← Finset.card_eq_zero]
    omega
  rw [cover_singleton, Finset.sdiff_eq_self_iff_disjoint, Finset.disjoint_iff_inter_eq_empty]
  exact hnone

/-- A range that several cover shares its whole length with them. -/
theorem le_sum_shared {a : Range} {rs : List Range} (h : cover [a] ⊆ cover rs) :
    a.2 - a.1 ≤ (rs.map (shared a)).sum := by
  have hle := card_inter_cover_le a rs
  rw [cover_singleton] at h
  rw [Finset.inter_eq_left.mpr h, Int.card_Ico] at hle
  omega

theorem card_cover_singleton {a : Range} (h : a.1 ≤ a.2) :
    ((cover [a]).card : ℤ) = a.2 - a.1 := by
  rw [cover_singleton, Int.card_Ico]
  omega

end PacketTrain.Ranges
