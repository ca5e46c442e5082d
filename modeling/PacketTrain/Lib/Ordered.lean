import Mathlib.Data.List.Induction
import Mathlib.Data.List.MinMax
import Mathlib.Data.List.Sort
import Mathlib.Order.Basic

/-!
# Lists in the order of a key

`sortOn` is a stable sort by a key. A list in the order of its key is cut by a bound into a prefix and
a rest (`takeWhile_le`), has the least of a kind first (`find?_le`), and has nothing between two
neighbours (`adjacent_split`). In a sort of numbered elements the position of an element is the number of
those that come before it (`pairwise_sortOn`, `countP_of_getElem?`).
-/

namespace PacketTrain

variable {α κ : Type} [LinearOrder κ]

/-- The list in the order of its key. -/
def InOrder (key : α → κ) (l : List α) : Prop := l.Pairwise fun a b => key a ≤ key b

/-- `sorted(l, key=key)`. -/
def sortOn (key : α → κ) (l : List α) : List α := l.insertionSort fun a b => key a ≤ key b

/-- Neighbours: `zip(l, l[1:])`. -/
def adjacent (l : List α) : List (α × α) := l.zip l.tail

@[simp] theorem adjacent_cons_cons (a b : α) (l : List α) :
    adjacent (a :: b :: l) = (a, b) :: adjacent (b :: l) := rfl

theorem mem_of_adjacent {l : List α} {a b : α} (h : (a, b) ∈ adjacent l) : a ∈ l ∧ b ∈ l :=
  ⟨(List.of_mem_zip h).1, List.mem_of_mem_tail (List.of_mem_zip h).2⟩

theorem adjacent_map {β : Type} (f : α → β) (l : List α) :
    adjacent (l.map f) = (adjacent l).map (Prod.map f f) := by
  rw [adjacent, adjacent, ← List.map_tail, List.zip_map]

/-- One more element at the end has the last one before it. -/
theorem mem_adjacent_concat {l : List α} {a : α} {xy : α × α} (h : xy ∈ adjacent (l ++ [a])) :
    xy ∈ adjacent l ∨ l.getLast? = some xy.1 ∧ xy.2 = a := by
  induction l with
  | nil => cases h
  | cons b l ih =>
    cases l with
    | nil =>
      obtain rfl := List.mem_singleton.mp h
      exact .inr ⟨rfl, rfl⟩
    | cons c l =>
      rcases List.mem_cons.mp h with rfl | h
      · exact .inl List.mem_cons_self
      · rw [List.getLast?_cons_cons]
        exact (ih h).imp_left (List.mem_cons_of_mem _)

/-- Every element but the last has a neighbour after it. -/
theorem map_fst_adjacent (l : List α) : (adjacent l).map Prod.fst = l.dropLast := by
  induction l with
  | nil => rfl
  | cons a l ih =>
    cases l with
    | nil => rfl
    | cons b l => simp [ih]

/-- Neighbours in order: the pairs follow one another. -/
theorem pairwise_adjacent {key : α → κ} {l : List α} (h : InOrder key l) :
    (adjacent l).Pairwise fun ab cd => key ab.2 ≤ key cd.1 := by
  induction l with
  | nil => exact .nil
  | cons a l ih =>
    cases l with
    | nil => exact .nil
    | cons b l =>
      obtain ⟨-, hl⟩ := List.pairwise_cons.mp h
      obtain ⟨hb, -⟩ := List.pairwise_cons.mp hl
      refine List.pairwise_cons.mpr ⟨fun cd hcd => ?_, ih hl⟩
      rcases List.mem_cons.mp (mem_of_adjacent (a := cd.1) (b := cd.2) hcd).1 with heq | hmem
      · rw [heq]
      · exact hb _ hmem

@[simp] theorem mem_sortOn {key : α → κ} {l : List α} {a : α} : a ∈ sortOn key l ↔ a ∈ l :=
  List.mem_insertionSort _

theorem inOrder_sortOn (key : α → κ) (l : List α) : InOrder key (sortOn key l) := by
  have htotal : Std.Total fun a b : α => key a ≤ key b := ⟨fun a b => le_total (key a) (key b)⟩
  have htrans : IsTrans α fun a b => key a ≤ key b := ⟨fun _ _ _ h h' => h.trans h'⟩
  exact List.pairwise_insertionSort _ l

/-- A sort of what is in order changes nothing. -/
theorem sortOn_eq_self {key : α → κ} {l : List α} (h : InOrder key l) : sortOn key l = l :=
  List.Pairwise.insertionSort_eq h

/-- The prefix up to a bound is everything up to the bound. -/
theorem takeWhile_le {key : α → κ} {l : List α} (h : InOrder key l) (t : κ) :
    l.takeWhile (key · ≤ t) = l.filter (key · ≤ t) := by
  induction l with
  | nil => rfl
  | cons a l ih =>
    obtain ⟨ha, hl⟩ := List.pairwise_cons.mp h
    rcases le_or_gt (key a) t with hle | hgt
    · rw [List.takeWhile_cons_of_pos (by simpa using hle), List.filter_cons_of_pos (by simpa using hle),
        ih hl]
    · have hnone : l.filter (key · ≤ t) = [] := by
        rw [List.filter_eq_nil_iff]
        intro b hb
        simpa using hgt.trans_le (ha b hb)
      rw [List.takeWhile_cons_of_neg (by simpa using hgt), List.filter_cons_of_neg (by simpa using hgt),
        hnone]

/-- The first of a kind is the least of its kind. -/
theorem find?_le {key : α → κ} {l : List α} (h : InOrder key l) {q : α → Bool} {a b : α}
    (ha : l.find? q = some a) (hb : b ∈ l) (hq : q b = true) : key a ≤ key b := by
  induction l with
  | nil => cases hb
  | cons x l ih =>
    obtain ⟨hx, hl⟩ := List.pairwise_cons.mp h
    by_cases hqx : q x = true
    · rw [List.find?_cons_of_pos hqx] at ha
      cases ha
      rcases List.mem_cons.mp hb with rfl | hb
      · exact le_rfl
      · exact hx b hb
    · rw [List.find?_cons_of_neg hqx] at ha
      rcases List.mem_cons.mp hb with rfl | hb
      · exact absurd hq hqx
      · exact ih hl ha hb

/-- Nothing lies between two neighbours of a list in order. -/
theorem adjacent_split {key : α → κ} {l : List α} (h : InOrder key l) {a b : α}
    (hab : (a, b) ∈ adjacent l) {c : α} (hc : c ∈ l) : key c ≤ key a ∨ key b ≤ key c := by
  induction l with
  | nil => cases hc
  | cons x l ih =>
    cases l with
    | nil => cases hab
    | cons y l =>
      obtain ⟨hx, hl⟩ := List.pairwise_cons.mp h
      obtain ⟨hy, -⟩ := List.pairwise_cons.mp hl
      rcases List.mem_cons.mp hab with heq | hab
      · cases heq
        rcases List.mem_cons.mp hc with rfl | hc
        · exact .inl le_rfl
        · rcases List.mem_cons.mp hc with rfl | hc
          · exact .inr le_rfl
          · exact .inr (hy c hc)
      · rcases List.mem_cons.mp hc with heq | hc
        · have ha := (mem_of_adjacent (l := y :: l) hab).1
          exact .inl (heq ▸ hx a ha)
        · exact ih hl hab hc

theorem perm_sortOn (key : α → κ) (l : List α) : (sortOn key l).Perm l := List.perm_insertionSort _ l

/-- Elements that their keys tell apart have one order. -/
theorem sortOn_eq_of_perm {key : α → κ} {l l' : List α} (h : l.Perm l')
    (hkey : ∀ a ∈ l, ∀ b ∈ l, key a = key b → a = b) : sortOn key l = sortOn key l' := by
  apply List.Perm.eq_of_pairwise _ (inOrder_sortOn key l) (inOrder_sortOn key l')
  · exact (perm_sortOn key l).trans (h.trans (perm_sortOn key l').symm)
  · intro a b ha hb hab hba
    exact hkey a (mem_sortOn.mp ha) b (h.mem_iff.mpr (mem_sortOn.mp hb)) (le_antisymm hab hba)

/-- The least key is that of the first element of the sort. -/
theorem min?_map_eq (key : α → κ) (l : List α) : (l.map key).min? = (sortOn key l).head?.map key := by
  have hsorted := inOrder_sortOn key l
  have hmem := fun a => @mem_sortOn α κ _ key l a
  cases hsort : sortOn key l with
  | nil =>
    have hnil : l = [] := List.Perm.eq_nil (hsort ▸ (perm_sortOn key l).symm)
    rw [hnil]
    rfl
  | cons a rest =>
    rw [hsort] at hsorted hmem
    apply List.min?_eq_some_iff.mpr
    constructor
    · exact List.mem_map_of_mem ((hmem a).mp List.mem_cons_self)
    · intro k hk
      obtain ⟨b, hb, rfl⟩ := List.mem_map.mp hk
      rcases List.mem_cons.mp ((hmem b).mpr hb) with rfl | hb
      · exact le_rfl
      · exact (List.pairwise_cons.mp hsorted).1 b hb

/-- The greatest key is that of the last element of the sort. -/
theorem max?_map_eq (key : α → κ) (l : List α) :
    (l.map key).max? = (sortOn key l).getLast?.map key := by
  have hsorted := inOrder_sortOn key l
  have hmem := fun a => @mem_sortOn α κ _ key l a
  cases hlast : (sortOn key l).getLast? with
  | none =>
    have hnil : l = [] :=
      List.Perm.eq_nil (List.getLast?_eq_none_iff.mp hlast ▸ (perm_sortOn key l).symm)
    rw [hnil]
    rfl
  | some a =>
    obtain ⟨init, hinit⟩ := List.getLast?_eq_some_iff.mp hlast
    rw [hinit] at hsorted hmem
    apply List.max?_eq_some_iff.mpr
    constructor
    · exact List.mem_map_of_mem ((hmem a).mp (by simp))
    · intro k hk
      obtain ⟨b, hb, rfl⟩ := List.mem_map.mp hk
      rcases List.mem_append.mp ((hmem b).mpr hb) with hb | hb
      · exact (List.pairwise_append.mp hsorted).2.2 b hb a List.mem_cons_self
      · rw [List.mem_singleton.mp hb]

/-- The sort is stable: elements with one key keep their order. -/
theorem filter_sortOn (key : α → κ) (l : List α) (k : κ) :
    (sortOn key l).filter (key · = k) = l.filter (key · = k) := by
  have hpairwise : (l.filter (key · = k)).Pairwise fun a b => key a ≤ key b := by
    apply List.pairwise_of_forall_mem_list
    intro a ha b hb
    have ha := of_decide_eq_true (List.mem_filter.mp ha).2
    have hb := of_decide_eq_true (List.mem_filter.mp hb).2
    rw [ha, hb]
  have hsub := (List.sublist_insertionSort hpairwise List.filter_sublist).filter (key · = k)
  rw [List.filter_filter] at hsub
  simp only [Bool.and_self] at hsub
  exact (hsub.eq_of_length ((perm_sortOn key l).filter _).length_eq.symm).symm

/-- One more element in front comes first when nothing has a smaller key. -/
theorem head?_sortOn_cons (key : α → κ) (a : α) (l : List α) :
    (sortOn key (a :: l)).head? =
      some (((sortOn key l).head?.filter fun b => key b < key a).getD a) := by
  rw [sortOn, List.insertionSort_cons, ← sortOn]
  cases sortOn key l with
  | nil => rfl
  | cons b rest =>
    by_cases h : key a ≤ key b
    · simp [List.orderedInsert, Option.filter_some, h, not_lt.mpr h]
    · simp [List.orderedInsert, Option.filter_some, h, not_le.mp h]

/-- The first element of the sort is the first of those with the least key. -/
theorem head?_sortOn_iff {key : α → κ} {l : List α} {a : α} :
    (sortOn key l).head? = some a ↔
      ∃ pre post, l = pre ++ a :: post ∧ (∀ b ∈ pre, key a < key b) ∧ ∀ b ∈ post, key a ≤ key b := by
  constructor
  · intro h
    induction l with
    | nil => cases h
    | cons x l ih =>
      rw [head?_sortOn_cons, Option.some.injEq] at h
      cases hl : (sortOn key l).head? with
      | none =>
        have hnil : l = [] := (List.Perm.nil_eq (List.head?_eq_none_iff.mp hl ▸ perm_sortOn key l)).symm
        rw [hl] at h
        exact ⟨[], l, by rw [← h]; rfl, by simp, by simp [hnil]⟩
      | some b =>
        obtain ⟨hb, hle⟩ : b ∈ l ∧ ∀ c ∈ l, key b ≤ key c := by
          obtain ⟨rest, hrest⟩ := List.head?_eq_some_iff.mp hl
          have hsorted := inOrder_sortOn key l
          rw [hrest] at hsorted
          refine ⟨mem_sortOn.mp (hrest ▸ List.mem_cons_self), fun c hc => ?_⟩
          rcases List.mem_cons.mp (hrest ▸ mem_sortOn.mpr hc) with rfl | hc
          · exact le_rfl
          · exact (List.pairwise_cons.mp hsorted).1 c hc
        by_cases hlt : key b < key x
        · rw [hl, Option.filter_some, if_pos (by simpa using hlt)] at h
          obtain rfl : b = a := h
          obtain ⟨pre, post, rfl, hpre, hpost⟩ := ih hl
          exact ⟨x :: pre, post, rfl, List.forall_mem_cons.mpr ⟨hlt, hpre⟩, hpost⟩
        · rw [hl, Option.filter_some, if_neg (by simpa using hlt)] at h
          obtain rfl : x = a := h
          exact ⟨[], l, rfl, by simp, fun c hc => (not_lt.mp hlt).trans (hle c hc)⟩
  · rintro ⟨pre, post, rfl, hpre, hpost⟩
    induction pre with
    | nil =>
      rw [List.nil_append, head?_sortOn_cons]
      cases hl : (sortOn key post).head? with
      | none => rfl
      | some b =>
        have hb := hpost b (mem_sortOn.mp (List.mem_of_head? hl))
        simp [Option.filter_some, not_lt.mpr hb]
    | cons x pre ih =>
      obtain ⟨hx, hpre⟩ := List.forall_mem_cons.mp hpre
      rw [List.cons_append, head?_sortOn_cons, ih hpre]
      simp [Option.filter_some, hx]

theorem mem_iff_of_filter_eq {key : α → κ} {l l' : List α}
    (h : ∀ k, l.filter (key · = k) = l'.filter (key · = k)) (a : α) : a ∈ l ↔ a ∈ l' := by
  have hkey := congrArg (a ∈ ·) (h (key a))
  simpa using hkey

/-- Lists in order are equal when they have the same elements of each key in the same order. -/
theorem eq_of_filter_eq {key : α → κ} {l l' : List α} (hl : InOrder key l) (hl' : InOrder key l')
    (h : ∀ k, l.filter (key · = k) = l'.filter (key · = k)) : l = l' := by
  have hmem := mem_iff_of_filter_eq h
  induction l generalizing l' with
  | nil =>
    have hnil : l' = [] :=
      List.eq_nil_iff_forall_not_mem.mpr fun a ha => List.not_mem_nil ((hmem a).mpr ha)
    rw [hnil]
  | cons a l ih =>
    obtain ⟨ha, hl⟩ := List.pairwise_cons.mp hl
    cases l' with
    | nil => exact absurd ((hmem a).mp List.mem_cons_self) List.not_mem_nil
    | cons b l' =>
      obtain ⟨hb, htail⟩ := List.pairwise_cons.mp hl'
      have hle : key a ≤ key b := by
        rcases List.mem_cons.mp ((hmem b).mpr List.mem_cons_self) with rfl | hmem
        · exact le_rfl
        · exact ha b hmem
      have hge : key b ≤ key a := by
        rcases List.mem_cons.mp ((hmem a).mp List.mem_cons_self) with rfl | hmem
        · exact le_rfl
        · exact hb a hmem
      have hfirst := h (key a)
      rw [List.filter_cons_of_pos (by simp), List.filter_cons_of_pos (by simpa using hge.antisymm hle)]
        at hfirst
      obtain ⟨rfl, -⟩ := List.cons.inj hfirst
      have hrest : ∀ k, l.filter (key · = k) = l'.filter (key · = k) := by
        intro k
        have hk := h k
        by_cases heq : key a = k
        · rw [List.filter_cons_of_pos (by simpa using heq), List.filter_cons_of_pos (by simpa using heq)]
            at hk
          exact (List.cons.inj hk).2
        · rwa [List.filter_cons_of_neg (by simpa using heq),
            List.filter_cons_of_neg (by simpa using heq)] at hk
      rw [ih hl htail hrest (mem_iff_of_filter_eq hrest)]

/-- What is kept of a sort is the sort of what is kept. -/
theorem sortOn_filter (key : α → κ) (q : α → Bool) (l : List α) :
    sortOn key (l.filter q) = (sortOn key l).filter q := by
  apply eq_of_filter_eq (inOrder_sortOn key _) ((inOrder_sortOn key l).sublist List.filter_sublist)
  intro k
  rw [filter_sortOn, List.filter_comm, @List.filter_comm _ _ q (sortOn key l), filter_sortOn]

/-- A sort by what a function keeps commutes with it. -/
theorem sortOn_map {β : Type} (key : β → κ) (f : α → β) (l : List α) :
    sortOn key (l.map f) = (sortOn (fun a => key (f a)) l).map f :=
  (List.map_insertionSort _ _ f l fun _ _ _ _ => Iff.rfl).symm

/-- The first of the greatest of the images is the image of the first of the greatest. -/
theorem argmax_map {β : Type} (key : β → κ) (f : α → β) (l : List α) :
    (l.map f).argmax key = (l.argmax fun a => key (f a)).map f := by
  induction l using List.reverseRecOn with
  | nil => rfl
  | append_singleton l a ih =>
    rw [List.map_append, List.map_singleton, List.argmax_concat, List.argmax_concat, ih]
    cases l.argmax fun a => key (f a) with
    | none => rfl
    | some b =>
      simp only [Option.map_some]
      split <;> rfl

/-- What a partial function gives is what it gives where it is defined. -/
theorem map_some_filterMap {β : Type} (f : α → Option β) (l : List α) :
    (l.filterMap f).map some = (l.filter fun a => (f a).isSome).map f := by
  induction l with
  | nil => rfl
  | cons a l ih => cases h : f a <;> simp [h, ih]

/-- Two lists that are related element by element are related in another way when each element of the
second is as that asks for. -/
theorem forall₂_iff_of_forall₂ {β γ : Type} {r s : β → γ → Prop} {q : γ → Prop} {l : List β} {l' : List γ}
    (h : List.Forall₂ r l l') (hiff : ∀ b, ∀ c ∈ l', r b c → (s b c ↔ q c)) :
    List.Forall₂ s l l' ↔ ∀ c ∈ l', q c := by
  induction h with
  | nil => simp
  | cons hr _ ih =>
    rw [List.forall₂_cons, List.forall_mem_cons, hiff _ _ List.mem_cons_self hr,
      ih fun b c hc => hiff b c (List.mem_cons_of_mem _ hc)]

/-- A member of the first of two related lists has a partner in the second, -/
theorem exists_of_forall₂ {β γ : Type} {r : β → γ → Prop} {l : List β} {l' : List γ}
    (h : List.Forall₂ r l l') {b : β} (hb : b ∈ l) : ∃ c ∈ l', r b c := by
  induction h with
  | nil => cases hb
  | cons hr _ ih =>
    rcases List.mem_cons.mp hb with rfl | hb
    · exact ⟨_, List.mem_cons_self, hr⟩
    · obtain ⟨c, hc, hrel⟩ := ih hb
      exact ⟨c, List.mem_cons_of_mem _ hc, hrel⟩

/-- and the other way. -/
theorem exists_of_forall₂_right {β γ : Type} {r : β → γ → Prop} {l : List β} {l' : List γ}
    (h : List.Forall₂ r l l') {c : γ} (hc : c ∈ l') : ∃ b ∈ l, r b c :=
  exists_of_forall₂ h.flip hc

/-! ## Between neighbours -/

/-- The elements of a list as they are and, between two neighbours, what they have between them. -/
def interleave {β : Type} (item : α → β) (gap : α × α → Option β) : List α → List β
  | [] => []
  | [a] => [item a]
  | a :: b :: l => item a :: ((gap (a, b)).toList ++ interleave item gap (b :: l))

section

variable {β : Type} {item : α → β} {gap : α × α → Option β}

/-- What an interleaved list holds is an element or stands between two neighbours. -/
theorem mem_interleave {l : List α} {x : β} (h : x ∈ interleave item gap l) :
    (∃ a ∈ l, x = item a) ∨ ∃ ab ∈ adjacent l, gap ab = some x := by
  induction l with
  | nil => cases h
  | cons a l ih =>
    cases l with
    | nil => exact .inl ⟨a, List.mem_cons_self, List.mem_singleton.mp h⟩
    | cons b l =>
      rcases List.mem_cons.mp h with rfl | h
      · exact .inl ⟨a, List.mem_cons_self, rfl⟩
      · rcases List.mem_append.mp h with h | h
        · exact .inr ⟨(a, b), List.mem_cons_self, Option.mem_toList.mp h⟩
        · rcases ih h with ⟨c, hc, hx⟩ | ⟨cd, hcd, hx⟩
          · exact .inl ⟨c, List.mem_cons_of_mem _ hc, hx⟩
          · exact .inr ⟨cd, List.mem_cons_of_mem _ hcd, hx⟩

/-- An interleaved list begins with the first element. -/
theorem exists_interleave_cons (item : α → β) (gap : α × α → Option β) (a : α) (l : List α) :
    ∃ tail, interleave item gap (a :: l) = item a :: tail := by
  cases l with
  | nil => exact ⟨[], rfl⟩
  | cons b l => exact ⟨_, rfl⟩

theorem head?_interleave (item : α → β) (gap : α × α → Option β) (l : List α) :
    (interleave item gap l).head? = l.head?.map item := by
  cases l with
  | nil => rfl
  | cons a l => cases l <;> rfl

theorem getLast?_interleave (item : α → β) (gap : α × α → Option β) (l : List α) :
    (interleave item gap l).getLast? = l.getLast?.map item := by
  induction l with
  | nil => rfl
  | cons a l ih =>
    cases l with
    | nil => rfl
    | cons b l =>
      rw [interleave, List.getLast?_cons, List.getLast?_append, ih, List.getLast?_cons_cons]
      simp [List.getLast?_cons]

/-- When something stands between all neighbours, an element and what stands next to it are
neighbours. -/
theorem mem_adjacent_interleave {between : α × α → β} {l : List α} {xy : β × β}
    (h : xy ∈ adjacent (interleave item (fun ab => some (between ab)) l)) :
    ∃ ab ∈ adjacent l, xy = (item ab.1, between ab) ∨ xy = (between ab, item ab.2) := by
  induction l with
  | nil => cases h
  | cons a l ih =>
    cases l with
    | nil => cases h
    | cons b l =>
      obtain ⟨tail, htail⟩ := exists_interleave_cons item (fun ab => some (between ab)) b l
      rw [interleave, Option.toList_some, List.singleton_append, htail, adjacent_cons_cons,
        adjacent_cons_cons, ← htail] at h
      rcases List.mem_cons.mp h with rfl | h
      · exact ⟨(a, b), List.mem_cons_self, .inl rfl⟩
      · rcases List.mem_cons.mp h with rfl | h
        · exact ⟨(a, b), List.mem_cons_self, .inr rfl⟩
        · obtain ⟨cd, hcd, hxy⟩ := ih h
          exact ⟨cd, List.mem_cons_of_mem _ hcd, hxy⟩

/-- What a list says of each element and what its gaps say, when only the last has no gap after it. -/
theorem flatMap_eq_interleave (after : α → Option β) {l : List α}
    (hgap : ∀ ab ∈ adjacent l, after ab.1 = gap ab) (hlast : ∀ a ∈ l.getLast?, after a = none) :
    l.flatMap (fun a => item a :: (after a).toList) = interleave item gap l := by
  induction l with
  | nil => rfl
  | cons a l ih =>
    cases l with
    | nil => simp [interleave, hlast a rfl]
    | cons b l =>
      have hrest := ih (fun ab hab => hgap ab (List.mem_cons_of_mem _ hab)) fun c hc =>
        hlast c (by rwa [List.getLast?_cons_cons])
      rw [List.flatMap_cons, hrest, hgap (a, b) List.mem_cons_self]
      rfl

/-- The items of an interleaved list, when nothing between counts as one. -/
theorem filterMap_items {γ : Type} {f : β → Option γ} (hgap : ∀ ab, (gap ab).bind f = none)
    (l : List α) : (interleave item gap l).filterMap f = l.filterMap fun a => f (item a) := by
  have hnone : ∀ ab, (gap ab).toList.filterMap f = [] := by
    intro ab
    have h := hgap ab
    cases hab : gap ab with
    | none => rfl
    | some b =>
      rw [hab, Option.bind_some] at h
      simp [h]
  induction l with
  | nil => rfl
  | cons a l ih =>
    cases l with
    | nil => simp [interleave, List.filterMap_cons]
    | cons b l =>
      rw [interleave, List.filterMap_cons, List.filterMap_append, hnone, List.nil_append, ih]
      rfl

/-- What an interleaved list has between its items, when no item counts. -/
theorem filterMap_gaps {γ : Type} {f : β → Option γ} (hitem : ∀ a, f (item a) = none) (l : List α) :
    (interleave item gap l).filterMap f = (adjacent l).filterMap fun ab => (gap ab).bind f := by
  induction l with
  | nil => rfl
  | cons a l ih =>
    cases l with
    | nil => simp [interleave, hitem, adjacent]
    | cons b l =>
      rw [interleave, List.filterMap_cons_none (hitem a), List.filterMap_append, ih,
        adjacent_cons_cons, List.filterMap_cons]
      cases gap (a, b) with
      | none => rfl
      | some x => cases hx : f x <;> simp [hx]

/-- What stands between items stands directly between two neighbours. -/
theorem interleave_split {l : List α} {pre post : List β} {x : β} (hx : ∀ a, item a ≠ x)
    (h : interleave item gap l = pre ++ x :: post) :
    ∃ ab ∈ adjacent l, gap ab = some x ∧ pre.getLast? = some (item ab.1) ∧
      post.head? = some (item ab.2) := by
  induction l generalizing pre with
  | nil => simp [interleave] at h
  | cons a l ih =>
    cases pre with
    | nil =>
      cases l with
      | nil => exact absurd (List.cons.inj h).1 (hx a)
      | cons b l => exact absurd (List.cons.inj h).1 (hx a)
    | cons y pre =>
      cases l with
      | nil => simp [interleave] at h
      | cons b l =>
        obtain ⟨hy, h⟩ := List.cons.inj h
        cases hab : gap (a, b) with
        | none =>
          rw [hab, Option.toList_none, List.nil_append] at h
          obtain ⟨cd, hcd, hgap, hlast, hhead⟩ := ih h
          exact ⟨cd, List.mem_cons_of_mem _ hcd, hgap, by simp [List.getLast?_cons, hlast], hhead⟩
        | some z =>
          rw [hab, Option.toList_some, List.singleton_append] at h
          cases pre with
          | nil =>
            obtain ⟨hz, hpost⟩ := List.cons.inj h
            refine ⟨(a, b), List.mem_cons_self, by rw [hab, hz], by simp [← hy], ?_⟩
            rw [← hpost]
            cases l <;> rfl
          | cons z' pre =>
            obtain ⟨-, h⟩ := List.cons.inj h
            obtain ⟨cd, hcd, hgap, hlast, hhead⟩ := ih h
            exact ⟨cd, List.mem_cons_of_mem _ hcd, hgap, by simp [List.getLast?_cons, hlast], hhead⟩

/-- What two neighbours have between them stands there. -/
theorem exists_interleave (item : α → β) {l : List α} {ab : α × α} (hab : ab ∈ adjacent l) {x : β}
    (hx : gap ab = some x) :
    ∃ pre post, interleave item gap l = pre ++ item ab.1 :: x :: item ab.2 :: post := by
  induction l with
  | nil => cases hab
  | cons a l ih =>
    cases l with
    | nil => cases hab
    | cons b l =>
      rcases List.mem_cons.mp hab with rfl | hab
      · obtain ⟨tail, htail⟩ := exists_interleave_cons item gap b l
        refine ⟨[], tail, ?_⟩
        rw [interleave, htail, hx]
        rfl
      · obtain ⟨pre, post, hrest⟩ := ih hab
        refine ⟨item a :: ((gap (a, b)).toList ++ pre), post, ?_⟩
        rw [interleave, hrest, List.cons_append, List.append_assoc]

end

/-! ## Numbering

An element is numbered by its key when it bears the number of elements of its key before it. -/

/-- Elements numbered by their keys: those of one key bear 0, 1, 2, .... -/
theorem map_filter_eq_range {α κ : Type} [DecidableEq κ] (key : α → κ) (number : α → Nat) (k : κ)
    {l : List α} (h : ∀ i a, l[i]? = some a → number a = ((l.map key).take i).count (key a)) :
    (l.filter fun a => key a = k).map number = List.range (l.filter fun a => key a = k).length := by
  induction l using List.reverseRecOn with
  | nil => rfl
  | append_singleton l x ih =>
    have hinit : ∀ i a, l[i]? = some a → number a = ((l.map key).take i).count (key a) := by
      intro i a ha
      have hi := (List.getElem?_eq_some_iff.mp ha).1
      rw [h i a (by rwa [List.getElem?_append_left hi]), List.map_append,
        List.take_append_of_le_length (by rw [List.length_map]; omega)]
    have hlast : number x = (l.map key).count (key x) := by
      rw [h l.length x List.getElem?_concat_length, List.map_append,
        List.take_left' (List.length_map key)]
    rw [List.filter_append]
    by_cases hx : key x = k
    · have hcount : (l.map key).count k = (l.filter fun a => key a = k).length := by
        rw [List.count, List.countP_map, List.countP_eq_length_filter]
        rfl
      rw [List.filter_cons_of_pos (by simpa using hx), List.filter_nil, List.map_append, ih hinit,
        List.length_append, List.length_singleton, List.range_succ, List.map_singleton, hlast, hx, hcount]
    · rw [List.filter_cons_of_neg (by simpa using hx), List.filter_nil, List.append_nil, ih hinit]

/-! ## Ranks -/

/-- In a list that is in strict order, what holds of an element and each later one holds of two elements
in that order. -/
theorem of_pairwise_and {α : Type} {r s : α → α → Prop} (hasymm : ∀ a b, r a b → ¬ r b a) {l : List α}
    (h : l.Pairwise fun a b => r a b ∧ s a b) {a b : α} (ha : a ∈ l) (hb : b ∈ l) (hr : r a b) : s a b := by
  induction l with
  | nil => cases ha
  | cons c l ih =>
    obtain ⟨hc, hl⟩ := List.pairwise_cons.mp h
    rcases List.mem_cons.mp ha with rfl | hin <;> rcases List.mem_cons.mp hb with rfl | hin'
    · exact absurd hr (hasymm _ _ hr)
    · exact (hc b hin').2
    · exact absurd (hc a hin).1 (hasymm _ _ hr)
    · exact ih hl hin hin'

/-- In strict order, as many elements are less than an element as stand before it. -/
theorem countP_of_getElem? {α : Type} {r : α → α → Prop} [DecidableRel r]
    (hasymm : ∀ a b, r a b → ¬ r b a) {l : List α} (hl : l.Pairwise r) {i : ℕ} {a : α} (h : l[i]? = some a) :
    l.countP (fun b => r b a) = i := by
  induction l generalizing i with
  | nil => cases h
  | cons b l ih =>
    obtain ⟨hb, hl⟩ := List.pairwise_cons.mp hl
    cases i with
    | zero =>
      obtain rfl := Option.some.inj h
      rw [List.countP_eq_zero]
      intro c hc
      rw [decide_eq_true_eq]
      rcases List.mem_cons.mp hc with rfl | hc
      · exact fun hself => hasymm _ _ hself hself
      · exact hasymm _ _ (hb c hc)
    | succ i =>
      rw [List.getElem?_cons_succ] at h
      have hless := hb a (List.mem_of_getElem? h)
      rw [List.countP_cons_of_pos (by simpa using hless), ih hl h]

/-- The first `n` elements are those that fewer than `n` are less than. -/
theorem mem_take_iff_countP {α : Type} {r : α → α → Prop} [DecidableRel r]
    (hasymm : ∀ a b, r a b → ¬ r b a) {l : List α} (hl : l.Pairwise r) {n : ℕ} {a : α} :
    a ∈ l.take n ↔ a ∈ l ∧ l.countP (fun b => r b a) < n := by
  constructor
  · intro ha
    obtain ⟨i, hi⟩ := List.mem_iff_getElem?.mp ha
    have hin : i < n := by
      have hlt := (List.getElem?_eq_some_iff.mp hi).1
      rw [List.length_take] at hlt
      omega
    rw [List.getElem?_take_of_lt hin] at hi
    rw [countP_of_getElem? hasymm hl hi]
    exact ⟨List.mem_of_getElem? hi, hin⟩
  · intro h
    obtain ⟨i, hi⟩ := List.mem_iff_getElem?.mp h.1
    have hin := h.2
    rw [countP_of_getElem? hasymm hl hi] at hin
    rw [← List.getElem?_take_of_lt hin] at hi
    exact List.mem_of_getElem? hi

/-- A count in two parts. -/
theorem countP_eq_add {α : Type} {p q r : α → Prop} [DecidablePred p] [DecidablePred q] [DecidablePred r]
    {l : List α} (hor : ∀ a ∈ l, p a ↔ q a ∨ r a) (hnot : ∀ a ∈ l, q a → ¬ r a) :
    l.countP (p ·) = l.countP (q ·) + l.countP (r ·) := by
  induction l with
  | nil => rfl
  | cons a l ih =>
    have hrest := ih (fun b hb => hor b (List.mem_cons_of_mem _ hb))
      fun b hb => hnot b (List.mem_cons_of_mem _ hb)
    have hor := hor a List.mem_cons_self
    have hnot := hnot a List.mem_cons_self
    simp only [List.countP_cons, decide_eq_true_eq]
    by_cases hq : q a
    · rw [if_pos hq, if_pos (hor.mpr (.inl hq)), if_neg (hnot hq)]
      omega
    · by_cases hr : r a
      · rw [if_neg hq, if_pos (hor.mpr (.inr hr)), if_pos hr]
        omega
      · rw [if_neg hq, if_neg hr, if_neg (mt hor.mp (not_or.mpr ⟨hq, hr⟩))]
        omega

/-- A count falls strictly where the condition is stronger and an element falls out. -/
theorem countP_lt_of_imp {α : Type} {p q : α → Prop} [DecidablePred p] [DecidablePred q] {l : List α}
    (himp : ∀ a ∈ l, p a → q a) {a : α} (ha : a ∈ l) (hq : q a) (hp : ¬p a) :
    l.countP (p ·) < l.countP (q ·) := by
  have hsum := countP_eq_add (p := q) (q := p) (r := fun b => q b ∧ ¬p b) (l := l)
    (fun b hb => ⟨fun hqb => (em (p b)).imp_right fun hpb => ⟨hqb, hpb⟩,
      fun h => h.elim (himp b hb) And.left⟩) fun b _ hpb h => h.2 hpb
  have hpos : 0 < l.countP fun b => decide (q b ∧ ¬p b) :=
    List.countP_pos_iff.mpr ⟨a, ha, decide_eq_true ⟨hq, hp⟩⟩
  omega

/-- In strict order, the first element of a kind is the one before all the others of the kind. -/
theorem find?_eq_some_iff_of_pairwise {α : Type} {r : α → α → Prop} (hasymm : ∀ a b, r a b → ¬ r b a)
    {l : List α} (hl : l.Pairwise r) {q : α → Bool} {a : α} :
    l.find? q = some a ↔ a ∈ l ∧ q a = true ∧ ∀ b ∈ l, q b = true → b = a ∨ r a b := by
  induction l with
  | nil => simp
  | cons b l ih =>
    obtain ⟨hb, hl⟩ := List.pairwise_cons.mp hl
    by_cases hq : q b = true
    · rw [List.find?_cons_of_pos hq, Option.some.injEq]
      constructor
      · rintro rfl
        refine ⟨List.mem_cons_self, hq, fun c hc _ => ?_⟩
        exact (List.mem_cons.mp hc).imp_right (hb c)
      · rintro ⟨ha, -, hfirst⟩
        rcases List.mem_cons.mp ha with rfl | ha
        · rfl
        · exact (hfirst b List.mem_cons_self hq).resolve_right (hasymm _ _ (hb a ha))
    · rw [List.find?_cons_of_neg hq, ih hl]
      constructor
      · rintro ⟨ha, hqa, hfirst⟩
        refine ⟨List.mem_cons_of_mem _ ha, hqa, fun c hc hqc => ?_⟩
        rcases List.mem_cons.mp hc with rfl | hc
        · exact absurd hqc hq
        · exact hfirst c hc hqc
      · rintro ⟨ha, hqa, hfirst⟩
        refine ⟨?_, hqa, fun c hc => hfirst c (List.mem_cons_of_mem _ hc)⟩
        rcases List.mem_cons.mp ha with rfl | ha
        · exact absurd hqa hq
        · exact ha

/-- A sort of numbered elements is in strict order of the key and then of the number. -/
theorem pairwise_sortOn {κ α : Type} [LinearOrder κ] (key : α → κ) {number : α → ℕ} {l : List α}
    (h : l.Pairwise fun a b => number a < number b) :
    (sortOn key l).Pairwise fun a b => key a < key b ∨ key a = key b ∧ number a < number b := by
  rw [List.pairwise_iff_forall_sublist]
  intro a b hab
  have hle : key a ≤ key b := by simpa using (inOrder_sortOn key l).sublist hab
  rcases lt_or_eq_of_le hle with hlt | heq
  · exact .inl hlt
  · -- two elements of one key keep the order they had
    have hkept := hab.filter (key · = key b)
    rw [filter_sortOn, List.filter_eq_self.mpr (by simp [heq])] at hkept
    exact .inr ⟨heq, by simpa using h.sublist (hkept.trans List.filter_sublist)⟩

end PacketTrain
