import Mathlib.Data.List.SplitBy

/-!
# Runs

A list is cut into runs where two neighbours are not related: `List.splitBy`. Where one relation implies
another, the runs of the second are made of runs of the first (`coarsens_splitBy`), and what adds up over
a run is no less over the coarser ones (`infix_of_coarsens`).

`scan` finds the runs in one pass and keeps only a summary of each: an element begins a run or extends
the summary of the last one. It summarizes the runs of a relation when the summary of a run tells whether
an element is related to the run's last (`forall₂_scan`).
-/

namespace PacketTrain.Runs

variable {α β : Type*}

/-! ## Coarser runs -/

/-- Each run of `coarse` is made of neighbouring runs of `fine`. -/
def Coarsens (fine coarse : List (List α)) : Prop :=
  ∃ groups : List (List (List α)), groups.flatten = fine ∧ groups.map List.flatten = coarse

/-- The first run of a list begins with its head. -/
theorem exists_splitBy_cons (r : α → α → Bool) (a : α) (l : List α) :
    ∃ run runs, (a :: l).splitBy r = (a :: run) :: runs := by
  obtain ⟨first, runs, hsplit⟩ :=
    List.exists_cons_of_ne_nil (List.splitBy_ne_nil.mpr (List.cons_ne_nil a l))
  obtain ⟨b, run, rfl⟩ := List.exists_cons_of_ne_nil
    (List.ne_nil_of_mem_splitBy (hsplit ▸ List.mem_cons_self : first ∈ (a :: l).splitBy r))
  have hflat := List.flatten_splitBy r (a :: l)
  rw [hsplit, List.flatten_cons, List.cons_append, List.cons.injEq] at hflat
  exact ⟨run, runs, by rw [hsplit, hflat.1]⟩

/-- A related neighbour joins the run that follows. -/
theorem splitBy_cons_of_pos {r : α → α → Bool} {a b : α} (hab : r a b = true) {l run : List α}
    {runs : List (List α)} (h : (b :: l).splitBy r = (b :: run) :: runs) :
    (a :: b :: l).splitBy r = (a :: b :: run) :: runs := by
  obtain ⟨hflat, hnil, hchains, hcuts⟩ := List.splitBy_eq_iff.mp h
  rw [List.splitBy_eq_iff]
  refine ⟨by rw [hflat]; rfl, ?_, ?_, ?_⟩
  · intro hmem
    rcases List.mem_cons.mp hmem with heq | hmem
    · cases heq
    · exact hnil (List.mem_cons_of_mem _ hmem)
  · intro m hm
    rcases List.mem_cons.mp hm with rfl | hm
    · exact List.isChain_cons_cons.mpr ⟨hab, hchains _ List.mem_cons_self⟩
    · exact hchains m (List.mem_cons_of_mem _ hm)
  · cases runs with
    | nil => exact List.isChain_singleton _
    | cons next runs =>
      obtain ⟨hcut, hrest⟩ := List.isChain_cons_cons.mp hcuts
      obtain ⟨hlast, hnext, hcut⟩ := hcut
      refine List.isChain_cons_cons.mpr ⟨⟨List.cons_ne_nil _ _, hnext, ?_⟩, hrest⟩
      rwa [List.getLast_cons hlast]

/-- An element that is not related to the next one is a run. -/
theorem splitBy_cons_of_neg {r : α → α → Bool} {a b : α} (hab : r a b = false) (l : List α) :
    (a :: b :: l).splitBy r = [a] :: (b :: l).splitBy r := by
  have hcut : ∀ x ∈ [a].getLast?, r x b = false := by
    intro x hx
    rwa [← Option.some.inj hx]
  exact List.splitBy_append_cons l hcut

/-- Every cut of the weaker relation is one of the stronger. -/
theorem coarsens_splitBy {r s : α → α → Bool} (h : ∀ a b, r a b = true → s a b = true) (l : List α) :
    Coarsens (l.splitBy r) (l.splitBy s) := by
  induction l with
  | nil => exact ⟨[], rfl, rfl⟩
  | cons a l ih =>
    cases l with
    | nil => exact ⟨[[[a]]], rfl, rfl⟩
    | cons b l =>
      obtain ⟨fineRun, fineRuns, hfine⟩ := exists_splitBy_cons r b l
      obtain ⟨run, runs, hcoarse⟩ := exists_splitBy_cons s b l
      obtain ⟨groups, hflat, hmap⟩ := ih
      rw [hfine] at hflat
      rw [hcoarse] at hmap
      obtain ⟨group, groups, rfl⟩ : ∃ group rest, groups = group :: rest :=
        List.exists_cons_of_ne_nil fun hnil => by simp [hnil] at hmap
      rw [List.map_cons, List.cons.injEq] at hmap
      cases hr : r a b with
      | true =>
        -- the group of `b` has runs, the first of which `a` joins on both sides
        obtain ⟨first, inner, rfl⟩ : ∃ first inner, group = first :: inner :=
          List.exists_cons_of_ne_nil fun hnil => by simp [hnil] at hmap
        rw [List.flatten_cons, List.cons_append, List.cons.injEq] at hflat
        rw [splitBy_cons_of_pos hr hfine, splitBy_cons_of_pos (h a b hr) hcoarse]
        refine ⟨((a :: first) :: inner) :: groups, ?_, ?_⟩
        · rw [List.flatten_cons, List.cons_append, hflat.1, hflat.2]
        · rw [List.map_cons, List.flatten_cons, List.cons_append, ← List.flatten_cons, hmap.1, hmap.2]
      | false =>
        rw [splitBy_cons_of_neg hr, hfine]
        cases hs : s a b with
        | true =>
          rw [splitBy_cons_of_pos hs hcoarse]
          refine ⟨([a] :: group) :: groups, ?_, ?_⟩
          · rw [List.flatten_cons, List.cons_append, ← List.flatten_cons, hflat]
          · rw [List.map_cons, List.flatten_cons, hmap.1, hmap.2]
            rfl
        | false =>
          rw [splitBy_cons_of_neg hs, hcoarse]
          refine ⟨[[a]] :: group :: groups, ?_, ?_⟩
          · rw [List.flatten_cons, hflat]
            rfl
          · rw [List.map_cons, List.map_cons, hmap.1, hmap.2]
            rfl

/-- Each run is part of one of the coarser runs. -/
theorem infix_of_coarsens {fine coarse : List (List α)} (h : Coarsens fine coarse) {run : List α}
    (hrun : run ∈ fine) : ∃ whole ∈ coarse, run <:+: whole := by
  obtain ⟨groups, rfl, rfl⟩ := h
  obtain ⟨group, hgroup, hrun⟩ := List.mem_flatten.mp hrun
  exact ⟨group.flatten, List.mem_map_of_mem hgroup, List.infix_of_mem_flatten hrun⟩

/-! ## Runs in one pass -/

section

variable (begins : α → β) (extend : β → α → β) (joins : β → α → Bool)

/-- The summaries of the runs, `current` that of the run in hand. -/
def scan (current : Option β) : List α → List β
  | [] => current.toList
  | a :: l =>
    match current with
    | none => scan (some (begins a)) l
    | some b =>
      if joins b a then scan (some (extend b a)) l else b :: scan (some (begins a)) l

/-- The same with the run in hand at the end of the list of summaries. -/
def grow (summaries : List β) (a : α) : List β :=
  match summaries.getLast? with
  | none => [begins a]
  | some b =>
    if joins b a then summaries.dropLast ++ [extend b a] else summaries ++ [begins a]

theorem grow_concat (summaries : List β) (b : β) (a : α) :
    grow begins extend joins (summaries ++ [b]) a =
      if joins b a then summaries ++ [extend b a] else summaries ++ [b] ++ [begins a] := by
  rw [grow, List.getLast?_concat]
  dsimp only
  rw [List.dropLast_concat]

theorem foldl_grow_concat (summaries : List β) (b : β) (l : List α) :
    l.foldl (grow begins extend joins) (summaries ++ [b]) =
      summaries ++ scan begins extend joins (some b) l := by
  induction l generalizing summaries b with
  | nil => rfl
  | cons a l ih =>
    rw [List.foldl_cons, grow_concat, scan]
    split
    · exact ih summaries (extend b a)
    · rw [ih, List.append_assoc]
      rfl

theorem foldl_grow (l : List α) :
    l.foldl (grow begins extend joins) [] = scan begins extend joins none l := by
  cases l with
  | nil => rfl
  | cons a l => exact foldl_grow_concat begins extend joins [] (begins a) l

variable {begins extend joins}

/-- Scans whose steps correspond find corresponding runs. -/
theorem map_scan {α' β' : Type*} {begins' : α' → β'} {extend' : β' → α' → β'} {joins' : β' → α' → Bool}
    {f : α → α'} {g : β → β'} (hbegins : ∀ a, g (begins a) = begins' (f a))
    (hextend : ∀ b a, g (extend b a) = extend' (g b) (f a))
    (hjoins : ∀ b a, joins b a = joins' (g b) (f a)) (current : Option β) (l : List α) :
    (scan begins extend joins current l).map g =
      scan begins' extend' joins' (current.map g) (l.map f) := by
  induction l generalizing current with
  | nil => cases current <;> rfl
  | cons a l ih =>
    cases current with
    | none => rw [scan, ih, Option.map_some, hbegins, List.map_cons, Option.map_none, scan]
    | some b =>
      rw [List.map_cons, Option.map_some, scan, scan, hjoins]
      split
      · rw [ih, Option.map_some, hextend]
      · rw [List.map_cons, ih, Option.map_some, hbegins]

variable {r : α → α → Bool} {P : List α → β → Prop} (hbegins : ∀ a, P [a] (begins a))
  (hextend : ∀ run b a, P run b → joins b a = true → P (run ++ [a]) (extend b a))
  (hjoins : ∀ run b x a, P run b → run.getLast? = some x → joins b a = r x a)

include hbegins hextend hjoins

/-- With a run in hand. -/
theorem forall₂_scan_some {run : List α} {b : β} (hrun : P run b) (hne : run ≠ [])
    (hchain : run.IsChain fun x y => r x y) (l : List α) :
    List.Forall₂ P ((run ++ l).splitBy r) (scan begins extend joins (some b) l) := by
  induction l generalizing run b with
  | nil =>
    rw [List.append_nil, List.splitBy_of_isChain hne hchain]
    exact .cons hrun .nil
  | cons a l ih =>
    obtain ⟨x, hlast⟩ : ∃ x, run.getLast? = some x := ⟨_, List.getLast?_eq_some_getLast hne⟩
    rw [scan, hjoins run b x a hrun hlast]
    cases hr : r x a with
    | true =>
      rw [if_pos rfl, List.append_cons]
      apply ih (hextend run b a hrun ((hjoins run b x a hrun hlast).trans hr)) (by simp)
      refine List.isChain_append.mpr ⟨hchain, List.isChain_singleton a, ?_⟩
      intro y hy z hz
      rw [hlast] at hy
      rw [← Option.some.inj hy, ← Option.some.inj hz]
      exact hr
    | false =>
      have hcut : ∀ y ∈ run.getLast?, r y a = false := by
        intro y hy
        rw [hlast] at hy
        rwa [← Option.some.inj hy]
      rw [if_neg Bool.false_ne_true, List.splitBy_append_cons l hcut,
        List.splitBy_of_isChain hne hchain]
      exact .cons hrun (ih (hbegins a) (List.cons_ne_nil a []) (List.isChain_singleton a))

/-- The summaries are those of the runs. -/
theorem forall₂_scan (l : List α) :
    List.Forall₂ P (l.splitBy r) (scan begins extend joins none l) := by
  cases l with
  | nil => exact .nil
  | cons a l =>
    exact forall₂_scan_some hbegins hextend hjoins (hbegins a) (List.cons_ne_nil a [])
      (List.isChain_singleton a) l

end

end PacketTrain.Runs
