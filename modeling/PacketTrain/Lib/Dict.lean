import Mathlib.Algebra.BigOperators.Group.Finset.Piecewise
import Mathlib.Data.List.Dedup
import Mathlib.Data.List.Induction

/-!
# Dictionaries with a default

A `defaultdict`, with its items in the order in which their keys were first met. `tally` is the loop
that updates one item for each element of a list: it has an item for each key that it meets
(`mem_keys_tally`), and the item is what the elements of that key alone make of the default
(`get_tally`). `pairwise_keys_tally` is the order of the keys, and `sum_by_key` adds up items.
-/

namespace PacketTrain

/-- `items()`. -/
abbrev Dict (κ β : Type) := List (κ × β)

namespace Dict

variable {α κ β : Type} [DecidableEq κ]

/-- `d[k] = f(d[k])`; an item that is not there starts from the default. -/
def update (default : β) (k : κ) (f : β → β) : Dict κ β → Dict κ β
  | [] => [(k, f default)]
  | item :: d => if item.1 = k then (k, f item.2) :: d else item :: update default k f d

/-- `d[k]`. -/
def get (default : β) (d : Dict κ β) (k : κ) : β :=
  ((d.find? fun item => item.1 = k).map Prod.snd).getD default

/-- `keys()`. -/
def keys (d : Dict κ β) : List κ := d.map Prod.fst

/-- One update for each element of a list. -/
def tally (default : β) (key : α → κ) (step : β → α → β) (l : List α) : Dict κ β :=
  l.foldl (fun d a => update default (key a) (step · a) d) []

/-- `{...d, ...e}`: the items of `e` over those of `d`. -/
def merge (default : β) (d e : Dict κ β) : Dict κ β :=
  e.foldl (fun acc item => update default item.1 (fun _ => item.2) acc) d

theorem get_update (default : β) (k : κ) (f : β → β) (d : Dict κ β) (k' : κ) :
    get default (update default k f d) k' = if k' = k then f (get default d k) else get default d k' := by
  induction d with
  | nil => by_cases hk : k' = k <;> simp [get, update, hk, eq_comm]
  | cons item d ih =>
    by_cases hitem : item.1 = k
    · by_cases hk : k' = k
      · simp [get, update, hitem, hk]
      · simp [get, update, hitem, hk, Ne.symm hk]
    · by_cases hk' : item.1 = k'
      · have hk : k' ≠ k := fun h => hitem (hk'.trans h)
        simp [get, update, hk', hk]
      · simp only [get, update, hitem, if_false, hk', List.find?_cons] at ih ⊢
        simpa using ih

theorem keys_update (default : β) (k : κ) (f : β → β) (d : Dict κ β) :
    keys (update default k f d) = if k ∈ keys d then keys d else keys d ++ [k] := by
  induction d with
  | nil => rfl
  | cons item d ih =>
    by_cases hitem : item.1 = k
    · simp [keys, update, hitem]
    · by_cases hk : k ∈ keys d
      · rw [if_pos hk] at ih
        simp only [keys, update, hitem, if_false, List.map_cons, List.mem_cons] at ih hk ⊢
        rw [ih, if_pos (.inr hk)]
      · rw [if_neg hk] at ih
        simp only [keys, update, hitem, if_false, List.map_cons, List.mem_cons] at ih hk ⊢
        rw [ih, if_neg (not_or.mpr ⟨Ne.symm hitem, hk⟩), List.cons_append]

theorem nodup_keys_update {d : Dict κ β} (h : (keys d).Nodup) (default : β) (k : κ) (f : β → β) :
    (keys (update default k f d)).Nodup := by
  rw [keys_update]
  split
  · exact h
  · next hk =>
    refine h.append (List.nodup_singleton k) ?_
    intro k' hk' hmem
    cases List.mem_singleton.mp hmem
    exact hk hk'

/-- Writing an item over itself. -/
theorem update_of_mem {d : Dict κ β} (h : (keys d).Nodup) {item : κ × β} (hitem : item ∈ d)
    (default : β) : update default item.1 (fun _ => item.2) d = d := by
  induction d with
  | nil => cases hitem
  | cons head d ih =>
    obtain ⟨hhead, hrest⟩ := List.nodup_cons.mp h
    rcases List.mem_cons.mp hitem with rfl | hmem
    · rw [update, if_pos rfl]
    · have hne : head.1 ≠ item.1 := by
        intro heq
        exact hhead (heq ▸ List.mem_map_of_mem hmem)
      rw [update, if_neg hne, ih hrest hmem]

/-- Merging a dictionary with some of its own items. -/
theorem merge_of_subset {d : Dict κ β} (h : (keys d).Nodup) (default : β) {e : Dict κ β}
    (he : ∀ item ∈ e, item ∈ d) : merge default d e = d := by
  induction e with
  | nil => rfl
  | cons item e ih =>
    rw [merge, List.foldl_cons, update_of_mem h (he item List.mem_cons_self)]
    exact ih fun other hother => he other (List.mem_cons_of_mem item hother)

theorem tally_concat (default : β) (key : α → κ) (step : β → α → β) (l : List α) (a : α) :
    tally default key step (l ++ [a]) =
      update default (key a) (step · a) (tally default key step l) := by
  rw [tally, List.foldl_append]
  rfl

/-- The item of a key is made of the elements of that key. -/
theorem get_tally (default : β) (key : α → κ) (step : β → α → β) (l : List α) (k : κ) :
    get default (tally default key step l) k = (l.filter fun a => key a = k).foldl step default := by
  induction l using List.reverseRecOn with
  | nil => rfl
  | append_singleton l a ih =>
    rw [tally_concat, get_update, List.filter_append, List.foldl_append]
    by_cases hk : k = key a
    · rw [if_pos hk, ← hk, ih, List.filter_cons_of_pos (by simp [hk])]
      rfl
    · rw [if_neg hk, ih, List.filter_cons_of_neg (by simpa using Ne.symm hk)]
      rfl

/-- There is an item for each key of an element, -/
theorem mem_keys_tally {default : β} {key : α → κ} {step : β → α → β} {l : List α} {k : κ} :
    k ∈ keys (tally default key step l) ↔ k ∈ l.map key := by
  induction l using List.reverseRecOn with
  | nil => rfl
  | append_singleton l a ih =>
    rw [tally_concat, keys_update, List.map_append, List.mem_append, ← ih, List.map_singleton,
      List.mem_singleton]
    split
    · next hmem =>
      constructor
      · exact .inl
      · intro hk
        rcases hk with hk | rfl
        · exact hk
        · exact hmem
    · rw [List.mem_append, List.mem_singleton]

/-- and one only. -/
theorem nodup_keys_tally (default : β) (key : α → κ) (step : β → α → β) (l : List α) :
    (keys (tally default key step l)).Nodup := by
  induction l using List.reverseRecOn with
  | nil => exact List.nodup_nil
  | append_singleton l a ih =>
    rw [tally_concat, keys_update]
    split
    · exact ih
    · next hnew =>
      apply List.nodup_append.mpr
      refine ⟨ih, List.nodup_singleton _, ?_⟩
      intro k hk k' hk' heq
      rw [heq, List.mem_singleton.mp hk'] at hk
      exact hnew hk

theorem perm_keys_tally (default : β) (key : α → κ) (step : β → α → β) (l : List α) :
    (keys (tally default key step l)).Perm (l.map key).dedup := by
  apply (List.perm_ext_iff_of_nodup (nodup_keys_tally default key step l) (List.nodup_dedup _)).mpr
  intro k
  rw [mem_keys_tally, List.mem_dedup]

/-- The keys stand in the order in which they are first met. -/
theorem pairwise_keys_tally (default : β) (key : α → κ) (step : β → α → β) (l : List α) :
    (keys (tally default key step l)).Pairwise fun k k' =>
      l.findIdx (fun a => key a = k) < l.findIdx fun a => key a = k' := by
  induction l using List.reverseRecOn with
  | nil => exact .nil
  | append_singleton l a ih =>
    have hlt : ∀ k ∈ keys (tally default key step l),
        l.findIdx (fun b => key b = k) < l.length := by
      intro k hk
      obtain ⟨b, hb, rfl⟩ := List.mem_map.mp (mem_keys_tally.mp hk)
      exact List.findIdx_lt_length_of_exists ⟨b, hb, by simp⟩
    have hkept : ∀ k ∈ keys (tally default key step l),
        (l ++ [a]).findIdx (fun b => key b = k) = l.findIdx fun b => key b = k := by
      intro k hk
      rw [List.findIdx_append, if_pos (hlt k hk)]
    have hinit : (keys (tally default key step l)).Pairwise fun k k' =>
        (l ++ [a]).findIdx (fun b => key b = k) < (l ++ [a]).findIdx fun b => key b = k' := by
      refine ih.imp_of_mem ?_
      intro k k' hk hk' hbefore
      rwa [hkept k hk, hkept k' hk']
    rw [tally_concat, keys_update]
    split
    · exact hinit
    · next hnew =>
      refine List.pairwise_append.mpr ⟨hinit, List.pairwise_singleton _ _, ?_⟩
      intro k hk k' hk'
      rw [List.mem_singleton.mp hk', hkept k hk, List.findIdx_append, if_neg]
      · exact (hlt k hk).trans_le (Nat.le_add_left _ _)
      · intro hfound
        obtain ⟨b, hb, hkey⟩ := List.findIdx_lt_length.mp hfound
        exact hnew (mem_keys_tally.mpr (List.mem_map.mpr ⟨b, hb, of_decide_eq_true hkey⟩))

/-- The items are those of their keys. -/
theorem eq_map_keys {d : Dict κ β} (h : (keys d).Nodup) (default : β) :
    d = (keys d).map fun k => (k, get default d k) := by
  induction d with
  | nil => rfl
  | cons item d ih =>
    obtain ⟨hitem, hd⟩ := List.nodup_cons.mp h
    have hhead : get default (item :: d) item.1 = item.2 := by simp [get]
    have htail : ∀ k ∈ keys d, (k, get default (item :: d) k) = (k, get default d k) := by
      intro k hk
      have hne : item.1 ≠ k := fun heq => hitem (heq ▸ hk)
      simp [get, hne]
    rw [keys, List.map_cons, List.map_cons, hhead]
    congr 1
    exact (ih hd).trans (List.map_congr_left htail).symm

/-! ## Counting -/

/-- A dictionary that counts: `d[k] = d.get(k, 0) + 1`. -/
def count (l : List κ) : Dict κ ℕ := tally 0 id (fun n _ => n + 1) l

theorem get_count (l : List κ) (k : κ) : get 0 (count l) k = l.countP (· = k) := by
  have hlength : ∀ (l : List κ) (n : ℕ), l.foldl (fun n _ => n + 1) n = n + l.length := by
    intro l
    induction l with
    | nil => exact fun n => rfl
    | cons a l ih =>
      intro n
      rw [List.foldl_cons, ih, List.length_cons, Nat.add_right_comm, Nat.add_assoc]
  rw [count, get_tally, hlength, Nat.zero_add, List.countP_eq_length_filter]
  rfl

/-- It has an item for each element, with the number of times it is there. -/
theorem mem_count {l : List κ} {item : κ × ℕ} :
    item ∈ count l ↔ 0 < item.2 ∧ item.2 = l.countP (· = item.1) := by
  have hkeys : ∀ k, k ∈ keys (count l) ↔ 0 < l.countP (· = k) := by
    intro k
    rw [count, mem_keys_tally, List.map_id, List.countP_pos_iff]
    simp
  have hitems : count l = (keys (count l)).map fun k => (k, get 0 (count l) k) :=
    eq_map_keys (nodup_keys_tally 0 id (fun n _ => n + 1) l) 0
  rw [hitems, List.mem_map]
  constructor
  · rintro ⟨k, hk, rfl⟩
    exact ⟨(get_count l k).symm ▸ (hkeys k).mp hk, get_count l k⟩
  · rintro ⟨hpos, heq⟩
    refine ⟨item.1, (hkeys item.1).mpr (heq ▸ hpos), ?_⟩
    rw [get_count, ← heq]

/-! ## Sums -/

/-- What is added up key by key is added up. -/
theorem sum_by_key {M : Type} [AddCommMonoid M] {keys : List κ} (hkeys : keys.Nodup) (key : α → κ)
    (weight : α → M) {l : List α} (hall : ∀ a ∈ l, key a ∈ keys) :
    (keys.map fun k => ((l.filter fun a => key a = k).map weight).sum).sum = (l.map weight).sum := by
  induction l with
  | nil => simp
  | cons a l ih =>
    have hfirst : (keys.map fun k => if key a = k then weight a else 0).sum = weight a := by
      rw [← List.sum_toFinset _ hkeys, Finset.sum_ite_eq, if_pos]
      exact List.mem_toFinset.mpr (hall a List.mem_cons_self)
    have hsplit : ∀ k, (((a :: l).filter fun a => key a = k).map weight).sum =
        (if key a = k then weight a else 0) + ((l.filter fun a => key a = k).map weight).sum := by
      intro k
      by_cases hk : key a = k <;> simp [hk]
    simp only [hsplit, List.sum_map_add, hfirst, List.map_cons, List.sum_cons]
    rw [ih fun b hb => hall b (List.mem_cons_of_mem _ hb)]

end Dict

end PacketTrain
