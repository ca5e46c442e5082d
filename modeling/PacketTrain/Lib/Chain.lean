import Mathlib.Data.List.Induction

/-!
# Backward chains in an append-only log

Many owners share one log. Each entry names its owner and the position of that owner's previous
entry, so an owner's entries form a chain that is walked backward from the last one. A writer needs
one position per owner (`lastOf`) and never revisits the log; a reader needs no index.

- `append` is the writer's step, and `Linked` the invariant it keeps.
- `Follows` is the reader: the entries met from a position, newest first.
- `follows_lastOf` is the law that connects them: from an owner's last position the reader meets
  exactly the owner's entries (`owned`), all of them, each once, in reverse order of writing.

Nothing here assumes that owners take turns: the log is any interleaving.
-/

namespace PacketTrain.Chain

/-- One entry: its owner, the position of that owner's previous entry, and what it carries. -/
structure Link (κ α : Type*) where
  owner : κ
  prev : Option Nat
  item : α
deriving DecidableEq, Repr

variable {κ α : Type*} [DecidableEq κ]

/-- The position of an owner's last entry. -/
def lastOf : List (Link κ α) → κ → Option Nat
  | [], _ => none
  | l :: log, k =>
    match lastOf log k with
    | some i => some (i + 1)
    | none => if l.owner = k then some 0 else none

/-- The writer's step: one entry, linked to its owner's last one. -/
def append (log : List (Link κ α)) (k : κ) (x : α) : List (Link κ α) :=
  log ++ [⟨k, lastOf log k, x⟩]

/-- The log a sequence of writes leaves. -/
def build (xs : List (κ × α)) : List (Link κ α) :=
  xs.foldl (fun log x => append log x.1 x.2) []

/-- An owner's entries with their positions, oldest first. -/
def owned (log : List (Link κ α)) (k : κ) : List (Link κ α × Nat) :=
  log.zipIdx.filter fun e => e.1.owner = k

/-- The writer's invariant: every entry is linked to its owner's last one before it. -/
inductive Linked : List (Link κ α) → Prop
  | nil : Linked []
  | append {log : List (Link κ α)} (k : κ) (x : α) : Linked log → Linked (append log k x)

/-- The reader: the entries met from a position, newest first. -/
inductive Follows (log : List (Link κ α)) : Option Nat → List (Link κ α × Nat) → Prop
  | done : Follows log none []
  | hop {i : Nat} {l : Link κ α} {rest : List (Link κ α × Nat)} :
      log[i]? = some l → Follows log l.prev rest → Follows log (some i) ((l, i) :: rest)

/-! ## The writer's step, read back -/

@[simp] theorem length_append (log : List (Link κ α)) (k : κ) (x : α) :
    (append log k x).length = log.length + 1 := by
  rw [append, List.length_append, List.length_singleton]

/-- Writing moves the owner's last position to the new entry and leaves the others alone. -/
theorem lastOf_append (log : List (Link κ α)) (k k' : κ) (x : α) :
    lastOf (append log k x) k' = if k = k' then some log.length else lastOf log k' := by
  unfold append
  generalize lastOf log k = prev
  induction log with
  | nil => simp only [List.nil_append, lastOf, List.length_nil]
  | cons l log ih =>
    simp only [List.cons_append, lastOf, List.length_cons]
    by_cases hk : k = k'
    · rw [ih, if_pos hk, if_pos hk]
    · rw [ih, if_neg hk, if_neg hk]

/-- Writing adds one entry to the owner's list and none to the others'. -/
theorem owned_append (log : List (Link κ α)) (k k' : κ) (x : α) :
    owned (append log k x) k' =
      owned log k' ++ if k = k' then [(⟨k, lastOf log k, x⟩, log.length)] else [] := by
  rw [owned, append, List.zipIdx_append, List.filter_append, Nat.zero_add]
  congr 1
  by_cases hk : k = k' <;> simp [hk]

theorem build_concat (xs : List (κ × α)) (x : κ × α) :
    build (xs ++ [x]) = append (build xs) x.1 x.2 := by
  rw [build, List.foldl_append]
  rfl

@[simp] theorem length_build (xs : List (κ × α)) : (build xs).length = xs.length := by
  induction xs using List.reverseRecOn with
  | nil => rfl
  | append_singleton xs x ih => rw [build_concat, length_append, ih, List.length_append,
      List.length_singleton]

/-- Every sequence of writes keeps the invariant. -/
theorem linked_build (xs : List (κ × α)) : Linked (build xs) := by
  induction xs using List.reverseRecOn with
  | nil => exact .nil
  | append_singleton xs x ih =>
    rw [build_concat]
    exact .append x.1 x.2 ih

/-- The log holds the writes and nothing else. -/
theorem mem_build {xs : List (κ × α)} {k : κ} {x : α} :
    (k, x) ∈ xs ↔ ∃ l ∈ build xs, l.owner = k ∧ l.item = x := by
  induction xs using List.reverseRecOn with
  | nil => simp [build]
  | append_singleton xs y ih =>
    rw [build_concat, append, List.mem_append, List.mem_singleton, ih]
    constructor
    · rintro (⟨l, hl, h⟩ | rfl)
      · exact ⟨l, List.mem_append_left _ hl, h⟩
      · exact ⟨_, List.mem_append_right _ List.mem_cons_self, rfl, rfl⟩
    · rintro ⟨l, hl, h⟩
      rcases List.mem_append.mp hl with hl | hl
      · exact .inl ⟨l, hl, h⟩
      · obtain rfl := List.mem_singleton.mp hl
        exact .inr (Prod.ext h.1.symm h.2.symm)

/-- An owner's entries carry the owner's writes, in the order of writing. -/
theorem owned_build (xs : List (κ × α)) (k : κ) :
    (owned (build xs) k).map (·.1.item) = (xs.filter (·.1 = k)).map Prod.snd := by
  induction xs using List.reverseRecOn with
  | nil => rfl
  | append_singleton xs x ih =>
    rw [build_concat, owned_append, List.map_append, ih, List.filter_append, List.map_append]
    by_cases hk : x.1 = k <;> simp [hk]

/-! ## What an owner's entries are -/

/-- Ownership is decided by the entry alone, so a position belongs to one owner. -/
theorem mem_owned {log : List (Link κ α)} {k : κ} {l : Link κ α} {i : Nat} :
    (l, i) ∈ owned log k ↔ log[i]? = some l ∧ l.owner = k := by
  rw [owned, List.mem_filter, List.mk_mem_zipIdx_iff_getElem?, decide_eq_true_eq]

/-- An owner's last position is the position of the last of its entries. -/
theorem lastOf_eq_getLast {log : List (Link κ α)} (h : Linked log) (k : κ) :
    lastOf log k = (owned log k).getLast?.map Prod.snd := by
  induction h with
  | nil => rfl
  | append k' x _ ih =>
    rw [lastOf_append, owned_append]
    by_cases hk : k' = k
    · simp [hk]
    · rw [if_neg hk, if_neg hk, List.append_nil, ih]

/-- An owner's last position is in the log. -/
theorem lastOf_lt {log : List (Link κ α)} {k : κ} {i : Nat} (h : lastOf log k = some i) :
    i < log.length := by
  induction log generalizing i with
  | nil => exact nomatch h
  | cons l log ih =>
    rw [lastOf] at h
    rw [List.length_cons]
    cases hl : lastOf log k with
    | some j =>
      rw [hl] at h
      have := ih hl
      have : j + 1 = i := Option.some.inj h
      omega
    | none =>
      simp only [hl] at h
      split at h
      · have : 0 = i := Option.some.inj h
        omega
      · exact nomatch h

/-- An entry is linked to an earlier one: a backward walk descends. -/
theorem prev_lt {log : List (Link κ α)} (h : Linked log) {i j : Nat} {l : Link κ α}
    (hi : log[i]? = some l) (hp : l.prev = some j) : j < i := by
  induction h with
  | nil => exact nomatch hi
  | @append log k x _ ih =>
    rw [append] at hi
    rcases Nat.lt_or_ge i log.length with hlt | hge
    · rw [List.getElem?_append_left hlt] at hi
      exact ih hi
    · rw [List.getElem?_append_right hge, List.getElem?_singleton] at hi
      split at hi
      · cases hi
        have := lastOf_lt hp
        omega
      · exact nomatch hi

/-- The oldest of an owner's entries has nothing before it. -/
theorem prev_of_head {log : List (Link κ α)} (h : Linked log) {k : κ} {l : Link κ α} {i : Nat}
    (hd : (owned log k).head? = some (l, i)) : l.prev = none := by
  induction h with
  | nil => exact nomatch hd
  | @append log k' x hl ih =>
    rw [owned_append] at hd
    cases ho : owned log k with
    | cons e es =>
      rw [ho] at hd ih
      exact ih hd
    | nil =>
      rw [ho, List.nil_append] at hd
      by_cases hk : k' = k
      · rw [if_pos hk] at hd
        obtain ⟨rfl, -⟩ := Prod.mk.inj (Option.some.inj hd)
        show lastOf log k' = none
        rw [lastOf_eq_getLast hl, hk, ho]
        rfl
      · rw [if_neg hk] at hd
        exact nomatch hd

/-! ## The reader meets the owner's entries -/

/-- A walk is not disturbed by later writes. -/
theorem Follows.append {log : List (Link κ α)} {o : Option Nat} {c : List (Link κ α × Nat)}
    (h : Follows log o c) (k : κ) (x : α) : Follows (append log k x) o c := by
  induction h with
  | done => exact .done
  | hop hi _ ih =>
    refine .hop ?_ ih
    rw [Chain.append, List.getElem?_append_left (List.getElem?_eq_some_iff.mp hi).1]
    exact hi

/-- THE LAW: from an owner's last position the reader meets the owner's entries, newest first. -/
theorem follows_lastOf {log : List (Link κ α)} (h : Linked log) (k : κ) :
    Follows log (lastOf log k) (owned log k).reverse := by
  induction h with
  | nil => exact .done
  | @append log k' x hl ih =>
    rw [lastOf_append, owned_append]
    by_cases hk : k' = k
    · subst hk
      simp only [if_true, List.reverse_append, List.reverse_singleton, List.singleton_append]
      refine .hop ?_ (ih.append k' x)
      rw [Chain.append, List.getElem?_concat_length]
    · rw [if_neg hk, if_neg hk, List.append_nil]
      exact ih.append k' x

end PacketTrain.Chain
