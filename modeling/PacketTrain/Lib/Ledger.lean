import Mathlib.Algebra.BigOperators.Group.List.Basic

/-!
# Entries and their accounts

Entries in one sequence, each posted to an account or to none. `postedTo` is what one account holds
and `posted` what any does. The law is the trial balance (`sum_postedTo`): over accounts that each
stand once and cover every posting, what the accounts hold adds up to what was posted, in any
commutative monoid of amounts.
-/

namespace PacketTrain.Ledger

variable {ε κ M : Type*} [DecidableEq κ]

/-- The entries of one account, in the order of posting. -/
def postedTo (account : ε → Option κ) (entries : List ε) (k : κ) : List ε :=
  entries.filter fun e => account e = some k

/-- The entries of all accounts. -/
def posted (account : ε → Option κ) (entries : List ε) : List ε :=
  entries.filter fun e => (account e).isSome

/-- The accounts that stand once and cover every posting. -/
structure Covers (account : ε → Option κ) (entries : List ε) (accounts : List κ) : Prop where
  nodup : accounts.Nodup
  all : ∀ e ∈ entries, ∀ k, account e = some k → k ∈ accounts

variable [AddCommMonoid M] {account : ε → Option κ} {entries : List ε} {accounts : List κ}

/-- One entry adds to one account of the list. -/
theorem sum_single (hnodup : accounts.Nodup) {k : κ} (hk : k ∈ accounts) (x : M) :
    (accounts.map fun j => if k = j then x else 0).sum = x := by
  induction accounts with
  | nil => cases hk
  | cons j js ih =>
    rw [List.map_cons, List.sum_cons]
    obtain ⟨hj, hjs⟩ := List.nodup_cons.mp hnodup
    by_cases hkj : k = j
    · subst hkj
      have hzero : (js.map fun j => if k = j then x else 0).sum = 0 := by
        refine List.sum_eq_zero fun y hy => ?_
        obtain ⟨i, hi, rfl⟩ := List.mem_map.mp hy
        exact if_neg (ne_of_mem_of_not_mem hi hj).symm
      rw [if_pos rfl, hzero, add_zero]
    · have hmem : k ∈ js := (List.mem_cons.mp hk).resolve_left hkj
      rw [if_neg hkj, ih hjs hmem, zero_add]

/-- THE TRIAL BALANCE: the accounts hold together what was posted. -/
theorem sum_postedTo (h : Covers account entries accounts) (amount : ε → M) :
    (accounts.map fun k => ((postedTo account entries k).map amount).sum).sum =
      ((posted account entries).map amount).sum := by
  obtain ⟨hnodup, hall⟩ := h
  induction entries with
  | nil => simp [postedTo, posted]
  | cons e es ih =>
    have ih := ih fun e' he' => hall e' (List.mem_cons_of_mem _ he')
    cases he : account e with
    | none => simpa [postedTo, posted, he] using ih
    | some k =>
      have hk : k ∈ accounts := hall e List.mem_cons_self k he
      have hone : ∀ j, ((postedTo account (e :: es) j).map amount).sum =
          (if k = j then amount e else 0) + ((postedTo account es j).map amount).sum := by
        intro j
        by_cases hkj : k = j <;> simp [postedTo, he, hkj]
      simp only [hone, List.sum_map_add, sum_single hnodup hk, ih]
      simp [posted, he]

end PacketTrain.Ledger
