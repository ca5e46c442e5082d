import Mathlib.Data.List.Basic
import Mathlib.Tactic.Ring

/-!
# Byte strings

The byte-level vocabulary of a reader of fixed-width records: slices, and fixed-width integers in
either byte order. `Bytes` is `List UInt8`, the carrier structural induction works on.

A slice is refused (`none`) when it leaves its string, which is what a checked range index and a
panicking one have in common; the caller says which of the two a refusal is.

Both integer codecs carry their width as an argument: `toLE w n` writes the low `w` bytes of `n`,
so a cast to a narrower integer is the width alone, and `ofLE_toLE` says what the cast keeps.
-/

namespace PacketTrain

abbrev Bytes := List UInt8

namespace Bytes

/-! ## Slices -/

/-- The bytes from `a` up to `b`, refused when the range is reversed or leaves the string. -/
def slice (data : Bytes) (a b : Nat) : Option Bytes :=
  if a ≤ b ∧ b ≤ data.length then some ((data.drop a).take (b - a)) else none

/-- A slice in range is the window it names. -/
theorem slice_of_le {data : Bytes} {a b : Nat} (hab : a ≤ b) (hb : b ≤ data.length) :
    data.slice a b = some ((data.drop a).take (b - a)) :=
  if_pos ⟨hab, hb⟩

/-- A slice that succeeds is in range, and is the window it names. -/
theorem slice_eq_some {data out : Bytes} {a b : Nat} (h : data.slice a b = some out) :
    a ≤ b ∧ b ≤ data.length ∧ out = (data.drop a).take (b - a) := by
  unfold slice at h
  split at h
  · next hr => exact ⟨hr.1, hr.2, (Option.some.inj h).symm⟩
  · exact nomatch h

/-- The middle of three parts is the slice between their lengths. -/
theorem slice_append {a b : Nat} (pre mid post : Bytes) (ha : pre.length = a)
    (hb : pre.length + mid.length = b) : (pre ++ mid ++ post).slice a b = some mid := by
  subst ha hb
  rw [slice_of_le (by omega) (by simp only [List.length_append]; omega)]
  rw [List.append_assoc, List.drop_left, Nat.add_sub_cancel_left, List.take_left]

/-- A slice past the first part is the second part's. -/
theorem slice_append_right (pre post : Bytes) (a b : Nat) :
    (pre ++ post).slice (pre.length + a) (pre.length + b) = post.slice a b := by
  unfold slice
  by_cases hab : a ≤ b ∧ b ≤ post.length
  · rw [if_pos hab, if_pos (by rw [List.length_append]; omega), List.drop_append,
      List.drop_eq_nil_of_le (by omega), List.nil_append, Nat.add_sub_cancel_left]
    congr 2
    omega
  · rw [if_neg hab, if_neg (by rw [List.length_append]; omega)]

/-- A slice that skips the first part, whose length is known. -/
theorem slice_skip {pre : Bytes} {n a b : Nat} (post : Bytes) (hn : pre.length = n) (ha : n ≤ a)
    (hab : a ≤ b) : (pre ++ post).slice a b = post.slice (a - n) (b - n) := by
  have h := slice_append_right pre post (a - n) (b - n)
  rwa [hn, Nat.add_sub_cancel' ha, Nat.add_sub_cancel' (ha.trans hab)] at h

/-- The first part. -/
theorem slice_first {pre : Bytes} {n : Nat} (post : Bytes) (hn : pre.length = n) :
    (pre ++ post).slice 0 n = some pre := by
  subst hn
  rw [slice_of_le (Nat.zero_le _) (by simp only [List.length_append]; omega), List.drop_zero,
    Nat.sub_zero, List.take_left]

/-- A slice inside a window of another string is that string's, shifted. -/
theorem slice_window {data pre post : Bytes} {off len a b : Nat} (hin : off + len ≤ data.length)
    (hab : a ≤ b) (hb : b ≤ len) :
    (pre ++ ((data.drop off).take len ++ post)).slice (pre.length + a) (pre.length + b) =
      data.slice (off + a) (off + b) := by
  have hlen : ((data.drop off).take len).length = len := by
    rw [List.length_take, List.length_drop]
    omega
  rw [slice_of_le (by omega) (by simp only [List.length_append, hlen]; omega),
    slice_of_le (by omega) (by omega), List.drop_append,
    List.drop_eq_nil_of_le (by omega), List.nil_append, Nat.add_sub_cancel_left,
    List.drop_append_of_le_length (by omega),
    List.take_append_of_le_length (by simp only [List.length_drop, hlen]; omega), List.drop_take,
    List.take_take, List.drop_drop]
  congr 2
  omega

/-! ## Records of one width

A file of fixed-size records is the concatenation of its rows, and row `k` is the slice at
`k * width`. -/

/-- The rows' total length. -/
theorem length_flatMap_const {α : Type*} {width : Nat} (enc : α → Bytes)
    (hw : ∀ x, (enc x).length = width) (rows : List α) :
    (rows.flatMap enc).length = rows.length * width := by
  induction rows with
  | nil => simp
  | cons x rows ih =>
    rw [List.flatMap_cons, List.length_append, hw, ih, List.length_cons]
    ring

/-- Row `k` of a file of fixed-size records. -/
theorem slice_flatMap {α : Type*} {width : Nat} (enc : α → Bytes)
    (hw : ∀ x, (enc x).length = width) {rows : List α} {k : Nat} {x : α}
    (hk : rows[k]? = some x) :
    slice (rows.flatMap enc) (k * width) (k * width + width) = some (enc x) := by
  obtain ⟨hlt, hx⟩ := List.getElem?_eq_some_iff.mp hk
  have hsplit : rows = rows.take k ++ x :: rows.drop (k + 1) := by
    rw [← hx, List.getElem_cons_drop, List.take_append_drop]
  have hpre : ((rows.take k).flatMap enc).length = k * width := by
    rw [length_flatMap_const enc hw, List.length_take, Nat.min_eq_left (by omega)]
  conv_lhs => rw [hsplit]
  rw [List.flatMap_append, List.flatMap_cons, ← List.append_assoc]
  exact slice_append _ _ _ hpre (by rw [hpre, hw])

/-! ## Fixed-width integers -/

/-- The integer a little-endian byte string spells. -/
def ofLE : Bytes → Nat
  | [] => 0
  | b :: rest => b.toNat + 256 * ofLE rest

/-- The integer a big-endian byte string spells. -/
def ofBE (b : Bytes) : Nat := ofLE b.reverse

/-- The low `width` bytes of an integer, least significant first. -/
def toLE : Nat → Nat → Bytes
  | 0, _ => []
  | width + 1, n => UInt8.ofNat n :: toLE width (n / 256)

@[simp] theorem length_toLE (width n : Nat) : (toLE width n).length = width := by
  induction width generalizing n with
  | zero => rfl
  | succ width ih => rw [toLE, List.length_cons, ih]

/-- Writing and reading back keeps the integer modulo the width. -/
theorem ofLE_toLE (width n : Nat) : ofLE (toLE width n) = n % 256 ^ width := by
  induction width generalizing n with
  | zero => rw [toLE, ofLE, Nat.pow_zero, Nat.mod_one]
  | succ width ih =>
    have hbyte : (UInt8.ofNat n).toNat = n % 256 := UInt8.toNat_ofNat'
    rw [toLE, ofLE, ih, hbyte, Nat.pow_succ', Nat.mod_mul]

/-- The low `width` bytes of an integer, most significant first. -/
def toBE (width n : Nat) : Bytes := (toLE width n).reverse

@[simp] theorem length_toBE (width n : Nat) : (toBE width n).length = width := by
  rw [toBE, List.length_reverse, length_toLE]

@[simp] theorem ofBE_toBE (width n : Nat) : ofBE (toBE width n) = n % 256 ^ width := by
  rw [ofBE, toBE, List.reverse_reverse, ofLE_toLE]

end Bytes

end PacketTrain
