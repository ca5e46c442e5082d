import Mathlib.Tactic.IntervalCases
import PacketTrain.Lib.Bytes
import PacketTrain.Lib.Lines

/-!
# Hexadecimal

Bytes printed as two hexadecimal digits each, and read again. A text of digits can be cut at any
byte (`unhexlify_slice`), and bytes are read back as they were printed (`unhexlify_hexText`, and
`fromhex_hexText` for the reader that checks its digits and skips the space between them).
-/

namespace PacketTrain.Hex

open Lines

/-- `[0-9a-fA-F]`. -/
def isHexDigit (c : Char) : Bool :=
  c.isDigit || ('a' ≤ c && c ≤ 'f') || ('A' ≤ c && c ≤ 'F')

/-- The value of a digit of either case. -/
def hexValue (c : Char) : ℕ :=
  if c.isDigit then c.toNat - '0'.toNat
  else if 'a' ≤ c then c.toNat - 'a'.toNat + 10
  else c.toNat - 'A'.toNat + 10

/-- `binascii.unhexlify`, of an even number of digits. -/
def unhexlify : Text → Bytes
  | a :: b :: rest => UInt8.ofNat (16 * hexValue a + hexValue b) :: unhexlify rest
  | _ => []

/-- The white space that `bytes.fromhex` skips. -/
def isAsciiSpace (c : Char) : Bool := c = ' ' || ('\t' ≤ c && c ≤ '\r')

/-- `bytes.fromhex`; `none` is the `ValueError`. -/
def fromhex : Text → Option Bytes
  | [] => some []
  | [c] => if isAsciiSpace c then some [] else none
  | a :: b :: rest =>
    if isAsciiSpace a then fromhex (b :: rest)
    else if isHexDigit a && isHexDigit b then
      (fromhex rest).map (UInt8.ofNat (16 * hexValue a + hexValue b) :: ·)
    else none

/-- `f"{b:02x}"`. -/
def hexByte (b : UInt8) : Text := [Nat.digitChar (b.toNat / 16), Nat.digitChar (b.toNat % 16)]

/-- `data.hex()`. -/
def hexText (data : Bytes) : Text := data.flatMap hexByte

theorem unhexlify_nil : unhexlify [] = [] := by
  rw [unhexlify]
  exact fun _ _ _ h => nomatch h

theorem unhexlify_singleton (a : Char) : unhexlify [a] = [] := by
  rw [unhexlify]
  exact fun _ _ _ h => nomatch h

theorem length_unhexlify : ∀ text : Text, (unhexlify text).length = text.length / 2
  | [] => by
    rw [unhexlify_nil]
    rfl
  | [a] => by
    rw [unhexlify_singleton, List.length_nil, List.length_singleton]
  | a :: b :: rest => by
    rw [unhexlify, List.length_cons, length_unhexlify rest, List.length_cons, List.length_cons]
    omega

theorem unhexlify_drop (text : Text) (n : ℕ) :
    unhexlify (text.drop (n * 2)) = (unhexlify text).drop n := by
  induction n generalizing text with
  | zero => rfl
  | succ n ih =>
    rw [Nat.succ_mul]
    rcases text with _ | ⟨a, _ | ⟨b, rest⟩⟩
    · rw [List.drop_nil, unhexlify_nil, List.drop_nil]
    · rw [unhexlify_singleton, List.drop_of_length_le (by simp), unhexlify_nil, List.drop_nil]
    · rw [unhexlify, List.drop_succ_cons, List.drop_succ_cons, List.drop_succ_cons, ih]

theorem unhexlify_take (text : Text) (n : ℕ) :
    unhexlify (text.take (n * 2)) = (unhexlify text).take n := by
  induction n generalizing text with
  | zero => rw [Nat.zero_mul, List.take_zero, List.take_zero, unhexlify_nil]
  | succ n ih =>
    rw [Nat.succ_mul]
    rcases text with _ | ⟨a, _ | ⟨b, rest⟩⟩
    · rw [List.take_nil, unhexlify_nil, List.take_nil]
    · rw [unhexlify_singleton, List.take_of_length_le (by simp), unhexlify_singleton, List.take_nil]
    · rw [unhexlify, List.take_succ_cons, List.take_succ_cons, List.take_succ_cons, unhexlify, ih]

/-- The digits of some bytes are those bytes. -/
theorem unhexlify_slice (text : Text) (skip take : ℕ) :
    unhexlify ((text.drop (skip * 2)).take (take * 2)) = ((unhexlify text).drop skip).take take := by
  rw [unhexlify_take, unhexlify_drop]

theorem hexValue_digitChar {n : ℕ} (h : n < 16) : hexValue (Nat.digitChar n) = n := by
  interval_cases n <;> rfl

/-- Bytes are read back as they were printed. -/
theorem unhexlify_hexText (data : Bytes) : unhexlify (hexText data) = data := by
  induction data with
  | nil => rfl
  | cons b data ih =>
    have hb : b.toNat < 256 := b.toNat_lt
    have hbyte : hexText (b :: data) =
        Nat.digitChar (b.toNat / 16) :: Nat.digitChar (b.toNat % 16) :: hexText data := rfl
    rw [hbyte, unhexlify, ih, hexValue_digitChar (by omega), hexValue_digitChar (by omega),
      Nat.div_add_mod, UInt8.ofNat_toNat]

theorem digitChar_spec {n : ℕ} (h : n < 16) :
    isHexDigit (Nat.digitChar n) = true ∧ isAsciiSpace (Nat.digitChar n) = false := by
  interval_cases n <;> exact ⟨rfl, rfl⟩

/-- Bytes are read back as they were printed, each digit checked. -/
theorem fromhex_hexText (data : Bytes) : fromhex (hexText data) = some data := by
  induction data with
  | nil => rfl
  | cons b data ih =>
    have hb : b.toNat < 256 := b.toNat_lt
    have hbyte : hexText (b :: data) =
        Nat.digitChar (b.toNat / 16) :: Nat.digitChar (b.toNat % 16) :: hexText data := rfl
    obtain ⟨hhigh, hspace⟩ := digitChar_spec (n := b.toNat / 16) (by omega)
    obtain ⟨hlow, -⟩ := digitChar_spec (n := b.toNat % 16) (by omega)
    rw [hbyte, fromhex, hspace, hhigh, hlow, ih, hexValue_digitChar (by omega),
      hexValue_digitChar (by omega), Nat.div_add_mod, UInt8.ofNat_toNat]
    rfl

/-! ## Digits apart -/

theorem hexByte_spec (b : UInt8) : ∀ c ∈ hexByte b, isHexDigit c = true ∧ isAsciiSpace c = false := by
  have hb : b.toNat < 256 := b.toNat_lt
  simp only [hexByte, List.forall_mem_cons]
  exact ⟨digitChar_spec (by omega), digitChar_spec (by omega), List.forall_mem_nil _⟩

theorem length_hexText (data : Bytes) : (hexText data).length = 2 * data.length := by
  induction data with
  | nil => rfl
  | cons b data ih =>
    rw [hexText, List.flatMap_cons, List.length_append, ← hexText, ih, List.length_cons, hexByte]
    simp only [List.length_cons, List.length_nil]
    omega

theorem fromhex_space (text : Text) : fromhex (' ' :: text) = fromhex text := by
  cases text with
  | nil => rfl
  | cons c text =>
    rw [fromhex]
    rfl

theorem fromhex_byte (b : UInt8) (text : Text) :
    fromhex (hexByte b ++ text) = (fromhex text).map (b :: ·) := by
  have hb : b.toNat < 256 := b.toNat_lt
  obtain ⟨hhigh, hspace⟩ := digitChar_spec (n := b.toNat / 16) (by omega)
  obtain ⟨hlow, -⟩ := digitChar_spec (n := b.toNat % 16) (by omega)
  rw [hexByte, List.cons_append, List.cons_append, List.nil_append, fromhex, hspace, hhigh, hlow,
    hexValue_digitChar (by omega), hexValue_digitChar (by omega), Nat.div_add_mod, UInt8.ofNat_toNat]
  rfl

/-- Bytes are read back from digits with a space between, and any number of spaces after them. -/
theorem fromhex_apart (data : Bytes) (n : ℕ) :
    fromhex ([' '].intercalate (data.map hexByte) ++ List.replicate n ' ') = some data := by
  have hblank : fromhex (List.replicate n ' ') = some [] := by
    induction n with
    | zero => rfl
    | succ n ih => rw [List.replicate_succ, fromhex_space, ih]
  induction data with
  | nil => exact hblank
  | cons b data ih =>
    cases data with
    | nil => rw [List.map_singleton, List.intercalate_singleton, fromhex_byte, hblank]; rfl
    | cons c data =>
      rw [List.map_cons] at ih
      rw [List.map_cons, List.map_cons, List.intercalate_cons_cons, List.append_assoc, List.append_assoc,
        fromhex_byte, List.singleton_append, fromhex_space, ih]
      rfl

theorem length_apart (data : Bytes) :
    ([' '].intercalate (data.map hexByte)).length = 3 * data.length - 1 := by
  induction data with
  | nil => rfl
  | cons b data ih =>
    cases data with
    | nil => rfl
    | cons c data =>
      rw [List.map_cons] at ih
      rw [List.map_cons, List.map_cons, List.intercalate_cons_cons, List.length_append, List.length_append,
        ih]
      simp only [hexByte, List.length_cons, List.length_nil]
      omega

end PacketTrain.Hex
