import Mathlib.Data.List.DropRight
import Mathlib.Tactic.IntervalCases
import PacketTrain.Lib.Bytes

/-!
# Base64

Bytes in groups of three, written as four digits of six bits, with a padding for the last group. The
reader drops the bits that no byte takes, so more than one text has the same bytes; the writer's text is
read back (`decode_encode`), it is whole groups of digits with at most two paddings (`exists_encode`), and
it is the only such text with its digits (`eq_encode`).
-/

namespace PacketTrain.Base64

/-- `=`. -/
def padding : UInt8 := 61

/-- The digit of six bits: `A-Za-z0-9+/`. -/
def digit (n : ℕ) : UInt8 :=
  if n < 26 then UInt8.ofNat (65 + n)
  else if n < 52 then UInt8.ofNat (71 + n)
  else if n < 62 then UInt8.ofNat (n - 4)
  else if n = 62 then 43
  else 47

/-- The bits of a digit. -/
def value (b : UInt8) : Option ℕ :=
  if 65 ≤ b.toNat ∧ b.toNat ≤ 90 then some (b.toNat - 65)
  else if 97 ≤ b.toNat ∧ b.toNat ≤ 122 then some (b.toNat - 71)
  else if 48 ≤ b.toNat ∧ b.toNat ≤ 57 then some (b.toNat + 4)
  else if b.toNat = 43 then some 62
  else if b.toNat = 47 then some 63
  else none

/-- `[A-Za-z0-9+/]`. -/
def isDigit (b : UInt8) : Bool := (value b).isSome

/-- `base64.b64encode`. -/
def encode : Bytes → Bytes
  | [] => []
  | [a] => [digit (a.toNat / 4), digit (a.toNat % 4 * 16), padding, padding]
  | [a, b] =>
    [digit (a.toNat / 4), digit (a.toNat % 4 * 16 + b.toNat / 16), digit (b.toNat % 16 * 4), padding]
  | a :: b :: c :: rest =>
    digit (a.toNat / 4) :: digit (a.toNat % 4 * 16 + b.toNat / 16) ::
      digit (b.toNat % 16 * 4 + c.toNat / 64) :: digit (c.toNat % 64) :: encode rest

/-- `base64.b64decode`, of whole groups; a digit that is none, or a padding before the end, is refused. -/
def decode : Bytes → Option Bytes
  | [] => some []
  | a :: b :: c :: d :: rest => do
    let x ← value a
    let y ← value b
    if c = padding ∧ d = padding ∧ rest = [] then some [UInt8.ofNat (x * 4 + y / 16)]
    else
      let z ← value c
      if d = padding ∧ rest = [] then
        some [UInt8.ofNat (x * 4 + y / 16), UInt8.ofNat (y % 16 * 16 + z / 4)]
      else
        let w ← value d
        let more ← decode rest
        some (UInt8.ofNat (x * 4 + y / 16) :: UInt8.ofNat (y % 16 * 16 + z / 4) ::
          UInt8.ofNat (z % 4 * 64 + w) :: more)
  | _ => none

/-! ## Digits -/

theorem value_digit {n : ℕ} (h : n < 64) : value (digit n) = some n := by
  interval_cases n <;> rfl

theorem isDigit_digit {n : ℕ} (h : n < 64) : isDigit (digit n) = true := by
  rw [isDigit, value_digit h]
  rfl

theorem ne_padding_of_isDigit {b : UInt8} (h : isDigit b = true) : b ≠ padding := by
  rintro rfl
  exact absurd h (by decide)

/-! ## Round trip -/

/-- The bytes of two neighbours' bits. -/
theorem ofNat_eq {b : UInt8} {n : ℕ} (h : n = b.toNat) : UInt8.ofNat n = b := by
  rw [h, UInt8.ofNat_toNat]

/-- What is written is read back. -/
theorem decode_encode (data : Bytes) : decode (encode data) = some data := by
  induction data using encode.induct with
  | case1 => rfl
  | case2 a =>
    have ha : a.toNat < 256 := a.toNat_lt
    rw [encode, decode, value_digit (by omega), value_digit (by omega)]
    exact congrArg (fun b => some [b]) (ofNat_eq (by omega))
  | case3 a b =>
    have ha : a.toNat < 256 := a.toNat_lt
    have hb : b.toNat < 256 := b.toNat_lt
    have hpad : digit (b.toNat % 16 * 4) ≠ padding := ne_padding_of_isDigit (isDigit_digit (by omega))
    rw [encode, decode, value_digit (by omega), value_digit (by omega), value_digit (by omega)]
    simp only [Option.bind_eq_bind, Option.bind_some, hpad, false_and, if_false, and_self, if_true]
    rw [ofNat_eq (b := a) (by omega), ofNat_eq (b := b) (by omega)]
  | case4 a b c rest ih =>
    have ha : a.toNat < 256 := a.toNat_lt
    have hb : b.toNat < 256 := b.toNat_lt
    have hc : c.toNat < 256 := c.toNat_lt
    have hpad : digit (b.toNat % 16 * 4 + c.toNat / 64) ≠ padding :=
      ne_padding_of_isDigit (isDigit_digit (by omega))
    have hpad' : digit (c.toNat % 64) ≠ padding := ne_padding_of_isDigit (isDigit_digit (by omega))
    rw [encode, decode, value_digit (by omega), value_digit (by omega), value_digit (by omega),
      value_digit (by omega), ih]
    simp only [Option.bind_eq_bind, Option.bind_some, hpad, hpad', false_and, if_false]
    rw [ofNat_eq (b := a) (by omega), ofNat_eq (b := b) (by omega), ofNat_eq (b := c) (by omega)]

/-! ## The text -/

theorem length_encode (data : Bytes) : (encode data).length = (data.length + 2) / 3 * 4 := by
  induction data using encode.induct with
  | case1 => rfl
  | case2 a => simp [encode]
  | case3 a b => simp [encode]
  | case4 a b c rest ih =>
    rw [encode]
    simp only [List.length_cons, ih]
    omega

/-- Digits and at most two paddings. -/
theorem exists_encode (data : Bytes) : ∃ digits n, encode data = digits ++ List.replicate n padding ∧
    n ≤ 2 ∧ ∀ b ∈ digits, isDigit b = true := by
  induction data using encode.induct with
  | case1 => exact ⟨[], 0, rfl, by omega, by simp⟩
  | case2 a =>
    have ha : a.toNat < 256 := a.toNat_lt
    refine ⟨[digit (a.toNat / 4), digit (a.toNat % 4 * 16)], 2, rfl, by omega, ?_⟩
    simp only [List.forall_mem_cons]
    exact ⟨isDigit_digit (by omega), isDigit_digit (by omega), List.forall_mem_nil _⟩
  | case3 a b =>
    have ha : a.toNat < 256 := a.toNat_lt
    have hb : b.toNat < 256 := b.toNat_lt
    refine ⟨[digit (a.toNat / 4), digit (a.toNat % 4 * 16 + b.toNat / 16), digit (b.toNat % 16 * 4)], 1,
      rfl, by omega, ?_⟩
    simp only [List.forall_mem_cons]
    exact ⟨isDigit_digit (by omega), isDigit_digit (by omega), isDigit_digit (by omega),
      List.forall_mem_nil _⟩
  | case4 a b c rest ih =>
    have ha : a.toNat < 256 := a.toNat_lt
    have hb : b.toNat < 256 := b.toNat_lt
    have hc : c.toNat < 256 := c.toNat_lt
    obtain ⟨digits, n, hencode, hn, hdigits⟩ := ih
    refine ⟨digit (a.toNat / 4) :: digit (a.toNat % 4 * 16 + b.toNat / 16) ::
      digit (b.toNat % 16 * 4 + c.toNat / 64) :: digit (c.toNat % 64) :: digits, n, ?_, hn, ?_⟩
    · rw [encode, hencode]
      rfl
    · simp only [List.forall_mem_cons]
      exact ⟨isDigit_digit (by omega), isDigit_digit (by omega), isDigit_digit (by omega),
        isDigit_digit (by omega), hdigits⟩

/-- A text without its paddings. -/
theorem rdropWhile_padding {digits : Bytes} (h : ∀ b ∈ digits, isDigit b = true) (n : ℕ) :
    (digits ++ List.replicate n padding).rdropWhile (· = padding) = digits := by
  have hpads : ∀ b ∈ List.replicate n padding, decide (b = padding) = true := by
    intro b hb
    exact decide_eq_true (List.eq_of_mem_replicate hb)
  have hkeep : digits.reverse.dropWhile (· = padding) = digits.reverse := by
    rw [List.dropWhile_eq_self_iff]
    intro hlt hpad
    have hmem : digits.reverse[0] ∈ digits := List.mem_reverse.mp (List.getElem_mem hlt)
    exact ne_padding_of_isDigit (h _ hmem) (of_decide_eq_true hpad)
  rw [List.rdropWhile, List.reverse_append, List.reverse_replicate, List.dropWhile_append_of_pos hpads,
    hkeep, List.reverse_reverse]

/-- Whole groups that have the digits of what is written are what is written. -/
theorem eq_encode {digits data : Bytes} {n : ℕ} (hn : n ≤ 2)
    (hgroups : (digits ++ List.replicate n padding).length % 4 = 0)
    (h : (encode data).rdropWhile (· = padding) = digits) :
    digits ++ List.replicate n padding = encode data := by
  obtain ⟨digits', n', hencode, hn', hdigits'⟩ := exists_encode data
  rw [hencode, rdropWhile_padding hdigits'] at h
  subst h
  have hgroups' : (digits' ++ List.replicate n' padding).length % 4 = 0 := by
    rw [← hencode, length_encode]
    omega
  rw [List.length_append, List.length_replicate] at hgroups hgroups'
  rw [hencode, show n = n' by omega]

end PacketTrain.Base64
