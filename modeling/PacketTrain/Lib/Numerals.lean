import Mathlib.Data.Rat.Lemmas
import PacketTrain.Lib.Hex
import PacketTrain.Lib.Strings

/-!
# Numerals

Numbers read from text as a permissive reader does it: white space around them, a sign, single
underscores between digits, a base prefix when none is given, a fraction and an exponent. What a
plain printer prints is read back (`readInteger_decimal`, `readLiteral_hexLiteral`,
`readFloat_fixedPoint`), and nothing is read from a blank text.

Digits are ASCII. A float is the rational its numeral spells; infinities and not-a-number, which no
finite numeral spells, are not read.
-/

namespace PacketTrain.Numerals

open Lines Strings Hex

/-! ## Digits -/

/-- The value of some digits of a base up to sixteen. -/
def ofDigits (base : ℕ) (digits : Text) : ℕ := digits.foldl (fun n c => base * n + hexValue c) 0

/-- Digits with single underscores between them. -/
def readDigits (base : ℕ) (text : Text) : Option ℕ :=
  let parts := text.splitOn '_'
  if parts.all fun part => part ≠ [] && part.all fun c => isHexDigit c && hexValue c < base then
    some (ofDigits base parts.flatten)
  else none

/-- A sign, or none, before a numeral. -/
def signed {R : Type} [Neg R] (read : Text → Option R) : Text → Option R
  | '-' :: text => (read text).map (- ·)
  | '+' :: text => read text
  | text => read text

/-- `int(text)`. -/
def readInteger (text : Text) : Option ℤ :=
  signed (fun digits => (readDigits 10 digits).map Int.ofNat) (strip text)

/-! ## A base prefix -/

/-- The digits after a base prefix; an underscore may stand before them. -/
def readBased (base : ℕ) : Text → Option ℕ
  | '_' :: digits => readDigits base digits
  | digits => readDigits base digits

/-- A literal without a sign: its prefix names the base, and without one no zero may lead. -/
def readUnsignedLiteral (text : Text) : Option ℕ :=
  match text with
  | '0' :: 'x' :: digits | '0' :: 'X' :: digits => readBased 16 digits
  | '0' :: 'o' :: digits | '0' :: 'O' :: digits => readBased 8 digits
  | '0' :: 'b' :: digits | '0' :: 'B' :: digits => readBased 2 digits
  | '0' :: _ => (readDigits 10 text).filter (· = 0)
  | _ => readDigits 10 text

/-- `int(text, 0)`. -/
def readLiteral (text : Text) : Option ℤ :=
  signed (fun digits => (readUnsignedLiteral digits).map Int.ofNat) (strip text)

/-! ## Fractions -/

/-- The parts before and after the first of some characters; `none` for the second without one. -/
def splitAtFirst (test : Char → Bool) (text : Text) : Text × Option Text :=
  match text.dropWhile fun c => !test c with
  | [] => (text, none)
  | _ :: rest => (text.takeWhile fun c => !test c, some rest)

/-- Digits before the point and behind it, not both missing. -/
def readFixed (text : Text) : Option ℚ :=
  match splitAtFirst (· = '.') text with
  | (whole, none) => (readDigits 10 whole).map fun n => (n : ℚ)
  | (whole, some fraction) =>
    if whole = [] ∧ fraction = [] then none
    else do
      let n ← if whole = [] then some 0 else readDigits 10 whole
      let m ← if fraction = [] then some 0 else readDigits 10 fraction
      some (n + m / 10 ^ (fraction.filter (· ≠ '_')).length)

/-- A numeral without a sign, with its exponent. -/
def readUnsignedFloat (text : Text) : Option ℚ :=
  match splitAtFirst (fun c => c = 'e' || c = 'E') text with
  | (mantissa, none) => readFixed mantissa
  | (mantissa, some exponent) => do
    let value ← readFixed mantissa
    let power ← signed (fun digits => (readDigits 10 digits).map Int.ofNat) exponent
    some (value * (10 : ℚ) ^ power)

/-- `float(text)`. -/
def readFloat (text : Text) : Option ℚ := signed readUnsignedFloat (strip text)

/-! ## What a printer prints -/

/-- A text spelled in lower-case digits of a base. -/
def Spelled (base : ℕ) (text : Text) : Prop := ∀ c ∈ text, ∃ d < base, c = Nat.digitChar d

/-- `f"0x{n:04x}"`. -/
def hexLiteral (n : ℕ) : Text := '0' :: 'x' :: (Nat.toDigits 16 n).leftpad 4 '0'

/-- A count of units with nine digits behind the point. -/
def fixedPoint (whole billionths : ℕ) : Text :=
  Nat.toDigits 10 whole ++ '.' :: (Nat.toDigits 10 billionths).leftpad 9 '0'

theorem Spelled.append {base : ℕ} {a b : Text} (ha : Spelled base a) (hb : Spelled base b) :
    Spelled base (a ++ b) := fun c hc => (List.mem_append.mp hc).elim (ha c) (hb c)

theorem spelled_toDigits {base : ℕ} (hbase : 1 < base) (n : ℕ) : Spelled base (Nat.toDigits base n) := by
  induction n using Nat.strong_induction_on with
  | _ n ih =>
    rw [Nat.toDigits_eq_if hbase]
    split
    · next hn => exact fun c hc => ⟨n, hn, List.mem_singleton.mp hc⟩
    · next hn =>
      refine (ih (n / base) (Nat.div_lt_self (by omega) hbase)).append fun c hc => ?_
      exact ⟨n % base, Nat.mod_lt _ (by omega), List.mem_singleton.mp hc⟩

theorem spelled_leftpad {base : ℕ} (hbase : 1 < base) (width n : ℕ) :
    Spelled base ((Nat.toDigits base n).leftpad width '0') := by
  refine Spelled.append (fun c hc => ?_) (spelled_toDigits hbase n)
  exact ⟨0, by omega, (List.mem_replicate.mp hc).2⟩

/-- A digit is none of the other characters of a numeral, and no space. -/
theorem digitChar_plain {d : ℕ} (h : d < 16) :
    isSpace (Nat.digitChar d) = false ∧ Nat.digitChar d ≠ '-' ∧ Nat.digitChar d ≠ '+' ∧
      Nat.digitChar d ≠ '_' ∧ Nat.digitChar d ≠ '.' ∧ isHexDigit (Nat.digitChar d) = true := by
  interval_cases d <;> decide

theorem digitChar_ne_exponent {d : ℕ} (h : d < 10) :
    Nat.digitChar d ≠ 'e' ∧ Nat.digitChar d ≠ 'E' := by
  interval_cases d <;> decide

theorem ofDigits_append (base : ℕ) (a b : Text) :
    ofDigits base (a ++ b) = b.foldl (fun n c => base * n + hexValue c) (ofDigits base a) := by
  rw [ofDigits, List.foldl_append, ofDigits]

theorem ofDigits_toDigits {base : ℕ} (hbase : 1 < base) (hsmall : base ≤ 16) (n : ℕ) :
    ofDigits base (Nat.toDigits base n) = n := by
  induction n using Nat.strong_induction_on with
  | _ n ih =>
    rw [Nat.toDigits_eq_if hbase]
    split
    · next hn =>
      show base * 0 + hexValue (Nat.digitChar n) = n
      rw [hexValue_digitChar (by omega)]
      omega
    · next hn =>
      rw [ofDigits_append, ih (n / base) (Nat.div_lt_self (by omega) hbase)]
      show base * (n / base) + hexValue (Nat.digitChar (n % base)) = n
      rw [hexValue_digitChar (lt_of_lt_of_le (Nat.mod_lt _ (by omega)) hsmall), Nat.div_add_mod]

theorem ofDigits_leftpad (base width : ℕ) (text : Text) :
    ofDigits base (text.leftpad width '0') = ofDigits base text := by
  have hzeros : ∀ k, ofDigits base (List.replicate k '0') = 0 := by
    intro k
    induction k with
    | zero => rfl
    | succ k ih =>
      rw [List.replicate_succ', ofDigits_append, ih]
      show base * 0 + hexValue '0' = 0
      rw [Nat.mul_zero]
      rfl
  rw [List.leftpad, ofDigits_append, hzeros, ofDigits]

theorem readDigits_spelled {base : ℕ} (hbase : base ≤ 16) {text : Text} (hne : text ≠ [])
    (h : Spelled base text) : readDigits base text = some (ofDigits base text) := by
  have hplain : '_' ∉ text := by
    intro hmem
    obtain ⟨d, hd, heq⟩ := h _ hmem
    exact (digitChar_plain (hd.trans_le hbase)).2.2.2.1 heq.symm
  have hdigits : (text.all fun c => isHexDigit c && hexValue c < base) = true := by
    refine List.all_eq_true.mpr fun c hc => ?_
    obtain ⟨d, hd, rfl⟩ := h c hc
    rw [(digitChar_plain (hd.trans_le hbase)).2.2.2.2.2, hexValue_digitChar (hd.trans_le hbase)]
    simpa using hd
  rw [readDigits, List.splitOn_eq_singleton hplain]
  simp [hne, hdigits]

/-- Nothing is stripped off a numeral. -/
theorem strip_spelled {text : Text} (h : ∀ c ∈ text, isSpace c = false) : strip text = text := by
  rw [strip, List.dropWhile_eq_self_iff.mpr fun hpos => by simpa using h _ (List.getElem_mem hpos)]
  exact List.rdropWhile_eq_self_iff.mpr fun hne => by simpa using h _ (List.getLast_mem hne)

theorem Spelled.no_space {base : ℕ} (hbase : base ≤ 16) {text : Text} (h : Spelled base text) :
    ∀ c ∈ text, isSpace c = false := by
  intro c hc
  obtain ⟨d, hd, rfl⟩ := h c hc
  exact (digitChar_plain (hd.trans_le hbase)).1

/-- A numeral that begins with a digit has no sign. -/
theorem signed_digit {R : Type} [Neg R] (read : Text → Option R) {d : ℕ} (hd : d < 16) (text : Text) :
    signed read (Nat.digitChar d :: text) = read (Nat.digitChar d :: text) := by
  obtain ⟨-, hminus, hplus, -⟩ := digitChar_plain hd
  rw [signed]
  · exact fun _ h => hminus (List.cons.inj h).1
  · exact fun _ h => hplus (List.cons.inj h).1

theorem signed_spelled {R : Type} [Neg R] (read : Text → Option R) {base : ℕ} (hbase : base ≤ 16)
    {text : Text} (hne : text ≠ []) (h : Spelled base text) (rest : Text) :
    signed read (text ++ rest) = read (text ++ rest) := by
  obtain ⟨c, text, rfl⟩ := List.exists_cons_of_ne_nil hne
  obtain ⟨d, hd, rfl⟩ := h c List.mem_cons_self
  exact signed_digit read (hd.trans_le hbase) _

/-- A count is read back as it was printed. -/
theorem readInteger_toDigits (n : ℕ) : readInteger (Nat.toDigits 10 n) = some (n : ℤ) := by
  have hspelled := spelled_toDigits (by decide : 1 < 10) n
  have hsigned := signed_spelled (fun digits => (readDigits 10 digits).map Int.ofNat) (by decide)
    Nat.toDigits_ne_nil hspelled []
  rw [List.append_nil] at hsigned
  rw [readInteger, strip_spelled (hspelled.no_space (by decide)), hsigned,
    readDigits_spelled (by decide) Nat.toDigits_ne_nil hspelled,
    ofDigits_toDigits (by decide) (by decide)]
  rfl

/-- A bit set is read back as it was printed. -/
theorem readLiteral_hexLiteral (n : ℕ) : readLiteral (hexLiteral n) = some (n : ℤ) := by
  have hspelled := spelled_leftpad (by decide : 1 < 16) 4 n
  have hne : (Nat.toDigits 16 n).leftpad 4 '0' ≠ [] :=
    List.append_ne_nil_of_right_ne_nil _ Nat.toDigits_ne_nil
  have hspace : ∀ c ∈ hexLiteral n, isSpace c = false := by
    intro c hc
    rcases List.mem_cons.mp hc with rfl | hc
    · decide
    rcases List.mem_cons.mp hc with rfl | hc
    · decide
    · exact hspelled.no_space (by decide) c hc
  have hbased : readBased 16 ((Nat.toDigits 16 n).leftpad 4 '0') = some n := by
    obtain ⟨c, rest, hcons⟩ := List.exists_cons_of_ne_nil hne
    rw [hcons, readBased, ← hcons, readDigits_spelled (by decide) hne hspelled, ofDigits_leftpad,
      ofDigits_toDigits (by decide) (by decide)]
    intro digits heq
    obtain ⟨d, hd, hdigit⟩ := hspelled c (hcons ▸ List.mem_cons_self)
    exact (digitChar_plain hd).2.2.2.1 (hdigit.symm.trans (List.cons.inj heq).1)
  rw [readLiteral, strip_spelled hspace, hexLiteral]
  show Option.map Int.ofNat (readBased 16 ((Nat.toDigits 16 n).leftpad 4 '0')) = _
  rw [hbased]
  rfl

/-! ### Fractions -/

theorem splitAtFirst_none {test : Char → Bool} {text : Text} (h : ∀ c ∈ text, test c = false) :
    splitAtFirst test text = (text, none) := by
  have hnil : (text.dropWhile fun c => !test c) = [] :=
    List.dropWhile_eq_nil_iff.mpr fun c hc => by simp [h c hc]
  rw [splitAtFirst, hnil]

theorem splitAtFirst_some {test : Char → Bool} {before : Text} (h : ∀ c ∈ before, test c = false)
    {c : Char} (hc : test c = true) (rest : Text) :
    splitAtFirst test (before ++ c :: rest) = (before, some rest) := by
  have hall : ∀ d ∈ before, (!test d) = true := fun d hd => by simp [h d hd]
  have hdrop : (before ++ c :: rest).dropWhile (fun d => !test d) = c :: rest := by
    rw [List.dropWhile_append_of_pos hall, List.dropWhile_cons_of_neg (by simp [hc])]
  have htake : (before ++ c :: rest).takeWhile (fun d => !test d) = before := by
    rw [List.takeWhile_append_of_pos hall, List.takeWhile_cons_of_neg (by simp [hc]), List.append_nil]
  rw [splitAtFirst, hdrop, htake]

/-- A time is read back as it was printed. -/
theorem readFloat_fixedPoint (whole : ℕ) {billionths : ℕ} (h : billionths < 10 ^ 9) :
    readFloat (fixedPoint whole billionths) = some (whole + billionths / 10 ^ 9 : ℚ) := by
  have hwhole := spelled_toDigits (by decide : 1 < 10) whole
  have hfraction := spelled_leftpad (by decide : 1 < 10) 9 billionths
  have hne : (Nat.toDigits 10 billionths).leftpad 9 '0' ≠ [] :=
    List.append_ne_nil_of_right_ne_nil _ Nat.toDigits_ne_nil
  have hlength : ((Nat.toDigits 10 billionths).leftpad 9 '0').length = 9 := by
    have hle : (Nat.toDigits 10 billionths).length ≤ 9 :=
      (Nat.length_toDigits_le_iff (by decide) (by decide)).mpr h
    rw [List.length_leftpad]
    omega
  have hmem : ∀ c ∈ fixedPoint whole billionths, c = '.' ∨ ∃ d < 10, c = Nat.digitChar d := by
    intro c hc
    rcases List.mem_append.mp hc with hc | hc
    · exact .inr (hwhole c hc)
    rcases List.mem_cons.mp hc with rfl | hc
    · exact .inl rfl
    · exact .inr (hfraction c hc)
  have hspace : ∀ c ∈ fixedPoint whole billionths, isSpace c = false := by
    intro c hc
    rcases hmem c hc with rfl | ⟨d, hd, rfl⟩
    · decide
    · exact (digitChar_plain (by omega)).1
  have hexponent : ∀ c ∈ fixedPoint whole billionths, (c = 'e' || c = 'E' : Bool) = false := by
    intro c hc
    rcases hmem c hc with rfl | ⟨d, hd, rfl⟩
    · decide
    · simpa using digitChar_ne_exponent hd
  have hpoint : ∀ c ∈ Nat.toDigits 10 whole, decide (c = '.') = false := by
    intro c hc
    obtain ⟨d, hd, rfl⟩ := hwhole c hc
    simp
  have hkeep : ((Nat.toDigits 10 billionths).leftpad 9 '0').filter (fun c => decide (c ≠ '_')) =
      (Nat.toDigits 10 billionths).leftpad 9 '0' := by
    refine List.filter_eq_self.mpr fun c hc => ?_
    obtain ⟨d, hd, rfl⟩ := hfraction c hc
    simp
  rw [readFloat, strip_spelled hspace, fixedPoint,
    signed_spelled _ (by decide : 10 ≤ 16) Nat.toDigits_ne_nil hwhole, ← fixedPoint,
    readUnsignedFloat, splitAtFirst_none hexponent]
  show readFixed (fixedPoint whole billionths) = _
  rw [readFixed, fixedPoint, splitAtFirst_some hpoint (by decide)]
  simp only [Nat.toDigits_ne_nil, hne, and_self, if_false,
    readDigits_spelled (by decide) Nat.toDigits_ne_nil hwhole,
    readDigits_spelled (by decide) hne hfraction, ofDigits_leftpad, hkeep, hlength,
    ofDigits_toDigits (by decide : 1 < 10) (by decide : 10 ≤ 16)]
  rfl

end PacketTrain.Numerals
