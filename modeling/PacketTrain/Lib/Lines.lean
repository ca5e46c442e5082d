import Mathlib.Data.Int.Notation
import Mathlib.Data.List.Basic
import Mathlib.Data.Nat.Notation

/-!
# Lines of fields

Text that one program prints and another reads: lines, fields with a separator between them, and
integers in decimal. Each is read back as it was printed (`splitLines_printLines`,
`List.splitOn_intercalate`, `readInt_decimal`) when nothing in it is taken for a separator.
-/

namespace PacketTrain.Lines

abbrev Text := List Char

/-! ## Lines -/

/-- The characters at which `splitlines` ends a line. -/
def lineBreaks : List Char :=
  ['\n', '\r', Char.ofNat 0x0b, Char.ofNat 0x0c, Char.ofNat 0x1c, Char.ofNat 0x1d, Char.ofNat 0x1e,
    Char.ofNat 0x85, Char.ofNat 0x2028, Char.ofNat 0x2029]

/-- Lines, each with its newline. -/
def printLines (lines : List Text) : Text := lines.flatMap (· ++ ['\n'])

/-- The lines of a text, after a part of the first. -/
def splitLinesFrom (line : Text) : Text → List Text
  | [] => if line.isEmpty then [] else [line]
  | c :: rest =>
    if c ∈ lineBreaks then line :: splitLinesFrom [] rest else splitLinesFrom (line ++ [c]) rest

/-- `splitlines()`, of text in which a carriage return before a newline has been dropped, as the text
mode of a pipe does. -/
def splitLines (text : Text) : List Text := splitLinesFrom [] text

theorem splitLinesFrom_append (line : Text) {l : Text} (h : ∀ c ∈ l, c ∉ lineBreaks) (rest : Text) :
    splitLinesFrom line (l ++ rest) = splitLinesFrom (line ++ l) rest := by
  induction l generalizing line with
  | nil => rw [List.nil_append, List.append_nil]
  | cons c l ih =>
    rw [List.cons_append, splitLinesFrom, if_neg (h c List.mem_cons_self),
      ih _ fun d hd => h d (List.mem_cons_of_mem _ hd), List.append_assoc, List.singleton_append]

/-- Lines without a line break are read back as they were printed. -/
theorem splitLines_printLines {lines : List Text} (h : ∀ line ∈ lines, ∀ c ∈ line, c ∉ lineBreaks) :
    splitLines (printLines lines) = lines := by
  rw [splitLines, printLines]
  induction lines with
  | nil => rfl
  | cons line lines ih =>
    have hbreak : '\n' ∈ lineBreaks := List.mem_cons_self
    rw [List.flatMap_cons, List.append_assoc, splitLinesFrom_append [] (h line List.mem_cons_self),
      List.nil_append, List.singleton_append, splitLinesFrom, if_pos hbreak,
      ih fun l hl => h l (List.mem_cons_of_mem _ hl)]

/-! ## Integers -/

/-- An integer in decimal. -/
def decimal : ℤ → Text
  | .ofNat n => Nat.toDigits 10 n
  | .negSucc n => '-' :: Nat.toDigits 10 (n + 1)

/-- A number in decimal; some digits and nothing else. -/
def readNat (text : Text) : Option ℕ :=
  if text ≠ [] ∧ text.all Char.isDigit then some (Nat.ofDigitChars 10 text 0) else none

/-- `int(text)`, of the spellings that `decimal` has. -/
def readInt (text : Text) : Option ℤ :=
  if text.head? = some '-' then (readNat text.tail).map fun n => -Int.ofNat n
  else (readNat text).map Int.ofNat

theorem isDigit_of_mem_toDigits {n : ℕ} {c : Char} (h : c ∈ Nat.toDigits 10 n) : c.isDigit = true :=
  Nat.isDigit_of_mem_toDigits (by decide) (by decide) h

theorem readNat_toDigits (n : ℕ) : readNat (Nat.toDigits 10 n) = some n := by
  have hdigits : (Nat.toDigits 10 n).all Char.isDigit = true :=
    List.all_eq_true.mpr fun c hc => isDigit_of_mem_toDigits hc
  rw [readNat, if_pos ⟨Nat.toDigits_ne_nil, hdigits⟩, Nat.ofDigitChars_ten_toDigits]

/-- An integer is read back as it was printed. -/
theorem readInt_decimal (n : ℤ) : readInt (decimal n) = some n := by
  cases n with
  | ofNat n =>
    have hhead : (decimal (.ofNat n)).head? ≠ some '-' := by
      intro hminus
      have hdigit := isDigit_of_mem_toDigits (List.mem_of_head? hminus)
      cases hdigit
    rw [readInt, if_neg hhead, decimal, readNat_toDigits]
    rfl
  | negSucc n =>
    rw [decimal, readInt, List.head?_cons, if_pos rfl, List.tail_cons, readNat_toDigits]
    rfl

/-- What an integer is printed with. -/
theorem mem_decimal {n : ℤ} {c : Char} (h : c ∈ decimal n) : c.isDigit = true ∨ c = '-' := by
  cases n with
  | ofNat n => exact .inl (isDigit_of_mem_toDigits h)
  | negSucc n =>
    rcases List.mem_cons.mp h with rfl | h
    · exact .inr rfl
    · exact .inl (isDigit_of_mem_toDigits h)

/-- What a line of fields is printed with. -/
theorem mem_intercalate {c sep : Char} {fields : List Text} (h : c ∈ [sep].intercalate fields) :
    c = sep ∨ ∃ field ∈ fields, c ∈ field := by
  induction fields with
  | nil => cases h
  | cons field fields ih =>
    cases fields with
    | nil =>
      rw [List.intercalate_singleton] at h
      exact .inr ⟨field, List.mem_cons_self, h⟩
    | cons next rest =>
      rw [List.intercalate_cons_cons, List.mem_append, List.mem_append, List.mem_singleton] at h
      rcases h with (h | h) | h
      · exact .inr ⟨field, List.mem_cons_self, h⟩
      · exact .inl h
      · rcases ih h with h | ⟨other, hother, h⟩
        · exact .inl h
        · exact .inr ⟨other, List.mem_cons_of_mem _ hother, h⟩

/-- The characters that end a field or a line. -/
def separators : List Char := '\t' :: lineBreaks

theorem not_mem_separators {n : ℤ} {c : Char} (h : c ∈ decimal n) : c ∉ separators := by
  intro hmem
  have hplain : (separators.all fun c => !c.isDigit && c != '-') = true := rfl
  have hchar := List.all_eq_true.mp hplain c hmem
  rcases mem_decimal h with h | rfl
  · rw [h] at hchar
    cases hchar
  · cases hchar

end PacketTrain.Lines
