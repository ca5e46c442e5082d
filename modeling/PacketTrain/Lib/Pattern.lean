import Mathlib.Data.List.TakeWhile
import PacketTrain.Lib.Lines

/-!
# Patterns

Regular expressions as a backtracking matcher runs them. A pattern is tried at the front of a text and
gives its matches in the order in which the matcher finds them, each with what it captured and the text
that is left. A repeated class takes as many characters as it can, and then fewer.
-/

namespace PacketTrain

open Lines

def Pattern (α : Type) : Type := Text → List (α × Text)

namespace Pattern

instance : Monad Pattern where
  pure a := fun text => [(a, text)]
  bind pattern next := fun text => (pattern text).flatMap fun found => next found.1 found.2

/-- A word. -/
def literal (word : Text) : Pattern Unit := fun text =>
  if word <+: text then [((), text.drop word.length)] else []

/-- Characters of a class, at least `least` of them and at most `most`. -/
def many (test : Char → Bool) (least : ℕ) (most : Option ℕ := none) : Pattern Text := fun text =>
  let longest := most.elim (text.takeWhile test).length (min (text.takeWhile test).length)
  (List.range' least (longest + 1 - least)).reverse.map fun n => (text.take n, text.drop n)

/-- The pattern, or nothing. -/
def opt {α : Type} (pattern : Pattern α) : Pattern (Option α) := fun text =>
  (pattern text).map (fun found => (some found.1, found.2)) ++ [(none, text)]

/-- `$`: the end of the text, or of its only line. -/
def ending : Pattern Unit := fun text => if text = [] ∨ text = ['\n'] then [((), text)] else []

/-- `$` of a pattern with many lines: the end of the text or of a line. -/
def lineEnding : Pattern Unit := fun text =>
  if text = [] ∨ text.head? = some '\n' then [((), text)] else []

/-- The first line on which a match begins: the text before it, and the text from it on. -/
def searchFrom {α : Type} (pattern : Pattern α) (atStart : Bool) (text : Text) :
    Option (Text × Text) :=
  if atStart && !(pattern text).isEmpty then some ([], text)
  else
    match text with
    | [] => none
    | c :: rest => (pattern.searchFrom (c = '\n') rest).map fun parts => (c :: parts.1, parts.2)

/-- `re.search` of a pattern that begins with `^` and has many lines. -/
def searchLines {α : Type} (pattern : Pattern α) (text : Text) : Option (Text × Text) :=
  pattern.searchFrom true text

/-- What the first match captured. -/
def first {α : Type} (pattern : Pattern α) (text : Text) : Option α :=
  (pattern text).head?.map Prod.fst

/-- A pattern that begins with a word does not match a text that begins otherwise. -/
theorem first_literal_bind {α : Type} {word text : Text} (h : ¬word <+: text) (next : Unit → Pattern α) :
    first (literal word >>= next) text = none := by
  have hnone : literal word text = [] := if_neg h
  have hbind : (literal word >>= next) text = (literal word text).flatMap fun found =>
      next found.1 found.2 := rfl
  rw [first, hbind, hnone, List.flatMap_nil, List.head?_nil, Option.map_none]

/-! ## What a pattern finds -/

theorem mem_bind {α β : Type} {pattern : Pattern α} {next : α → Pattern β} {text : Text}
    {found : β × Text} : found ∈ (pattern >>= next) text ↔
      ∃ a rest, (a, rest) ∈ pattern text ∧ found ∈ next a rest := by
  have hbind : (pattern >>= next) text = (pattern text).flatMap fun found =>
      next found.1 found.2 := rfl
  rw [hbind, List.mem_flatMap]
  constructor
  · rintro ⟨⟨a, rest⟩, ha, hfound⟩
    exact ⟨a, rest, ha, hfound⟩
  · rintro ⟨a, rest, ha, hfound⟩
    exact ⟨(a, rest), ha, hfound⟩

theorem mem_literal {word text rest : Text} :
    ((), rest) ∈ literal word text ↔ text = word ++ rest := by
  rw [literal]
  split
  · next hstart =>
    rw [List.mem_singleton, Prod.mk.injEq, eq_self, true_and]
    obtain ⟨tail, rfl⟩ := hstart
    rw [List.drop_left, List.append_cancel_left_eq, eq_comm]
  · next hstart =>
    constructor
    · intro h
      cases h
    · rintro rfl
      exact absurd (List.prefix_append _ _) hstart

theorem mem_opt {α : Type} {pattern : Pattern α} {text : Text} {found : Option α × Text} :
    found ∈ opt pattern text ↔
      (∃ a rest, (a, rest) ∈ pattern text ∧ found = (some a, rest)) ∨ found = (none, text) := by
  rw [opt, List.mem_append, List.mem_singleton, List.mem_map]
  refine or_congr_left ⟨?_, ?_⟩
  · rintro ⟨⟨a, rest⟩, ha, rfl⟩
    exact ⟨a, rest, ha, rfl⟩
  · rintro ⟨a, rest, ha, rfl⟩
    exact ⟨(a, rest), ha, rfl⟩

/-- A repeated class takes characters of the class off the front of the text. -/
theorem mem_many {test : Char → Bool} {least : ℕ} {text : Text} {found : Text × Text} :
    found ∈ many test least none text ↔
      text = found.1 ++ found.2 ∧ least ≤ found.1.length ∧ ∀ c ∈ found.1, test c = true := by
  obtain ⟨taken, rest⟩ := found
  rw [many, List.mem_map]
  dsimp only
  constructor
  · rintro ⟨n, hn, heq⟩
    cases heq
    have hn := List.mem_range'_1.mp (List.mem_reverse.mp hn)
    rw [Option.elim_none] at hn
    have hlongest : n ≤ (text.takeWhile test).length := by omega
    have hle : n ≤ text.length := Nat.le_trans hlongest (List.takeWhile_prefix test).length_le
    have htake : text.take n = (text.takeWhile test).take n := by
      conv_rhs => rw [List.prefix_iff_eq_take.mp (List.takeWhile_prefix test)]
      rw [List.take_take, Nat.min_eq_left hlongest]
    refine ⟨(List.take_append_drop n text).symm, ?_, fun c hc => ?_⟩
    · rw [List.length_take, Nat.min_eq_left hle]
      exact hn.1
    · rw [htake] at hc
      exact List.mem_takeWhile_imp (List.mem_of_mem_take hc)
  · rintro ⟨rfl, hleast, htest⟩
    have hlongest : taken.length ≤ ((taken ++ rest).takeWhile test).length := by
      rw [List.takeWhile_append_of_pos htest, List.length_append]
      exact Nat.le_add_right _ _
    refine ⟨taken.length, ?_, by rw [List.take_left, List.drop_left]⟩
    rw [List.mem_reverse, List.mem_range'_1, Option.elim_none]
    omega

/-! ## What a pattern leaves -/

/-- What a pattern leaves is the end of the text. -/
def Consumes {α : Type} (pattern : Pattern α) : Prop :=
  ∀ text found, found ∈ pattern text → found.2 <:+ text

theorem consumes_literal (word : Text) : Consumes (literal word) := by
  rintro text ⟨⟨⟩, rest⟩ h
  rw [mem_literal.mp h]
  exact List.suffix_append word rest

theorem consumes_many (test : Char → Bool) (least : ℕ) (most : Option ℕ) :
    Consumes (many test least most) := by
  intro text found h
  obtain ⟨n, -, rfl⟩ := List.mem_map.mp h
  exact List.drop_suffix n text

theorem Consumes.opt {α : Type} {pattern : Pattern α} (h : Consumes pattern) : Consumes (opt pattern) := by
  intro text found hfound
  rcases mem_opt.mp hfound with ⟨a, rest, ha, rfl⟩ | rfl
  · exact h text (a, rest) ha
  · exact List.suffix_refl text

theorem consumes_pure {α : Type} (a : α) : Consumes (pure a : Pattern α) := by
  intro text found h
  obtain rfl := List.mem_singleton.mp h
  exact List.suffix_refl text

theorem Consumes.bind {α β : Type} {pattern : Pattern α} {next : α → Pattern β} (h : Consumes pattern)
    (hnext : ∀ a, Consumes (next a)) : Consumes (pattern >>= next) := by
  intro text found hfound
  obtain ⟨a, rest, ha, hfound⟩ := mem_bind.mp hfound
  exact (hnext a rest found hfound).trans (h text (a, rest) ha)

/-- A pattern that goes on with a class has a character of the class in the text. -/
theorem exists_mem_of_many {α β : Type} {pattern : Pattern α} {next : α → Text → Pattern β}
    {test : Char → Bool} {text : Text} {found : β × Text} (h : Consumes pattern)
    (hfound : found ∈ (pattern >>= fun a => many test 1 >>= next a) text) :
    ∃ c ∈ text, test c = true := by
  obtain ⟨a, rest, ha, hfound⟩ := mem_bind.mp hfound
  obtain ⟨taken, rest', htaken, -⟩ := mem_bind.mp hfound
  obtain ⟨hsplit, hleast, htest⟩ := mem_many.mp htaken
  obtain ⟨c, hc⟩ := List.exists_mem_of_length_pos hleast
  have hmem : c ∈ rest := hsplit ▸ List.mem_append_left _ hc
  exact ⟨c, (h text (a, rest) ha).subset hmem, htest c hc⟩

/-! ## Searching line by line -/

theorem searchFrom_true_of_empty {α : Type} {pattern : Pattern α} {text : Text}
    (h : pattern text = []) : pattern.searchFrom true text = pattern.searchFrom false text := by
  rw [searchFrom.eq_def, searchFrom.eq_def]
  simp only [h, List.isEmpty_nil, Bool.not_true, Bool.and_false]

/-- Within a line nothing is tried. -/
theorem searchFrom_false_line {α : Type} (pattern : Pattern α) {line : Text} (h : '\n' ∉ line)
    (rest : Text) : pattern.searchFrom false (line ++ '\n' :: rest) =
      (pattern.searchLines rest).map fun parts => (line ++ '\n' :: parts.1, parts.2) := by
  induction line with
  | nil =>
    rw [List.nil_append, searchFrom, Bool.false_and, if_neg Bool.false_ne_true, searchLines]
    rfl
  | cons c line ih =>
    have hc : decide (c = '\n') = false := decide_eq_false fun heq => h (heq ▸ List.mem_cons_self)
    rw [List.cons_append, searchFrom, Bool.false_and, if_neg Bool.false_ne_true, hc,
      ih fun hmem => h (List.mem_cons_of_mem _ hmem), Option.map_map]
    rfl

/-- Lines on which no match begins are passed over. -/
theorem searchLines_printLines {α : Type} {pattern : Pattern α} {lines : List Text}
    (h : ∀ line ∈ lines, '\n' ∉ line ∧ ∀ rest, pattern (line ++ '\n' :: rest) = []) (text : Text) :
    pattern.searchLines (printLines lines ++ text) =
      (pattern.searchLines text).map fun parts => (printLines lines ++ parts.1, parts.2) := by
  induction lines with
  | nil => simp [printLines]
  | cons line lines ih =>
    obtain ⟨hbreak, hnone⟩ := h line List.mem_cons_self
    have hprint : printLines (line :: lines) ++ text = line ++ '\n' :: (printLines lines ++ text) := by
      simp [printLines]
    rw [hprint, searchLines, searchFrom_true_of_empty (hnone _), searchFrom_false_line pattern hbreak,
      ih fun l hl => h l (List.mem_cons_of_mem _ hl), Option.map_map]
    congr 1
    funext parts
    simp [printLines]

/-- A match at the front is the first. -/
theorem searchLines_front {α : Type} {pattern : Pattern α} {text : Text} (h : pattern text ≠ []) :
    pattern.searchLines text = some ([], text) := by
  have hempty : (pattern text).isEmpty = false := List.isEmpty_eq_false_iff.mpr h
  rw [searchLines, searchFrom.eq_def, hempty]
  rfl

end Pattern

end PacketTrain
