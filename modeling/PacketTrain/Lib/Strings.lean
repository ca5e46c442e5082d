import Mathlib.Data.List.DropRight
import PacketTrain.Lib.Bytes
import PacketTrain.Lib.Lines

/-!
# Strings

What a reader of text does with it before it looks at a word: decode bytes by Latin-1, cut the text at the
first separator, split it into lines, strip the white space at its ends. What is cut is the text again
(`cut_eq_some`), what is stripped stays so (`strip_strip`), and a text is read back when nothing in it is
taken for a separator (`cut_joined`, `splitlines_joined`).
-/

namespace PacketTrain.Strings

open Lines

/-! ## Latin-1 -/

/-- `data.decode("latin-1")`. -/
def latin1 (data : Bytes) : Text := data.map fun b => Char.ofNat b.toNat

/-- `text.encode("latin-1")`; `none` is the encoding error. -/
def encodeLatin1 (text : Text) : Option Bytes :=
  text.mapM fun c => if c.toNat < 256 then some (UInt8.ofNat c.toNat) else none

theorem toNat_latin1 (b : UInt8) : (Char.ofNat b.toNat).toNat = b.toNat := by
  have hvalid : b.toNat.isValidChar := .inl (b.toNat_lt.trans (by decide))
  rw [Char.ofNat, dif_pos hvalid]
  rfl

/-- Bytes are read back as they were decoded. -/
theorem encodeLatin1_latin1 (data : Bytes) : encodeLatin1 (latin1 data) = some data := by
  induction data with
  | nil => rfl
  | cons b data ih =>
    have hb : b.toNat < 256 := b.toNat_lt
    rw [encodeLatin1, latin1] at ih
    rw [encodeLatin1, latin1, List.map_cons, List.mapM_cons, toNat_latin1, if_pos hb,
      UInt8.ofNat_toNat, ih]
    rfl

theorem length_encodeLatin1 {text : Text} {data : Bytes} (h : encodeLatin1 text = some data) :
    data.length = text.length := by
  induction text generalizing data with
  | nil =>
    cases h
    rfl
  | cons c text ih =>
    rw [encodeLatin1, List.mapM_cons] at h
    obtain ⟨b, -, h⟩ := Option.bind_eq_some_iff.mp h
    obtain ⟨rest, hrest, h⟩ := Option.bind_eq_some_iff.mp h
    cases h
    rw [List.length_cons, List.length_cons, ih hrest]

/-! ## Cutting -/

/-- `text.split(sep, 1)`, of a text with a separator in it. -/
def cut (sep : Text) (text : Text) : Option (Text × Text) :=
  if sep <+: text then some ([], text.drop sep.length)
  else
    match text with
    | [] => none
    | c :: rest => (cut sep rest).map fun parts => (c :: parts.1, parts.2)

theorem cut_prefix (sep text : Text) : cut sep (sep ++ text) = some ([], text) := by
  rw [cut.eq_def, if_pos (List.prefix_append _ _), List.drop_left]

/-- The two parts and the separator between them. -/
theorem cut_eq_some {sep text head tail : Text} (h : cut sep text = some (head, tail)) :
    text = head ++ sep ++ tail := by
  induction text generalizing head with
  | nil =>
    rw [cut] at h
    split at h
    · next hstart =>
      obtain rfl := List.prefix_nil.mp hstart
      cases h
      rfl
    · cases h
  | cons c text ih =>
    rw [cut] at h
    split at h
    · next hstart =>
      obtain ⟨rest, hrest⟩ := hstart
      cases h
      rw [← hrest, List.drop_left, List.nil_append]
    · obtain ⟨parts, hparts, heq⟩ := Option.map_eq_some_iff.mp h
      cases heq
      rw [ih hparts, List.cons_append, List.cons_append]

theorem cut_eq_none {sep text : Text} : cut sep text = none ↔ ¬sep <:+: text := by
  induction text with
  | nil =>
    rw [cut]
    split <;> simp_all
  | cons c text ih =>
    rw [cut, List.infix_cons_iff, not_or]
    split
    · next hstart => simp [hstart]
    · next hstart => simp [hstart, ih]

/-- A separator does not begin where its first character is not. -/
theorem cut_append {s : Char} {sep word : Text} (hword : s ∉ word) (text : Text) :
    cut (s :: sep) (word ++ text) = (cut (s :: sep) text).map fun parts => (word ++ parts.1, parts.2) := by
  induction word with
  | nil => simp
  | cons c word ih =>
    have hne : ¬s :: sep <+: c :: (word ++ text) := by
      intro hstart
      exact hword (List.mem_cons.mpr (.inl (List.cons_prefix_cons.mp hstart).1))
    rw [List.cons_append, cut, if_neg hne, ih fun h => hword (List.mem_cons_of_mem _ h), Option.map_map]
    rfl

/-! ## Stripping -/

/-- The characters of which `isspace()` is true. -/
def spaces : List Char :=
  [9, 10, 11, 12, 13, 28, 29, 30, 31, 32, 0x85, 0xa0, 0x1680, 0x2000, 0x2001, 0x2002, 0x2003, 0x2004,
    0x2005, 0x2006, 0x2007, 0x2008, 0x2009, 0x200a, 0x2028, 0x2029, 0x202f, 0x205f, 0x3000].map Char.ofNat

/-- `c.isspace()`. -/
def isSpace (c : Char) : Bool := c ∈ spaces

/-- `text.strip()`. -/
def strip (text : Text) : Text := (text.dropWhile isSpace).rdropWhile isSpace

theorem strip_sublist (text : Text) : (strip text).Sublist text :=
  (List.rdropWhile_prefix _ _).sublist.trans (List.dropWhile_sublist _)

theorem mem_strip {c : Char} {text : Text} (h : c ∈ strip text) : c ∈ text :=
  (List.dropWhile_sublist _).mem ((List.rdropWhile_prefix _ _).subset h)

/-- A stripped text begins with something else, -/
theorem head?_strip (text : Text) {c : Char} (h : (strip text).head? = some c) : isSpace c = false := by
  obtain ⟨tail, htail⟩ := List.rdropWhile_prefix isSpace (text.dropWhile isSpace)
  have hhead : (text.dropWhile isSpace).head? = some c := by
    rw [← htail, List.head?_append, ← strip, h]
    rfl
  have hspace := List.head?_dropWhile_not isSpace text
  rw [hhead] at hspace
  exact hspace

/-- and ends with something else. -/
theorem getLast?_strip (text : Text) {c : Char} (h : (strip text).getLast? = some c) :
    isSpace c = false := by
  have hspace := List.head?_dropWhile_not isSpace (text.dropWhile isSpace).reverse
  rw [strip, List.rdropWhile, List.getLast?_reverse] at h
  rw [h] at hspace
  exact hspace

/-- A text that is stripped stays as it is. -/
theorem strip_strip (text : Text) : strip (strip text) = strip text := by
  have hfront : (strip text).dropWhile isSpace = strip text := by
    cases hstrip : strip text with
    | nil => rfl
    | cons c rest =>
      have hspace : isSpace c = false := head?_strip text (by rw [hstrip]; rfl)
      exact List.dropWhile_cons_of_neg (by rw [hspace]; exact Bool.false_ne_true)
  rw [strip, hfront, strip, List.rdropWhile_idempotent]

/-- White space only before and after the rest of a text. -/
def SpacesAtEnds (text : Text) : Prop := ∀ x y z, [x, y, z].Sublist text →
  isSpace x = false → isSpace z = false → isSpace y = false

/-- Such a text has none of it left in any part that is stripped. -/
theorem noSpace_strip {text line : Text} (htext : SpacesAtEnds text) (hline : line.Sublist text) :
    ∀ c ∈ strip line, isSpace c = false := by
  intro c hc
  obtain ⟨front, back, hsplit⟩ := List.append_of_mem hc
  cases front with
  | nil => exact head?_strip line (by rw [hsplit]; rfl)
  | cons x front =>
    cases hback : back.getLast? with
    | none =>
      rw [List.getLast?_eq_none_iff.mp hback] at hsplit
      exact getLast?_strip line (by rw [hsplit, List.getLast?_append]; rfl)
    | some z =>
      have hx : isSpace x = false := head?_strip line (by rw [hsplit]; rfl)
      have hz : isSpace z = false :=
        getLast?_strip line (by rw [hsplit, List.getLast?_append, List.getLast?_cons, hback]; rfl)
      refine htext x c z (List.Sublist.trans ?_ ((strip_sublist line).trans hline)) hx hz
      obtain ⟨init, rfl⟩ := List.getLast?_eq_some_iff.mp hback
      have hfirst : [x].Sublist (x :: front) := List.singleton_sublist.mpr List.mem_cons_self
      have hlast : [c, z].Sublist (c :: (init ++ [z])) :=
        (List.sublist_append_right init [z]).cons_cons c
      rw [hsplit]
      exact hfirst.append hlast

/-- White space before a text is stripped off. -/
theorem strip_append {pad : Text} (hpad : ∀ c ∈ pad, isSpace c = true) (text : Text) :
    strip (pad ++ text) = strip text := by
  rw [strip, List.dropWhile_append_of_pos hpad, strip]

/-- What is at the ends is taken off, when there is none of it between. -/
theorem trim_append {α : Type} {p : α → Bool} {before word after : List α}
    (hbefore : ∀ a ∈ before, p a = true) (hafter : ∀ a ∈ after, p a = true)
    (hword : ∀ a ∈ word, p a = false) :
    ((before ++ word ++ after).dropWhile p).rdropWhile p = word := by
  have hfront : ∀ l : List α, (∀ a ∈ l, p a = false) → l.dropWhile p = l := by
    intro l hl
    cases l with
    | nil => rfl
    | cons a l => exact List.dropWhile_cons_of_neg (by simp [hl a List.mem_cons_self])
  have hback : (word ++ after).rdropWhile p = word := by
    rw [List.rdropWhile, List.reverse_append, List.dropWhile_append_of_pos (by simpa using hafter),
      hfront _ (by simpa using hword), List.reverse_reverse]
  rw [List.append_assoc, List.dropWhile_append_of_pos hbefore]
  cases word with
  | nil =>
    have hnil : after.dropWhile p = [] := List.dropWhile_eq_nil_iff.mpr hafter
    rw [List.nil_append, hnil, List.rdropWhile_nil]
  | cons a word =>
    rw [List.cons_append, List.dropWhile_cons_of_neg (by simp [hword a List.mem_cons_self]),
      ← List.cons_append, hback]

theorem strip_ne_nil {c : Char} {text : Text} (hmem : c ∈ text) (hc : isSpace c = false) :
    strip text ≠ [] := by
  intro hnil
  rw [strip, List.rdropWhile_eq_nil_iff] at hnil
  rw [← List.takeWhile_append_dropWhile (p := isSpace) (l := text)] at hmem
  rcases List.mem_append.mp hmem with hmem | hmem
  · rw [List.mem_takeWhile_imp hmem] at hc
    cases hc
  · rw [hnil c hmem] at hc
    cases hc

/-! ## Lines -/

/-- A carriage return before a newline is dropped. -/
def dropCr : Text → Text
  | [] => []
  | [c] => [c]
  | c :: d :: rest => if c = '\r' ∧ d = '\n' then dropCr (d :: rest) else c :: dropCr (d :: rest)

/-- `text.splitlines()`: a carriage return and a newline after it end one line. -/
def splitlines (text : Text) : List Text := splitLines (dropCr text)

theorem not_mem_of_mem_splitLinesFrom {line text : Text} (hline : ∀ c ∈ line, c ∉ lineBreaks) :
    ∀ l ∈ splitLinesFrom line text, ∀ c ∈ l, c ∉ lineBreaks := by
  induction text generalizing line with
  | nil =>
    intro l hl
    rw [splitLinesFrom] at hl
    split at hl
    · cases hl
    · rwa [List.mem_singleton.mp hl]
  | cons c text ih =>
    intro l hl
    rw [splitLinesFrom] at hl
    split at hl
    · rcases List.mem_cons.mp hl with rfl | hl
      · exact hline
      · exact ih (List.forall_mem_nil _) l hl
    · next hc =>
      refine ih ?_ l hl
      intro d hd
      rcases List.mem_append.mp hd with hd | hd
      · exact hline d hd
      · rwa [List.mem_singleton.mp hd]

/-- No line has a line break in it. -/
theorem not_mem_of_mem_splitlines {text line : Text} (h : line ∈ splitlines text) {c : Char}
    (hc : c ∈ line) : c ∉ lineBreaks :=
  not_mem_of_mem_splitLinesFrom (List.forall_mem_nil _) line h c hc

theorem dropCr_sublist (text : Text) : (dropCr text).Sublist text := by
  induction text using dropCr.induct with
  | case1 => exact .slnil
  | case2 c => exact .refl _
  | case3 c d rest h ih =>
    rw [dropCr, if_pos h]
    exact ih.trans (List.sublist_cons_self _ _)
  | case4 c d rest h ih =>
    rw [dropCr, if_neg h]
    exact ih.cons_cons c

theorem sublist_of_mem_splitLinesFrom {line text l : Text} (h : l ∈ splitLinesFrom line text) :
    l.Sublist (line ++ text) := by
  induction text generalizing line with
  | nil =>
    rw [splitLinesFrom] at h
    split at h
    · cases h
    · rw [List.mem_singleton.mp h, List.append_nil]
  | cons c text ih =>
    rw [splitLinesFrom] at h
    split at h
    · rcases List.mem_cons.mp h with rfl | h
      · exact List.sublist_append_left _ _
      · have hrest := ih h
        rw [List.nil_append] at hrest
        exact (hrest.trans (List.sublist_cons_self _ _)).trans (List.sublist_append_right _ _)
    · have hrest := ih h
      rwa [List.append_assoc, List.singleton_append] at hrest

/-- The characters of a line stand in the text, in the order of the line. -/
theorem sublist_of_mem_splitlines {text line : Text} (h : line ∈ splitlines text) : line.Sublist text :=
  (sublist_of_mem_splitLinesFrom h).trans (dropCr_sublist text)

/-! ## Joined lines -/

/-- How the lines of a text end. -/
inductive LineEnd
  | crlf
  | lf
deriving DecidableEq, Repr

def LineEnd.text : LineEnd → Text
  | .crlf => ['\r', '\n']
  | .lf => ['\n']

/-- Lines with something in them, and no line break. -/
def Unbroken (lines : List Text) : Prop := ∀ line ∈ lines, line ≠ [] ∧ ∀ c ∈ line, c ∉ lineBreaks

theorem dropCr_cons {c : Char} (hc : c ≠ '\r') (text : Text) : dropCr (c :: text) = c :: dropCr text := by
  cases text with
  | nil => rfl
  | cons d rest => rw [dropCr, if_neg fun h => hc h.1]

theorem dropCr_append {word : Text} (hword : '\r' ∉ word) (text : Text) :
    dropCr (word ++ text) = word ++ dropCr text := by
  induction word with
  | nil => rfl
  | cons c word ih =>
    have hc : c ≠ '\r' := fun h => hword (h ▸ List.mem_cons_self)
    rw [List.cons_append, dropCr_cons hc, ih fun h => hword (List.mem_cons_of_mem _ h),
      List.cons_append]

theorem dropCr_lineEnd (eol : LineEnd) (text : Text) :
    dropCr (eol.text ++ text) = '\n' :: dropCr text := by
  cases eol with
  | crlf =>
    have hnewline : dropCr ('\n' :: text) = '\n' :: dropCr text := dropCr_cons (by decide) text
    rw [LineEnd.text, List.cons_append, List.cons_append, List.nil_append, dropCr, if_pos ⟨rfl, rfl⟩,
      hnewline]
  | lf => exact dropCr_cons (by decide) text

theorem cr_notMem {line : Text} (h : ∀ c ∈ line, c ∉ lineBreaks) : '\r' ∉ line :=
  fun hmem => h _ hmem (by decide)

/-- The lines of a text are those it was joined of. -/
theorem splitlines_joined (eol : LineEnd) {lines : List Text} (h : Unbroken lines) :
    splitlines (eol.text.intercalate lines) = lines := by
  rw [splitlines, splitLines]
  induction lines with
  | nil => rfl
  | cons line lines ih =>
    obtain ⟨hne, hbreaks⟩ := h line List.mem_cons_self
    cases lines with
    | nil =>
      have hline : dropCr line = line := by
        have happend := dropCr_append (cr_notMem hbreaks) []
        rwa [List.append_nil, dropCr, List.append_nil] at happend
      have hsplit := splitLinesFrom_append [] hbreaks []
      rw [List.append_nil, List.nil_append] at hsplit
      rw [List.intercalate_singleton, hline, hsplit, splitLinesFrom, if_neg]
      rwa [List.isEmpty_iff]
    | cons next rest =>
      have hnewline : '\n' ∈ lineBreaks := List.mem_cons_self
      rw [List.intercalate_cons_cons, List.append_assoc, dropCr_append (cr_notMem hbreaks),
        dropCr_lineEnd, splitLinesFrom_append [] hbreaks, List.nil_append, splitLinesFrom,
        if_pos hnewline, ih fun l hl => h l (List.mem_cons_of_mem _ hl)]

/-- A line end with no other after it is not a blank line. -/
theorem cut_lineEnd {e c : Char} {es : Text} (hes : e ∉ es) (hc : c ≠ e) (text : Text) :
    cut (e :: (es ++ e :: es)) (e :: es ++ c :: text) =
      (cut (e :: (es ++ e :: es)) (c :: text)).map fun parts => (e :: es ++ parts.1, parts.2) := by
  have hstart : ¬e :: (es ++ e :: es) <+: e :: (es ++ c :: text) := by
    intro hstart
    have htail := (List.prefix_append_right_inj es).mp (List.cons_prefix_cons.mp hstart).2
    exact hc (List.cons_prefix_cons.mp htail).1.symm
  rw [List.cons_append, cut, if_neg hstart, cut_append hes, Option.map_map]
  rfl

/-- The first blank line is the one after the lines. -/
theorem cut_joined {e : Char} {es : Text} (hes : e ∉ es) {lines : List Text} (hlines : lines ≠ [])
    (h : ∀ line ∈ lines, line ≠ [] ∧ e ∉ line) (tail : Text) :
    cut (e :: (es ++ e :: es)) (lines.flatMap (· ++ e :: es) ++ e :: es ++ tail) =
      some ((e :: es).intercalate lines, tail) := by
  induction lines with
  | nil => exact absurd rfl hlines
  | cons line lines ih =>
    obtain ⟨-, hline⟩ := h line List.mem_cons_self
    cases lines with
    | nil =>
      have hblank : [line].flatMap (· ++ e :: es) ++ e :: es ++ tail =
          line ++ (e :: (es ++ e :: es) ++ tail) := by simp
      rw [hblank, cut_append hline, cut_prefix, List.intercalate_singleton, Option.map_some,
        List.append_nil]
    | cons next rest =>
      obtain ⟨hne, hnext⟩ := h next (List.mem_cons_of_mem _ List.mem_cons_self)
      have hrest := ih (List.cons_ne_nil _ _) fun l hl => h l (List.mem_cons_of_mem _ hl)
      obtain ⟨c, text, htext⟩ := List.exists_cons_of_ne_nil
        (List.append_ne_nil_of_left_ne_nil (List.append_ne_nil_of_left_ne_nil hne (e :: es))
          (rest.flatMap (· ++ e :: es) ++ e :: es ++ tail))
      have hc : c ≠ e := by
        obtain ⟨d, word, rfl⟩ := List.exists_cons_of_ne_nil hne
        obtain ⟨rfl, -⟩ := List.cons.inj htext
        exact fun heq => hnext (heq ▸ List.mem_cons_self)
      have hnext : (next :: rest).flatMap (· ++ e :: es) ++ e :: es ++ tail = c :: text := by
        rw [← htext, List.flatMap_cons]
        simp only [List.append_assoc]
      have hlines : (line :: next :: rest).flatMap (· ++ e :: es) ++ e :: es ++ tail =
          line ++ (e :: es ++ c :: text) := by
        rw [← hnext, List.flatMap_cons]
        simp only [List.append_assoc]
      rw [hnext] at hrest
      rw [hlines, cut_append hline, cut_lineEnd hes hc, hrest, List.intercalate_cons_cons]
      simp only [Option.map_some, List.append_assoc]

end PacketTrain.Strings
