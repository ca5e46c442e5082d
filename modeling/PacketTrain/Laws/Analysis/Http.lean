import PacketTrain.Analysis.Http

/-!
# HTTP messages read back

`parse_http` reads a message back as it was printed when nothing in it is taken for a line end, for white
space or for a blank line that is none. Latin-1 has more line ends than CR and LF and more white space than
spaces and tabs, `splitlines` and `strip` know all of them, and CRLF twice is looked for before LF twice.
`parseHttp_print_iff` says that these are the only ways to go wrong.
-/

namespace PacketTrain.Analysis

open Lines Strings

/-! ## Printing -/

/-- A header, with the white space after its colon. -/
structure HeaderField where
  name : Bytes
  pad : Bytes
  value : Bytes
deriving DecidableEq, Repr

/-- `LineEnd.text` in bytes. -/
def lineEndBytes : LineEnd → Bytes
  | .crlf => [13, 10]
  | .lf => [10]

def HeaderField.line (field : HeaderField) : Bytes := field.name ++ 58 :: (field.pad ++ field.value)

/-- A start line and headers, each with its line end, a blank line, and a body. -/
def printHttp (eol : LineEnd) (start : Bytes) (fields : List HeaderField) (body : Bytes) : Bytes :=
  (start :: fields.map HeaderField.line).flatMap (· ++ lineEndBytes eol) ++ lineEndBytes eol ++ body

/-- A string without CR and LF, and without spaces and tabs at its ends. -/
structure PlainField (data : Bytes) : Prop where
  line : 13 ∉ data ∧ 10 ∉ data
  first : ∀ b ∈ data.head?, b ≠ 32 ∧ b ≠ 9
  last : ∀ b ∈ data.getLast?, b ≠ 32 ∧ b ≠ 9

/-- A header as it may be printed. -/
structure HeaderField.Printable (field : HeaderField) : Prop where
  name : PlainField field.name
  colon : 58 ∉ field.name
  value : PlainField field.value
  pad : ∀ b ∈ field.pad, b = 32 ∨ b = 9

/-- The message that is read is the one that was printed. -/
def ReadBack (eol : LineEnd) (start : Bytes) (fields : List HeaderField) (body : Bytes) : Prop :=
  ∃ message, parseHttp (printHttp eol start fields body) = some message ∧
    message.startLine = latin1 start ∧
    message.headers = fields.map (fun field => (latin1 field.name, latin1 field.value)) ∧
    encodeLatin1 message.bodyText = some body

/-- One of the two start-line patterns matches. -/
def Accepted (start : Bytes) : Prop :=
  (requestPattern.first (latin1 start)).isSome = true ∨ (statusPattern.first (latin1 start)).isSome = true

/-! ## What reading keeps -/

/-- A string with no line break of Latin-1 in it and no white space at its ends. -/
structure PlainBytes (data : Bytes) : Prop where
  unbroken : ∀ c ∈ latin1 data, c ∉ lineBreaks
  stripped : strip (latin1 data) = latin1 data

instance : DecidablePred PlainBytes := fun data =>
  decidable_of_iff ((latin1 data).all (· ∉ lineBreaks) = true ∧ strip (latin1 data) = latin1 data)
    ⟨fun h => ⟨fun c hc => of_decide_eq_true (List.all_eq_true.mp h.1 c hc), h.2⟩,
      fun h => ⟨List.all_eq_true.mpr fun c hc => decide_eq_true (h.unbroken c hc), h.stripped⟩⟩

/-- When the head ends its lines by LF there is no CRLF twice in the body. -/
def BlankKept (eol : LineEnd) (body : Bytes) : Prop := eol = .lf → ¬blank .crlf <:+: latin1 body

theorem latin1_append (a b : Bytes) : latin1 (a ++ b) = latin1 a ++ latin1 b := List.map_append

theorem latin1_lineEnd (eol : LineEnd) : latin1 (lineEndBytes eol) = eol.text := by
  cases eol <;> rfl

theorem ofNat_latin1_inj {a b : UInt8} (h : Char.ofNat a.toNat = Char.ofNat b.toNat) : a = b := by
  rw [← UInt8.toNat_inj, ← toNat_latin1 a, h, toNat_latin1]

theorem mem_latin1 {b : UInt8} {data : Bytes} : Char.ofNat b.toNat ∈ latin1 data ↔ b ∈ data := by
  rw [latin1, List.mem_map]
  constructor
  · intro h
    obtain ⟨a, ha, heq⟩ := h
    rwa [← ofNat_latin1_inj heq]
  · intro h
    exact ⟨b, h, rfl⟩

/-- A header line is its name, a colon, and the value after white space. -/
theorem latin1_line (field : HeaderField) :
    latin1 field.line = latin1 field.name ++ ([':'] ++ (latin1 field.pad ++ latin1 field.value)) := by
  have hcolon : latin1 (58 :: (field.pad ++ field.value)) =
      ':' :: (latin1 field.pad ++ latin1 field.value) := by
    rw [← latin1_append]
    rfl
  rw [HeaderField.line, latin1_append, hcolon]
  rfl

/-- The lines of a head. -/
def headLines (start : Bytes) (fields : List HeaderField) : List Text :=
  latin1 start :: fields.map fun field => latin1 field.line

theorem latin1_printHttp (eol : LineEnd) (start : Bytes) (fields : List HeaderField) (body : Bytes) :
    latin1 (printHttp eol start fields body) =
      (headLines start fields).flatMap (· ++ eol.text) ++ eol.text ++ latin1 body := by
  have hlines : latin1 ((start :: fields.map HeaderField.line).flatMap (· ++ lineEndBytes eol)) =
      (headLines start fields).flatMap (· ++ eol.text) := by
    have hlines : headLines start fields = (start :: fields.map HeaderField.line).map latin1 := by
      rw [headLines, List.map_cons, List.map_map]
      rfl
    rw [hlines, List.flatMap_map, latin1, List.map_flatMap]
    congr 1
    funext line
    rw [← latin1_lineEnd, ← latin1_append, latin1]
  rw [printHttp, latin1_append, latin1_append, latin1_lineEnd, hlines]

section

variable {field : HeaderField}

theorem isSpace_pad (h : field.Printable) : ∀ c ∈ latin1 field.pad, isSpace c = true := by
  intro c hc
  obtain ⟨b, hb, rfl⟩ := List.mem_map.mp hc
  rcases h.pad b hb with rfl | rfl <;> decide

theorem pad_unbroken (h : field.Printable) : ∀ c ∈ latin1 field.pad, c ∉ lineBreaks := by
  intro c hc
  obtain ⟨b, hb, rfl⟩ := List.mem_map.mp hc
  rcases h.pad b hb with rfl | rfl <;> decide

/-- A header is read back when its name and value are plain. -/
theorem headerOf_line (h : field.Printable) (hname : PlainBytes field.name)
    (hvalue : PlainBytes field.value) :
    headerOf (latin1 field.line) = some (latin1 field.name, latin1 field.value) := by
  have hcolon : ':' ∉ latin1 field.name := fun hmem => h.colon (mem_latin1.mp hmem)
  have hline : strip (latin1 field.line) ≠ [] := by
    have hmem : ':' ∈ latin1 field.line := by rw [latin1_line]; simp
    exact strip_ne_nil hmem (by decide)
  rw [headerOf, if_neg hline, latin1_line, cut_append hcolon, cut_prefix, Option.map_some,
    Option.map_some, List.append_nil, hname.stripped, strip_append (isSpace_pad h), hvalue.stripped]

/-- What a header is read as has no line break in it, and no white space at its ends. -/
theorem plain_of_headerOf {line : Text} {header : Text × Text} (h : headerOf line = some header)
    (hline : ∀ c ∈ line, c ∉ lineBreaks) :
    ((∀ c ∈ header.1, c ∉ lineBreaks) ∧ strip header.1 = header.1) ∧
      (∀ c ∈ header.2, c ∉ lineBreaks) ∧ strip header.2 = header.2 := by
  rw [headerOf] at h
  split at h
  · cases h
  · obtain ⟨parts, hparts, rfl⟩ := Option.map_eq_some_iff.mp h
    have htext := cut_eq_some hparts
    refine ⟨⟨?_, strip_strip _⟩, ?_, strip_strip _⟩
    · intro c hc
      apply hline
      rw [htext]
      exact List.mem_append_left _ (List.mem_append_left _ (mem_strip hc))
    · intro c hc
      apply hline
      rw [htext]
      exact List.mem_append_right _ (mem_strip hc)

end

theorem isSome_httpStart {line : Text} :
    (httpStart line).isSome = true ↔
      (requestPattern.first line).isSome = true ∨ (statusPattern.first line).isSome = true := by
  rw [httpStart]
  cases requestPattern.first line with
  | some found => simp
  | none => cases statusPattern.first line <;> simp

/-- No pattern matches an empty line. -/
theorem Accepted.ne_nil {start : Bytes} (h : Accepted start) : latin1 start ≠ [] := by
  intro hnil
  rw [Accepted, hnil] at h
  have hnone : (requestPattern.first []).isSome = false ∧ (statusPattern.first []).isSome = false :=
    ⟨rfl, rfl⟩
  rcases h with h | h
  · rw [hnone.1] at h
    cases h
  · rw [hnone.2] at h
    cases h

/-- What `parse_http` makes a message of. -/
theorem parseHttp_eq_some {data : Bytes} {message : HttpMessage} (h : parseHttp data = some message) :
    ∃ line lines, splitlines (splitHeaders (latin1 data)).1 = line :: lines ∧
      message.startLine = strip line ∧ message.headers = lines.filterMap headerOf ∧
        message.bodyText = (splitHeaders (latin1 data)).2 := by
  rw [parseHttp] at h
  split at h
  · cases h
  · next line lines hlines =>
    obtain ⟨start, -, rfl⟩ := Option.map_eq_some_iff.mp h
    exact ⟨line, lines, hlines, rfl, rfl, rfl⟩

theorem parseHttp_of_lines {data : Bytes} {head body line : Text} {lines : List Text}
    (hparts : splitHeaders (latin1 data) = (head, body)) (hlines : splitlines head = line :: lines) :
    parseHttp data = (httpStart (strip line)).map fun start =>
      ⟨start, strip line, lines.filterMap headerOf, body⟩ := by
  simp only [parseHttp, hparts, hlines]

section

variable {eol : LineEnd} {start : Bytes} {fields : List HeaderField} {body : Bytes}

theorem unbroken_headLines (haccepted : Accepted start)
    (hprintable : ∀ field ∈ fields, field.Printable) (hstart : PlainBytes start)
    (hfields : ∀ field ∈ fields, PlainBytes field.name ∧ PlainBytes field.value) :
    Unbroken (headLines start fields) := by
  intro line hline
  rcases List.mem_cons.mp hline with rfl | hline
  · exact ⟨haccepted.ne_nil, hstart.unbroken⟩
  · obtain ⟨field, hfield, rfl⟩ := List.mem_map.mp hline
    obtain ⟨hname, hvalue⟩ := hfields field hfield
    rw [latin1_line]
    refine ⟨List.append_ne_nil_of_right_ne_nil _ (List.cons_ne_nil _ _), ?_⟩
    intro c hc
    rcases List.mem_append.mp hc with hc | hc
    · exact hname.unbroken c hc
    · rcases List.mem_append.mp hc with hc | hc
      · rw [List.mem_singleton.mp hc]
        decide
      · rcases List.mem_append.mp hc with hc | hc
        · exact pad_unbroken (hprintable field hfield) c hc
        · exact hvalue.unbroken c hc

/-- The head of lines that end in LF has no carriage return. -/
theorem cr_notMem_head {lines : List Text} (h : Unbroken lines) :
    '\r' ∉ lines.flatMap (· ++ LineEnd.lf.text) ++ LineEnd.lf.text := by
  intro hmem
  have hnewline : '\r' ∉ LineEnd.lf.text := by decide
  rcases List.mem_append.mp hmem with hmem | hmem
  · obtain ⟨line, hline, hmem⟩ := List.mem_flatMap.mp hmem
    rcases List.mem_append.mp hmem with hmem | hmem
    · exact cr_notMem (h line hline).2 hmem
    · exact hnewline hmem
  · exact hnewline hmem

/-- The head is cut off at its own blank line. -/
theorem splitHeaders_print (hlines : Unbroken (headLines start fields)) (hblank : BlankKept eol body) :
    splitHeaders (latin1 (printHttp eol start fields body)) =
      (eol.text.intercalate (headLines start fields), latin1 body) := by
  have hne : headLines start fields ≠ [] := List.cons_ne_nil _ _
  rw [latin1_printHttp, splitHeaders]
  cases eol with
  | crlf =>
    have hcut := @cut_joined '\r' ['\n'] (by decide) _ hne
      (fun line hline => ⟨(hlines line hline).1, cr_notMem (hlines line hline).2⟩) (latin1 body)
    have hblank : cut (blank .crlf) ((headLines start fields).flatMap (· ++ LineEnd.crlf.text) ++
        LineEnd.crlf.text ++ latin1 body) =
          some (LineEnd.crlf.text.intercalate (headLines start fields), latin1 body) := hcut
    rw [hblank]
  | lf =>
    have hnone : cut (blank .crlf) ((headLines start fields).flatMap (· ++ LineEnd.lf.text) ++
        LineEnd.lf.text ++ latin1 body) = none := by
      have hbody := cut_eq_none.mpr (hblank rfl)
      rw [blank, LineEnd.text, List.cons_append] at hbody ⊢
      rw [cut_append (cr_notMem_head hlines), hbody, Option.map_none]
    have hcut := @cut_joined '\n' [] List.not_mem_nil _ hne
      (fun line hline => ⟨(hlines line hline).1, fun hmem => (hlines line hline).2 _ hmem (by decide)⟩)
      (latin1 body)
    have hlf : cut (blank .lf) ((headLines start fields).flatMap (· ++ LineEnd.lf.text) ++
        LineEnd.lf.text ++ latin1 body) =
          some (LineEnd.lf.text.intercalate (headLines start fields), latin1 body) := hcut
    rw [hnone, hlf, Option.getD_some]

/-- CRLF twice in the body of a message with LF lines takes a part of the body for the head. -/
theorem length_bodyText {message : HttpMessage} (hlines : Unbroken (headLines start fields))
    (hfound : blank .crlf <:+: latin1 body)
    (hmessage : parseHttp (printHttp .lf start fields body) = some message) :
    message.bodyText.length < (latin1 body).length := by
  obtain ⟨-, -, -, -, -, hbody⟩ := parseHttp_eq_some hmessage
  cases hcut : cut (blank .crlf) (latin1 body) with
  | none => exact absurd hfound (cut_eq_none.mp hcut)
  | some parts =>
    have htext : cut (blank .crlf) (latin1 (printHttp .lf start fields body)) =
        some ((headLines start fields).flatMap (· ++ LineEnd.lf.text) ++ LineEnd.lf.text ++ parts.1,
          parts.2) := by
      rw [latin1_printHttp]
      rw [blank, LineEnd.text, List.cons_append] at hcut ⊢
      rw [cut_append (cr_notMem_head hlines), hcut, Option.map_some]
    rw [hbody, splitHeaders, htext, cut_eq_some hcut]
    simp [blank, LineEnd.text]
    omega

/-- A message is read back exactly when its start line, its names and its values are plain, and no body
after a head of LF lines has CRLF twice. -/
theorem parseHttp_print_iff (haccepted : Accepted start)
    (hprintable : ∀ field ∈ fields, field.Printable) :
    ReadBack eol start fields body ↔
      PlainBytes start ∧ (∀ field ∈ fields, PlainBytes field.name ∧ PlainBytes field.value) ∧
        BlankKept eol body := by
  constructor
  · intro hread
    obtain ⟨message, hmessage, hstartLine, hheaders, hbody⟩ := hread
    obtain ⟨line, lines, hlines, hline, hfound, -⟩ := parseHttp_eq_some hmessage
    have hunbroken : ∀ l ∈ line :: lines, ∀ c ∈ l, c ∉ lineBreaks := by
      intro l hl c hc
      rw [← hlines] at hl
      exact not_mem_of_mem_splitlines hl hc
    have hstart : PlainBytes start := by
      rw [hline] at hstartLine
      refine ⟨?_, ?_⟩
      · intro c hc
        rw [← hstartLine] at hc
        exact hunbroken line List.mem_cons_self c (mem_strip hc)
      · rw [← hstartLine, strip_strip]
    have hfields : ∀ field ∈ fields, PlainBytes field.name ∧ PlainBytes field.value := by
      intro field hfield
      have hmem : (latin1 field.name, latin1 field.value) ∈ message.headers := by
        rw [hheaders]
        exact List.mem_map_of_mem hfield
      rw [hfound] at hmem
      obtain ⟨l, hl, hheader⟩ := List.mem_filterMap.mp hmem
      obtain ⟨hname, hvalue⟩ := plain_of_headerOf hheader (hunbroken l (List.mem_cons_of_mem _ hl))
      exact ⟨⟨hname.1, hname.2⟩, hvalue.1, hvalue.2⟩
    refine ⟨hstart, hfields, ?_⟩
    intro heol hfound
    obtain rfl := heol
    have hshort := length_bodyText (unbroken_headLines haccepted hprintable hstart hfields) hfound
      hmessage
    rw [← length_encodeLatin1 hbody, latin1, List.length_map] at hshort
    exact lt_irrefl _ hshort
  · intro hplain
    obtain ⟨hstart, hfields, hblank⟩ := hplain
    have hlines := unbroken_headLines haccepted hprintable hstart hfields
    obtain ⟨found, hfound⟩ := Option.isSome_iff_exists.mp (isSome_httpStart.mpr haccepted)
    have hheaders : (fields.map fun field => latin1 field.line).filterMap headerOf =
        fields.map fun field => (latin1 field.name, latin1 field.value) := by
      rw [List.filterMap_map, ← List.filterMap_eq_map]
      apply List.filterMap_congr
      intro field hfield
      exact headerOf_line (hprintable field hfield) (hfields field hfield).1 (hfields field hfield).2
    refine ⟨⟨found, latin1 start, _, latin1 body⟩, ?_, rfl, hheaders, encodeLatin1_latin1 body⟩
    rw [parseHttp_of_lines (splitHeaders_print hlines hblank) (splitlines_joined eol hlines),
      hstart.stripped, hfound, Option.map_some]

end

/-- `HTTP/1.1 200 OK`. -/
def okLine : Bytes := "HTTP/1.1 200 OK".toList.map fun c => UInt8.ofNat c.toNat

theorem accepted_okLine : Accepted okLine := .inr (by decide +kernel)

/-- A response with LF lines whose body is CRLF twice: the body is lost. -/
theorem blankBody_lost : Accepted okLine ∧ ¬ReadBack .lf okLine [] [13, 10, 13, 10] := by
  refine ⟨accepted_okLine, ?_⟩
  intro h
  obtain ⟨message, hmessage, -, -, hbody⟩ := h
  have hread : (parseHttp (printHttp .lf okLine [] [13, 10, 13, 10])).map (·.bodyText) = some [] := by
    decide +kernel
  rw [hmessage] at hread
  have hempty : message.bodyText = [] := Option.some.inj hread
  rw [hempty] at hbody
  cases hbody

/-- `X: 1`. -/
def oneField : HeaderField := ⟨[88], [32], [49]⟩

/-- `X: \x85`. -/
def brokenField : HeaderField := ⟨[88], [32], [133]⟩

/-- The law at work: a response with CRLF lines is read back, with CRLF twice in its body; one with a line
break of Latin-1 in a value is not. -/
theorem parseHttp_print_iff_ok :
    ReadBack .crlf okLine [oneField] [13, 10, 13, 10] ∧
      ¬PlainBytes brokenField.value ∧ ¬ReadBack .crlf okLine [brokenField] [] := by
  have hprintable : ∀ fields ∈ [[oneField], [brokenField]], ∀ field ∈ fields, field.Printable := by
    intro fields hfields field hfield
    rcases List.mem_pair.mp hfields with rfl | rfl <;> obtain rfl := List.mem_singleton.mp hfield <;>
      refine ⟨⟨?_, ?_, ?_⟩, ?_, ⟨?_, ?_, ?_⟩, ?_⟩ <;> decide +kernel
  have hbroken : ¬PlainBytes brokenField.value := by decide +kernel
  refine ⟨(parseHttp_print_iff accepted_okLine (hprintable _ (by simp))).mpr
    ⟨?_, ?_, fun heq => nomatch heq⟩, hbroken, fun hread => ?_⟩
  · decide +kernel
  · decide +kernel
  · have hplain := (parseHttp_print_iff accepted_okLine (hprintable _ (by simp))).mp hread
    exact hbroken (hplain.2.1 brokenField (List.mem_singleton_self _)).2

end PacketTrain.Analysis
