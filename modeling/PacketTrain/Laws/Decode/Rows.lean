import PacketTrain.Decode.Rows

/-!
# Rows are read as they were printed

A row whose cells have no tab and no line break is read back column by column (`readRow_printRow`),
and so is a whole print-out (`parseRows_printRows`). `Segment` is what TShark knows of a TCP segment,
in the types that it prints: `decodes_segments` says that the packets of a print-out are the segments,
each with its own values, in the order of the rows, up to the bound on their number. The nine digits of
a time do not all fit a double; the microseconds do (`Stamp.roundTo_read`).
-/

namespace PacketTrain.Decode

open Binary64 Lines Strings Numerals

/-! ## Printing -/

/-- A line of TShark: the columns of a row with tabs between them. -/
def printColumns (columns : List Field) (row : Row) : Text := ['\t'].intercalate (columns.map row)

def printRow (row : Row) : Text := printColumns fields row

/-- A cell that nothing in it ends. -/
def Clean (text : Text) : Prop := ∀ c ∈ text, c ∉ separators

instance (text : Text) : Decidable (Clean text) :=
  decidable_of_iff (text.all fun c => c ∉ separators) (by simp [Clean])

theorem Clean.no_tab {text : Text} (h : Clean text) : '\t' ∉ text :=
  fun hmem => h _ hmem List.mem_cons_self

theorem Clean.no_break {text : Text} (h : Clean text) : ∀ c ∈ text, c ∉ lineBreaks :=
  fun c hc hbreak => h c hc (List.mem_cons_of_mem _ hbreak)

theorem no_break_printColumns {columns : List Field} {row : Row} (h : ∀ f ∈ columns, Clean (row f)) :
    ∀ c ∈ printColumns columns row, c ∉ lineBreaks := by
  intro c hc
  rcases mem_intercalate hc with rfl | ⟨cell, hcell, hc⟩
  · decide
  · obtain ⟨f, hf, rfl⟩ := List.mem_map.mp hcell
    exact (h f hf).no_break c hc

/-- A line without a line break has none to strip. -/
theorem rstrip_of_no_break {line : Text} (h : ∀ c ∈ line, c ∉ lineBreaks) :
    (line.rdropWhile fun c => c = '\r' || c = '\n') = line := by
  refine List.rdropWhile_eq_self_iff.mpr fun hne => ?_
  have hlast := h _ (List.getLast_mem hne)
  intro hbreak
  rcases Bool.or_eq_true_iff.mp hbreak with heq | heq
  · exact hlast (of_decide_eq_true heq ▸ by decide)
  · exact hlast (of_decide_eq_true heq ▸ by decide)

/-- The cells of a line are those it was printed of. -/
theorem split_printColumns {columns : List Field} (hne : columns ≠ []) {row : Row}
    (h : ∀ f ∈ columns, Clean (row f)) :
    ((printColumns columns row).rdropWhile fun c => c = '\r' || c = '\n').splitOn '\t' =
      columns.map row := by
  rw [rstrip_of_no_break (no_break_printColumns h), printColumns]
  refine List.splitOn_intercalate '\t' (fun cell hcell => ?_) (by simpa using hne)
  obtain ⟨f, hf, rfl⟩ := List.mem_map.mp hcell
  exact (h f hf).no_tab

theorem lookup_zip_map (row : Row) {columns : List Field} {f : Field} (hf : f ∈ columns) :
    (columns.zip (columns.map row)).lookup f = some (row f) := by
  induction columns with
  | nil => cases hf
  | cons g rest ih =>
    rw [List.map_cons, List.zip_cons_cons, List.lookup_cons]
    by_cases hfg : f = g
    · simp [hfg]
    · have hne : (f == g) = false := by simpa using hfg
      rw [hne]
      exact ih ((List.mem_cons.mp hf).resolve_left hfg)

theorem mem_fields (f : Field) : f ∈ fields := by cases f <;> decide

/-- A row is read back as it was printed. -/
theorem readRow_printRow {row : Row} (h : ∀ f, Clean (row f)) : readRow (printRow row) = row := by
  funext f
  rw [readRow, printRow, split_printColumns (by decide) fun f _ => h f, List.length_map, Nat.sub_self,
    List.replicate_zero, List.append_nil, lookup_zip_map row (mem_fields f), Option.getD_some]

theorem dropCr_eq_self {text : Text} (h : '\r' ∉ text) : dropCr text = text := by
  have happend := dropCr_append h []
  rwa [List.append_nil, dropCr, List.append_nil] at happend

/-- Lines without a line break are the lines of their print-out. -/
theorem splitlines_printLines {lines : List Text} (h : ∀ line ∈ lines, ∀ c ∈ line, c ∉ lineBreaks) :
    splitlines (printLines lines) = lines := by
  have hcr : '\r' ∉ printLines lines := by
    intro hmem
    obtain ⟨line, hline, hc⟩ := List.mem_flatMap.mp hmem
    rcases List.mem_append.mp hc with hc | hc
    · exact cr_notMem (h line hline) hc
    · exact absurd (List.mem_singleton.mp hc) (by decide)
  rw [splitlines, dropCr_eq_self hcr, splitLines_printLines h]

/-- The packets of a print-out are those of its rows. -/
theorem parseRows_printRows {rows : List Row} (h : ∀ row ∈ rows, ∀ f, Clean (row f)) :
    parseRows (rows.map printRow) = rows.filterMap parseRow := by
  rw [parseRows, List.filterMap_map]
  refine List.filterMap_congr fun row hrow => ?_
  rw [Function.comp_apply, readRow_printRow (h row hrow)]

theorem splitlines_printRows {rows : List Row} (h : ∀ row ∈ rows, ∀ f, Clean (row f)) :
    splitlines (printLines (rows.map printRow)) = rows.map printRow := by
  refine splitlines_printLines fun line hline => ?_
  obtain ⟨row, hrow, rfl⟩ := List.mem_map.mp hline
  exact no_break_printColumns fun f _ => h row hrow f

/-! ## Segments -/

/-- A text that stands in one cell. -/
abbrev Cell := { text : Text // Clean text }

inductive Addresses
  | ipv4 (src dst : Cell) (ttl : ℕ)
  | ipv6 (src dst : Cell) (hlim : ℕ)

/-- A time in seconds, as TShark prints it. -/
structure Stamp where
  whole : ℕ
  billionths : Fin (10 ^ 9)

def Stamp.value (t : Stamp) : ℚ := t.whole + (t.billionths : ℕ) / 10 ^ 9

/-- The time as a double, which has not all of the nine digits of today's times. -/
def Stamp.read (t : Stamp) : ℚ := toDouble t.value

/-- What TShark knows of a TCP segment. -/
structure Segment where
  frame : ℕ
  time : Stamp
  stream : ℕ
  addresses : Addresses
  sport : ℕ
  dport : ℕ
  seq : ℕ
  ack : ℕ
  len : ℕ
  frameLen : ℕ
  capLen : ℕ
  flags : ℕ
  /-- The marks of TShark's own analysis. -/
  retransmission : Cell
  fastRetransmission : Cell
  spuriousRetransmission : Cell
  duplicateAck : Cell
  sackLe : Option ℕ
  window : Option ℕ
  ackRtt : Option Stamp
  mss : Option ℕ
  handshakeType : Cell
  contentType : Cell
  serverName : Cell
  alpn : Cell
  handshakeVersion : Cell
  wscale : Option ℕ
  sackPerm : Cell
  tsval : Option ℕ
  options : Cell

def count (n : ℕ) : Text := Nat.toDigits 10 n

/-- A cell that may be empty. -/
def optional {α : Type} (print : α → Text) (value : Option α) : Text := value.elim [] print

def Stamp.text (t : Stamp) : Text := fixedPoint t.whole t.billionths

/-- A flag of its own column. -/
def flagText (flags bit : ℕ) : Text := if flags.testBit bit then ['1'] else ['0']

/-- The row that TShark prints of a segment. -/
def Segment.row (s : Segment) : Row
  | .frameNumber => count s.frame
  | .timeEpoch => s.time.text
  | .ipSrc => match s.addresses with | .ipv4 src _ _ => src | .ipv6 .. => []
  | .ipv6Src => match s.addresses with | .ipv4 .. => [] | .ipv6 src _ _ => src
  | .ipDst => match s.addresses with | .ipv4 _ dst _ => dst | .ipv6 .. => []
  | .ipv6Dst => match s.addresses with | .ipv4 .. => [] | .ipv6 _ dst _ => dst
  | .srcport => count s.sport
  | .dstport => count s.dport
  | .stream => count s.stream
  | .seqRaw => count s.seq
  | .ackRaw => count s.ack
  | .len => count s.len
  | .frameLen => count s.frameLen
  | .capLen => count s.capLen
  | .flags => hexLiteral s.flags
  | .flagsSyn => flagText s.flags 1
  | .flagsAck => flagText s.flags 4
  | .flagsFin => flagText s.flags 0
  | .flagsReset => flagText s.flags 2
  | .flagsPush => flagText s.flags 3
  | .retransmission => s.retransmission
  | .fastRetransmission => s.fastRetransmission
  | .spuriousRetransmission => s.spuriousRetransmission
  | .duplicateAck => s.duplicateAck
  | .sackLe => optional count s.sackLe
  | .windowSize => optional count s.window
  | .ackRtt => optional Stamp.text s.ackRtt
  | .mssVal => optional count s.mss
  | .handshakeType => s.handshakeType
  | .contentType => s.contentType
  | .serverName => s.serverName
  | .alpnStr => s.alpn
  | .handshakeVersion => s.handshakeVersion
  | .ttl => match s.addresses with | .ipv4 _ _ ttl => count ttl | .ipv6 .. => []
  | .hlim => match s.addresses with | .ipv4 .. => [] | .ipv6 _ _ hlim => count hlim
  | .wscaleShift => optional count s.wscale
  | .sackPerm => s.sackPerm
  | .tsval => optional count s.tsval
  | .options => s.options

/-- The packet that a segment is. -/
def Segment.packet (s : Segment) : DecodedPacket where
  frame := s.frame
  ts := s.time.read
  stream := s.stream
  src := match s.addresses with | .ipv4 src _ _ => src | .ipv6 src _ _ => src
  dst := match s.addresses with | .ipv4 _ dst _ => dst | .ipv6 _ dst _ => dst
  sport := s.sport
  dport := s.dport
  seq := s.seq
  ack := s.ack
  length := s.len
  frameLength := s.frameLen
  capLength := s.capLen
  sliced := 0 < s.capLen && s.capLen < s.frameLen
  flagsRaw := some s.flags
  syn := s.flags.testBit 1
  ackFlag := s.flags.testBit 4
  fin := s.flags.testBit 0
  rst := s.flags.testBit 2
  psh := s.flags.testBit 3
  retrans := s.retransmission.val ≠ [] || s.fastRetransmission.val ≠ [] ||
    s.spuriousRetransmission.val ≠ []
  dupAck := s.duplicateAck.val ≠ []
  sack := s.sackLe.isSome
  window := (s.window.getD 0 : ℕ)
  windowPresent := s.window.isSome
  ackRttMs := toDouble (s.ackRtt.elim 0 Stamp.read * 1000)
  mss := (s.mss.getD 0 : ℕ)
  tlsHandshake := s.handshakeType
  tlsRecord := s.contentType
  tlsSni := s.serverName
  tlsAlpn := s.alpn
  tlsVersion := s.handshakeVersion
  ttl := match s.addresses with | .ipv4 _ _ ttl => ttl | .ipv6 _ _ hlim => hlim
  wscale := s.wscale.elim (-1) Nat.cast
  sackPerm := s.sackPerm.val ≠ []
  hasTimestamp := s.tsval.isSome
  tsval := s.tsval.map Nat.cast
  optionsRaw := s.options

/-! ### The cells of a segment -/

/-- The characters of numerals end no cell. -/
theorem digitChar_clean {d : ℕ} (h : d < 16) : Nat.digitChar d ∉ separators := by
  interval_cases d <;> decide

theorem clean_spelled {base : ℕ} (hbase : base ≤ 16) {text : Text} (h : Spelled base text) :
    Clean text := by
  intro c hc
  obtain ⟨d, hd, rfl⟩ := h c hc
  exact digitChar_clean (hd.trans_le hbase)

theorem clean_nil : Clean [] := fun _ h => by cases h

theorem clean_count (n : ℕ) : Clean (count n) :=
  clean_spelled (by decide) (spelled_toDigits (by decide : 1 < 10) n)

theorem clean_hexLiteral (n : ℕ) : Clean (hexLiteral n) := by
  intro c hc
  rcases List.mem_cons.mp hc with rfl | hc
  · decide
  rcases List.mem_cons.mp hc with rfl | hc
  · decide
  · exact clean_spelled (by decide : 16 ≤ 16) (spelled_leftpad (by decide) 4 n) c hc

theorem clean_stamp (t : Stamp) : Clean t.text := by
  intro c hc
  rcases List.mem_append.mp hc with hc | hc
  · exact clean_count _ c hc
  rcases List.mem_cons.mp hc with rfl | hc
  · decide
  · exact clean_spelled (by decide : 10 ≤ 16) (spelled_leftpad (by decide) 9 _) c hc

theorem clean_optional {α : Type} {print : α → Text} (h : ∀ a, Clean (print a)) (value : Option α) :
    Clean (optional print value) := by
  cases value with
  | none => exact clean_nil
  | some a => exact h a

theorem clean_flagText (flags bit : ℕ) : Clean (flagText flags bit) := by
  unfold flagText
  split <;> intro c hc <;> obtain rfl := List.mem_singleton.mp hc <;> decide

theorem Segment.clean (s : Segment) (f : Field) : Clean (s.row f) := by
  cases f with
  | frameNumber | srcport | dstport | stream | seqRaw | ackRaw | len | frameLen | capLen =>
    exact clean_count _
  | timeEpoch => exact clean_stamp _
  | ipSrc | ipv6Src | ipDst | ipv6Dst =>
    show Clean (match s.addresses with | .ipv4 .. => _ | .ipv6 .. => _)
    split
    · first | exact clean_nil | exact Subtype.property _
    · first | exact clean_nil | exact Subtype.property _
  | ttl | hlim =>
    show Clean (match s.addresses with | .ipv4 .. => _ | .ipv6 .. => _)
    split
    · first | exact clean_nil | exact clean_count _
    · first | exact clean_nil | exact clean_count _
  | flags => exact clean_hexLiteral _
  | flagsSyn | flagsAck | flagsFin | flagsReset | flagsPush => exact clean_flagText _ _
  | retransmission | fastRetransmission | spuriousRetransmission | duplicateAck | handshakeType
  | contentType | serverName | alpnStr | handshakeVersion | sackPerm | options =>
    exact Subtype.property _
  | sackLe | windowSize | mssVal | wscaleShift | tsval => exact clean_optional clean_count _
  | ackRtt => exact clean_optional clean_stamp _

theorem num_count (n : ℕ) (default : ℤ) : num (count n) default = n := by
  rw [num, count, readInteger_toDigits, Option.getD_some]

theorem num_nil (default : ℤ) : num [] default = default := rfl

theorem num_optional (value : Option ℕ) (default : ℤ) :
    num (optional count value) default = value.elim default Nat.cast := by
  cases value with
  | none => exact num_nil default
  | some n => exact num_count n default

theorem decimal_stamp (t : Stamp) : decimal t.text = some t.read := by
  have hread : readFloat t.text = some t.value := readFloat_fixedPoint t.whole t.billionths.isLt
  rw [decimal, hread]
  rfl

theorem count_ne_nil (n : ℕ) : count n ≠ [] := Nat.toDigits_ne_nil

theorem optional_ne_nil (value : Option ℕ) : decide (optional count value ≠ []) = value.isSome := by
  cases value with
  | none => rfl
  | some n => exact decide_eq_true (count_ne_nil n)

theorem flagBits_hexLiteral (n : ℕ) : flagBits (hexLiteral n) = some (n : ℤ) := by
  rw [flagBits, if_neg (by exact List.cons_ne_nil _ _), readLiteral_hexLiteral]

/-- A bit of the mask is a bit of the flags. -/
theorem flagSet_testBit (row : Row) (flags bit : ℕ) (field : Field) :
    flagSet row (some (flags : ℤ)) field ((2 ^ bit : ℕ) : ℤ) = flags.testBit bit := by
  have hand : (flags : ℤ).land ((2 ^ bit : ℕ) : ℤ) = ((flags &&& 2 ^ bit : ℕ) : ℤ) := rfl
  rw [flagSet, hand, Nat.and_two_pow]
  cases flags.testBit bit <;> simp

theorem orText_nil (a : Text) : orText a [] = a := by
  rw [orText]
  split
  · next h => exact h.symm
  · rfl

theorem nil_orText (b : Text) : orText [] b = b := rfl

theorem orZero_nil (n : ℤ) : (if n ≠ 0 then n else 0) = n := by
  by_cases h : n = 0 <;> simp [h]

theorem elim_cast (value : Option ℕ) : value.elim (0 : ℤ) Nat.cast = (value.getD 0 : ℕ) := by
  cases value <;> rfl

/-- The row of a segment is read as the segment. -/
theorem parseRow_row (s : Segment) : parseRow s.row = some s.packet := by
  have htime : decimal (s.row .timeEpoch) = some s.time.read := decimal_stamp s.time
  have hstream : s.row .stream ≠ [] := count_ne_nil s.stream
  rw [parseRow, htime]
  show (if s.row .stream = [] then none else some (decodedPacket s.row s.time.read)) = _
  rw [if_neg hstream, Option.some.injEq]
  have hflags : flagBits (s.row .flags) = some (s.flags : ℤ) := flagBits_hexLiteral s.flags
  have hbit := flagSet_testBit s.row s.flags
  have hsyn : flagSet s.row (some (s.flags : ℤ)) .flagsSyn 0x02 = s.flags.testBit 1 := hbit 1 _
  have hack : flagSet s.row (some (s.flags : ℤ)) .flagsAck 0x10 = s.flags.testBit 4 := hbit 4 _
  have hfin : flagSet s.row (some (s.flags : ℤ)) .flagsFin 0x01 = s.flags.testBit 0 := hbit 0 _
  have hrst : flagSet s.row (some (s.flags : ℤ)) .flagsReset 0x04 = s.flags.testBit 2 := hbit 2 _
  have hpsh : flagSet s.row (some (s.flags : ℤ)) .flagsPush 0x08 = s.flags.testBit 3 := hbit 3 _
  have hrtt : (decimal (s.row .ackRtt)).getD 0 = s.ackRtt.elim 0 Stamp.read := by
    cases hr : s.ackRtt with
    | none => simp only [Segment.row, hr, optional, Option.elim]; rfl
    | some t => simp only [Segment.row, hr, optional, Option.elim, decimal_stamp, Option.getD_some]
  have htsval : readInteger (s.row .tsval) = s.tsval.map Nat.cast := by
    cases ht : s.tsval with
    | none => simp only [Segment.row, ht, optional, Option.elim]; rfl
    | some n => simp only [Segment.row, ht, optional, Option.elim, count, readInteger_toDigits,
        Option.map_some]
  have hsack : decide (s.row .sackLe ≠ []) = s.sackLe.isSome := optional_ne_nil s.sackLe
  have hwindow : decide (s.row .windowSize ≠ []) = s.window.isSome := optional_ne_nil s.window
  have hstamped : decide (s.row .tsval ≠ []) = s.tsval.isSome := optional_ne_nil s.tsval
  unfold decodedPacket
  simp only [hflags, hsyn, hack, hfin, hrst, hpsh, hrtt, htsval, hsack, hwindow, hstamped]
  unfold Segment.packet
  cases haddresses : s.addresses <;>
    simp only [Segment.row, haddresses, num_count, num_optional, num_nil, orText_nil, nil_orText,
      orZero_nil, elim_cast, List.any, Bool.or_false, Bool.or_assoc, Nat.cast_lt, Nat.cast_pos] <;>
    rfl

/-! ## Times -/

/-- A time is zero or a billionth at least. -/
theorem Stamp.value_cases (t : Stamp) : t.value = 0 ∨ 1 / 10 ^ 9 ≤ t.value := by
  have hwhole : (0 : ℚ) ≤ t.whole := Nat.cast_nonneg _
  rcases Nat.eq_zero_or_pos (t.whole * 10 ^ 9 + (t.billionths : ℕ)) with hzero | hpos
  · left
    obtain ⟨hw, hb⟩ : t.whole = 0 ∧ (t.billionths : ℕ) = 0 := by omega
    rw [Stamp.value, hw, hb]
    norm_num
  · right
    have hcast : (1 : ℚ) ≤ t.whole * 10 ^ 9 + (t.billionths : ℕ) := by exact_mod_cast hpos
    rw [Stamp.value, div_le_iff₀ (by norm_num), add_mul, div_mul_cancel₀ _ (by norm_num)]
    exact hcast

/-- A time that is not zero is no subnormal value. -/
theorem Stamp.normal {t : Stamp} (h : 1 / 10 ^ 9 ≤ t.value) : (2 : ℚ) ^ (-1022 : ℤ) ≤ |t.value| := by
  have hpow : (2 : ℚ) ^ (-1022 : ℤ) ≤ 2 ^ (-30 : ℤ) := zpow_le_zpow_right₀ (by norm_num) (by norm_num)
  have hbillionth : (2 : ℚ) ^ (-30 : ℤ) ≤ 1 / 10 ^ 9 := by norm_num
  exact (hpow.trans (hbillionth.trans h)).trans (le_abs_self _)

/-- A time is read up to one part in `2 ^ 53`. -/
theorem Stamp.abs_read_sub_le (t : Stamp) : |t.read - t.value| ≤ t.value / 2 ^ 53 := by
  rcases t.value_cases with hzero | hleast
  · rw [Stamp.read, hzero, toDouble_zero]
    norm_num
  · have hpos : 0 < t.value := lt_of_lt_of_le (by norm_num) hleast
    have herr := abs_toDouble_sub_le (Stamp.normal hleast)
    rwa [abs_of_pos hpos] at herr

/-- A time of whole microseconds in the first `2 ^ 32` seconds keeps them. -/
theorem Stamp.roundTo_read {t : Stamp} (hwhole : t.whole < 2 ^ 32) (hmicro : 1000 ∣ (t.billionths : ℕ)) :
    roundTo 6 t.read = t.value := by
  rcases t.value_cases with hzero | hleast
  · rw [Stamp.read, hzero, toDouble_zero]
    exact (roundTo_eq_zero_iff 6 0).mpr (by norm_num)
  · have hpos : 0 < t.value := lt_of_lt_of_le (by norm_num) hleast
    obtain ⟨micros, hmicros⟩ := hmicro
    have hq : t.value = ((t.whole * 10 ^ 6 + micros : ℕ) : ℤ) / 10 ^ 6 := by
      rw [Stamp.value, hmicros]
      push_cast
      ring
    have hlast : t.whole * 10 ^ 9 + (t.billionths : ℕ) < 2 ^ 32 * 10 ^ 9 := by
      have hfraction := t.billionths.isLt
      omega
    have hbound : t.value < 2 ^ 32 := by
      have hcast : (t.whole : ℚ) * 10 ^ 9 + (t.billionths : ℕ) < 2 ^ 32 * 10 ^ 9 := by
        exact_mod_cast hlast
      rw [Stamp.value]
      linarith
    refine roundTo_toDouble hq (Stamp.normal hleast) ?_
    rw [abs_of_pos hpos]
    linarith

/-! ## The law -/

/-- What TShark prints of some segments. -/
def printSegments (segments : List Segment) : Text := printLines (segments.map fun s => printRow s.row)

/-- TSHARK'S ROWS ARE READ BACK: the packets of a print-out are its segments, every field with its own
value and in the order of the rows; beyond `MAX_PACKETS` the print-out is refused. A time is the nearest
double, off by one part in `2 ^ 53` at most, and its microseconds are kept. -/
theorem decodes_segments (maxPackets : ℕ) (segments : List Segment) (stderr : Text) :
    (readCapture maxPackets (.exited 0 (printSegments segments) stderr) =
      if maxPackets < segments.length then
        .error ⟨413, "Capture exceeds MAX_PACKETS; split or filter it first".toList⟩
      else .ok (segments.map Segment.packet)) ∧
    ∀ t : Stamp, |t.read - t.value| ≤ t.value / 2 ^ 53 ∧
      (t.whole < 2 ^ 32 → 1000 ∣ (t.billionths : ℕ) → roundTo 6 t.read = t.value) := by
  refine ⟨?_, fun t => ⟨t.abs_read_sub_le, Stamp.roundTo_read⟩⟩
  have hclean : ∀ row ∈ segments.map Segment.row, ∀ f, Clean (row f) := by
    intro row hrow
    obtain ⟨s, -, rfl⟩ := List.mem_map.mp hrow
    exact s.clean
  have hprint : printSegments segments = printLines ((segments.map Segment.row).map printRow) := by
    rw [printSegments, List.map_map]
    rfl
  have hpackets : (segments.map Segment.row).filterMap parseRow = segments.map Segment.packet := by
    rw [List.filterMap_map, ← List.filterMap_eq_map]
    exact List.filterMap_congr fun s _ => parseRow_row s
  show parseFieldText maxPackets (printSegments segments) = _
  rw [parseFieldText, hprint, splitlines_printRows hclean, List.length_map, List.length_map,
    parseRows_printRows hclean, hpackets]

example : Stamp.read ⟨1700000000, 123456789⟩ = 7130316800517815 / 2 ^ 22 := by decide +kernel

end PacketTrain.Decode
