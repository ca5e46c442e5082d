import PacketTrain.Decode.Segment
import PacketTrain.Laws.Analysis.Follow

/-!
# The payload that is shown

Bytes are shown as text, as a dump and as digits. The dump is read back from its columns
(`readDump_hexDump`), so each of the two views of a payload, that of a segment and that of a conversation,
shows the bytes it has and loses none.
-/

namespace PacketTrain.Decode

open Lines Strings Hex Numerals Analysis

/-! ## The dump -/

/-- A row of a dump: the offset, and the bytes that the columns between it and the text say. -/
def readDumpRow (row : Text) : ℕ × Bytes :=
  (ofDigits 16 (row.take 8), (fromhex ((row.drop 10).take 47)).getD [])

def readDump (rows : List Text) : Bytes := rows.flatMap fun row => (readDumpRow row).2

theorem length_offset {offset : ℕ} (h : offset < 16 ^ 8) :
    ((Nat.toDigits 16 offset).leftpad 8 '0').length = 8 := by
  have hdigits := (Nat.length_toDigits_le_iff (by decide : 1 < 16) (by decide : 0 < 8)).mpr h
  rw [List.length_leftpad, Nat.max_eq_left hdigits]

/-- A row is read back when its offset fills its columns and no more. -/
theorem readDumpRow_hexRow {offset : ℕ} (hoffset : offset < 16 ^ 8) {chunk : Bytes}
    (hchunk : chunk.length ≤ 16) : readDumpRow (hexRow 16 offset chunk) = (offset, chunk) := by
  have hcolumns : (([' '].intercalate (chunk.map hexByte)).rightpad 47 ' ').length = 47 := by
    rw [List.length_rightpad, length_apart]
    omega
  have htake : (hexRow 16 offset chunk).take 8 = (Nat.toDigits 16 offset).leftpad 8 '0' := by
    rw [hexRow, List.append_assoc, List.append_assoc, List.append_assoc,
      List.take_left' (length_offset hoffset)]
  have hdrop : (hexRow 16 offset chunk).drop 10 =
      ([' '].intercalate (chunk.map hexByte)).rightpad 47 ' ' ++ ([' ', ' '] ++ asciiView chunk) := by
    rw [hexRow, List.append_assoc, List.append_assoc, List.append_assoc, ← List.append_assoc,
      List.drop_left' (by rw [List.length_append, length_offset hoffset]; rfl)]
  rw [readDumpRow, htake, ofDigits_leftpad, ofDigits_toDigits (by decide) (by decide), hdrop,
    List.take_left' hcolumns, List.rightpad, fromhex_apart, Option.getD_some]

/-- The pieces of some bytes are the bytes. -/
theorem flatMap_pieces {α : Type} (l : List α) (width rows : ℕ) :
    (List.range rows).flatMap (fun row => (l.drop (row * width)).take width) = l.take (rows * width) := by
  induction rows with
  | zero => simp
  | succ rows ih =>
    rw [List.range_succ, List.flatMap_append, ih, List.flatMap_singleton, Nat.succ_mul, List.take_add]

theorem readDumpRow_hexDump {data : Bytes} (h : data.length ≤ 16 ^ 8) {row : ℕ}
    (hrow : row < (data.length + 16 - 1) / 16) :
    readDumpRow (hexRow 16 (row * 16) ((data.drop (row * 16)).take 16)) =
      (row * 16, (data.drop (row * 16)).take 16) :=
  readDumpRow_hexRow (by omega) (List.length_take_le _ _)

/-- A dump is read back, as far as eight digits count. -/
theorem readDump_hexDump {data : Bytes} (h : data.length ≤ 16 ^ 8) : readDump (hexDump data) = data := by
  have hrows : ∀ row ∈ List.range ((data.length + 16 - 1) / 16),
      (readDumpRow (hexRow 16 (row * 16) ((data.drop (row * 16)).take 16))).2 =
        (data.drop (row * 16)).take 16 := by
    intro row hrow
    rw [readDumpRow_hexDump h (List.mem_range.mp hrow)]
  rw [readDump, hexDump, List.flatMap_map, List.flatMap_congr hrows, flatMap_pieces,
    List.take_of_length_le (by omega)]

theorem offset_hexDump {data : Bytes} (h : data.length ≤ 16 ^ 8) {i : ℕ} {row : Text}
    (hrow : (hexDump data)[i]? = some row) : (readDumpRow row).1 = i * 16 := by
  rw [hexDump, List.getElem?_map, Option.map_eq_some_iff] at hrow
  obtain ⟨j, hj, rfl⟩ := hrow
  obtain ⟨hlt, heq⟩ := List.getElem?_eq_some_iff.mp hj
  rw [List.getElem_range] at heq
  rw [List.length_range] at hlt
  rw [← heq, readDumpRow_hexDump h hlt]

/-! ## Four spellings -/

/-- Some bytes, as the answer spells them. -/
structure Shown (data : Bytes) (length : ℕ) (ascii : Text) (hex : List Text) (hexRaw : Text) : Prop where
  length : length = data.length
  digits : unhexlify hexRaw = data
  dump : readDump hex = data
  offsets : ∀ (i : ℕ) (row : Text), hex[i]? = some row → (readDumpRow row).1 = i * 16
  text : ascii.length = data.length
  printable : ∀ (i : ℕ) (b : UInt8), data[i]? = some b → isPrintable b = true →
    ascii[i]? = some (Char.ofNat b.toNat)
  other : ∀ (i : ℕ) (b : UInt8), data[i]? = some b → isPrintable b = false → ascii[i]? = some '.'

theorem getElem?_asciiView {data : Bytes} {i : ℕ} {b : UInt8} (h : data[i]? = some b) :
    (asciiView data)[i]? = some (if isPrintable b = true then Char.ofNat b.toNat else '.') := by
  rw [asciiView, List.getElem?_map, h, Option.map_some]
  congr 1
  simp [isPrintable]

/-- The four spellings of bytes that a dump can count. -/
theorem shown {data : Bytes} (h : data.length ≤ 16 ^ 8) :
    Shown data data.length (asciiView data) (hexDump data) (hexText data) where
  length := rfl
  digits := unhexlify_hexText data
  dump := readDump_hexDump h
  offsets _ _ := offset_hexDump h
  text := List.length_map _
  printable i b hb hprint := by rw [getElem?_asciiView hb, if_pos hprint]
  other i b hb hprint := by rw [getElem?_asciiView hb, if_neg (by rw [hprint]; exact Bool.false_ne_true)]

/-! ## What TShark prints -/

/-- A payload as TShark prints it: two digits a byte, with colons between or without. -/
def printPayload (colons : Bool) (payload : Bytes) : Text :=
  (if colons then [':'] else []).intercalate (payload.map hexByte)

theorem hexByte_plain (b : UInt8) : ∀ c ∈ hexByte b, c ≠ ':' ∧ isSpace c = false := by
  have hplain : ∀ n < 16, Nat.digitChar n ≠ ':' ∧ isSpace (Nat.digitChar n) = false := by decide
  have hb : b.toNat < 256 := b.toNat_lt
  simp only [hexByte, List.forall_mem_cons]
  exact ⟨hplain _ (by omega), hplain _ (by omega), List.forall_mem_nil _⟩

theorem filter_printPayload (colons : Bool) (payload : Bytes) :
    (printPayload colons payload).filter (· ≠ ':') = hexText payload := by
  have hkeep : ∀ b : UInt8, (hexByte b).filter (· ≠ ':') = hexByte b := by
    intro b
    exact List.filter_eq_self.mpr fun c hc => decide_eq_true (hexByte_plain b c hc).1
  rw [printPayload, hexText]
  induction payload with
  | nil => rfl
  | cons b payload ih =>
    cases payload with
    | nil => rw [List.map_singleton, List.intercalate_singleton, hkeep, List.flatMap_singleton]
    | cons c payload =>
      rw [List.map_cons] at ih
      rw [List.map_cons, List.map_cons, List.intercalate_cons_cons, List.filter_append, List.filter_append,
        hkeep, ih]
      cases colons <;> rfl

theorem isSpace_printPayload (colons : Bool) (payload : Bytes) :
    ∀ c ∈ printPayload colons payload, isSpace c = false := by
  intro c hc
  by_cases hcolon : c = ':'
  · rw [hcolon]
    rfl
  · have hmem : c ∈ hexText payload := by
      rw [← filter_printPayload colons]
      exact List.mem_filter.mpr ⟨hc, decide_eq_true hcolon⟩
    obtain ⟨b, -, hc⟩ := List.mem_flatMap.mp hmem
    exact (hexByte_plain b c hc).2

/-- The payload is read as it was printed, up to the bound. -/
theorem payloadOf_printPayload (colons : Bool) (payload : Bytes) {before after : Text}
    (hbefore : ∀ c ∈ before, isSpace c = true) (hafter : ∀ c ∈ after, isSpace c = true) :
    payloadOf (before ++ printPayload colons payload ++ after) = payload.take maxPayloadBytes := by
  have hdigits : (hexText payload).all isHexDigit = true := by
    rw [List.all_eq_true]
    intro c hc
    obtain ⟨b, -, hc⟩ := List.mem_flatMap.mp hc
    exact (hexByte_spec b c hc).1
  have htrim : strip (before ++ printPayload colons payload ++ after) = printPayload colons payload :=
    trim_append hbefore hafter (isSpace_printPayload colons payload)
  rw [payloadOf, htrim]
  simp only [filter_printPayload]
  rw [if_pos ⟨by rw [length_hexText]; omega, hdigits⟩, unhexlify_hexText]

/-! ## The law -/

/-- A chunk of a page is no longer than the page. -/
theorem length_chunk {text : Text} {limit offset : ℤ} {chunk : Chunk}
    (h : chunk ∈ (parseFollowRaw text limit offset).chunks) : chunk.data.length ≤ 16 ^ 8 := by
  have hlimit : clampLimit limit ≤ 16 ^ 8 := by
    rw [clampLimit, maxConversationPageBytes]
    omega
  have hbytes := congrArg List.length (parseFollowRaw_page text limit offset).bytes
  have hsub : chunk.bytes.Sublist ((parseFollowRaw text limit offset).chunks.flatMap Chunk.bytes) :=
    List.sublist_flatten_of_mem (List.mem_map_of_mem h)
  have hle := hsub.length_le
  rw [hbytes, Chunk.bytes, List.length_map, List.length_take] at hle
  omega

section

variable {gunzip : Bytes → Option Bytes} {inflate : ℤ → Bytes → Option Bytes} {utf8 : Bytes → Text}
  {prettyJson : Bytes → Option Text} {jwtText : Bytes × Bytes → Option Text}

/-- THE SHOWN PAYLOAD. However TShark separates the digits of a segment's payload, the answer spells its
first mebibyte in four ways that agree: its length, its digits, a text with a character a byte, and a dump
that gives the bytes back and counts them. Every chunk of a conversation's page is spelled so too, and the
dumps of a page alone are the bytes of its range, each with its sender. -/
theorem payload_shown :
    (∀ (colons : Bool) (payload : Bytes) (before after stderr : Text) (frame : ℕ),
      (∀ c ∈ before, isSpace c = true) → (∀ c ∈ after, isSpace c = true) →
      ∃ answer, decodeSegment gunzip inflate utf8 prettyJson jwtText frame
          (.exited 0 (before ++ printPayload colons payload ++ after) stderr) = .ok answer ∧
        answer.frame = frame ∧
        Shown (payload.take maxPayloadBytes) answer.length answer.ascii answer.hex answer.hexRaw) ∧
      ∀ (text : Text) (stream : ℕ) (limit offset : ℤ),
        let page := conversationFromFollowOutput text stream limit offset
        (∀ chunk ∈ page.chunks,
          Shown (unhexlify chunk.hexRaw) chunk.length chunk.ascii chunk.hex chunk.hexRaw) ∧
        page.chunks.flatMap (fun chunk => (readDump chunk.hex).map fun b => (chunk.node, b)) =
          ((conversationBytes text).drop (clampOffset offset)).take (clampLimit limit) := by
  refine ⟨fun colons payload before after stderr frame hbefore hafter => ?_,
    fun text stream limit offset => ⟨fun chunk hchunk => ?_, ?_⟩⟩
  · have hbytes := payloadOf_printPayload colons payload hbefore hafter
    have hbound : (payload.take maxPayloadBytes).length ≤ 16 ^ 8 := by
      rw [List.length_take, maxPayloadBytes]
      omega
    refine ⟨segmentAnswer gunzip inflate utf8 prettyJson jwtText frame (payload.take maxPayloadBytes), ?_,
      rfl, shown hbound⟩
    rw [← hbytes]
    rfl
  · obtain ⟨raw, hraw, rfl⟩ := List.mem_map.mp hchunk
    rw [conversationChunk, unhexlify_hexText]
    exact shown (length_chunk hraw)
  · rw [← (parseFollowRaw_page text limit offset).bytes, conversationFromFollowOutput, List.flatMap_map]
    apply List.flatMap_congr
    intro raw hraw
    rw [conversationChunk, readDump_hexDump (length_chunk hraw)]
    rfl

end

/-- The law at work: two bytes with a colon between them, and a newline after. -/
theorem payload_shown_pair :
    printPayload true [72, 0] = "48:00".toList ∧
      ∃ answer, decodeSegment (fun _ => none) (fun _ _ => none) latin1 (fun _ => none) (fun _ => none) 3
          (.exited 0 ([] ++ printPayload true [72, 0] ++ ['\n']) []) = .ok answer ∧
        answer.frame = 3 ∧
        Shown (([72, 0] : Bytes).take maxPayloadBytes) answer.length answer.ascii answer.hex
          answer.hexRaw := by
  refine ⟨by decide, payload_shown.1 true [72, 0] [] ['\n'] [] 3 (List.forall_mem_nil _) ?_⟩
  intro c hc
  obtain rfl := List.mem_singleton.mp hc
  rfl

end PacketTrain.Decode
