import PacketTrain.Decode.Segment
import PacketTrain.Laws.Analysis.Http

/-!
# What is called base64

A payload is decoded as base64 exactly when it is the text that some bytes are encoded to, with white space
around it, and the bytes are four or more and mostly print (`tryBase64_eq_some`). Such a payload is taken
for nothing else: it is no HTTP message, no token and not compressed.
-/

namespace PacketTrain.Decode

open Lines Strings Hex Analysis

/-! ## White space at the ends -/

theorem stripBytes_append {before word after : Bytes} (hbefore : ∀ b ∈ before, isByteSpace b = true)
    (hafter : ∀ b ∈ after, isByteSpace b = true) (hword : ∀ b ∈ word, isByteSpace b = false) :
    stripBytes (before ++ word ++ after) = word :=
  trim_append hbefore hafter hword

theorem exists_stripBytes (data : Bytes) : ∃ before after, data = before ++ stripBytes data ++ after ∧
    (∀ b ∈ before, isByteSpace b = true) ∧ ∀ b ∈ after, isByteSpace b = true := by
  refine ⟨data.takeWhile isByteSpace, (data.dropWhile isByteSpace).rtakeWhile isByteSpace, ?_, ?_, ?_⟩
  · rw [stripBytes, List.append_assoc, List.rdropWhile_append_rtakeWhile, List.takeWhile_append_dropWhile]
  · exact fun b hb => List.mem_takeWhile_imp hb
  · exact fun b hb => List.mem_rtakeWhile_imp hb

theorem isByteSpace_iff {b : UInt8} : isByteSpace b = true ↔
    b = 9 ∨ b = 10 ∨ b = 11 ∨ b = 12 ∨ b = 13 ∨ b = 32 := by
  simp only [isByteSpace, decide_eq_true_eq, List.mem_cons, List.not_mem_nil, or_false,
    ← UInt8.toNat_inj, UInt8.reduceToNat]

theorem isByteSpace_of_isDigit {b : UInt8} (h : Base64.isDigit b = true) : isByteSpace b = false := by
  rw [Bool.eq_false_iff]
  intro hspace
  rcases isByteSpace_iff.mp hspace with rfl | rfl | rfl | rfl | rfl | rfl <;> cases h

/-- No white space is in what is written. -/
theorem isByteSpace_encode (data : Bytes) : ∀ b ∈ Base64.encode data, isByteSpace b = false := by
  obtain ⟨digits, n, hencode, -, hdigits⟩ := Base64.exists_encode data
  intro b hb
  rcases List.mem_append.mp (hencode ▸ hb) with hb | hb
  · exact isByteSpace_of_isDigit (hdigits b hb)
  · rw [List.eq_of_mem_replicate hb]
    rfl

/-! ## The texts -/

/-- Encoded bytes, with white space around. -/
def Wraps (data out : Bytes) : Prop := ∃ before after, data = before ++ Base64.encode out ++ after ∧
  (∀ b ∈ before, isByteSpace b = true) ∧ ∀ b ∈ after, isByteSpace b = true

/-- The bytes that a payload wraps are its own. -/
theorem Wraps.unique {data out out' : Bytes} (h : Wraps data out) (h' : Wraps data out') : out = out' := by
  obtain ⟨before, after, rfl, hbefore, hafter⟩ := h
  obtain ⟨before', after', heq, hbefore', hafter'⟩ := h'
  have hencode : Base64.encode out = Base64.encode out' := by
    rw [← stripBytes_append hbefore hafter (isByteSpace_encode out), heq,
      stripBytes_append hbefore' hafter' (isByteSpace_encode out')]
  have hdecode := Base64.decode_encode out
  rw [hencode, Base64.decode_encode, Option.some.injEq] at hdecode
  exact hdecode.symm

theorem isBase64Text_iff {text : Bytes} : isBase64Text text = true ↔
    ∃ digits n, text = digits ++ List.replicate n Base64.padding ∧ n ≤ 2 ∧ digits ≠ [] ∧
      ∀ b ∈ digits, Base64.isDigit b = true := by
  constructor
  · intro h
    simp only [isBase64Text, Bool.and_eq_true, decide_eq_true_eq, List.all_eq_true] at h
    obtain ⟨⟨hne, hdigits⟩, hlength⟩ := h
    have hpads : text.rtakeWhile (· = Base64.padding) =
        List.replicate (text.rtakeWhile (· = Base64.padding)).length Base64.padding :=
      List.eq_replicate_iff.mpr ⟨rfl, fun b hb => by simpa using List.mem_rtakeWhile_imp hb⟩
    have hsplit := List.rdropWhile_append_rtakeWhile (p := (· = Base64.padding)) (l := text)
    refine ⟨_, _, by rw [← hpads, hsplit], ?_, hne, hdigits⟩
    have hsum := congrArg List.length hsplit
    rw [List.length_append] at hsum
    omega
  · rintro ⟨digits, n, rfl, hn, hne, hdigits⟩
    simp only [isBase64Text, Base64.rdropWhile_padding hdigits, Bool.and_eq_true, decide_eq_true_eq,
      List.all_eq_true, List.length_append, List.length_replicate]
    exact ⟨⟨hne, hdigits⟩, by omega⟩

/-- Bytes are called base64 when they are the encoding of four bytes or more, most of which print. -/
theorem tryBase64_eq_some {data result : Bytes} : tryBase64 data = some result ↔
    ∃ out, Wraps data out ∧ 4 ≤ out.length ∧ mostlyPrintable (out.take 4096) = true ∧
      result = out.take maxPayloadBytes := by
  constructor
  · intro h
    rw [tryBase64] at h
    split at h
    · cases h
    next hlength =>
    rw [not_or, not_lt, not_not] at hlength
    split at h
    · cases h
    next htext =>
    rw [Bool.not_eq_true', Bool.not_eq_false] at htext
    split at h
    · cases h
    next out hdecode =>
    split at h
    · cases h
    split at h
    · cases h
    next hne hsame =>
    rw [not_not] at hsame
    split at h
    · cases h
    next hprint =>
    rw [Bool.not_eq_true', Bool.not_eq_false] at hprint
    obtain ⟨digits, n, hstripped, hn, -, hdigits⟩ := isBase64Text_iff.mp htext
    rw [hstripped] at hlength
    rw [hstripped, Base64.rdropWhile_padding hdigits] at hsame
    have hout := Base64.eq_encode hn hlength.2 hsame
    obtain ⟨before, after, hdata, hbefore, hafter⟩ := exists_stripBytes data
    rw [hstripped, hout] at hdata
    refine ⟨out, ⟨before, after, hdata, hbefore, hafter⟩, ?_, hprint, (Option.some.inj h).symm⟩
    rw [hout, Base64.length_encode] at hlength
    omega
  · rintro ⟨out, ⟨before, after, rfl, hbefore, hafter⟩, hlength, hprint, rfl⟩
    obtain ⟨digits, n, hencode, hn, hdigits⟩ := Base64.exists_encode out
    have hlen := Base64.length_encode out
    have htext : isBase64Text (Base64.encode out) = true := by
      refine isBase64Text_iff.mpr ⟨digits, n, hencode, hn, ?_, hdigits⟩
      rintro rfl
      rw [hencode, List.nil_append, List.length_replicate] at hlen
      omega
    rw [tryBase64, stripBytes_append hbefore hafter (isByteSpace_encode out), if_neg (by omega),
      if_neg (by simp [htext]), Base64.decode_encode]
    have hne : out ≠ [] := by
      rintro rfl
      cases hlength
    simp [hne, hprint]

/-! ## Nothing else -/

/-- Letters, digits, two signs and the padding. -/
theorem encode_chars {out : Bytes} {b : UInt8} (hb : b ∈ Base64.encode out) :
    (65 ≤ b.toNat ∧ b.toNat ≤ 90) ∨ (97 ≤ b.toNat ∧ b.toNat ≤ 122) ∨ (48 ≤ b.toNat ∧ b.toNat ≤ 57) ∨
      b.toNat = 43 ∨ b.toNat = 47 ∨ b.toNat = 61 := by
  obtain ⟨digits, n, hencode, -, hdigits⟩ := Base64.exists_encode out
  rcases List.mem_append.mp (hencode ▸ hb) with hb | hb
  · have hdigit := hdigits b hb
    rw [Base64.isDigit, Base64.value] at hdigit
    split_ifs at hdigit <;> first | omega | cases hdigit
  · rw [List.eq_of_mem_replicate hb]
    decide

theorem toNat_of_isSpace {c : Char} (h : isSpace c = true) :
    c.toNat ≤ 32 ∨ c.toNat = 0x85 ∨ 0xa0 ≤ c.toNat := by
  have hall : ∀ c ∈ spaces, c.toNat ≤ 32 ∨ c.toNat = 0x85 ∨ 0xa0 ≤ c.toNat := by
    simp only [spaces, List.forall_mem_map]
    decide
  exact hall c (of_decide_eq_true h)

theorem isSpace_encode {out : Bytes} {b : UInt8} (hb : b ∈ Base64.encode out) :
    isSpace (Char.ofNat b.toNat) = false := by
  rw [Bool.eq_false_iff]
  intro hspace
  have hnat := toNat_of_isSpace hspace
  have hchars := encode_chars hb
  rw [toNat_latin1] at hnat
  omega

/-- White space of bytes is white space of the text. -/
theorem isSpace_of_isByteSpace {b : UInt8} (hb : isByteSpace b = true) :
    isSpace (Char.ofNat b.toNat) = true := by
  rcases isByteSpace_iff.mp hb with rfl | rfl | rfl | rfl | rfl | rfl <;> rfl

theorem spacesAtEnds_of_wraps {data out : Bytes} (h : Wraps data out) : SpacesAtEnds (latin1 data) := by
  obtain ⟨before, after, rfl, hbefore, hafter⟩ := h
  have hspace : ∀ l : Bytes, (∀ b ∈ l, isByteSpace b = true) → ∀ c ∈ latin1 l, isSpace c = true := by
    intro l hl c hc
    obtain ⟨b, hb, rfl⟩ := List.mem_map.mp hc
    exact isSpace_of_isByteSpace (hl b hb)
  intro x y z hsub hx hz
  rw [latin1_append, latin1_append] at hsub
  -- the first of the three is not before the text, and the last is not after it
  obtain ⟨l, l', hsplit, hl, hl'⟩ := List.sublist_append_iff.mp hsub
  have hnil' : l' = [] := by
    cases hlast : l'.getLast? with
    | none => exact List.getLast?_eq_none_iff.mp hlast
    | some c =>
      have hc : [x, y, z].getLast? = some c := by rw [hsplit, List.getLast?_append, hlast]; rfl
      obtain rfl := Option.some.inj hc
      rw [hspace after hafter z (hl'.mem (List.mem_of_getLast? hlast))] at hz
      cases hz
  rw [hnil', List.append_nil] at hsplit
  obtain ⟨m, m', hsplit', hm, hm'⟩ := List.sublist_append_iff.mp (hsplit ▸ hl)
  have hnil : m = [] := by
    cases m with
    | nil => rfl
    | cons c m =>
      obtain ⟨rfl, -⟩ := List.cons.inj hsplit'
      rw [hspace before hbefore x (hm.mem List.mem_cons_self)] at hx
      cases hx
  rw [hnil, List.nil_append] at hsplit'
  have hy : y ∈ latin1 (Base64.encode out) := hm'.mem (hsplit' ▸ by simp)
  obtain ⟨b, hb, rfl⟩ := List.mem_map.mp hy
  exact isSpace_encode hb

/-- A start line has white space in it. -/
theorem exists_space_of_httpStart {line : Text} {start : HttpStart} (h : httpStart line = some start) :
    ∃ c ∈ line, isSpace c = true := by
  have hversion : Pattern.Consumes httpVersion := by
    have hdigit : Pattern.Consumes digit := Pattern.consumes_many _ _ _
    refine (Pattern.consumes_literal _).bind fun _ => hdigit.bind fun _ => ?_
    exact ((Pattern.consumes_literal _).bind fun _ => hdigit).opt.bind fun _ => Pattern.consumes_pure _
  have hmethod : Pattern.Consumes (Pattern.many Char.isUpper 3 (some 7)) := Pattern.consumes_many _ _ _
  have hstart := isSome_httpStart.mp (h ▸ rfl : (httpStart line).isSome = true)
  rcases hstart with hstart | hstart
  · obtain ⟨found, hfound⟩ := Option.isSome_iff_exists.mp hstart
    obtain ⟨pair, hpair, -⟩ := Option.map_eq_some_iff.mp hfound
    exact Pattern.exists_mem_of_many hmethod (List.mem_of_head? hpair)
  · obtain ⟨found, hfound⟩ := Option.isSome_iff_exists.mp hstart
    obtain ⟨pair, hpair, -⟩ := Option.map_eq_some_iff.mp hfound
    exact Pattern.exists_mem_of_many hversion (List.mem_of_head? hpair)

theorem splitHeaders_sublist (text : Text) : (splitHeaders text).1.Sublist text := by
  have hcut : ∀ {sep : Text} {parts : Text × Text}, cut sep text = some parts → parts.1.Sublist text := by
    intro sep parts h
    rw [cut_eq_some h, List.append_assoc]
    exact List.sublist_append_left _ _
  rw [splitHeaders]
  cases hcrlf : cut (blank .crlf) text with
  | some parts => exact hcut hcrlf
  | none =>
    cases hlf : cut (blank .lf) text with
    | some parts => exact hcut hlf
    | none => exact .refl _

/-- It is no message, -/
theorem parseHttp_of_wraps {data out : Bytes} (h : Wraps data out) : parseHttp data = none := by
  cases hlines : splitlines (splitHeaders (latin1 data)).1 with
  | nil => simp only [parseHttp, hlines]
  | cons line lines =>
    cases hstart : httpStart (strip line) with
    | none => simp only [parseHttp, hlines, hstart, Option.map_none]
    | some start =>
      obtain ⟨c, hc, hspace⟩ := exists_space_of_httpStart hstart
      have hline : line.Sublist (latin1 data) :=
        (sublist_of_mem_splitlines (hlines ▸ List.mem_cons_self)).trans (splitHeaders_sublist _)
      rw [noSpace_strip (spacesAtEnds_of_wraps h) hline c hc] at hspace
      cases hspace

/-- no token, -/
theorem jwtParts_of_wraps {data out : Bytes} (h : Wraps data out) :
    jwtParts (stripBytes data) = none := by
  obtain ⟨before, after, rfl, hbefore, hafter⟩ := h
  have hdot : (46 : UInt8) ∉ Base64.encode out := fun hmem => absurd (encode_chars hmem) (by decide)
  have hsplit : (Base64.encode out).splitOn 46 = [Base64.encode out] := by
    have hone : ([46].intercalate [Base64.encode out]).splitOn 46 = [Base64.encode out] :=
      List.splitOn_intercalate 46 (by simpa using hdot) (List.cons_ne_nil _ _)
    rwa [List.intercalate_singleton] at hone
  rw [stripBytes_append hbefore hafter (isByteSpace_encode out), jwtParts, hsplit]

/-- and not compressed. -/
theorem Wraps.ne_magic {data out : Bytes} (h : Wraps data out) : data.take 2 ≠ [0x1f, 0x8b] := by
  intro hmagic
  obtain ⟨before, after, rfl, hbefore, hafter⟩ := h
  have htake : (0x8b : UInt8) ∈ (before ++ Base64.encode out ++ after).take 2 := by
    rw [hmagic]
    decide
  have hmem := List.mem_of_mem_take htake
  rcases List.mem_append.mp hmem with hmem | hmem
  · rcases List.mem_append.mp hmem with hmem | hmem
    · exact absurd (hbefore _ hmem) (by decide)
    · exact absurd (encode_chars hmem) (by decide)
  · exact absurd (hafter _ hmem) (by decide)

/-! ## The law -/

section

variable {gunzip : Bytes → Option Bytes} {inflate : ℤ → Bytes → Option Bytes} {utf8 : Bytes → Text}
  {prettyJson : Bytes → Option Text} {jwtText : Bytes × Bytes → Option Text}

theorem json_ne : "json".toList ≠ "base64".toList := by decide

/-- A body is decoded from three encodings only. -/
theorem encoding_of_decodeBody {headers : List (Text × Text)} {bodyText : Text} {d : Decoding}
    (hd : decodeBody gunzip inflate utf8 headers bodyText = some d) (hok : d.ok = true) :
    d.encoding ∈ ["gzip".toList, "x-gzip".toList, "deflate".toList] := by
  obtain ⟨token, -, rfl⟩ := Option.map_eq_some_iff.mp hd
  dsimp only at hok ⊢
  split at hok
  · cases hok
  next out hout =>
  obtain ⟨raw, -, hout⟩ := Option.bind_eq_some_iff.mp hout
  split at hout
  next hgzip => exact List.mem_append_left ["deflate".toList] hgzip
  split at hout
  next hdeflate =>
    exact List.mem_append_right ["gzip".toList, "x-gzip".toList] (List.mem_singleton.mpr hdeflate)
  cases hout

/-- What is decoded of a message is no base64. -/
theorem encoding_of_http {message : HttpMessage} {d : Decoding}
    (hd : d ∈ decodedOfHttp gunzip inflate utf8 prettyJson message) (hok : d.ok = true) :
    d.encoding ≠ "base64".toList := by
  rw [decodedOfHttp, List.mem_append] at hd
  rcases hd with hd | hd
  · intro hbase64
    have hmem := encoding_of_decodeBody (Option.mem_toList.mp hd) hok
    rw [hbase64] at hmem
    exact absurd hmem (by decide)
  · dsimp only at hd
    split at hd
    · cases hd
    · obtain ⟨text, -, rfl⟩ := Option.map_eq_some_iff.mp (Option.mem_toList.mp hd)
      exact json_ne

/-- The decoding of a payload that wraps some bytes. -/
def Unwrapped (utf8 : Bytes → Text) (data : Bytes) (d : Decoding) : Prop :=
  ∃ out, Wraps data out ∧ 4 ≤ out.length ∧ mostlyPrintable (out.take 4096) = true ∧
    d = .of "base64" (some (out.take maxPayloadBytes).length) (utf8 (out.take maxPayloadBytes))

theorem mem_decodedOfBytes {data : Bytes}
    (hgunzip : ∀ out, gunzip data = some out → data.take 2 = [0x1f, 0x8b]) {d : Decoding} :
    (d ∈ decodedOfBytes gunzip utf8 jwtText data ∧ d.encoding = "base64".toList) ↔
      Unwrapped utf8 data d := by
  have hgzip : "gzip".toList ≠ "base64".toList := by decide
  have hjwt : "jwt".toList ≠ "base64".toList := by decide
  rw [decodedOfBytes]
  cases hunzip : gunzip data with
  | some out =>
    rw [tryGzip, hunzip]
    constructor
    · rintro ⟨hd, hencoding⟩
      obtain rfl := List.mem_singleton.mp hd
      exact absurd hencoding hgzip
    · rintro ⟨out', hwraps, -⟩
      exact absurd (hgunzip out hunzip) hwraps.ne_magic
  | none =>
    rw [tryGzip, hunzip]
    constructor
    · rintro ⟨hd, hencoding⟩
      rcases List.mem_append.mp hd with hd | hd
      · obtain ⟨result, hresult, rfl⟩ := Option.map_eq_some_iff.mp (Option.mem_toList.mp hd)
        obtain ⟨out, hwraps, hlength, hprint, rfl⟩ := tryBase64_eq_some.mp hresult
        exact ⟨out, hwraps, hlength, hprint, rfl⟩
      · obtain ⟨text, -, rfl⟩ := Option.map_eq_some_iff.mp (Option.mem_toList.mp hd)
        exact absurd hencoding hjwt
    · rintro ⟨out, hwraps, hlength, hprint, rfl⟩
      have hresult := tryBase64_eq_some.mpr ⟨out, hwraps, hlength, hprint, rfl⟩
      refine ⟨List.mem_append_left _ ?_, rfl⟩
      rw [hresult]
      exact List.mem_singleton_self _

/-- What is decoded as base64 is not empty. -/
theorem ne_nil_of_tryBase64 {data result : Bytes} (h : tryBase64 data = some result) : result ≠ [] := by
  obtain ⟨out, -, hlength, -, rfl⟩ := tryBase64_eq_some.mp h
  rw [Ne, List.take_eq_nil_iff, not_or]
  exact ⟨by decide, fun hnil => absurd (hnil ▸ hlength) (by decide)⟩

theorem jwtParts_of_tryBase64 {data result : Bytes} (h : tryBase64 data = some result) :
    jwtParts (stripBytes data) = none := by
  obtain ⟨out, hwraps, -⟩ := tryBase64_eq_some.mp h
  exact jwtParts_of_wraps hwraps

/-- Base64 is highlighted where it can be decoded and the whole payload prints. -/
theorem exists_detected {data : Bytes} : (∃ d ∈ detectFormats data, d.kind = "base64") ↔
    looksPrintable data = true ∧ ∃ result, tryBase64 data = some result := by
  constructor
  · rintro ⟨d, hd, hkind⟩
    rcases List.mem_append.mp hd with hd | hd
    · obtain ⟨-, hd⟩ := List.mem_ite_nil_right.mp hd
      obtain rfl := List.mem_singleton.mp hd
      exact absurd hkind (by decide)
    obtain ⟨hprint, hd⟩ := List.mem_ite_nil_right.mp hd
    rcases List.mem_append.mp hd with hd | hd
    · split at hd
      · obtain rfl := List.mem_singleton.mp hd
        exact absurd hkind (by decide)
      · cases htry : tryBase64 data with
        | none =>
          rw [htry] at hd
          cases hd
        | some result => exact ⟨hprint, result, rfl⟩
    · obtain ⟨-, hd⟩ := List.mem_ite_nil_right.mp hd
      obtain rfl := List.mem_singleton.mp hd
      exact absurd hkind (by decide)
  · rintro ⟨hprint, result, htry⟩
    obtain ⟨b, rest, rfl⟩ := List.exists_cons_of_ne_nil (ne_nil_of_tryBase64 htry)
    refine ⟨⟨"base64", "decodes cleanly and round-trips"⟩, ?_, rfl⟩
    simp [detectFormats, hprint, jwtParts_of_tryBase64 htry, htry]

/-- THE ENCODED PAYLOAD. Whatever the decompressors and the readers of JSON do, as long as gzip wants its
magic bytes: a segment's payload is decoded as base64 exactly when it is the encoding of four bytes or more
that mostly print, with white space around it; it is decoded to those bytes, up to the bound, and no other
bytes have that encoding. It is highlighted as base64 when it is decoded so and all of it prints. And it is
no HTTP message, no token and not compressed. -/
theorem base64_recognised (frame : ℕ) (data : Bytes)
    (hgunzip : ∀ out, data ≠ [] → gunzip data = some out → data.take 2 = [0x1f, 0x8b]) :
    let answer := segmentAnswer gunzip inflate utf8 prettyJson jwtText frame data
    (∀ d, (d ∈ answer.decoded ∧ d.encoding = "base64".toList ∧ d.ok = true) ↔ Unwrapped utf8 data d) ∧
      ((∃ d ∈ answer.detected, d.kind = "base64") ↔
        looksPrintable data = true ∧ ∃ d ∈ answer.decoded, d.encoding = "base64".toList ∧ d.ok = true) ∧
      (∀ out out', Wraps data out → Wraps data out' → out = out') ∧
      ∀ out, Wraps data out →
        parseHttp data = none ∧ jwtParts (stripBytes data) = none ∧ data.take 2 ≠ [0x1f, 0x8b] := by
  intro answer
  have hdecoded : ∀ d, (d ∈ answer.decoded ∧ d.encoding = "base64".toList ∧ d.ok = true) ↔
      Unwrapped utf8 data d := by
    intro d
    by_cases hnil : data = []
    · have heq : answer.decoded = [] := by simp only [answer, segmentAnswer, hnil, if_true]
      rw [heq]
      refine iff_of_false (fun h => List.not_mem_nil h.1) ?_
      rintro ⟨out, ⟨before, after, hdata, -, -⟩, hlength, -⟩
      have hsum := congrArg List.length (hdata.symm.trans hnil)
      rw [List.length_append, List.length_append, Base64.length_encode, List.length_nil] at hsum
      omega
    cases hparse : parseHttp data with
    | some message =>
      have heq : answer.decoded = decodedOfHttp gunzip inflate utf8 prettyJson message := by
        simp only [answer, segmentAnswer, if_neg hnil, hparse]
      rw [heq]
      refine iff_of_false (fun h => encoding_of_http h.1 h.2.2 h.2.1) ?_
      rintro ⟨out, hwraps, -⟩
      rw [parseHttp_of_wraps hwraps] at hparse
      cases hparse
    | none =>
      have heq : answer.decoded = decodedOfBytes gunzip utf8 jwtText data := by
        simp only [answer, segmentAnswer, if_neg hnil, hparse]
      have hmem : (d ∈ decodedOfBytes gunzip utf8 jwtText data ∧ d.encoding = "base64".toList) ↔
          Unwrapped utf8 data d := mem_decodedOfBytes fun out => hgunzip out hnil
      rw [heq, ← hmem, ← and_assoc, and_iff_left_iff_imp]
      intro h
      obtain ⟨out, -, -, -, rfl⟩ := hmem.mp h
      rfl
  refine ⟨hdecoded, exists_detected.trans (and_congr_right fun _ => ?_), fun _ _ => Wraps.unique,
    fun _ hwraps => ⟨parseHttp_of_wraps hwraps, jwtParts_of_wraps hwraps, hwraps.ne_magic⟩⟩
  constructor
  · rintro ⟨result, hresult⟩
    obtain ⟨out, hwraps, hlength, hprint, rfl⟩ := tryBase64_eq_some.mp hresult
    exact ⟨_, (hdecoded _).mpr ⟨out, hwraps, hlength, hprint, rfl⟩⟩
  · rintro ⟨d, hd⟩
    obtain ⟨out, hwraps, hlength, hprint, -⟩ := (hdecoded d).mp hd
    exact ⟨_, tryBase64_eq_some.mpr ⟨out, hwraps, hlength, hprint, rfl⟩⟩

end

/-- Two spaces, an encoded text and a newline. -/
def helloPayload : Bytes :=
  [32, 32, 83, 71, 86, 115, 98, 71, 56, 115, 73, 72, 100, 118, 99, 109, 120, 107, 10]

/-- The law at work: a greeting is decoded and highlighted. -/
theorem base64_recognised_hello :
    let answer := segmentAnswer (fun _ => none) (fun _ _ => none) latin1 (fun _ => none) (fun _ => none) 1
      helloPayload
    answer.decoded = [.of "base64" (some 12) "Hello, world".toList] ∧
      (∀ d, (d ∈ answer.decoded ∧ d.encoding = "base64".toList ∧ d.ok = true) ↔
        Unwrapped latin1 helloPayload d) ∧
      ((∃ d ∈ answer.detected, d.kind = "base64") ↔ looksPrintable helloPayload = true ∧
        ∃ d ∈ answer.decoded, d.encoding = "base64".toList ∧ d.ok = true) ∧
      (∀ out out', Wraps helloPayload out → Wraps helloPayload out' → out = out') ∧
      ∀ out, Wraps helloPayload out → parseHttp helloPayload = none ∧
        jwtParts (stripBytes helloPayload) = none ∧ helloPayload.take 2 ≠ [0x1f, 0x8b] :=
  ⟨by decide +kernel, base64_recognised 1 helloPayload (by rintro out - ⟨⟩)⟩

end PacketTrain.Decode
