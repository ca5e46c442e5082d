import PacketTrain.Analysis.Follow
import PacketTrain.Analysis.Http
import PacketTrain.Decode.Rows
import PacketTrain.Lib.Base64

/-!
# The payload of one segment

`packettrain/payload.py`, `decode_segment`: the payload of a frame as TShark prints it, the bytes in four
spellings, and what the bytes are recognised as. What is recognised is decoded one level deep.

Decompression, JSON and UTF-8 are the standard library's and are parameters: each answers something, or
nothing where Python would raise. An HTTP message is read by `parseHttp`.
-/

namespace PacketTrain.Decode

open Lines Strings Hex Analysis

/-- `MAX_PAYLOAD_BYTES`. -/
def maxPayloadBytes : ℕ := 2 ^ 20

/-! ## Bytes -/

/-- The digits that TShark printed; what is not hexadecimal is no payload. -/
def payloadOf (stdout : Text) : Bytes :=
  let text := (strip stdout).filter (· ≠ ':')
  if text.length % 2 = 0 ∧ text.all isHexDigit then (unhexlify text).take maxPayloadBytes else []

/-- `_read_bytes`. -/
def readBytes : TsharkRun → Except Abort Bytes
  | .timedOut => .error ⟨504, "TShark timed out reading the payload".toList⟩
  | .missing => .error ⟨500, "TShark is unavailable".toList⟩
  | .exited returncode stdout stderr =>
    if returncode ≠ 0 then
      .error ⟨422, "TShark could not read this capture: ".toList ++ lastChars 500 stderr⟩
    else .ok (payloadOf stdout)

/-- The white space of `bytes.strip`. -/
def isByteSpace (b : UInt8) : Bool := b.toNat ∈ [9, 10, 11, 12, 13, 32]

/-- `data.strip()`. -/
def stripBytes (data : Bytes) : Bytes := (data.dropWhile isByteSpace).rdropWhile isByteSpace

/-- `32 <= b < 127 or b in (9, 10, 13)`. -/
def isPrintable (b : UInt8) : Bool := (32 ≤ b.toNat && b.toNat < 127) || b.toNat ∈ [9, 10, 13]

/-- `_looks_printable`. -/
def looksPrintable (data : Bytes) : Bool := data ≠ [] && data.all isPrintable

/-! ## Base64 -/

/-- `_B64.match`, of a text that does not end in a newline. -/
def isBase64Text (text : Bytes) : Bool :=
  let digits := text.rdropWhile (· = Base64.padding)
  digits ≠ [] && digits.all Base64.isDigit && text.length ≤ digits.length + 2

/-- `printable / len(sample) < 0.85` is false. -/
def mostlyPrintable (sample : Bytes) : Bool := 85 * sample.length ≤ 100 * sample.countP isPrintable

/-- `_try_base64`. -/
def tryBase64 (data : Bytes) : Option Bytes :=
  let stripped := stripBytes data
  if stripped.length < 8 ∨ stripped.length % 4 ≠ 0 then none
  else if !isBase64Text stripped then none
  else
    match Base64.decode stripped with
    | none => none
    | some out =>
      if out = [] then none
      else if (Base64.encode out).rdropWhile (· = Base64.padding) ≠
          stripped.rdropWhile (· = Base64.padding) then none
      else if !mostlyPrintable (out.take 4096) then none
      else some (out.take maxPayloadBytes)

/-! ## Recognition -/

/-- `[A-Za-z0-9_-]`. -/
def isUrlDigit (b : UInt8) : Bool :=
  (65 ≤ b.toNat && b.toNat ≤ 90) || (97 ≤ b.toNat && b.toNat ≤ 122) || (48 ≤ b.toNat && b.toNat ≤ 57) ||
    b.toNat ∈ [45, 95]

/-- `_JWT.match`, of a token that does not end in a newline, with its first two parts. -/
def jwtParts (token : Bytes) : Option (Bytes × Bytes) :=
  match token.splitOn 46 with
  | [header, payload, signature] =>
    if header ≠ [] ∧ payload ≠ [] ∧ (header ++ payload ++ signature).all isUrlDigit then
      some (header, payload)
    else none
  | _ => none

/-- An entry of `detect_formats`. -/
structure Detected where
  kind : String
  reason : String
deriving DecidableEq, Repr

/-- `detect_formats`. -/
def detectFormats (data : Bytes) : List Detected :=
  (if data.take 2 = [0x1f, 0x8b] then [⟨"gzip", "gzip magic 1f 8b"⟩] else []) ++
  if looksPrintable data then
    (if (jwtParts (stripBytes data)).isSome then [⟨"jwt", "three base64url fields"⟩]
      else
        match tryBase64 data with
        | some (_ :: _) => [⟨"base64", "decodes cleanly and round-trips"⟩]
        | _ => []) ++
    if (data.dropWhile isByteSpace).head? ∈ [some 0x7b, some 0x5b] then
      [⟨"json", "starts with a JSON container"⟩]
    else []
  else []

/-! ## The panel -/

/-- An entry of `decoded`. -/
structure Decoding where
  encoding : Text
  ok : Bool
  bytes : Option ℕ
  text : Option Text
  note : Option Text
deriving DecidableEq, Repr

/-- A decoding that worked, with the number of its bytes. -/
def Decoding.of (encoding : String) (bytes : Option ℕ) (text : Text) : Decoding :=
  ⟨encoding.toList, true, bytes, some text, none⟩

/-- `c.lower()`, of a character of Latin-1. -/
def lower (c : Char) : Char :=
  if 0xc0 ≤ c.toNat ∧ c.toNat ≤ 0xde ∧ c.toNat ≠ 0xd7 then Char.ofNat (c.toNat + 32) else c.toLower

/-- `_content_encoding`: the first encoding that a header names. -/
def contentEncoding (headers : List (Text × Text)) : Option Text :=
  headers.findSome? fun header =>
    if header.1.map lower = "content-encoding".toList then
      ((header.2.splitOn ',').map fun token => (strip token).map lower).find? (· ≠ [])
    else none

structure SegmentAnswer where
  frame : ℕ
  length : ℕ
  ascii : Text
  hex : List Text
  hexRaw : Text
  http : Option HttpMessage
  decoded : List Decoding
  detected : List Detected
deriving DecidableEq, Repr

section

-- `gzip.decompress`, `zlib.decompress` with its window bits, `bytes.decode("utf-8", "replace")`, JSON
-- read and printed again, and the JSON of the two parts of a token
variable (gunzip : Bytes → Option Bytes) (inflate : ℤ → Bytes → Option Bytes) (utf8 : Bytes → Text)
  (prettyJson : Bytes → Option Text) (jwtText : Bytes × Bytes → Option Text)

/-- `_try_gzip`. -/
def tryGzip (data : Bytes) : Option Bytes := (gunzip data).map (·.take maxPayloadBytes)

/-- `_try_zlib`. -/
def tryZlib (data : Bytes) : Option Bytes :=
  ([15, -15, 47].findSome? fun wbits => inflate wbits data).map (·.take maxPayloadBytes)

/-- `_decode_body`. Brotli is not decoded. -/
def decodeBody (headers : List (Text × Text)) (bodyText : Text) : Option Decoding :=
  (contentEncoding headers).map fun token =>
    let out := do
      let raw ← encodeLatin1 bodyText
      if token ∈ ["gzip".toList, "x-gzip".toList] then tryGzip gunzip raw
      else if token = "deflate".toList then tryZlib inflate raw
      else none
    match out with
    | none =>
      ⟨token, false, none, none,
        some ("Content-Encoding: ".toList ++ token ++ " could not be decoded here".toList)⟩
    | some out => ⟨token, true, some out.length, some (utf8 out), none⟩

/-- `decoded`, of a message. -/
def decodedOfHttp (message : HttpMessage) : List Decoding :=
  (decodeBody gunzip inflate utf8 message.headers message.bodyText).toList ++
  let body := strip message.bodyText
  if body = [] then []
  else (((encodeLatin1 body).bind prettyJson).map (Decoding.of "json" none)).toList

/-- `decoded`, of bytes that are no message. -/
def decodedOfBytes (data : Bytes) : List Decoding :=
  match tryGzip gunzip data with
  | some out => [Decoding.of "gzip" (some out.length) (utf8 out)]
  | none =>
    ((tryBase64 data).map fun out => Decoding.of "base64" (some out.length) (utf8 out)).toList ++
      (((jwtParts (stripBytes data)).bind jwtText).map (Decoding.of "jwt" none)).toList

/-- `decode_segment`, of the bytes. -/
def segmentAnswer (frame : ℕ) (data : Bytes) : SegmentAnswer :=
  let http := if data = [] then none else parseHttp data
  { frame := frame
    length := data.length
    ascii := asciiView data
    hex := hexDump data
    hexRaw := hexText data
    http := http
    decoded :=
      match http with
      | some message => decodedOfHttp gunzip inflate utf8 prettyJson message
      | none => if data = [] then [] else decodedOfBytes gunzip utf8 jwtText data
    detected := detectFormats data }

/-- `decode_segment`. -/
def decodeSegment (frame : ℕ) (run : TsharkRun) : Except Abort SegmentAnswer := do
  let data ← readBytes run
  .ok (segmentAnswer gunzip inflate utf8 prettyJson jwtText frame data)

end

end PacketTrain.Decode
