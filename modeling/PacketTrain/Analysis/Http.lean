import PacketTrain.Lib.Pattern
import PacketTrain.Lib.Strings

/-!
# HTTP messages

`packettrain/payload.py`, `parse_http`: the payload of a segment as an HTTP message. The bytes are decoded
by Latin-1, the head is cut off at the first blank line, and its lines are read as a start line and
headers.

Left out: the decoding of the body.
-/

namespace PacketTrain.Analysis

open Lines Strings

/-! ## Start lines -/

def digit : Pattern Text := Pattern.many Char.isDigit 1 (some 1)

/-- `HTTP/\d(?:\.\d)?`. -/
def httpVersion : Pattern Unit := do
  Pattern.literal "HTTP/".toList
  let _ ← digit
  let _ ← Pattern.opt do
    Pattern.literal ['.']
    digit
  pure ()

/-- `_STATUS`, with the status code and the reason. -/
def statusPattern : Pattern (Text × Option Text) := do
  httpVersion
  let _ ← Pattern.many isSpace 1
  let code ← Pattern.many Char.isDigit 3 (some 3)
  let reason ← Pattern.opt do
    let _ ← Pattern.many isSpace 1
    Pattern.many (· ≠ '\n') 0
  Pattern.ending
  pure (code, reason)

/-- `_REQUEST`, with the method and the target. -/
def requestPattern : Pattern (Text × Text) := do
  let method ← Pattern.many Char.isUpper 3 (some 7)
  let _ ← Pattern.many isSpace 1
  let target ← Pattern.many (fun c => !isSpace c) 1
  let _ ← Pattern.many isSpace 1
  httpVersion
  Pattern.ending
  pure (method, target)

inductive HttpStart
  | request (method target : Text)
  | response (status : ℕ) (reason : Text)
deriving DecidableEq, Repr

/-- What a start line says; `none` when neither pattern matches it. -/
def httpStart (line : Text) : Option HttpStart :=
  match requestPattern.first line with
  | some (method, target) => some (.request method target)
  | none =>
    (statusPattern.first line).map fun found =>
      .response (Nat.ofDigitChars 10 found.1 0) (strip (found.2.getD []))

/-! ## Messages -/

structure HttpMessage where
  start : HttpStart
  startLine : Text
  headers : List (Text × Text)
  bodyText : Text
deriving DecidableEq, Repr

/-- A blank line: two line ends. -/
def blank (eol : LineEnd) : Text := eol.text ++ eol.text

/-- `_split_headers`. -/
def splitHeaders (text : Text) : Text × Text :=
  match cut (blank .crlf) text with
  | some parts => parts
  | none => (cut (blank .lf) text).getD (text, [])

/-- The header of a line; `none` for a line of white space or without a colon. -/
def headerOf (line : Text) : Option (Text × Text) :=
  if strip line = [] then none
  else (cut [':'] line).map fun parts => (strip parts.1, strip parts.2)

/-- `parse_http`. -/
def parseHttp (data : Bytes) : Option HttpMessage :=
  let parts := splitHeaders (latin1 data)
  match splitlines parts.1 with
  | [] => none
  | line :: lines =>
    (httpStart (strip line)).map fun start =>
      { start := start
        startLine := strip line
        headers := lines.filterMap headerOf
        bodyText := parts.2 }

end PacketTrain.Analysis
