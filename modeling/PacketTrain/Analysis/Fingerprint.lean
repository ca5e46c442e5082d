import PacketTrain.Lib.Dict
import PacketTrain.Lib.Hex

/-!
# TCP options

`packettrain/fingerprint.py`, `parse_options`: the option bytes of a SYN as an ordered list of
names. The loop goes from option to option by the lengths that the options state of themselves, so
it answers a fault where Python would raise: a byte is never read past the end as a default.
-/

namespace PacketTrain.Analysis

open Lines Hex

/-- Where `parse_options` would not return. -/
inductive OptionFault
  /-- `ValueError`: the text is not hexadecimal. -/
  | notHex
  /-- `IndexError`. -/
  | outOfRange
  /-- The loop ran past the bytes it has. -/
  | diverged
deriving DecidableEq, Repr

/-- `data[index]`. -/
def octetAt (data : Bytes) (index : ℕ) : Except OptionFault UInt8 :=
  match data[index]? with
  | some b => .ok b
  | none => .error .outOfRange

/-- `OPTION_NAMES`. -/
def optionNames : Dict ℕ String :=
  [(0, "eol"), (1, "nop"), (2, "mss"), (3, "ws"), (4, "sack"), (5, "sackperm"), (8, "ts")]

/-- `OPTION_NAMES.get(kind, f"kind{kind}")`. -/
def optionName (kind : UInt8) : Text :=
  match optionNames.find? fun item => item.1 = kind.toNat with
  | some item => item.2.toList
  | none => "kind".toList ++ decimal kind.toNat

/-- `f"malformed_{kind}"`. -/
def malformedName (kind : UInt8) : Text := "malformed_".toList ++ decimal kind.toNat

/-- The loop of `parse_options`. -/
def optionLoop (data : Bytes) : ℕ → ℕ → List Text → Except OptionFault (List Text)
  | fuel, index, names =>
    if index < data.length then
      match fuel with
      | 0 => .error .diverged
      | fuel + 1 => do
        let kind ← octetAt data index
        if kind = 0 then .ok names
        else if kind = 1 then optionLoop data fuel (index + 1) (names ++ ["nop".toList])
        else if data.length ≤ index + 1 then .ok names
        else do
          let length ← octetAt data (index + 1)
          if length < 2 ∨ data.length < index + length.toNat then
            .ok (names ++ [malformedName kind])
          else optionLoop data fuel (index + length.toNat) (names ++ [optionName kind])
    else .ok names

/-- `parse_options`. Every option takes a byte or more, so the bytes bound the loop. -/
def parseOptions (raw : Text) : Except OptionFault (List Text) :=
  if raw = [] then .ok []
  else
    match fromhex raw with
    | none => .error .notHex
    | some data => optionLoop data data.length 0 []

end PacketTrain.Analysis
