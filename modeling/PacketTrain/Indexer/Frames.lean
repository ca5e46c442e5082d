import PacketTrain.Indexer.Index

/-!
# `original_frames`

`packettrain/indexing.py`, `original_frames`, and what `app.py` does with its answer. The server reads
the same `refs.bin` as `extract`, with a walk of its own: it needs the frame numbers only, to name the
packets of an extracted file after the frames of the capture.

The reference a row starts from is a signed column. `struct.unpack_from` takes a negative offset from
the end of the file; only the first reference can be one, the later ones are unsigned.
-/

namespace PacketTrain.Indexer

/-- Why `original_frames` raises. -/
inductive FramesError
  | missing (flowId : Nat)
  /-- `mmap` of an empty file. -/
  | empty
  | outside
  /-- `struct.error`: a negative offset before the start of the file. -/
  | unpack
  | crossedOwners
  | cycle
  | countMismatch (expected : Int) (found : Nat)
  /-- Not an error of the code: the loop was cut before it ended. -/
  | diverged
deriving DecidableEq, Repr

/-- The text of the exception. -/
def FramesError.text : FramesError → String
  | .missing flowId => toString flowId
  | .empty => "cannot mmap an empty file"
  | .outside => "flow reference lies outside refs.bin"
  | .unpack => "offset out of range"
  | .crossedOwners => "flow reference chain crossed owners"
  | .cycle => "flow reference chain contains a cycle"
  | .countMismatch expected found => s!"flow expected {expected} references, found {found}"
  | .diverged => "diverged"

/-- The row at a reference: the bounds check and `struct.unpack_from`. -/
def unpackRef (refs : Bytes) (current : Int) : Except FramesError RefRow :=
  let offset := current * (refSize : Int)
  if (refs.length : Int) < offset + refSize then .error .outside
  else
    let start := if offset < 0 then (refs.length : Int) + offset else offset
    if start < 0 then .error .unpack
    else
      match refs.slice start.toNat (start.toNat + refSize) with
      | none => .error .unpack
      | some row => .ok (RefRow.decode row)

/-- The loop of `original_frames`: frames are appended newest first. -/
def framesLoop (refs : Bytes) (flowId : Nat) (expected : Int) :
    Nat → Int → List Nat → Except FramesError (List Nat)
  | fuel, current, frames =>
    if current = noRef then .ok frames
    else
      match fuel with
      | 0 => .error .diverged
      | fuel + 1 => do
        let row ← unpackRef refs current
        if row.owner ≠ flowId then .error .crossedOwners
        else
          let frames := frames ++ [row.frame]
          if expected < frames.length then .error .cycle
          else framesLoop refs flowId expected fuel row.previous frames

/-- `original_frames`. -/
def originalFrames (refs : Bytes) (manifest : Manifest) (flowId : Nat) :
    Except FramesError (List Nat) :=
  match manifest.flows.find? fun row => row.id = flowId with
  | none => .error (.missing flowId)
  | some row =>
    if refs.isEmpty then .error .empty
    else do
      let frames ← framesLoop refs flowId row.packets (row.packets.toNat + 1) row.lastRef []
      if (frames.length : Int) ≠ row.packets then
        .error (.countMismatch row.packets frames.length)
      else .ok frames.reverse

/-- The frame of the capture for a frame of an extracted file; `none` is the server's refusal,
"Indexed frame mapping is inconsistent". -/
def originalFrame (frames : List Nat) (localFrame : Nat) : Option Nat :=
  if localFrame < 1 ∨ frames.length < localFrame then none else frames[localFrame - 1]?

end PacketTrain.Indexer
