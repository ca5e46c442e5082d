import PacketTrain.Lib.Dict
import PacketTrain.Lib.Hex
import PacketTrain.Lib.Pattern
import PacketTrain.Lib.Strings

/-!
# Conversations

`packettrain/payload.py`, `parse_follow_raw` and `conversation_from_follow_output`: a page of the payload
of a stream, from the report of TShark's follow engine. A line of the report is a run of bytes in
hexadecimal, one direction indented by a tab; the parser counts all of them and keeps those of the page.
-/

namespace PacketTrain.Analysis

open Lines Strings Hex

/-- `CONVERSATION_PREVIEW_BYTES`. -/
def conversationPreviewBytes : ℤ := 1000

/-- `MAX_CONVERSATION_PAGE_BYTES`. -/
def maxConversationPageBytes : ℤ := 2 ^ 20

/-! ## The report -/

/-- `_FOLLOW_NODE`, with the node and its address. -/
def followNode : Pattern (Text × Text) := do
  Pattern.literal "Node ".toList
  let node ← Pattern.many (fun c => c = '0' || c = '1') 1 (some 1)
  Pattern.literal [':']
  let _ ← Pattern.many isSpace 0
  let name ← Pattern.many (· ≠ '\n') 1
  Pattern.ending
  pure (node, name)

/-- An even number of digits, at least two, and nothing else. -/
def isHexLine (rawHex : Text) : Bool :=
  rawHex ≠ [] && rawHex.length % 2 = 0 && rawHex.all isHexDigit

/-- The direction of a line. -/
def lineNode (line : Text) : ℕ := if line.head? = some '\t' then 1 else 0

/-- Bytes of one direction. -/
structure Chunk where
  node : ℕ
  data : Bytes
deriving DecidableEq, Repr

structure FollowState where
  nodes : Dict ℕ Text
  chunks : List Chunk
  total : ℕ
  kept : ℕ
deriving DecidableEq, Repr

/-- Bytes after the chunks, in the last one when it is of the same direction. -/
def extendChunks (chunks : List Chunk) (node : ℕ) (data : Bytes) : List Chunk :=
  match chunks.getLast? with
  | some last =>
    if last.node = node then chunks.dropLast ++ [{ last with data := last.data ++ data }]
    else chunks ++ [⟨node, data⟩]
  | none => chunks ++ [⟨node, data⟩]

/-- The loop body of `parse_follow_raw`. -/
def followLine (limit offset : ℕ) (state : FollowState) (line : Text) : FollowState :=
  match followNode.first (strip line) with
  | some (node, name) =>
    { state with nodes := state.nodes.update [] (Nat.ofDigitChars 10 node 0) fun _ => name }
  | none =>
    let rawHex := strip line
    if !isHexLine rawHex then state
    else
      let size := rawHex.length / 2
      let skip := offset - state.total
      let counted := { state with total := state.total + size }
      let take := min (size - skip) (limit - state.kept)
      if size ≤ skip ∨ take = 0 then counted
      else
        let data := unhexlify ((rawHex.drop (skip * 2)).take (take * 2))
        { counted with
          kept := state.kept + data.length
          chunks := extendChunks state.chunks (lineNode line) data }

/-- `max(1, min(limit, MAX_CONVERSATION_PAGE_BYTES))`. -/
def clampLimit (limit : ℤ) : ℕ := (max 1 (min limit maxConversationPageBytes)).toNat

/-- `max(0, offset)`. -/
def clampOffset (offset : ℤ) : ℕ := (max 0 offset).toNat

/-- `parse_follow_raw`. -/
def parseFollowRaw (text : Text) (limit : ℤ := conversationPreviewBytes) (offset : ℤ := 0) :
    FollowState :=
  (splitlines text).foldl (followLine (clampLimit limit) (clampOffset offset)) ⟨[], [], 0, 0⟩

/-! ## The page -/

/-- `ascii_view`. -/
def asciiView (data : Bytes) : Text :=
  data.map fun b =>
    if (32 ≤ b.toNat ∧ b.toNat < 127) ∨ b.toNat ∈ [9, 10, 13] then Char.ofNat b.toNat else '.'

/-- A row of `hex_dump`. -/
def hexRow (width offset : ℕ) (chunk : Bytes) : Text :=
  (Nat.toDigits 16 offset).leftpad 8 '0' ++ [' ', ' '] ++
    ([' '].intercalate (chunk.map hexByte)).rightpad (width * 3 - 1) ' ' ++ [' ', ' '] ++ asciiView chunk

/-- `hex_dump`. -/
def hexDump (data : Bytes) (width : ℕ := 16) : List Text :=
  (List.range ((data.length + width - 1) / width)).map fun row =>
    hexRow width (row * width) ((data.drop (row * width)).take width)

/-- A chunk of the response. -/
structure ConversationChunk where
  node : ℕ
  length : ℕ
  ascii : Text
  hex : List Text
  hexRaw : Text
deriving DecidableEq, Repr

structure Conversation where
  scope : String
  stream : ℕ
  nodes : Dict Text Text
  chunks : List ConversationChunk
  offset : ℤ
  length : ℕ
  loadedThrough : ℤ
  totalLength : ℕ
  truncated : Bool
  limit : ℤ
  maxPageLength : ℤ
deriving DecidableEq, Repr

def conversationChunk (chunk : Chunk) : ConversationChunk where
  node := chunk.node
  length := chunk.data.length
  ascii := asciiView chunk.data
  hex := hexDump chunk.data
  hexRaw := hexText chunk.data

/-- `conversation_from_follow_output`. -/
def conversationFromFollowOutput (text : Text) (stream : ℕ) (limit : ℤ := conversationPreviewBytes)
    (offset : ℤ := 0) : Conversation :=
  let parsed := parseFollowRaw text limit offset
  let chunks := parsed.chunks.map conversationChunk
  let returned := (chunks.map (·.length)).sum
  { scope := "conversation"
    stream := stream
    nodes := parsed.nodes.map fun item => (Nat.toDigits 10 item.1, item.2)
    chunks := chunks
    offset := offset
    length := returned
    loadedThrough := offset + returned
    totalLength := parsed.total
    truncated := offset + returned < parsed.total
    limit := limit
    maxPageLength := maxConversationPageBytes }

end PacketTrain.Analysis
