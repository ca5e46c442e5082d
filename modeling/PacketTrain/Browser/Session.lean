import PacketTrain.Analysis.Follow

/-!
# The explorer page and its requests

`index.html`, the part of the script that talks to the server: `refresh`, `streams`, `loadSelectedFlow`,
`installCombined`, `loadConversationPayload`, `loadPayload`, `clearPayload`, with `conversation_payload`
of `app.py` at the other end. The script is one thread; between two of its turns lie the answers it waits
for, which come back in any order, late, or as failures. So a step is a turn: something the user does, or
one answer with what the script does about it up to its next `await`.

Every request carries the number its counter had when it was sent, `streamRequest` or
`payloadState.request`, and an answer whose number is no longer the counter's is dropped.

Left out: what is drawn, the status line, `include_streams`, which only makes an answer shorter, and
the playback model, which is asked for apart.
-/

namespace PacketTrain.Browser

open Analysis Lines

abbrev File := String

/-! ## The server -/

/-- The server as the page sees it: each answer is a function of what was asked. The report is that of
TShark's follow engine for one stream of a file. -/
structure Server (Segment : Type) where
  report : File → ℕ → Text
  /-- The streams an index lists. -/
  indexed : File → List ℕ
  segment : Option File → Option ℕ → ℕ → Segment

/-- `/api/conversation-payload`, for a stream and an offset the page sends as decimal numbers; `none`
is a refusal. -/
def conversationPayload (report : ℕ → Text) (stream : ℕ) (full : Bool) (offset : ℕ) :
    Option Conversation :=
  if 10 ^ 8 ≤ stream ∨ 10 ^ 12 ≤ offset then none
  else
    let limit := if full then maxConversationPageBytes else conversationPreviewBytes
    some (conversationFromFollowOutput (report stream) stream limit offset)

/-! ## The page -/

/-- `flow`. The file is not in it: nothing that runs reads it. -/
structure Flow where
  file : File
  stream : ℕ
deriving DecidableEq, Repr

/-- What the payload card shows. -/
inductive Payload (Segment : Type)
  | conversation (d : Conversation)
  | segment (d : Segment)

/-- `payloadState`, without the view. -/
structure PayloadState (Segment : Type) where
  frame : Option ℕ
  data : Option (Payload Segment)
  loading : Bool
  request : ℕ

/-- `payloadState.data`, when it is a conversation. -/
def PayloadState.conversation {Segment : Type} (p : PayloadState Segment) : Option Conversation :=
  match p.data with
  | some (.conversation d) => some d
  | _ => none

/-- A request under way, with what its continuation holds. -/
inductive Pending
  /-- `refresh`: `/api/files`. -/
  | files (previous : Option File)
  /-- `streams`: `/api/index`, asked until it is settled. -/
  | index (request : ℕ) (file : File)
  /-- `streams`: `/api/bootstrap`, of a listed stream or of the capture's first. -/
  | first (request : ℕ) (file : File) (stream : Option ℕ)
  /-- `loadSelectedFlow`: `/api/bootstrap`. -/
  | selected (request : ℕ) (file : File) (stream : ℕ)
  | conversation (request : ℕ) (file : Option File) (stream : ℕ) (full : Bool)
    (previous : Option Conversation)
  | segment (request : ℕ) (file : Option File) (stream : Option ℕ) (frame : ℕ)

structure Page (Segment : Type) where
  /-- `$('file').value`, and its options. -/
  file : Option File
  /-- `$('stream').value`. -/
  stream : Option ℕ
  flow : Option Flow
  streamRequest : ℕ
  payload : PayloadState Segment
  pending : List Pending

/-- What comes back for a request. -/
inductive Answer
  /-- The server's answer; for `/api/files`, the files there are. -/
  | ok (files : List File)
  | failed
  /-- The answer 202: the capture is being indexed. -/
  | indexing
  /-- `/api/index` only: the capture cannot be indexed. -/
  | unsupported
deriving DecidableEq, Repr

/-- What the address bar asks for. -/
structure Requested where
  file : Option File
  stream : Option ℕ

/-- A turn of the script. -/
inductive Turn
  | refresh
  | chooseFile (file : Option File)
  | chooseStream (stream : ℕ)
  | load
  /-- `loadConversationPayload`. -/
  | conversation (full : Bool)
  /-- `loadPayload`, for a row, a point or the next record. -/
  | packet (frame : ℕ)
  | answer (k : ℕ) (a : Answer)
deriving DecidableEq, Repr

variable {Segment : Type}

/-- `clearPayload`. -/
def PayloadState.clear (p : PayloadState Segment) : PayloadState Segment where
  frame := none
  data := none
  loading := false
  request := p.request + 1

/-- `streams`, up to its first `await`. -/
def Page.streams (p : Page Segment) : Page Segment :=
  let p := { p with
    streamRequest := p.streamRequest + 1
    flow := none
    payload := p.payload.clear
    stream := none }
  match p.file with
  | none => p
  | some file => { p with pending := p.pending ++ [.index p.streamRequest file] }

/-- `loadSelectedFlow`, up to its `await`. -/
def Page.loadSelectedFlow (p : Page Segment) : Page Segment :=
  let p := { p with streamRequest := p.streamRequest + 1 }
  match p.file, p.stream with
  | some file, some stream =>
    { p with pending := p.pending ++ [.selected p.streamRequest file stream] }
  | _, _ => p

/-- `installCombined`: the flow of a bootstrap answer, and its preview of the conversation. -/
def Page.installCombined (server : Server Segment) (file : File) (stream : ℕ) (p : Page Segment) :
    Page Segment :=
  { p with
    flow := some ⟨file, stream⟩
    payload := {
      frame := none
      data := some (.conversation
        (conversationFromFollowOutput (server.report file stream) stream conversationPreviewBytes 0))
      loading := false
      request := p.payload.request + 1 } }

/-- `loadConversationPayload`, up to its `await`. -/
def Page.loadConversationPayload (full : Bool) (p : Page Segment) : Page Segment :=
  match p.flow with
  | none => p
  | some flow =>
    let previous := if full then p.payload.conversation else none
    let request := p.payload.request + 1
    { p with
      payload := {
        frame := none
        data := previous.map .conversation
        loading := true
        request := request }
      pending := p.pending ++ [.conversation request p.file flow.stream full previous] }

/-- `loadPayload`, up to its `await`. -/
def Page.loadPayload (frame : ℕ) (p : Page Segment) : Page Segment :=
  let request := p.payload.request + 1
  { p with
    payload := { frame := some frame, data := none, loading := true, request := request }
    pending := p.pending ++ [.segment request p.file (p.flow.map Flow.stream) frame] }

/-- The page appended to what is there. -/
def appendPage (previous d : Conversation) : Conversation :=
  let length := previous.length + d.length
  { d with
    offset := 0
    chunks := previous.chunks ++ d.chunks
    length := length
    loadedThrough := length
    nodes := previous.nodes.merge [] d.nodes
    truncated := length < d.totalLength }

/-- An answer, after what the request kept. -/
def joined (previous : Option Conversation) (d : Conversation) : Conversation :=
  match previous with
  | some previous => appendPage previous d
  | none => d

/-- The stream that a listing selects: the one the address bar names, or the first. -/
def listed (requested : Option ℕ) (ids : List ℕ) : Option ℕ :=
  match requested with
  | some stream => if stream ∈ ids then some stream else ids.head?
  | none => ids.head?

/-- The rest of a request, once its answer is there. The request itself is taken out of `pending`
before, and a continuation that asks again puts a new one in. -/
def resume (server : Server Segment) (requested : Requested) (p : Page Segment) :
    Pending → Answer → Page Segment
  | .files previous, .ok files =>
    let kept := match previous with
      | some file => if file ∈ files then some file else files.head?
      | none => files.head?
    { p with file := kept }.streams
  | .index request file, .ok _ =>
    if request ≠ p.streamRequest then p
    else
      let ids := server.indexed file
      let p := { p with stream := listed requested.stream ids }
      if ids = [] then p
      else { p with pending := p.pending ++ [.first request file p.stream] }
  | .index request file, .unsupported =>
    if request ≠ p.streamRequest then p
    else { p with pending := p.pending ++ [.first request file none] }
  | .index request file, .indexing => { p with pending := p.pending ++ [.index request file] }
  | .first request file (some stream), .ok _ =>
    if request ≠ p.streamRequest then p else p.installCombined server file stream
  -- 202 is no failure, and the answer has no flow: `installCombined` leaves right after the assignment
  | .first request _ (some _), .indexing | .selected request _ _, .indexing =>
    if request ≠ p.streamRequest then p else { p with flow := none }
  -- without an index the capture's stream 0 comes with the list
  | .first request file none, .ok _ =>
    if request ≠ p.streamRequest then p
    else { p with stream := some 0 }.installCombined server file 0
  | .selected request file stream, .ok _ =>
    if request ≠ p.streamRequest then p else p.installCombined server file stream
  | .conversation request file stream full previous, .ok _ =>
    if p.payload.request ≠ request then p
    else
      match file.bind fun file => conversationPayload (server.report file) stream full
          ((previous.map Conversation.length).getD 0) with
      -- a refusal
      | none => { p with payload := { p.payload with
          loading := false, data := previous.map .conversation } }
      | some d => { p with payload := { p.payload with
          loading := false, data := some (.conversation (joined previous d)) } }
  | .conversation request _ _ _ previous, .failed =>
    if p.payload.request ≠ request then p
    else { p with payload := { p.payload with
      loading := false, data := previous.map .conversation } }
  | .segment request file stream frame, .ok _ =>
    if p.payload.request ≠ request then p
    else { p with payload := { p.payload with
      loading := false, data := some (.segment (server.segment file stream frame)) } }
  | .segment request _ _ _, .failed =>
    if p.payload.request ≠ request then p
    else { p with payload := { p.payload with loading := false } }
  -- an error of the other requests goes to the status line
  | _, _ => p

/-- `conversationText(d,'raw')`: what the raw copy button copies. -/
def conversationRaw (d : Conversation) : Text := (d.chunks.map (·.hexRaw)).flatten

/-- One turn. -/
def turn (server : Server Segment) (requested : Requested) (p : Page Segment) :
    Turn → Option (Page Segment)
  | .refresh => some { p with pending := p.pending ++ [.files (p.file <|> requested.file)] }
  | .chooseFile file => some { p with file := file }.streams
  | .chooseStream stream => some { p with stream := some stream }.loadSelectedFlow
  | .load => some p.loadSelectedFlow
  | .conversation full => some (p.loadConversationPayload full)
  | .packet frame => some (p.loadPayload frame)
  | .answer k a => do
    let request ← p.pending[k]?
    some (resume server requested { p with pending := p.pending.eraseIdx k } request a)

/-- The page before its first request. -/
def Page.start : Page Segment where
  file := none
  stream := none
  flow := none
  streamRequest := 0
  payload := ⟨none, none, false, 0⟩
  pending := []

end PacketTrain.Browser
