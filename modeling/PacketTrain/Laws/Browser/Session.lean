import PacketTrain.Browser.Session
import PacketTrain.Laws.Analysis.Follow
import PacketTrain.Laws.Decode.Rows
import PacketTrain.Lib.System

/-!
# What the page shows

Over every order of turns, with answers late, lost, failed or overtaken. `PageInv` is the invariant: the
flow is of the selected file, what the payload card shows is of that flow, and a request whose number is
still the counter's asks for what is selected now. `page_consistent` reads it off; `settles_on_selected`
is the flow once no load is under way; `loads_whole` says that the load button gets to the end.

A conversation on the page is a prefix (`PrefixOf`), whatever pages it was put together from: `append_page`
is the step.
-/

namespace PacketTrain.Browser

open Analysis Lines Strings Hex

/-! ## Conversations page by page -/

/-- The nodes of a report. -/
def reportNodes (text : Text) : Dict Text Text :=
  (parseFollowRaw text).nodes.map fun item => (Nat.toDigits 10 item.1, item.2)

/-- The conversation begins the stream's, and says so. -/
structure PrefixOf (text : Text) (stream : ℕ) (d : Conversation) : Prop where
  bytes : d.bytes = (conversationBytes text).take d.length
  length : d.length ≤ (conversationBytes text).length
  totalLength : d.totalLength = (conversationBytes text).length
  truncated : d.truncated = true ↔ d.length < (conversationBytes text).length
  loaded : d.loadedThrough = d.length
  nodes : d.nodes = reportNodes text
  scope : d.scope = "conversation"
  stream : d.stream = stream
  /-- A chunk shows its own bytes. -/
  chunks : ∀ c ∈ d.chunks, ∃ chunk : Chunk, c = conversationChunk chunk

/-- A line's effect on the nodes depends on the nodes alone. -/
theorem nodes_followLine {limit limit' offset offset' : ℕ} {state state' : FollowState}
    (h : state.nodes = state'.nodes) (line : Text) :
    (followLine limit offset state line).nodes = (followLine limit' offset' state' line).nodes := by
  rw [followLine, followLine]
  cases followNode.first (strip line) with
  | some named => simp only [h]
  | none =>
    simp only
    repeat' split
    all_goals exact h

/-- Every page names the nodes of the whole report. -/
theorem nodes_parseFollowRaw (text : Text) (limit offset : ℤ) :
    (parseFollowRaw text limit offset).nodes = (parseFollowRaw text).nodes := by
  have hlines : ∀ (lines : List Text) (state state' : FollowState), state.nodes = state'.nodes →
      (lines.foldl (followLine (clampLimit limit) (clampOffset offset)) state).nodes =
        (lines.foldl (followLine (clampLimit conversationPreviewBytes) (clampOffset 0)) state').nodes := by
    intro lines
    induction lines with
    | nil => exact fun _ _ h => h
    | cons line lines ih => exact fun state state' h => ih _ _ (nodes_followLine h line)
  exact hlines (splitlines text) _ _ rfl

theorem nodup_keys_followLine {limit offset : ℕ} {state : FollowState}
    (h : (Dict.keys state.nodes).Nodup) (line : Text) :
    (Dict.keys (followLine limit offset state line).nodes).Nodup := by
  rw [followLine]
  cases followNode.first (strip line) with
  | some named => exact Dict.nodup_keys_update h _ _ _
  | none =>
    simp only
    repeat' split
    all_goals exact h

theorem nodup_reportNodes (text : Text) : (Dict.keys (reportNodes text)).Nodup := by
  have hlines : ∀ (lines : List Text) (state : FollowState), (Dict.keys state.nodes).Nodup →
      (Dict.keys (lines.foldl (followLine (clampLimit conversationPreviewBytes) (clampOffset 0))
        state).nodes).Nodup := by
    intro lines
    induction lines with
    | nil => exact fun _ h => h
    | cons line lines ih => exact fun state h => ih _ (nodup_keys_followLine h line)
  have hnodes := hlines (splitlines text) ⟨[], [], 0, 0⟩ List.nodup_nil
  rw [Dict.keys, reportNodes, List.map_map]
  have hdigits : Function.Injective (Nat.toDigits 10) := fun a b hab => by
    simpa using congrArg (Nat.ofDigitChars 10 · 0) hab
  rw [show (Prod.fst ∘ fun item : ℕ × Text => (Nat.toDigits 10 item.1, item.2)) =
    Nat.toDigits 10 ∘ Prod.fst from rfl, ← List.map_map]
  exact hnodes.map hdigits

/-- What a response says of itself. -/
structure Response (text : Text) (stream : ℕ) (limit : ℤ) (offset : ℕ) (d : Conversation) : Prop where
  bytes : d.bytes = ((conversationBytes text).drop offset).take (clampLimit limit)
  length : d.length = d.bytes.length
  totalLength : d.totalLength = (conversationBytes text).length

theorem conversation_response (text : Text) (stream : ℕ) (limit : ℤ) (offset : ℕ) :
    Response text stream limit offset (conversationFromFollowOutput text stream limit offset) := by
  obtain ⟨hbytes, hloaded, -⟩ := response_page text stream limit offset
  refine ⟨hbytes, ?_, (parseFollowRaw_page text limit offset).total⟩
  have hsum : (conversationFromFollowOutput text stream limit offset).loadedThrough =
      (offset : ℤ) + (conversationFromFollowOutput text stream limit offset).length := rfl
  rw [hsum] at hloaded
  omega

/-- A first page. -/
theorem preview_prefix (text : Text) (stream : ℕ) (limit : ℤ) :
    PrefixOf text stream (conversationFromFollowOutput text stream limit 0) := by
  have h : Response text stream limit 0 (conversationFromFollowOutput text stream limit 0) :=
    conversation_response text stream limit 0
  have hbytes := h.bytes
  have hlength := h.length
  rw [List.drop_zero] at hbytes
  rw [hbytes, List.length_take] at hlength
  have hloaded : (conversationFromFollowOutput text stream limit 0).loadedThrough =
      0 + ((conversationFromFollowOutput text stream limit 0).length : ℤ) := rfl
  have htruncated : (conversationFromFollowOutput text stream limit 0).truncated = true ↔
      0 + ((conversationFromFollowOutput text stream limit 0).length : ℤ) <
        ((conversationFromFollowOutput text stream limit 0).totalLength : ℤ) := decide_eq_true_iff
  rw [h.totalLength] at htruncated
  refine ⟨?_, ?_, h.totalLength, ?_, ?_, ?_, rfl, rfl, ?_⟩
  · rw [hbytes, hlength]
    exact List.take_eq_take_min
  · omega
  · rw [htruncated, zero_add, Nat.cast_lt]
  · omega
  · rw [reportNodes, ← nodes_parseFollowRaw text limit 0]
    rfl
  · intro c hc
    obtain ⟨chunk, -, rfl⟩ := List.mem_map.mp hc
    exact ⟨chunk, rfl⟩

/-- THE NEXT PAGE: a prefix and the page asked for at its end make a longer prefix, by a full page or up
to the end. -/
theorem append_page {text : Text} {stream : ℕ} {previous : Conversation}
    (h : PrefixOf text stream previous) (limit : ℤ) :
    PrefixOf text stream
        (appendPage previous (conversationFromFollowOutput text stream limit previous.length)) ∧
      (appendPage previous (conversationFromFollowOutput text stream limit previous.length)).length =
        min (conversationBytes text).length (previous.length + clampLimit limit) := by
  have hnext := conversation_response text stream limit previous.length
  generalize hd : conversationFromFollowOutput text stream limit previous.length = d at hnext
  have hlength : d.length = min (clampLimit limit)
      ((conversationBytes text).length - previous.length) := by
    rw [hnext.length, hnext.bytes, List.length_take, List.length_drop]
  have hin := h.length
  have hsum : (appendPage previous d).length = previous.length + d.length := rfl
  have htruncated : (appendPage previous d).truncated = true ↔
      previous.length + d.length < d.totalLength := decide_eq_true_iff
  rw [hnext.totalLength] at htruncated
  refine ⟨⟨?_, by omega, hnext.totalLength, htruncated, rfl, ?_, ?_, ?_, ?_⟩, by omega⟩
  · have hbytes : (appendPage previous d).bytes = previous.bytes ++ d.bytes := by
      rw [Conversation.bytes, appendPage, List.flatMap_append]
      rfl
    rw [hbytes, h.bytes, hnext.bytes, hsum, List.take_add, hlength]
    congr 1
    rw [List.take_eq_take_min, List.length_drop]
  · have hsame : d.nodes = reportNodes text := by
      rw [← hd, reportNodes, ← nodes_parseFollowRaw text limit previous.length]
      rfl
    show previous.nodes.merge [] d.nodes = _
    rw [hsame, h.nodes]
    exact Dict.merge_of_subset (nodup_reportNodes text) [] fun _ hitem => hitem
  · rw [← hd]
    rfl
  · rw [← hd]
    rfl
  · intro c hc
    rcases List.mem_append.mp hc with hc | hc
    · exact h.chunks c hc
    · rw [← hd] at hc
      obtain ⟨chunk, -, rfl⟩ := List.mem_map.mp hc
      exact ⟨chunk, rfl⟩

/-! ## The invariant -/

variable {Segment : Type} {server : Server Segment} {requested : Requested} {p p' : Page Segment}

/-- The number of a request for a flow. -/
def Pending.loadNumber : Pending → Option ℕ
  | .index request _ | .first request _ _ | .selected request _ _ => some request
  | _ => none

/-- The flow is of the selected file, and it is the one on the page, unless that one is gone. -/
def Page.shows (p : Page Segment) (f : Flow) : Prop :=
  p.file = some f.file ∧ ∀ g, p.flow = some g → g = f

/-- The stream is that of the flow on the page, unless that one is gone. -/
def Page.streamOf (p : Page Segment) (stream : Option ℕ) : Prop :=
  p.flow = none ∨ stream = p.flow.map Flow.stream

/-- What a request asks for, when its number is still the counter's. -/
def PendingOk (server : Server Segment) (p : Page Segment) : Pending → Prop
  | .files _ => True
  | .index request file => request ≤ p.streamRequest ∧
    (request = p.streamRequest → p.file = some file ∧ p.flow = none)
  | .first request file stream => request ≤ p.streamRequest ∧
    (request = p.streamRequest → p.file = some file ∧ p.flow = none ∧
      ∀ s, stream = some s → p.stream = some s)
  | .selected request file stream => request ≤ p.streamRequest ∧
    (request = p.streamRequest → p.file = some file ∧ p.stream = some stream)
  | .conversation request file stream _ previous => request ≤ p.payload.request ∧
    (request = p.payload.request → ∃ f, p.shows f ∧ file = some f.file ∧ stream = f.stream ∧
      ∀ d, previous = some d → PrefixOf (server.report f.file f.stream) f.stream d)
  | .segment request file stream frame => request ≤ p.payload.request ∧
    (request = p.payload.request → file = p.file ∧ p.streamOf stream ∧
      p.payload.frame = some frame)

structure PageInv (server : Server Segment) (p : Page Segment) : Prop where
  flow : ∀ f, p.flow = some f → p.file = some f.file
  chosen : p.stream = none → p.flow = none
  conversation : ∀ d, p.payload.data = some (.conversation d) →
    ∃ f, p.shows f ∧ PrefixOf (server.report f.file f.stream) f.stream d
  segment : ∀ x, p.payload.data = some (.segment x) → ∃ frame stream,
    p.payload.frame = some frame ∧ p.streamOf stream ∧ x = server.segment p.file stream frame
  pending : ∀ q ∈ p.pending, PendingOk server p q
  /-- One load has the counter's number at most. -/
  single : p.pending.countP (fun q => q.loadNumber = some p.streamRequest) ≤ 1

theorem pageInv_start : PageInv server (Page.start : Page Segment) where
  flow := by
    rintro f ⟨⟩
  chosen := fun _ => rfl
  conversation := by
    rintro d ⟨⟩
  segment := by
    rintro x ⟨⟩
  pending := by
    rintro q ⟨⟩
  single := Nat.zero_le 1

/-! ### What a turn leaves of the other requests -/

/-- The loads stay what they were: overtaken, or about a page that is the same to them. -/
def KeepsLoad (p p' : Page Segment) (q : Pending) : Prop :=
  p.streamRequest < p'.streamRequest ∨ p'.streamRequest = p.streamRequest ∧
    (q.loadNumber ≠ some p.streamRequest ∨
      p'.file = p.file ∧ p'.stream = p.stream ∧ (p'.flow = p.flow ∨ p'.flow = none))

/-- And so do the payloads. -/
def KeepsPayload (p p' : Page Segment) : Prop :=
  p.payload.request < p'.payload.request ∨ p'.payload.request = p.payload.request ∧
    p'.payload.frame = p.payload.frame ∧ p'.file = p.file ∧ (p'.flow = p.flow ∨ p'.flow = none)

theorem Page.shows.keep {f : Flow} (h : p.shows f) (hfile : p'.file = p.file)
    (hflow : p'.flow = p.flow ∨ p'.flow = none) : p'.shows f := by
  refine ⟨hfile.trans h.1, fun g hg => ?_⟩
  rcases hflow with hflow | hflow
  · exact h.2 g (hflow ▸ hg)
  · rw [hflow] at hg
    cases hg

theorem Page.streamOf.keep {stream : Option ℕ} (h : p.streamOf stream)
    (hflow : p'.flow = p.flow ∨ p'.flow = none) : p'.streamOf stream := by
  rcases hflow with hflow | hflow
  · rw [Page.streamOf, hflow]
    exact h
  · exact .inl hflow

theorem PendingOk.keep {q : Pending} (h : PendingOk server p q) (hload : KeepsLoad p p' q)
    (hpayload : KeepsPayload p p') : PendingOk server p' q := by
  cases q with
  | files previous => trivial
  | index request file =>
    obtain ⟨hle, hcur⟩ := h
    rcases hload with hlt | ⟨hsame, hother | ⟨hfile, -, hflow⟩⟩
    · exact ⟨by omega, fun heq => by omega⟩
    · exact ⟨by omega, fun heq => absurd (congrArg some (heq.trans hsame)) hother⟩
    · refine ⟨by omega, fun heq => ?_⟩
      obtain ⟨hf, hnone⟩ := hcur (heq.trans hsame)
      exact ⟨hfile.trans hf, hflow.elim (·.trans hnone) id⟩
  | first request file stream =>
    obtain ⟨hle, hcur⟩ := h
    rcases hload with hlt | ⟨hsame, hother | ⟨hfile, hstream, hflow⟩⟩
    · exact ⟨by omega, fun heq => by omega⟩
    · exact ⟨by omega, fun heq => absurd (congrArg some (heq.trans hsame)) hother⟩
    · refine ⟨by omega, fun heq => ?_⟩
      obtain ⟨hf, hnone, hs⟩ := hcur (heq.trans hsame)
      exact ⟨hfile.trans hf, hflow.elim (·.trans hnone) id, fun s h => hstream.trans (hs s h)⟩
  | selected request file stream =>
    obtain ⟨hle, hcur⟩ := h
    rcases hload with hlt | ⟨hsame, hother | ⟨hfile, hstream, -⟩⟩
    · exact ⟨by omega, fun heq => by omega⟩
    · exact ⟨by omega, fun heq => absurd (congrArg some (heq.trans hsame)) hother⟩
    · refine ⟨by omega, fun heq => ?_⟩
      obtain ⟨hf, hs⟩ := hcur (heq.trans hsame)
      exact ⟨hfile.trans hf, hstream.trans hs⟩
  | conversation request file stream full previous =>
    obtain ⟨hle, hcur⟩ := h
    rcases hpayload with hlt | ⟨hsame, -, hfile, hflow⟩
    · exact ⟨by omega, fun heq => by omega⟩
    · refine ⟨by omega, fun heq => ?_⟩
      obtain ⟨f, hshows, hrest⟩ := hcur (heq.trans hsame)
      exact ⟨f, hshows.keep hfile hflow, hrest⟩
  | segment request file stream frame =>
    obtain ⟨hle, hcur⟩ := h
    rcases hpayload with hlt | ⟨hsame, hframe, hfile, hflow⟩
    · exact ⟨by omega, fun heq => by omega⟩
    · refine ⟨by omega, fun heq => ?_⟩
      obtain ⟨hf, hs, hfr⟩ := hcur (heq.trans hsame)
      exact ⟨hf.trans hfile.symm, hs.keep hflow, hframe.trans hfr⟩

/-- Beside a load with the counter's number there is no other. -/
theorem PageInv.no_other (h : PageInv server p) {k : ℕ} {q : Pending} (hk : p.pending[k]? = some q)
    (hq : q.loadNumber = some p.streamRequest) :
    ∀ other ∈ p.pending.eraseIdx k, other.loadNumber ≠ some p.streamRequest := by
  obtain ⟨hlt, rfl⟩ := List.getElem?_eq_some_iff.mp hk
  have hperm := List.getElem_cons_eraseIdx_perm hlt
  have hcount := h.single
  rw [← hperm.countP_eq, List.countP_cons_of_pos (by simpa using hq)] at hcount
  have hzero : (p.pending.eraseIdx k).countP (fun q => q.loadNumber = some p.streamRequest) = 0 := by
    omega
  intro other hother
  simpa using List.countP_eq_zero.mp hzero other hother

theorem PendingOk.load_le {q : Pending} (h : PendingOk server p q) {n : ℕ}
    (hn : q.loadNumber = some n) : n ≤ p.streamRequest := by
  cases q with
  | index _ _ | first _ _ _ | selected _ _ _ =>
    cases hn
    exact h.1
  | files _ | conversation _ _ _ _ _ | segment _ _ _ _ => cases hn

/-- No request has a number that is still to come. -/
theorem PageInv.none_above (h : PageInv server p) {n : ℕ} (hn : p.streamRequest < n) :
    p.pending.countP (fun q => q.loadNumber = some n) = 0 := by
  rw [List.countP_eq_zero]
  intro q hq hload
  have hle := (h.pending q hq).load_le (of_decide_eq_true hload)
  omega

theorem countP_concat_le {P : Pending → Bool} {l : List Pending} (h : l.countP P = 0) (q : Pending) :
    (l ++ [q]).countP P ≤ 1 := by
  rw [List.countP_append, h, Nat.zero_add]
  exact List.countP_le_length

/-- The requests under way, and one more. -/
theorem forall_mem_concat {P : Pending → Prop} {l : List Pending} {q : Pending} (hall : ∀ q ∈ l, P q)
    (hq : P q) : ∀ r ∈ l ++ [q], P r := by
  intro r hr
  rcases List.mem_append.mp hr with hr | hr
  · exact hall r hr
  · rw [List.mem_singleton.mp hr]
    exact hq

/-! ### The turns -/

theorem PageInv.erase (h : PageInv server p) (k : ℕ) :
    PageInv server { p with pending := p.pending.eraseIdx k } where
  flow := h.flow
  chosen := h.chosen
  conversation := h.conversation
  segment := h.segment
  pending := fun q hq => (h.pending q (List.mem_of_mem_eraseIdx hq)).keep
    (.inr ⟨rfl, .inr ⟨rfl, rfl, .inl rfl⟩⟩) (.inr ⟨rfl, rfl, rfl, .inl rfl⟩)
  single := (List.Sublist.countP_le (List.eraseIdx_sublist p.pending k)).trans h.single

/-- `streams`, after whatever was selected. -/
theorem PageInv.streams (h : PageInv server p) (file : Option File) :
    PageInv server (Page.streams { p with file := file }) := by
  have hkeep : ∀ {p' : Page Segment}, p'.streamRequest = p.streamRequest + 1 →
      p'.payload.request = p.payload.request + 1 → ∀ q ∈ p.pending, PendingOk server p' q :=
    fun hs hp q hq => (h.pending q hq).keep (.inl (by omega)) (.inl (by omega))
  have hnone := h.none_above (Nat.lt_succ_self p.streamRequest)
  unfold Page.streams
  cases file with
  | none =>
    refine ⟨?_, fun _ => rfl, ?_, ?_, hkeep rfl rfl, ?_⟩
    · rintro f ⟨⟩
    · rintro d ⟨⟩
    · rintro x ⟨⟩
    · exact hnone.trans_le (Nat.zero_le 1)
  | some file =>
    refine ⟨?_, fun _ => rfl, ?_, ?_, ?_, ?_⟩
    · rintro f ⟨⟩
    · rintro d ⟨⟩
    · rintro x ⟨⟩
    · exact forall_mem_concat (hkeep rfl rfl) ⟨Nat.le_refl _, fun _ => ⟨rfl, rfl⟩⟩
    · exact countP_concat_le hnone _

/-- `loadSelectedFlow`, of a stream that was selected before or just now. -/
theorem PageInv.loadSelectedFlow (h : PageInv server p) {stream : Option ℕ}
    (hchosen : stream = none → p.flow = none) :
    PageInv server (Page.loadSelectedFlow { p with stream := stream }) := by
  have hkeep : ∀ {p' : Page Segment}, p'.streamRequest = p.streamRequest + 1 →
      p'.payload = p.payload → p'.file = p.file → p'.flow = p.flow →
      ∀ q ∈ p.pending, PendingOk server p' q :=
    fun hs hp hf hl q hq => (h.pending q hq).keep (.inl (by omega))
      (.inr ⟨by rw [hp], by rw [hp], hf, .inl hl⟩)
  have hnone := h.none_above (Nat.lt_succ_self p.streamRequest)
  have hquiet : PageInv server { p with stream := stream, streamRequest := p.streamRequest + 1 } := by
    exact ⟨h.flow, hchosen, h.conversation, h.segment, hkeep rfl rfl rfl rfl,
      hnone.trans_le (Nat.zero_le 1)⟩
  unfold Page.loadSelectedFlow
  dsimp only
  split
  · next _ file s hfile =>
    refine ⟨h.flow, hchosen, h.conversation, h.segment, ?_, ?_⟩
    · exact forall_mem_concat (hkeep rfl rfl rfl rfl) ⟨Nat.le_refl _, fun _ => ⟨hfile, rfl⟩⟩
    · exact countP_concat_le hnone _
  · exact hquiet

theorem data_of_conversation {d : Conversation} (h : p.payload.conversation = some d) :
    p.payload.data = some (.conversation d) := by
  unfold PayloadState.conversation at h
  split at h
  · next hsome =>
    cases h
    exact hsome
  · cases h

/-- `loadConversationPayload`: what is kept of the payload card is a prefix already. -/
theorem PageInv.loadConversationPayload (h : PageInv server p) (full : Bool) :
    PageInv server (p.loadConversationPayload full) := by
  unfold Page.loadConversationPayload
  split
  · exact h
  · next flow hflow =>
    have hprevious : ∀ d, (if full then p.payload.conversation else none) = some d →
        PrefixOf (server.report flow.file flow.stream) flow.stream d := by
      intro d hd
      split at hd
      · obtain ⟨f, hshows, hstarts⟩ := h.conversation d (data_of_conversation hd)
        cases hshows.2 flow hflow
        exact hstarts
      · cases hd
    have hshows : p.shows flow :=
      ⟨h.flow flow hflow, fun g hg => Option.some.inj (hg.symm.trans hflow)⟩
    dsimp only
    generalize (if full then p.payload.conversation else none) = previous at hprevious ⊢
    refine ⟨h.flow, h.chosen, ?_, ?_, ?_, ?_⟩
    · intro d hd
      obtain ⟨d', hd', heq⟩ := Option.map_eq_some_iff.mp hd
      cases heq
      exact ⟨flow, hshows, hprevious d hd'⟩
    · intro x hx
      obtain ⟨d', -, heq⟩ := Option.map_eq_some_iff.mp hx
      cases heq
    · refine forall_mem_concat (fun q hq => (h.pending q hq).keep
        (.inr ⟨rfl, .inr ⟨rfl, rfl, .inl rfl⟩⟩) (.inl (Nat.lt_succ_self _))) ?_
      exact ⟨Nat.le_refl _, fun _ => ⟨flow, hshows, hshows.1, rfl, hprevious⟩⟩
    · show (p.pending ++ [_]).countP _ ≤ 1
      rw [List.countP_append]
      exact h.single

theorem PageInv.loadPayload (h : PageInv server p) (frame : ℕ) :
    PageInv server (p.loadPayload frame) := by
  refine ⟨h.flow, h.chosen, ?_, ?_, ?_, ?_⟩
  · rintro d ⟨⟩
  · rintro x ⟨⟩
  · refine forall_mem_concat (fun q hq => (h.pending q hq).keep
      (.inr ⟨rfl, .inr ⟨rfl, rfl, .inl rfl⟩⟩) (.inl (Nat.lt_succ_self _))) ?_
    exact ⟨Nat.le_refl _, fun _ => ⟨rfl, .inr rfl, rfl⟩⟩
  · show (p.pending ++ [_]).countP _ ≤ 1
    rw [List.countP_append]
    exact h.single

/-- `installCombined`, with no other load to come. -/
theorem PageInv.installCombined (h : PageInv server p) {file : File} {stream : ℕ}
    (hfile : p.file = some file) (hstream : p.stream = some stream)
    (hlast : ∀ q ∈ p.pending, q.loadNumber ≠ some p.streamRequest) :
    PageInv server (p.installCombined server file stream) := by
  have hshows : (p.installCombined server file stream).shows ⟨file, stream⟩ :=
    ⟨hfile, fun g hg => (Option.some.inj hg).symm⟩
  refine ⟨?_, ?_, ?_, ?_, ?_, h.single⟩
  · rintro f ⟨⟩
    exact hfile
  · intro hnone
    exact absurd (hstream.symm.trans hnone) (Option.some_ne_none _)
  · rintro d ⟨⟩
    exact ⟨_, hshows, preview_prefix _ _ _⟩
  · rintro x ⟨⟩
  · intro q hq
    exact (h.pending q hq).keep (.inr ⟨rfl, .inl (hlast q hq)⟩) (.inl (Nat.lt_succ_self _))

/-- The rest of `streams` once the index is settled: one more load with the same number. -/
theorem PageInv.goOn (h : PageInv server p)
    (hlast : ∀ q ∈ p.pending, q.loadNumber ≠ some p.streamRequest) (hflow : p.flow = none)
    (stream : Option ℕ) {q : Pending}
    (hq : PendingOk server { p with stream := stream, pending := p.pending ++ [q] } q) :
    PageInv server { p with stream := stream, pending := p.pending ++ [q] } := by
  refine ⟨h.flow, fun _ => hflow, h.conversation, h.segment, ?_, ?_⟩
  · exact forall_mem_concat (fun r hr => (h.pending r hr).keep (.inr ⟨rfl, .inl (hlast r hr)⟩)
      (.inr ⟨rfl, rfl, rfl, .inl rfl⟩)) hq
  · refine countP_concat_le (List.countP_eq_zero.mpr fun r hr => ?_) q
    simpa using hlast r hr

/-- The flow gone, and the rest of the page still there. -/
theorem PageInv.dropFlow (h : PageInv server p) : PageInv server { p with flow := none } where
  flow := by
    rintro f ⟨⟩
  chosen := fun _ => rfl
  conversation := fun d hd => by
    obtain ⟨f, hshows, hstarts⟩ := h.conversation d hd
    exact ⟨f, hshows.keep rfl (.inr rfl), hstarts⟩
  segment := fun x hx => by
    obtain ⟨frame, stream, hframe, -, heq⟩ := h.segment x hx
    exact ⟨frame, stream, hframe, .inl rfl, heq⟩
  pending := fun q hq => (h.pending q hq).keep (.inr ⟨rfl, .inr ⟨rfl, rfl, .inr rfl⟩⟩)
    (.inr ⟨rfl, rfl, rfl, .inr rfl⟩)
  single := h.single

/-- A page that differs in what the payload card shows. -/
theorem PageInv.setData (h : PageInv server p) (data : Option (Payload Segment)) (loading : Bool)
    (hconversation : ∀ d, data = some (.conversation d) →
      ∃ f, p.shows f ∧ PrefixOf (server.report f.file f.stream) f.stream d)
    (hsegment : ∀ x, data = some (.segment x) → ∃ frame stream,
      p.payload.frame = some frame ∧ p.streamOf stream ∧ x = server.segment p.file stream frame) :
    PageInv server { p with payload := { p.payload with loading := loading, data := data } } where
  flow := h.flow
  chosen := h.chosen
  conversation := hconversation
  segment := hsegment
  pending := fun q hq => (h.pending q hq).keep (.inr ⟨rfl, .inr ⟨rfl, rfl, .inl rfl⟩⟩)
    (.inr ⟨rfl, rfl, rfl, .inl rfl⟩)
  single := h.single

/-- What the conversation route answers. -/
theorem conversationPayload_eq {report : ℕ → Text} {stream : ℕ} {full : Bool} {offset : ℕ}
    {d : Conversation} (h : conversationPayload report stream full offset = some d) :
    ∃ limit, d = conversationFromFollowOutput (report stream) stream limit offset := by
  unfold conversationPayload at h
  split at h
  · cases h
  · cases h
    exact ⟨_, rfl⟩

/-- An answer of the conversation route, put after what was there. -/
theorem prefix_of_answer {report : ℕ → Text} {stream : ℕ} {full : Bool}
    {previous : Option Conversation}
    (hprevious : ∀ d, previous = some d → PrefixOf (report stream) stream d) {d : Conversation}
    (hd : conversationPayload report stream full ((previous.map Conversation.length).getD 0) = some d) :
    PrefixOf (report stream) stream (joined previous d) := by
  obtain ⟨limit, rfl⟩ := conversationPayload_eq hd
  cases previous with
  | none => exact preview_prefix (report stream) stream limit
  | some previous => exact (append_page (hprevious previous rfl) limit).1

/-- An answer, late or not. -/
theorem PageInv.resume (h : PageInv server p) {k : ℕ} {q : Pending} (hk : p.pending[k]? = some q)
    (a : Answer) :
    PageInv server
      (Browser.resume server requested { p with pending := p.pending.eraseIdx k } q a) := by
  have hq := h.pending q (List.mem_of_getElem? hk)
  have hrest := h.erase k
  have hlast := h.no_other hk
  cases q with
  | files previous =>
    cases a with
    | ok files => exact hrest.streams _
    | failed | indexing | unsupported => exact hrest
  | index request file =>
    obtain ⟨hle, hcur⟩ := hq
    cases a with
    | failed => exact hrest
    | ok files =>
      by_cases hnow : request = p.streamRequest
      · obtain ⟨hfile, hnone⟩ := hcur hnow
        have hlast := hlast (congrArg some hnow)
        simp only [Browser.resume, hnow, ne_eq, not_true_eq_false, if_false]
        split
        · refine ⟨h.flow, fun _ => hnone, h.conversation, h.segment, ?_, hrest.single⟩
          exact fun r hr => (hrest.pending r hr).keep (.inr ⟨rfl, .inl (hlast r hr)⟩)
            (.inr ⟨rfl, rfl, rfl, .inl rfl⟩)
        · exact hrest.goOn hlast hnone _ ⟨Nat.le_refl _, fun _ => ⟨hfile, hnone, fun s hs => hs⟩⟩
      · simp only [Browser.resume, hnow, ne_eq, not_false_eq_true, if_true]
        exact hrest
    | unsupported =>
      by_cases hnow : request = p.streamRequest
      · obtain ⟨hfile, hnone⟩ := hcur hnow
        simp only [Browser.resume, hnow, ne_eq, not_true_eq_false, if_false]
        refine hrest.goOn (hlast (congrArg some hnow)) hnone p.stream ?_
        exact ⟨Nat.le_refl _, fun _ => ⟨hfile, hnone, fun s hs => nomatch hs⟩⟩
      · simp only [Browser.resume, hnow, ne_eq, not_false_eq_true, if_true]
        exact hrest
    | indexing =>
      simp only [Browser.resume]
      refine ⟨h.flow, h.chosen, h.conversation, h.segment,
        forall_mem_concat hrest.pending ⟨hle, hcur⟩, ?_⟩
      by_cases hnow : request = p.streamRequest
      · refine countP_concat_le (List.countP_eq_zero.mpr fun r hr => ?_) _
        simpa using hlast (congrArg some hnow) r hr
      · show (p.pending.eraseIdx k ++ [_]).countP _ ≤ 1
        rw [List.countP_append, List.countP_singleton, if_neg (by simpa [Pending.loadNumber] using hnow)]
        exact hrest.single
  | first request file stream =>
    obtain ⟨hle, hcur⟩ := hq
    cases stream with
    | none =>
      cases a with
      | failed | indexing | unsupported => exact hrest
      | ok files =>
        by_cases hnow : request = p.streamRequest
        · obtain ⟨hfile, hnone, -⟩ := hcur hnow
          have hlast := hlast (congrArg some hnow)
          simp only [Browser.resume, hnow, ne_eq, not_true_eq_false, if_false]
          have hfirst : PageInv server
              { p with stream := some 0, pending := p.pending.eraseIdx k } := by
            refine ⟨h.flow, fun _ => hnone, h.conversation, h.segment, fun r hr => ?_, hrest.single⟩
            exact (hrest.pending r hr).keep (.inr ⟨rfl, .inl (hlast r hr)⟩)
              (.inr ⟨rfl, rfl, rfl, .inl rfl⟩)
          exact hfirst.installCombined hfile rfl hlast
        · simp only [Browser.resume, hnow, ne_eq, not_false_eq_true, if_true]
          exact hrest
    | some s =>
      cases a with
      | failed | unsupported => exact hrest
      | indexing =>
        by_cases hnow : request = p.streamRequest
        · simp only [Browser.resume, hnow, ne_eq, not_true_eq_false, if_false]
          exact hrest.dropFlow
        · simp only [Browser.resume, hnow, ne_eq, not_false_eq_true, if_true]
          exact hrest
      | ok files =>
        by_cases hnow : request = p.streamRequest
        · obtain ⟨hfile, -, hstream⟩ := hcur hnow
          simp only [Browser.resume, hnow, ne_eq, not_true_eq_false, if_false]
          exact hrest.installCombined hfile (hstream s rfl) (hlast (congrArg some hnow))
        · simp only [Browser.resume, hnow, ne_eq, not_false_eq_true, if_true]
          exact hrest
  | selected request file stream =>
    obtain ⟨hle, hcur⟩ := hq
    cases a with
    | failed | unsupported => exact hrest
    | indexing =>
      by_cases hnow : request = p.streamRequest
      · simp only [Browser.resume, hnow, ne_eq, not_true_eq_false, if_false]
        exact hrest.dropFlow
      · simp only [Browser.resume, hnow, ne_eq, not_false_eq_true, if_true]
        exact hrest
    | ok files =>
      by_cases hnow : request = p.streamRequest
      · obtain ⟨hfile, hstream⟩ := hcur hnow
        simp only [Browser.resume, hnow, ne_eq, not_true_eq_false, if_false]
        exact hrest.installCombined hfile hstream (hlast (congrArg some hnow))
      · simp only [Browser.resume, hnow, ne_eq, not_false_eq_true, if_true]
        exact hrest
  | conversation request file stream full previous =>
    obtain ⟨hle, hcur⟩ := hq
    -- what was kept is what is shown after a refusal
    have hkept : request = p.payload.request → PageInv server { p with
        pending := p.pending.eraseIdx k
        payload := { p.payload with loading := false, data := previous.map .conversation } } := by
      intro hnow
      obtain ⟨f, hshows, -, -, hprevious⟩ := hcur hnow
      refine hrest.setData _ _ ?_ ?_
      · intro d hd
        obtain ⟨d', hd', heq⟩ := Option.map_eq_some_iff.mp hd
        cases heq
        exact ⟨f, hshows, hprevious d hd'⟩
      · intro x hx
        obtain ⟨d', -, heq⟩ := Option.map_eq_some_iff.mp hx
        cases heq
    cases a with
    | indexing | unsupported => exact hrest
    | failed =>
      by_cases hnow : request = p.payload.request
      · simp only [Browser.resume, ← hnow, ne_eq, not_true_eq_false, if_false]
        exact hnow ▸ hkept hnow
      · simp only [Browser.resume, Ne.symm hnow, ne_eq, not_false_eq_true, if_true]
        exact hrest
    | ok files =>
      by_cases hnow : request = p.payload.request
      · simp only [Browser.resume, hnow, ne_eq, not_true_eq_false, if_false]
        split
        · exact hkept hnow
        · next d hd =>
          obtain ⟨f, hshows, rfl, rfl, hprevious⟩ := hcur hnow
          refine hrest.setData _ _ ?_ ?_
          · rintro d' ⟨⟩
            exact ⟨f, hshows, prefix_of_answer hprevious hd⟩
          · rintro x ⟨⟩
      · simp only [Browser.resume, Ne.symm hnow, ne_eq, not_false_eq_true, if_true]
        exact hrest
  | segment request file stream frame =>
    obtain ⟨hle, hcur⟩ := hq
    cases a with
    | indexing | unsupported => exact hrest
    | failed =>
      by_cases hnow : request = p.payload.request
      · simp only [Browser.resume, hnow, ne_eq, not_true_eq_false, if_false]
        exact hrest.setData _ _ hrest.conversation hrest.segment
      · simp only [Browser.resume, Ne.symm hnow, ne_eq, not_false_eq_true, if_true]
        exact hrest
    | ok files =>
      by_cases hnow : request = p.payload.request
      · obtain ⟨rfl, hstream, hframe⟩ := hcur hnow
        simp only [Browser.resume, hnow, ne_eq, not_true_eq_false, if_false]
        refine hrest.setData _ _ ?_ ?_
        · rintro d ⟨⟩
        · rintro x ⟨⟩
          exact ⟨frame, stream, hframe, hstream, rfl⟩
      · simp only [Browser.resume, Ne.symm hnow, ne_eq, not_false_eq_true, if_true]
        exact hrest

theorem PageInv.turn {t : Turn} (h : PageInv server p) (ht : Browser.turn server requested p t = some p') :
    PageInv server p' := by
  cases t with
  | refresh =>
    cases ht
    refine ⟨h.flow, h.chosen, h.conversation, h.segment, ?_, ?_⟩
    · exact forall_mem_concat (fun q hq => (h.pending q hq).keep
        (.inr ⟨rfl, .inr ⟨rfl, rfl, .inl rfl⟩⟩) (.inr ⟨rfl, rfl, rfl, .inl rfl⟩)) trivial
    · show (p.pending ++ [_]).countP _ ≤ 1
      rw [List.countP_append]
      exact h.single
  | chooseFile file =>
    cases ht
    exact h.streams file
  | chooseStream stream =>
    cases ht
    exact h.loadSelectedFlow fun hnone => nomatch hnone
  | load =>
    cases ht
    exact h.loadSelectedFlow h.chosen
  | conversation full =>
    cases ht
    exact h.loadConversationPayload full
  | packet frame =>
    cases ht
    exact h.loadPayload frame
  | answer k a =>
    obtain ⟨q, hk, heq⟩ := Option.bind_eq_some_iff.mp ht
    cases heq
    exact h.resume hk a

theorem reachable_pageInv
    (h : System.Reachable (Browser.turn server requested) (Page.start : Page Segment) p) :
    PageInv server p :=
  System.reachable_induction (PageInv server) (fun _ _ _ hinv ht => hinv.turn ht) pageInv_start h

/-! ## What is on the page -/

/-- A prefix is copied as the hexadecimal text of its bytes. -/
theorem PrefixOf.raw {text : Text} {stream : ℕ} {d : Conversation} (h : PrefixOf text stream d) :
    conversationRaw d = hexText (((conversationBytes text).take d.length).map Prod.snd) := by
  rw [← h.bytes, conversationRaw, Conversation.bytes]
  have hchunks := h.chunks
  generalize d.chunks = chunks at hchunks
  induction chunks with
  | nil => rfl
  | cons c chunks ih =>
    obtain ⟨⟨chunk, rfl⟩, hrest⟩ := List.forall_mem_cons.mp hchunks
    have hhead : (conversationChunk chunk).hexRaw = hexText chunk.data := rfl
    rw [List.map_cons, List.flatten_cons, ih hrest, List.flatMap_cons, List.map_append, hhead,
      unhexlify_hexText, List.map_map, hexText, hexText, hexText, List.flatMap_append]
    congr 2
    exact (List.map_id chunk.data).symm

/-- What the page shows is of what is selected. -/
structure Consistent (server : Server Segment) (p : Page Segment) : Prop where
  /-- The flow is of the selected file. -/
  flow : ∀ f, p.flow = some f → p.file = some f.file
  /-- A conversation begins that of the flow on the page, and is copied as it is. -/
  conversation : ∀ d, p.payload.data = some (.conversation d) → ∃ f, p.shows f ∧
    PrefixOf (server.report f.file f.stream) f.stream d ∧ conversationRaw d =
      hexText (((conversationBytes (server.report f.file f.stream)).take d.length).map Prod.snd)
  /-- A packet's payload is that of the frame asked for last, in the selected file. -/
  segment : ∀ x, p.payload.data = some (.segment x) → ∃ frame stream,
    p.payload.frame = some frame ∧ p.streamOf stream ∧ x = server.segment p.file stream frame

/-- THE PAGE IS CONSISTENT: whatever the user does while answers are under way, and whichever of them
come back, in whatever order. -/
theorem page_consistent
    (h : System.Reachable (Browser.turn server requested) (Page.start : Page Segment) p) :
    Consistent server p := by
  have hinv := reachable_pageInv h
  refine ⟨hinv.flow, fun d hd => ?_, hinv.segment⟩
  obtain ⟨f, hshows, hstarts⟩ := hinv.conversation d hd
  exact ⟨f, hshows, hstarts, hstarts.raw⟩

/-- A capture of two conversations, indexed. -/
def twoStreams : Server Unit where
  report _ stream := if stream = 0 then "Node 0: a\n4142\n\t43\n".toList else "4445\n".toList
  indexed _ := [0, 1]
  segment _ _ _ := ()

/-- The first stream is loaded; the rest of its conversation is asked for, the second stream is selected
and arrives, and then the page of the first. -/
def overtaken : List Turn :=
  [.refresh, .answer 0 (.ok ["capture.pcap"]), .answer 0 (.ok []), .answer 0 (.ok []),
    .conversation true, .chooseStream 1, .answer 1 (.ok []), .answer 0 (.ok [])]

/-- Where that leads. -/
theorem overtaken_run : ∃ p, System.run (Browser.turn twoStreams ⟨none, none⟩) Page.start overtaken =
    some p ∧ p.flow = some ⟨"capture.pcap", 1⟩ ∧ p.stream = some 1 ∧
      p.payload.conversation.map (·.length) = some 2 ∧ p.pending.length = 0 := by
  have hrun : (System.run (Browser.turn twoStreams ⟨none, none⟩) Page.start overtaken).map
      (fun p => (p.flow, p.stream, p.payload.conversation.map (·.length), p.pending.length)) =
        some (some ⟨"capture.pcap", 1⟩, some 1, some 2, 0) := by decide +kernel
  obtain ⟨p, hp, heq⟩ := Option.map_eq_some_iff.mp hrun
  simp only [Prod.mk.injEq] at heq
  exact ⟨p, hp, heq⟩

/-- The law at work: the late page is not put after the preview of the other conversation. -/
theorem page_consistent_overtaken : ∃ p : Page Unit, p.flow = some ⟨"capture.pcap", 1⟩ ∧
    p.payload.conversation.map (·.length) = some 2 ∧ Consistent twoStreams p := by
  obtain ⟨p, hrun, hflow, -, hlength, -⟩ := overtaken_run
  exact ⟨p, hflow, hlength, page_consistent ⟨_, hrun⟩⟩

/-! ## The flow that a page settles on -/

/-- The number of a load that a selection began. -/
def Pending.selection : Pending → Option ℕ
  | .selected request _ _ => some request
  | _ => none

/-- The server answered, be it that it is indexing. -/
def Answer.answered : Answer → Bool
  | .ok _ | .indexing => true
  | .failed | .unsupported => false

/-- A load of the selected stream that is not overtaken does not fail. -/
def LoadsSucceed (p : Page Segment) : Turn → Prop
  | .answer k a => ∀ q ∈ p.pending[k]?, q.selection = some p.streamRequest → a.answered = true
  | _ => True

instance (p : Page Segment) : (t : Turn) → Decidable (LoadsSucceed p t)
  | .answer k a => inferInstanceAs (Decidable
      (∀ q ∈ p.pending[k]?, q.selection = some p.streamRequest → a.answered = true))
  | .refresh | .chooseFile _ | .chooseStream _ | .load | .conversation _ | .packet _ =>
    .isTrue trivial

/-- With no load under way, the flow on the page is the selected stream. -/
def Settled (p : Page Segment) : Prop :=
  (∀ q ∈ p.pending, q.loadNumber ≠ some p.streamRequest) →
    ∀ f, p.flow = some f → p.stream = some f.stream

theorem settled_of_none (h : p.flow = none) : Settled p := by
  intro _ f hf
  rw [h] at hf
  cases hf

/-- A request that is no load, or is overtaken, leaves the rest to settle. -/
theorem Settled.keep (h : Settled p) (hnumber : p'.streamRequest = p.streamRequest)
    (hflow : p'.flow = p.flow) (hstream : p'.stream = p.stream)
    (hpending : ∀ q ∈ p.pending, q.loadNumber = some p.streamRequest → q ∈ p'.pending) :
    Settled p' := by
  intro hnone f hf
  rw [hstream]
  refine h (fun q hq hload => ?_) f (hflow ▸ hf)
  exact hnone q (hpending q hq hload) (hnumber.symm ▸ hload)

/-- A load just begun is under way. -/
theorem settled_of_mem {q : Pending} (hq : q ∈ p.pending)
    (hload : q.loadNumber = some p.streamRequest) : Settled p :=
  fun hnone => absurd hload (hnone q hq)

theorem settled_streams (p : Page Segment) : Settled p.streams := by
  apply settled_of_none
  unfold Page.streams
  dsimp only
  split <;> rfl

theorem settled_loadSelectedFlow (h : PageInv server p) (stream : Option ℕ)
    (hchosen : stream = none → p.flow = none) :
    Settled (Page.loadSelectedFlow { p with stream := stream }) := by
  unfold Page.loadSelectedFlow
  dsimp only
  split
  · exact settled_of_mem (List.mem_append_right _ List.mem_cons_self) rfl
  · next stream _ _ hmissing =>
    -- without a file or a stream there is no flow either
    apply settled_of_none
    show p.flow = none
    cases stream with
    | none => exact hchosen rfl
    | some s =>
      cases hflow : p.flow with
      | none => rfl
      | some f => exact (hmissing f.file s (h.flow f hflow) rfl).elim

/-- The requests left, when the one that is answered is no current load. -/
theorem mem_eraseIdx_of_load {k : ℕ} {q r : Pending} (hk : p.pending[k]? = some q)
    (hq : q.loadNumber ≠ some p.streamRequest) (hr : r ∈ p.pending)
    (hload : r.loadNumber = some p.streamRequest) : r ∈ p.pending.eraseIdx k := by
  obtain ⟨hlt, rfl⟩ := List.getElem?_eq_some_iff.mp hk
  have hperm := List.getElem_cons_eraseIdx_perm hlt
  rcases List.mem_cons.mp (hperm.mem_iff.mpr hr) with rfl | hmem
  · exact absurd hload hq
  · exact hmem

theorem settled_resume (h : PageInv server p) (hsettled : Settled p) {k : ℕ} {q : Pending}
    (hk : p.pending[k]? = some q) {a : Answer} (hguard : LoadsSucceed p (.answer k a)) :
    Settled (Browser.resume server requested { p with pending := p.pending.eraseIdx k } q a) := by
  have hq := h.pending q (List.mem_of_getElem? hk)
  -- the page with the request taken out, when that one was no current load
  have hrest : q.loadNumber ≠ some p.streamRequest →
      Settled { p with pending := p.pending.eraseIdx k } := fun hload =>
    hsettled.keep rfl rfl rfl fun r hr hcur => mem_eraseIdx_of_load hk hload hr hcur
  cases q with
  | files previous =>
    cases a with
    | ok files => exact settled_streams _
    | failed | indexing | unsupported => exact hrest nofun
  | index request file =>
    by_cases hnow : request = p.streamRequest
    · have hnone := (hq.2 hnow).2
      apply settled_of_none
      cases a with
      | failed | indexing => exact hnone
      | ok files =>
        simp only [Browser.resume, hnow, ne_eq, not_true_eq_false, if_false]
        split <;> exact hnone
      | unsupported =>
        simp only [Browser.resume, hnow, ne_eq, not_true_eq_false, if_false]
        exact hnone
    · have hload : (Pending.index request file).loadNumber ≠ some p.streamRequest :=
        fun heq => hnow (Option.some.inj heq)
      cases a with
      | failed => exact hrest hload
      | indexing =>
        exact (hrest hload).keep rfl rfl rfl fun r hr _ => List.mem_append_left _ hr
      | ok files | unsupported =>
        simp only [Browser.resume, hnow, ne_eq, not_false_eq_true, if_true]
        exact hrest hload
  | first request file stream =>
    by_cases hnow : request = p.streamRequest
    · obtain ⟨-, hnone, hstream⟩ := hq.2 hnow
      cases stream with
      | none =>
        cases a with
        | failed | indexing | unsupported => exact settled_of_none hnone
        | ok files =>
          simp only [Browser.resume, hnow, ne_eq, not_true_eq_false, if_false]
          rintro - f ⟨⟩
          rfl
      | some s =>
        cases a with
        | failed | unsupported => exact settled_of_none hnone
        | indexing =>
          simp only [Browser.resume, hnow, ne_eq, not_true_eq_false, if_false]
          exact settled_of_none rfl
        | ok files =>
          simp only [Browser.resume, hnow, ne_eq, not_true_eq_false, if_false]
          rintro - f ⟨⟩
          exact hstream s rfl
    · have hload : (Pending.first request file stream).loadNumber ≠ some p.streamRequest :=
        fun heq => hnow (Option.some.inj heq)
      cases stream <;> cases a <;>
        simp only [Browser.resume, hnow, ne_eq, not_false_eq_true, if_true] <;> exact hrest hload
  | selected request file stream =>
    by_cases hnow : request = p.streamRequest
    · have hanswered : a.answered = true := hguard _ hk (congrArg some hnow)
      cases a with
      | failed | unsupported => cases hanswered
      | indexing =>
        simp only [Browser.resume, hnow, ne_eq, not_true_eq_false, if_false]
        exact settled_of_none rfl
      | ok files =>
        simp only [Browser.resume, hnow, ne_eq, not_true_eq_false, if_false]
        rintro - f ⟨⟩
        exact (hq.2 hnow).2
    · have hload : (Pending.selected request file stream).loadNumber ≠ some p.streamRequest :=
        fun heq => hnow (Option.some.inj heq)
      cases a <;> simp only [Browser.resume, hnow, ne_eq, not_false_eq_true, if_true] <;>
        exact hrest hload
  | conversation request file stream full previous =>
    have hrest := hrest nofun
    cases a with
    | indexing | unsupported => exact hrest
    | failed =>
      simp only [Browser.resume]
      split
      · exact hrest
      · exact hrest.keep rfl rfl rfl fun _ hr _ => hr
    | ok files =>
      simp only [Browser.resume]
      repeat' split
      · exact hrest
      all_goals exact hrest.keep rfl rfl rfl fun _ hr _ => hr
  | segment request file stream frame =>
    have hrest := hrest nofun
    cases a with
    | indexing | unsupported => exact hrest
    | failed | ok _ =>
      simp only [Browser.resume]
      split
      · exact hrest
      · exact hrest.keep rfl rfl rfl fun _ hr _ => hr

theorem settled_turn {t : Turn} (h : PageInv server p) (hsettled : Settled p)
    (hguard : LoadsSucceed p t) (ht : Browser.turn server requested p t = some p') :
    Settled p' := by
  cases t with
  | refresh =>
    cases ht
    exact hsettled.keep rfl rfl rfl fun r hr _ => List.mem_append_left _ hr
  | chooseFile file =>
    cases ht
    exact settled_streams _
  | chooseStream stream =>
    cases ht
    exact settled_loadSelectedFlow h (some stream) nofun
  | load =>
    cases ht
    exact settled_loadSelectedFlow h p.stream h.chosen
  | conversation full =>
    cases ht
    unfold Page.loadConversationPayload
    split
    · exact hsettled
    · exact hsettled.keep rfl rfl rfl fun r hr _ => List.mem_append_left _ hr
  | packet frame =>
    cases ht
    exact hsettled.keep rfl rfl rfl fun r hr _ => List.mem_append_left _ hr
  | answer k a =>
    obtain ⟨q, hk, heq⟩ := Option.bind_eq_some_iff.mp ht
    cases heq
    exact settled_resume h hsettled hk hguard

/-- THE PAGE SETTLES ON WHAT IS SELECTED: in a run in which no load of the selected stream fails, the flow
on the page is the selected stream of the selected file whenever no load is under way, however many were
begun and in whatever order their answers came. -/
theorem settles_on_selected {acts : List Turn}
    (hguard : System.Along (Browser.turn server requested) LoadsSucceed (Page.start : Page Segment) acts)
    (hrun : System.run (Browser.turn server requested) Page.start acts = some p)
    (hdone : ∀ q ∈ p.pending, q.loadNumber ≠ some p.streamRequest) {f : Flow}
    (hf : p.flow = some f) : p.file = some f.file ∧ p.stream = some f.stream := by
  have hstart : PageInv server (Page.start : Page Segment) ∧ Settled (Page.start : Page Segment) :=
    ⟨pageInv_start, settled_of_none rfl⟩
  obtain ⟨hinv, hsettled⟩ := System.along_induction
    (fun p => PageInv server p ∧ Settled p)
    (fun _ _ _ ⟨h, hs⟩ hg ht => ⟨h.turn ht, settled_turn h hs hg ht⟩) hstart hguard hrun
  exact ⟨hinv.flow f hf, hsettled hdone f hf⟩

/-- The law at work: the second stream, selected last. -/
theorem settles_on_selected_overtaken : ∃ p : Page Unit,
    System.run (Browser.turn twoStreams ⟨none, none⟩) Page.start overtaken = some p ∧
      p.flow = some ⟨"capture.pcap", 1⟩ ∧ p.file = some "capture.pcap" ∧ p.stream = some 1 := by
  obtain ⟨p, hrun, hflow, -, -, hpending⟩ := overtaken_run
  have hdone : ∀ q ∈ p.pending, q.loadNumber ≠ some p.streamRequest := by
    rw [List.length_eq_zero_iff.mp hpending]
    exact fun q hq => absurd hq List.not_mem_nil
  exact ⟨p, hrun, hflow, settles_on_selected (by decide +kernel) hrun hdone hflow⟩

/-! ## Loading the rest -/

/-- A click on the load button, answered before anything else. -/
def loadMore (p : Page Segment) : List Turn := [.conversation true, .answer p.pending.length (.ok [])]

/-- The page shows a beginning of a flow's conversation. -/
structure Showing (server : Server Segment) (f : Flow) (d : Conversation) (p : Page Segment) : Prop where
  flow : p.flow = some f
  file : p.file = some f.file
  data : p.payload.data = some (.conversation d)
  starts : PrefixOf (server.report f.file f.stream) f.stream d

/-- One click. -/
theorem load_more (requested : Requested) {f : Flow} {d : Conversation} (h : Showing server f d p)
    (hstream : f.stream < 10 ^ 8) (hsize : d.length < 10 ^ 12) :
    ∃ p' d', System.run (Browser.turn server requested) p (loadMore p) = some p' ∧
      p'.pending = p.pending ∧ Showing server f d' p' ∧
      d'.length = min (conversationBytes (server.report f.file f.stream)).length (d.length + 2 ^ 20) := by
  have hkept : p.payload.conversation = some d := by
    rw [PayloadState.conversation, h.data]
  obtain ⟨hstarts, hlength⟩ := append_page h.starts maxConversationPageBytes
  have hpage : conversationPayload (server.report f.file) f.stream true d.length =
      some (conversationFromFollowOutput (server.report f.file f.stream) f.stream
        maxConversationPageBytes d.length) := by
    rw [conversationPayload, if_neg (by omega), if_pos rfl]
  generalize conversationFromFollowOutput (server.report f.file f.stream) f.stream
    maxConversationPageBytes d.length = page at hstarts hlength hpage
  let clicked : Page Segment := { p with
    payload := ⟨none, some (.conversation d), true, p.payload.request + 1⟩
    pending := p.pending ++ [.conversation (p.payload.request + 1) (some f.file) f.stream true (some d)] }
  have hclick : Browser.turn server requested p (.conversation true) = some clicked := by
    simp only [Browser.turn, Page.loadConversationPayload, h.flow, h.file, if_true, hkept,
      Option.map_some, clicked]
  have hanswer : Browser.turn server requested clicked (.answer p.pending.length (.ok [])) = some { p with
      payload := ⟨none, some (.conversation (appendPage d page)), false, p.payload.request + 1⟩ } := by
    have hk : clicked.pending[p.pending.length]? = some (.conversation (p.payload.request + 1)
        (some f.file) f.stream true (some d)) := List.getElem?_concat_length
    have herase : clicked.pending.eraseIdx p.pending.length = p.pending := by
      rw [List.eraseIdx_append_of_length_le (Nat.le_refl _), Nat.sub_self, List.eraseIdx_cons_zero,
        List.append_nil]
    simp only [Browser.turn, hk, herase, bind, Option.bind_some, resume, clicked, ne_eq,
      not_true_eq_false, if_false, Option.map_some, Option.getD_some, hpage, joined]
  exact ⟨_, _, System.run_cons.mpr ⟨_, hclick, System.run_cons.mpr ⟨_, hanswer, rfl⟩⟩, rfl,
    ⟨h.flow, h.file, rfl, hstarts⟩, hlength⟩

/-- Clicks one after the other. -/
theorem load_times (requested : Requested) {f : Flow} (hstream : f.stream < 10 ^ 8)
    (hsize : (conversationBytes (server.report f.file f.stream)).length < 10 ^ 12) (m : ℕ)
    {d : Conversation} (h : Showing server f d p) :
    ∃ p' d', System.run (Browser.turn server requested) p (List.replicate m (loadMore p)).flatten =
        some p' ∧ Showing server f d' p' ∧
      d'.length = min (conversationBytes (server.report f.file f.stream)).length
        (d.length + m * 2 ^ 20) := by
  induction m generalizing p d with
  | zero => exact ⟨p, d, rfl, h, by have := h.starts.length; omega⟩
  | succ m ih =>
    have hin := h.starts.length
    obtain ⟨p₁, d₁, hrun, hpending, hshowing, hlength⟩ :=
      load_more requested h hstream (by omega)
    obtain ⟨p', d', hrest, hshowing', hlength'⟩ := ih hshowing
    refine ⟨p', d', ?_, hshowing', by omega⟩
    have hsame : loadMore p₁ = loadMore p := by
      rw [loadMore, hpending]
      rfl
    rw [hsame] at hrest
    rw [List.replicate_succ, List.flatten_cons, System.run_append, hrun]
    exact hrest

/-- THE LOAD BUTTON GETS TO THE END: from any reachable page that shows a conversation of the flow on it,
each click that is answered shows a mebibyte more, up to the end, and then the whole. -/
theorem loads_whole {f : Flow} {d : Conversation}
    (hreach : System.Reachable (Browser.turn server requested) (Page.start : Page Segment) p)
    (hflow : p.flow = some f) (hdata : p.payload.data = some (.conversation d))
    (hstream : f.stream < 10 ^ 8)
    (hsize : (conversationBytes (server.report f.file f.stream)).length < 10 ^ 12) (m : ℕ) :
    ∃ p' d', System.run (Browser.turn server requested) p (List.replicate m (loadMore p)).flatten =
        some p' ∧ Showing server f d' p' ∧
      d'.length = min (conversationBytes (server.report f.file f.stream)).length
        (d.length + m * 2 ^ 20) ∧
      ((conversationBytes (server.report f.file f.stream)).length ≤ d.length + m * 2 ^ 20 →
        d'.bytes = conversationBytes (server.report f.file f.stream) ∧ d'.truncated = false) := by
  have hinv := reachable_pageInv hreach
  obtain ⟨g, hshows, hstarts⟩ := hinv.conversation d hdata
  cases hshows.2 f hflow
  obtain ⟨p', d', hrun, hshowing, hlength⟩ :=
    load_times requested hstream hsize m ⟨hflow, hinv.flow f hflow, hdata, hstarts⟩
  refine ⟨p', d', hrun, hshowing, hlength, fun hall => ⟨?_, ?_⟩⟩
  · rw [hshowing.starts.bytes, hlength, min_eq_left hall, List.take_length]
  · rw [← Bool.not_eq_true, hshowing.starts.truncated]
    omega

/-- Eleven bytes. -/
def elevenBytes : Text := "4142434445464748494a4b".toList

/-- A capture of one conversation, a byte longer than its preview. -/
def longStream : Server Unit where
  report _ _ := printLines (List.replicate 91 elevenBytes)
  indexed _ := [0]
  segment _ _ _ := ()

theorem length_longStream :
    (conversationBytes (longStream.report "capture.pcap" 0)).length = 1001 := by
  have hbreaks : ∀ line ∈ List.replicate 91 elevenBytes, ∀ c ∈ line, c ∉ lineBreaks := by
    have hplain : elevenBytes.all (· ∉ lineBreaks) = true := by decide +kernel
    intro line hline c hc
    rw [List.eq_of_mem_replicate hline] at hc
    exact of_decide_eq_true (List.all_eq_true.mp hplain c hc)
  have heleven : (lineBytes elevenBytes).length = 11 := by decide +kernel
  rw [conversationBytes, show longStream.report "capture.pcap" 0 = printLines _ from rfl,
    Decode.splitlines_printLines hbreaks, List.length_flatMap, List.map_replicate, heleven,
    List.sum_replicate]
  rfl

/-- The page is opened, and shows the preview. -/
def opened : List Turn := [.refresh, .answer 0 (.ok ["capture.pcap"]), .answer 0 (.ok []), .answer 0 (.ok [])]

theorem opened_run : ∃ p, System.run (Browser.turn longStream ⟨none, none⟩) Page.start opened = some p ∧
    p.flow = some ⟨"capture.pcap", 0⟩ ∧ p.payload.data = some (.conversation
      (conversationFromFollowOutput (longStream.report "capture.pcap" 0) 0 conversationPreviewBytes 0)) :=
  ⟨_, rfl, rfl, rfl⟩

/-- The law at work: one click after the preview. -/
theorem loads_whole_long : ∃ (p p' : Page Unit) (d d' : Conversation),
    p.payload.data = some (.conversation d) ∧ d.length = 1000 ∧ d.truncated = true ∧
      System.run (Browser.turn longStream ⟨none, none⟩) p (List.replicate 1 (loadMore p)).flatten =
        some p' ∧ Showing longStream ⟨"capture.pcap", 0⟩ d' p' ∧ d'.length = 1001 ∧
      d'.truncated = false := by
  obtain ⟨p, hrun, hflow, hdata⟩ := opened_run
  have hpreview := preview_prefix (longStream.report "capture.pcap" 0) 0 conversationPreviewBytes
  have hresponse : Response (longStream.report "capture.pcap" 0) 0 conversationPreviewBytes 0
      (conversationFromFollowOutput (longStream.report "capture.pcap" 0) 0 conversationPreviewBytes 0) :=
    conversation_response _ _ _ _
  have hlength : (conversationFromFollowOutput (longStream.report "capture.pcap" 0) 0
      conversationPreviewBytes 0).length = 1000 := by
    rw [hresponse.length, hresponse.bytes, List.length_take, List.drop_zero, length_longStream]
    rfl
  obtain ⟨p', d', hrun', hshowing, hlength', hwhole⟩ :=
    loads_whole ⟨_, hrun⟩ hflow hdata (by decide) (by rw [length_longStream]; decide) 1
  rw [length_longStream, hlength] at hlength' hwhole
  refine ⟨p, p', _, d', hdata, hlength, hpreview.truncated.mpr ?_, hrun', hshowing, ?_, ?_⟩
  · rw [hlength, length_longStream]
    decide
  · exact hlength'
  · exact (hwhole (by decide)).2

end PacketTrain.Browser
