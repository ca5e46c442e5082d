import PacketTrain.Analysis.Follow
import PacketTrain.Lib.Ordered

/-!
# Pages of a conversation

The bytes of a report are those of its hexadecimal lines. A page is a range of them, whatever lines it
begins and ends in (`parseFollowRaw_page`), and the pages that a reader asks for one after the other, each
at the end of the last, are finitely many and hold every byte once (`conversation_paged`).
-/

namespace PacketTrain.Analysis

open Lines Strings Hex

/-- A byte with the node that sent it. -/
abbrev SentByte := ℕ × UInt8

def Chunk.bytes (chunk : Chunk) : List SentByte := chunk.data.map fun b => (chunk.node, b)

/-- The bytes of a line of a report: none unless the line is an even number of digits. -/
def lineBytes (line : Text) : List SentByte :=
  if isHexLine (strip line) then (unhexlify (strip line)).map fun b => (lineNode line, b) else []

/-- The bytes of a report. -/
def conversationBytes (text : Text) : List SentByte := (splitlines text).flatMap lineBytes

/-- The state after some of the bytes: how many they are, and the part of them that is on the page. -/
structure Page (limit offset : ℕ) (sent : List SentByte) (state : FollowState) : Prop where
  total : state.total = sent.length
  bytes : state.chunks.flatMap Chunk.bytes = (sent.drop offset).take limit
  kept : state.kept = ((sent.drop offset).take limit).length
  alternate : ∀ ab ∈ adjacent (state.chunks.map (·.node)), ab.1 ≠ ab.2

/-! ## One line -/

/-- A line of digits does not name a node. -/
theorem followNode_first_of_hex {line : Text} (h : isHexLine line = true) :
    followNode.first line = none := by
  apply Pattern.first_literal_bind
  intro hstart
  have hdigits := (Bool.and_eq_true_iff.mp h).2
  have hmem : 'N' ∈ line := hstart.subset (by decide)
  exact absurd (List.all_eq_true.mp hdigits 'N' hmem) (by decide)

theorem lineBytes_of_hex {line : Text} (h : isHexLine (strip line) = true) :
    lineBytes line = (unhexlify (strip line)).map fun b => (lineNode line, b) :=
  if_pos h

theorem lineBytes_of_not_hex {line : Text} (h : isHexLine (strip line) = false) : lineBytes line = [] :=
  if_neg (Bool.eq_false_iff.mp h)

theorem bytes_extendChunks (chunks : List Chunk) (node : ℕ) (data : Bytes) :
    (extendChunks chunks node data).flatMap Chunk.bytes =
      chunks.flatMap Chunk.bytes ++ data.map fun b => (node, b) := by
  rw [extendChunks]
  cases hlast : chunks.getLast? with
  | none => simp [Chunk.bytes]
  | some last =>
    obtain ⟨init, rfl⟩ := List.getLast?_eq_some_iff.mp hlast
    simp only
    split
    · next hnode => simp [Chunk.bytes, hnode]
    · simp [Chunk.bytes]

theorem alternate_extendChunks {chunks : List Chunk}
    (h : ∀ ab ∈ adjacent (chunks.map (·.node)), ab.1 ≠ ab.2) (node : ℕ) (data : Bytes) :
    ∀ ab ∈ adjacent ((extendChunks chunks node data).map (·.node)), ab.1 ≠ ab.2 := by
  -- the nodes stay, or one that is not the last of them is added
  have hnodes : (extendChunks chunks node data).map (·.node) = chunks.map (·.node) ∨
      (extendChunks chunks node data).map (·.node) = chunks.map (·.node) ++ [node] ∧
        (chunks.map (·.node)).getLast? ≠ some node := by
    rw [extendChunks]
    cases hlast : chunks.getLast? with
    | none =>
      obtain rfl := List.getLast?_eq_none_iff.mp hlast
      exact .inr ⟨rfl, nofun⟩
    | some last =>
      obtain ⟨init, rfl⟩ := List.getLast?_eq_some_iff.mp hlast
      simp only
      split
      · exact .inl (by simp)
      · next hnode => exact .inr ⟨by simp, by simpa using hnode⟩
  intro ab hab
  rcases hnodes with hnodes | ⟨hnodes, hlast⟩
  · rw [hnodes] at hab
    exact h ab hab
  · rw [hnodes] at hab
    rcases mem_adjacent_concat hab with hab | ⟨hfst, hsnd⟩
    · exact h ab hab
    · rw [hsnd]
      intro heq
      rw [heq] at hfst
      exact hlast hfst

/-- The range of a list and some elements more. -/
theorem range_append {α : Type} (l m : List α) (limit offset : ℕ) :
    ((l ++ m).drop offset).take limit = (l.drop offset).take limit ++
      (m.drop (offset - l.length)).take (limit - ((l.drop offset).take limit).length) := by
  rw [List.drop_append, List.take_append, List.length_take]
  congr 2
  omega

section

variable {limit offset : ℕ} {sent : List SentByte} {state : FollowState}

/-- A line without bytes leaves the page as it is. -/
theorem Page.skip (h : Page limit offset sent state) {line : Text}
    (hline : isHexLine (strip line) = false) :
    Page limit offset (sent ++ lineBytes line) (followLine limit offset state line) := by
  rw [lineBytes_of_not_hex hline, List.append_nil, followLine]
  split
  · exact ⟨h.total, h.bytes, h.kept, h.alternate⟩
  · simp only [hline, Bool.not_false, if_true]
    exact h

/-- A line of digits carries the page on by its bytes. -/
theorem Page.count (h : Page limit offset sent state) {line : Text}
    (hline : isHexLine (strip line) = true) :
    Page limit offset (sent ++ lineBytes line) (followLine limit offset state line) := by
  have hsize : (strip line).length / 2 = (lineBytes line).length := by
    rw [lineBytes_of_hex hline, List.length_map, length_unhexlify]
  have hrange := range_append sent (lineBytes line) limit offset
  rw [← h.total, ← h.kept] at hrange
  simp only [followLine, followNode_first_of_hex hline, hline, Bool.not_true, Bool.false_eq_true,
    if_false]
  have htotal : state.total + (strip line).length / 2 = (sent ++ lineBytes line).length := by
    rw [List.length_append, hsize, h.total]
  split
  · next hnone =>
    -- the line is before the page, or the page is full
    have hempty : ((lineBytes line).drop (offset - state.total)).take (limit - state.kept) = [] := by
      rw [List.take_eq_nil_iff, List.drop_eq_nil_iff, ← hsize]
      omega
    rw [hempty, List.append_nil] at hrange
    refine ⟨htotal, ?_, ?_, h.alternate⟩
    · rw [hrange]
      exact h.bytes
    · rw [hrange]
      exact h.kept
  · next hsome =>
    have hdata : (unhexlify (((strip line).drop ((offset - state.total) * 2)).take
        (min ((strip line).length / 2 - (offset - state.total)) (limit - state.kept) * 2))).map
          (fun b => (lineNode line, b)) =
        ((lineBytes line).drop (offset - state.total)).take (limit - state.kept) := by
      rw [unhexlify_slice, List.map_take, List.map_drop, ← lineBytes_of_hex hline,
        List.take_eq_take_iff, List.length_drop, ← hsize]
      omega
    refine ⟨htotal, ?_, ?_, ?_⟩
    · rw [bytes_extendChunks, hdata, hrange, h.bytes]
    · rw [hrange, List.length_append, ← h.kept, ← hdata, List.length_map]
    · exact alternate_extendChunks h.alternate _ _

/-- The loop body carries a page on by the bytes of its line. -/
theorem Page.line (h : Page limit offset sent state) (line : Text) :
    Page limit offset (sent ++ lineBytes line) (followLine limit offset state line) := by
  cases hline : isHexLine (strip line) with
  | false => exact h.skip hline
  | true => exact h.count hline

theorem Page.lines (h : Page limit offset sent state) (lines : List Text) :
    Page limit offset (sent ++ lines.flatMap lineBytes)
      (lines.foldl (followLine limit offset) state) := by
  induction lines generalizing sent state with
  | nil => rwa [List.flatMap_nil, List.append_nil]
  | cons line lines ih =>
    rw [List.flatMap_cons, ← List.append_assoc]
    exact ih (h.line line)

end

theorem page_start (limit offset : ℕ) : Page limit offset [] ⟨[], [], 0, 0⟩ where
  total := rfl
  bytes := by rw [List.drop_nil, List.take_nil]; rfl
  kept := by rw [List.drop_nil, List.take_nil]; rfl
  alternate := by
    intro ab hab
    cases hab

/-- A page is the range of the bytes that was asked for, within the bounds. -/
theorem parseFollowRaw_page (text : Text) (limit offset : ℤ) :
    Page (clampLimit limit) (clampOffset offset) (conversationBytes text)
      (parseFollowRaw text limit offset) :=
  (page_start _ _).lines (splitlines text)

/-! ## Page after page -/

/-- The bytes that a response shows. -/
def Conversation.bytes (page : Conversation) : List SentByte :=
  page.chunks.flatMap fun chunk => (unhexlify chunk.hexRaw).map fun b => (chunk.node, b)

/-- The responses to the requests that a reader makes, from an offset on: each request at the
`loaded_through` of the last response, as long as this one is truncated. -/
inductive Paging (text : Text) (stream : ℕ) (limit : ℤ) : ℤ → List Conversation → Prop
  | last (offset : ℤ) (h : (conversationFromFollowOutput text stream limit offset).truncated = false) :
    Paging text stream limit offset [conversationFromFollowOutput text stream limit offset]
  | next (offset : ℤ) (rest : List Conversation)
    (h : (conversationFromFollowOutput text stream limit offset).truncated = true)
    (hrest : Paging text stream limit
      (conversationFromFollowOutput text stream limit offset).loadedThrough rest) :
    Paging text stream limit offset (conversationFromFollowOutput text stream limit offset :: rest)

theorem Paging.unique {text : Text} {stream : ℕ} {limit offset : ℤ} {pages other : List Conversation}
    (h : Paging text stream limit offset pages) (hother : Paging text stream limit offset other) :
    pages = other := by
  induction h generalizing other with
  | last offset h =>
    cases hother with
    | last _ _ => rfl
    | next _ rest hnext _ =>
      rw [h] at hnext
      cases hnext
  | next offset rest h hrest ih =>
    cases hother with
    | last _ hlast =>
      rw [h] at hlast
      cases hlast
    | next _ rest' _ hrest' => rw [ih hrest']

section

variable (text : Text) (stream : ℕ) (limit : ℤ)

/-- A response shows the range of the bytes at its offset, and says how far it goes. -/
theorem response_page (offset : ℕ) :
    let page := conversationFromFollowOutput text stream limit offset
    page.bytes = ((conversationBytes text).drop offset).take (clampLimit limit) ∧
      page.loadedThrough = (offset + page.bytes.length : ℕ) ∧
      (page.truncated = true ↔ offset + page.bytes.length < (conversationBytes text).length) := by
  have hpage := parseFollowRaw_page text limit offset
  have hoffset : clampOffset offset = offset := by
    rw [clampOffset, max_eq_right (Int.natCast_nonneg offset), Int.toNat_natCast]
  have hbytes : (conversationFromFollowOutput text stream limit offset).bytes =
      (parseFollowRaw text limit offset).chunks.flatMap Chunk.bytes := by
    rw [Conversation.bytes, conversationFromFollowOutput, List.flatMap_map]
    simp only [conversationChunk, unhexlify_hexText]
    rfl
  have hlength : (conversationFromFollowOutput text stream limit offset).length =
      (conversationFromFollowOutput text stream limit offset).bytes.length := by
    rw [hbytes, List.length_flatMap, conversationFromFollowOutput, List.map_map]
    simp only [Function.comp_def, conversationChunk, Chunk.bytes, List.length_map]
  refine ⟨?_, ?_, ?_⟩
  · rw [hbytes, hpage.bytes, hoffset]
  · rw [← hlength, Nat.cast_add]
    rfl
  · rw [← hlength, ← hpage.total, ← Nat.cast_lt (α := ℤ), Nat.cast_add]
    exact decide_eq_true_iff

theorem clampLimit_pos : 0 < clampLimit limit := by
  rw [clampLimit]
  omega

/-- From every offset on, the pages are finitely many and hold the bytes that are left. -/
theorem exists_paging (offset : ℕ) :
    ∃ pages, Paging text stream limit offset pages ∧
      pages.flatMap Conversation.bytes = (conversationBytes text).drop offset := by
  obtain ⟨hbytes, hloaded, htruncated⟩ := response_page text stream limit offset
  by_cases hmore : (conversationFromFollowOutput text stream limit offset).truncated = true
  · -- a truncated page is full, so the next one begins later
    have hless := htruncated.mp hmore
    have hfull : (conversationFromFollowOutput text stream limit offset).bytes.length =
        clampLimit limit := by
      rw [hbytes, List.length_take, List.length_drop] at hless ⊢
      omega
    have hpos : 0 < clampLimit limit := clampLimit_pos limit
    rw [hfull] at hloaded hless
    obtain ⟨rest, hrest, hrestBytes⟩ := exists_paging (offset + clampLimit limit)
    refine ⟨_, .next offset rest hmore (hloaded ▸ hrest), ?_⟩
    rw [List.flatMap_cons, hrestBytes, hbytes, ← List.drop_drop, List.take_append_drop]
  · have hlast := eq_false_of_ne_true hmore
    refine ⟨_, .last offset hlast, ?_⟩
    rw [htruncated, hbytes, List.length_take, List.length_drop] at hmore
    rw [List.flatMap_singleton, hbytes, List.take_of_length_le]
    rw [List.length_drop]
    omega
termination_by (conversationBytes text).length - offset

/-- Every page is the range that was asked for, of one node after the other; and the pages from the start
to the end of a conversation are determined by the report and hold all of it. -/
theorem conversation_paged :
    (∀ offset, Page (clampLimit limit) (clampOffset offset) (conversationBytes text)
      (parseFollowRaw text limit offset)) ∧
    ∃ pages, Paging text stream limit 0 pages ∧
      (∀ other, Paging text stream limit 0 other → other = pages) ∧
        pages.flatMap Conversation.bytes = conversationBytes text := by
  refine ⟨parseFollowRaw_page text limit, ?_⟩
  obtain ⟨pages, hpages, hbytes⟩ := exists_paging text stream limit 0
  exact ⟨pages, hpages, fun other hother => hother.unique hpages, hbytes⟩

end

end PacketTrain.Analysis
