import PacketTrain.Decode.Endpoints
import PacketTrain.Laws.Decode.Slicing
import PacketTrain.Lib.Fallible

/-!
# One pass answers what three requests do

`bootstrap` runs TShark once, for the rows and the follow report of the selected stream together, and cuts
the report off at its header. `bootstrap_agrees` says when it answers: exactly when its index is settled and
the list of streams, `flow` and `conversation_payload` are answered, unless the blank lines before the report
carry the rows past `MAX_PACKETS`. Those lines are counted as rows, so a capture of exactly `MAX_PACKETS`
packets is refused in one pass and answered in three.

The header is found where it stands (`searchLines_report`): a row has a tab in it, and a header has none.
-/

namespace PacketTrain.Decode

open Strings Analysis Fallible
open Lines (lineBreaks printLines)

/-! ## The header -/

/-- The follow report of TShark: a rule, the line the server looks for, and the rest. -/
structure Report where
  rule : ℕ
  long : 20 ≤ rule
  body : Lines.Text

def Report.text (r : Report) : Lines.Text :=
  List.replicate r.rule '=' ++ "\nFollow: tcp,raw".toList ++ '\n' :: r.body

/-- The header matches at the front of a report. -/
theorem followMarker_report (r : Report) : followMarker r.text ≠ [] := by
  have htail : (((), '\n' :: r.body) : Unit × Lines.Text) ∈ followMarker r.text := by
    refine Pattern.mem_bind.mpr ⟨List.replicate r.rule '=',
      "\nFollow: tcp,raw".toList ++ '\n' :: r.body, Pattern.mem_many.mpr ⟨?_, ?_, ?_⟩, ?_⟩
    · rw [Report.text, List.append_assoc]
    · rw [List.length_replicate]
      exact r.long
    · exact fun c hc => decide_eq_true (List.mem_replicate.mp hc).2
    refine Pattern.mem_bind.mpr ⟨none, _, Pattern.mem_opt.mpr (.inr rfl), ?_⟩
    refine Pattern.mem_bind.mpr ⟨(), '\n' :: r.body, Pattern.mem_literal.mpr rfl, ?_⟩
    refine Pattern.mem_bind.mpr ⟨none, _, Pattern.mem_opt.mpr (.inr rfl), ?_⟩
    exact List.mem_singleton_self _
  exact List.ne_nil_of_mem htail

/-- A line on which no report begins: it is blank, or it has a tab. -/
def RowLike (line : Lines.Text) : Prop := '\n' ∉ line ∧ (line = [] ∨ '\t' ∈ line)

/-- The header begins with its rule, and its line has nothing else. -/
theorem followMarker_line {text : Lines.Text} (h : followMarker text ≠ []) :
    ∃ rule rest : Lines.Text, text = rule ++ '\n' :: rest ∧ 20 ≤ rule.length ∧
      ∀ c ∈ rule, c = '=' ∨ c = '\r' := by
  obtain ⟨found, hfound⟩ := List.exists_mem_of_ne_nil _ h
  obtain ⟨rule, afterRule, hrule, hfound⟩ := Pattern.mem_bind.mp hfound
  obtain ⟨htext, hlong, hsigns⟩ := Pattern.mem_many.mp hrule
  obtain ⟨cr, afterCr, hcr, hfound⟩ := Pattern.mem_bind.mp hfound
  obtain ⟨_, afterWord, hword, -⟩ := Pattern.mem_bind.mp hfound
  have hword := Pattern.mem_literal.mp hword
  have hsigns : ∀ c ∈ rule, c = '=' := fun c hc => of_decide_eq_true (hsigns c hc)
  rcases Pattern.mem_opt.mp hcr with ⟨_, rest, hcr, heq⟩ | heq
  · cases heq
    have hcr := Pattern.mem_literal.mp hcr
    refine ⟨rule ++ ['\r'], "Follow: tcp,raw".toList ++ afterWord, ?_, ?_, fun c hc => ?_⟩
    · rw [htext, hcr, hword]
      simp
    · rw [List.length_append]
      exact hlong.trans (Nat.le_add_right _ _)
    · rcases List.mem_append.mp hc with hc | hc
      · exact .inl (hsigns c hc)
      · exact .inr (List.mem_singleton.mp hc)
  · cases heq
    refine ⟨rule, "Follow: tcp,raw".toList ++ afterWord, ?_, hlong, fun c hc => .inl (hsigns c hc)⟩
    rw [htext, hword]
    rfl

theorem followMarker_rowLike {line : Lines.Text} (h : RowLike line) (rest : Lines.Text) :
    followMarker (line ++ '\n' :: rest) = [] := by
  by_contra hmatch
  obtain ⟨rule, tail, htext, hlong, hsigns⟩ := followMarker_line hmatch
  have hrule : '\n' ∉ rule := fun hmem => by
    rcases hsigns _ hmem with heq | heq <;> exact absurd heq (by decide)
  have hfirst : ∀ {word : Lines.Text}, '\n' ∉ word → ∀ tail : Lines.Text,
      (word ++ '\n' :: tail).takeWhile (· ≠ '\n') = word := by
    intro word hword tail
    rw [List.takeWhile_append_of_pos fun c hc => by
      simpa using fun heq : c = '\n' => hword (heq ▸ hc)]
    simp
  have hline : line = rule := by
    rw [← hfirst h.1 rest, htext, hfirst hrule]
  rcases h.2 with hnil | htab
  · rw [← hline, hnil] at hlong
    cases hlong
  · rcases hsigns _ (hline ▸ htab) with heq | heq <;> exact absurd heq (by decide)

/-- The report is cut off where it begins. -/
theorem searchLines_report {lines : List Lines.Text} (h : ∀ line ∈ lines, RowLike line) (r : Report) :
    followMarker.searchLines (printLines lines ++ r.text) = some (printLines lines, r.text) := by
  rw [Pattern.searchLines_printLines fun line hline =>
      ⟨(h line hline).1, followMarker_rowLike (h line hline)⟩,
    Pattern.searchLines_front (followMarker_report r), Option.map_some, List.append_nil]

/-! ## The rows and the report -/

/-- A row is no header: there is a tab after its first column. -/
theorem rowLike_printRow {row : Row} (h : ∀ f, Clean (row f)) : RowLike (printRow row) := by
  refine ⟨fun hmem => ?_, .inr ?_⟩
  · exact no_break_printColumns (fun f _ => h f) _ hmem (by decide)
  · rw [printRow, printColumns]
    show '\t' ∈ ['\t'].intercalate (row .frameNumber :: row .timeEpoch :: _)
    rw [List.intercalate_cons_cons]
    simp

theorem rowLike_blank : RowLike [] := ⟨by decide, .inl rfl⟩

theorem printLines_append (a b : List Lines.Text) : printLines (a ++ b) = printLines a ++ printLines b :=
  List.flatMap_append

/-- Blank lines. -/
def blankLines (blanks : ℕ) : List Lines.Text := List.replicate blanks []

theorem parseRows_blanks (rows : List Lines.Text) (blanks : ℕ) :
    parseRows (rows ++ blankLines blanks) = parseRows rows := by
  have hblank : parseRow (readRow []) = none := by decide +kernel
  have hnil : parseRows (blankLines blanks) = [] := by
    rw [parseRows, List.filterMap_eq_nil_iff]
    intro line hline
    rw [(List.mem_replicate.mp hline).2, hblank]
  rw [parseRows, List.filterMap_append, ← parseRows, ← parseRows, hnil, List.append_nil]

/-- Blank lines before a report are not read. -/
theorem parseFollowRaw_blanks (blanks : ℕ) (text : Lines.Text) (limit offset : ℤ) :
    parseFollowRaw (printLines (blankLines blanks) ++ text) limit offset =
      parseFollowRaw text limit offset := by
  induction blanks with
  | zero => rfl
  | succ blanks ih =>
    have hprint : printLines (blankLines (blanks + 1)) ++ text =
        '\n' :: (printLines (blankLines blanks) ++ text) := rfl
    have hbreak : '\n' ∈ lineBreaks := List.mem_cons_self
    have hlines : splitlines (printLines (blankLines (blanks + 1)) ++ text) =
        [] :: splitlines (printLines (blankLines blanks) ++ text) := by
      rw [hprint, splitlines, dropCr_cons (by decide), Lines.splitLines, Lines.splitLinesFrom,
        if_pos hbreak]
      rfl
    have hskip : ∀ state, followLine (clampLimit limit) (clampOffset offset) state [] = state := by
      intro state
      rfl
    rw [parseFollowRaw, hlines, List.foldl_cons, hskip, ← ih, parseFollowRaw]

theorem conversation_blanks (blanks : ℕ) (text : Lines.Text) (stream : ℕ) (limit offset : ℤ) :
    conversationFromFollowOutput (printLines (blankLines blanks) ++ text) stream limit offset =
      conversationFromFollowOutput text stream limit offset := by
  rw [conversationFromFollowOutput, parseFollowRaw_blanks, ← conversationFromFollowOutput]

/-! ## The runs -/

/-- What the three runs of TShark print of one capture: some rows, and the report of the selected stream
after some blank lines. -/
structure Prints (rows : List Row) (blanks : ℕ) (report : Report) (fields follow both : TsharkRun) :
    Prop where
  clean : ∀ row ∈ rows, ∀ f, Clean (row f)
  fields : ∃ stderr, fields = .exited 0 (printLines (rows.map printRow)) stderr
  follow : ∃ stderr, follow = .exited 0 (printLines (blankLines blanks) ++ report.text) stderr
  both : ∃ stderr, both = .exited 0
    (printLines (rows.map printRow) ++ (printLines (blankLines blanks) ++ report.text)) stderr

def tooMany : Abort := ⟨413, "Capture exceeds MAX_PACKETS; split or filter it first".toList⟩

section

variable {maxPackets blanks : ℕ} {rows : List Row} {report : Report} {fields follow both : TsharkRun}

theorem Prints.lines_rowLike (h : Prints rows blanks report fields follow both) :
    ∀ line ∈ rows.map printRow ++ blankLines blanks, RowLike line := by
  intro line hline
  rcases List.mem_append.mp hline with hline | hline
  · obtain ⟨row, hrow, rfl⟩ := List.mem_map.mp hline
    exact rowLike_printRow (h.clean row hrow)
  · rw [(List.mem_replicate.mp hline).2]
    exact rowLike_blank

theorem Prints.readCapture_eq (h : Prints rows blanks report fields follow both) :
    readCapture maxPackets fields =
      if maxPackets < rows.length then .error tooMany else .ok (rows.filterMap parseRow) := by
  obtain ⟨stderr, rfl⟩ := h.fields
  show parseFieldText maxPackets (printLines (rows.map printRow)) = _
  rw [parseFieldText, splitlines_printRows h.clean, List.length_map, parseRows_printRows h.clean]
  rfl

/-- In one pass the blank lines count as rows. -/
theorem Prints.readCaptureWithFollow_eq (h : Prints rows blanks report fields follow both) :
    readCaptureWithFollow maxPackets both =
      if maxPackets < rows.length + blanks then .error tooMany
      else .ok (rows.filterMap parseRow, report.text) := by
  obtain ⟨stderr, rfl⟩ := h.both
  have hlines : splitlines (printLines (rows.map printRow ++ blankLines blanks)) =
      rows.map printRow ++ blankLines blanks := by
    refine splitlines_printLines fun line hline => ?_
    rcases List.mem_append.mp hline with hline | hline
    · obtain ⟨row, hrow, rfl⟩ := List.mem_map.mp hline
      exact no_break_printColumns fun f _ => h.clean row hrow f
    · rw [(List.mem_replicate.mp hline).2]
      exact fun _ hc => by cases hc
  rw [readCaptureWithFollow, ← List.append_assoc, ← printLines_append]
  simp only [runTshark, ne_eq, not_true_eq_false, if_false, bind, Except.bind,
    searchLines_report h.lines_rowLike]
  rw [parseFieldText, hlines, parseRows_blanks, parseRows_printRows h.clean, List.length_append,
    List.length_map, blankLines, List.length_replicate]
  by_cases hmany : maxPackets < rows.length + blanks
  · rw [if_pos hmany, if_pos hmany]
    rfl
  · rw [if_neg hmany, if_neg hmany]

end

/-! ## The law -/

/-- A stream is listed when it has a packet. -/
theorem mem_summarize_ids {packets : List Packet} {stream : ℕ} :
    stream ∈ (summarize packets).map (·.id) ↔ streamPackets packets stream ≠ [] := by
  have hid : ∀ {s : ℕ} {first : Packet} {rest : List Packet}, streamPackets packets s = first :: rest →
      first.stream = s := by
    intro s first rest hstream
    have hmem : first ∈ streamPackets packets s := hstream ▸ List.mem_cons_self
    exact of_decide_eq_true (List.mem_filter.mp hmem).2
  rw [List.mem_map]
  constructor
  · rintro ⟨summary, hsummary, rfl⟩
    obtain ⟨s, -, hs⟩ := List.mem_filterMap.mp hsummary
    cases hstream : streamPackets packets s with
    | nil =>
      rw [hstream] at hs
      cases hs
    | cons first rest =>
      rw [hstream] at hs
      cases hs
      show streamPackets packets first.stream ≠ []
      rw [hid hstream, hstream]
      exact List.cons_ne_nil _ _
  · intro hne
    obtain ⟨first, rest, hstream⟩ := List.exists_cons_of_ne_nil hne
    have hmem : first ∈ packets :=
      (List.mem_filter.mp (hstream ▸ List.mem_cons_self : first ∈ streamPackets packets stream)).1
    refine ⟨summaryOf first rest, List.mem_filterMap.mpr ⟨stream, ?_, by rw [hstream]⟩, hid hstream⟩
    rw [mem_sortOn, List.mem_dedup]
    exact List.mem_map.mpr ⟨first, hmem, hid hstream⟩

theorem detailOf_ok {packets : List Packet} {selected : ℕ} {detail : StreamDetail × HandshakeDetail}
    (h : detailOf packets selected = .ok detail) : streamPackets packets selected ≠ [] := by
  intro hnil
  have hnone : streamDetail packets selected = none := by rw [streamDetail, hnil]
  rw [detailOf, hnone] at h
  cases h

theorem autoSpeed_range (rttMs : Option ℚ) : speedMin ≤ autoSpeed rttMs ∧ autoSpeed rttMs ≤ speedMax := by
  have hone : speedMin ≤ 1 ∧ (1 : ℚ) ≤ speedMax := by
    unfold speedMin speedMax
    norm_num
  unfold autoSpeed
  split
  · split
    · exact ⟨le_min (hone.1.trans hone.2) (le_max_left _ _), min_le_left _ _⟩
    · exact hone
  · exact hone

/-- The speed at which the page asks for the playback of a flow. -/
def pageSpeed (quantize : ℚ → ℚ) (answer : FlowAnswer) : ℚ := quantize (autoSpeed answer.handshake.rttMs)

/-- Nothing keeps `bootstrap` from decoding: there is no index to wait for, or it is done. -/
def IndexState.Settled : IndexState → Prop
  | .unsupported | .supported .ready _ => True
  | .supported .indexing _ | .supported (.error _) _ => False

instance : DecidablePred IndexState.Settled := fun index => by
  unfold IndexState.Settled
  split <;> infer_instance

section

variable {maxPackets blanks : ℕ} {rows : List Row} {report : Report} {fields follow both : TsharkRun}
  {index : IndexState} {selected : ℕ}

/-! ### Opening the index -/

theorem checkCount_eq_ok {failed : String} {files : Indexed} :
    checkCount maxPackets failed files = .ok () ↔ ∃ count, files.count = .ok count ∧ count ≤ maxPackets := by
  simp only [checkCount, bind_eq_ok, mapError_eq_ok, ite_error_eq_ok, and_true, not_lt]

/-- What opens a flow opens its conversation. -/
theorem openConversation_of_openFlow {frames : Option (List ℕ)}
    (h : openFlow maxPackets index = .ok frames) : openConversation maxPackets index = .ok () := by
  unfold openFlow at h
  unfold openConversation
  cases hfiles : index.files with
  | none => rfl
  | some files =>
    rw [hfiles] at h
    obtain ⟨_, hcount, h⟩ := bind_eq_ok.mp h
    obtain ⟨frames, -, h⟩ := bind_eq_ok.mp h
    obtain ⟨_, hextracted, -⟩ := bind_eq_ok.mp h
    refine bind_eq_ok.mpr ⟨(), checkCount_eq_ok.mpr (checkCount_eq_ok.mp hcount), ?_⟩
    exact mapError_eq_ok.mpr (mapError_eq_ok.mp hextracted)

theorem Prints.conversationAnswer_eq_ok (h : Prints rows blanks report fields follow both)
    {answer : Conversation} :
    conversationAnswer maxPackets index follow selected conversationPreviewBytes 0 = .ok answer ↔
      openConversation maxPackets index = .ok () ∧
        conversationFromFollowOutput report.text selected conversationPreviewBytes 0 = answer := by
  obtain ⟨stderr, rfl⟩ := h.follow
  have hlimit : (clampLimit conversationPreviewBytes : ℤ) = conversationPreviewBytes := by decide
  have hoffset : (clampOffset 0 : ℤ) = 0 := by decide
  rw [conversationAnswer, bind_eq_ok]
  simp only [runFollow, ne_eq, not_true_eq_false, if_false, bind, Except.bind, hlimit, hoffset,
    conversation_blanks, Except.ok.injEq]
  exact ⟨fun ⟨_, hopen⟩ => hopen, fun hopen => ⟨(), hopen⟩⟩

/-! ### The answers in parts -/

theorem Prints.flowAnswer_eq_ok (h : Prints rows blanks report fields follow both) {speed : ℚ}
    (hspeed : speedMin ≤ speed ∧ speed ≤ speedMax) {answer : FlowAnswer} :
    flowAnswer maxPackets index fields selected (some .smart) speed = .ok answer ↔
      ∃ frames, openFlow maxPackets index = .ok frames ∧ rows.length ≤ maxPackets ∧
      ∃ packets, located frames selected (rows.filterMap parseRow) = .ok packets ∧
      ∃ detail, detailOf (packets.map DecodedPacket.packet) selected = .ok detail ∧
        answer = ⟨detail.1, detail.2, some (timeline detail.1.packets .smart speed)⟩ := by
  simp only [flowAnswer, h.readCapture_eq, bind_eq_ok, ite_error_eq_ok, if_pos hspeed, Except.ok.injEq,
    not_lt, Option.map_some, eq_comm (b := answer), and_assoc, exists_and_left, exists_eq_left']

theorem Prints.bootstrapAnswer_eq_ok (h : Prints rows blanks report fields follow both)
    {quantize : ℚ → ℚ} {includeStreams : Bool} {answer : BootstrapAnswer} :
    bootstrapAnswer maxPackets quantize includeStreams index both selected = .ok answer ↔
      ∃ frames, openFlow maxPackets index = .ok frames ∧ rows.length + blanks ≤ maxPackets ∧
      ∃ packets, located frames selected (rows.filterMap parseRow) = .ok packets ∧
      ∃ summaries, summariesOf index includeStreams selected (packets.map DecodedPacket.packet) =
        .ok summaries ∧ selected ∈ summaries.map (·.id) ∧
      ∃ detail, detailOf (packets.map DecodedPacket.packet) selected = .ok detail ∧
        answer = {
          streams := if !index.isSupported || includeStreams then summaries else []
          flow := ⟨detail.1, detail.2, some (timeline detail.1.packets .smart
            (quantize (autoSpeed detail.2.rttMs)))⟩
          payload := conversationFromFollowOutput report.text selected conversationPreviewBytes 0
          tsharkPasses := 1
          indexed := index.files.isSome } := by
  simp only [bootstrapAnswer, h.readCaptureWithFollow_eq, bind_eq_ok, ite_error_eq_ok, not_not,
    Except.ok.injEq, not_lt, eq_comm (b := answer), and_assoc, exists_and_left, exists_eq_left']

/-! ### The lists -/

theorem IndexState.isSupported_of_files {files : Indexed} (h : index.files = some files) :
    index.isSupported = true := by
  cases index with
  | unsupported => cases h
  | supported reply ready => rfl

/-- A summary is looked up by the number of its flow. -/
theorem mem_ids_filter {streams : List Summary} :
    selected ∈ (streams.filter (·.id = selected)).map (·.id) ↔ selected ∈ streams.map (·.id) := by
  simp only [List.mem_map, List.mem_filter, decide_eq_true_eq]
  constructor
  · rintro ⟨summary, ⟨hmem, -⟩, hid⟩
    exact ⟨summary, hmem, hid⟩
  · rintro ⟨summary, hmem, hid⟩
    exact ⟨summary, ⟨hmem, hid⟩, hid⟩

/-- The list of a bootstrap answer is the one that the page shows: the index has it, or the packets. One that
the packets have names the selected stream, whose flow is in them. -/
theorem Prints.summaries_iff (h : Prints rows blanks report fields follow both)
    (hfew : rows.length ≤ maxPackets) {frames : Option (List ℕ)}
    (hopen : openFlow maxPackets index = .ok frames) {packets : List DecodedPacket}
    (hlocated : located frames selected (rows.filterMap parseRow) = .ok packets)
    {detail : StreamDetail × HandshakeDetail}
    (hdetail : detailOf (packets.map DecodedPacket.packet) selected = .ok detail) {includeStreams : Bool}
    {shown : List Summary} :
    (∃ summaries, summariesOf index includeStreams selected (packets.map DecodedPacket.packet) =
        .ok summaries ∧ selected ∈ summaries.map (·.id) ∧
        shown = if !index.isSupported || includeStreams then summaries else []) ↔
      ∃ streams, streamList maxPackets index fields = .ok streams ∧
        (index.files.isSome = true → selected ∈ streams.map (·.id)) ∧
        shown = if !index.isSupported || includeStreams then streams else [] := by
  cases hfiles : index.files with
  | none =>
    have hframes : frames = none := by
      rw [openFlow, hfiles] at hopen
      exact (Except.ok.inj hopen).symm
    rw [hframes] at hlocated
    have hlisted := mem_summarize_ids.mpr (detailOf_ok hdetail)
    have hlist : streamList maxPackets index fields =
        .ok (summarize (packets.map DecodedPacket.packet)) := by
      rw [streamList, hfiles, ← Except.ok.inj hlocated]
      dsimp only
      rw [streamsAnswer, h.readCapture_eq, if_neg (Nat.not_lt.mpr hfew)]
      rfl
    rw [summariesOf, hlist, hfiles]
    simp only [Except.ok.injEq, exists_eq_left', hlisted, Option.isSome_none, Bool.false_eq_true,
      false_implies, true_and]
  | some files =>
    rw [summariesOf, streamList, hfiles, IndexState.isSupported_of_files hfiles]
    simp only [bind_eq_ok, mapError_eq_ok, Except.ok.injEq, Option.isSome_some, true_implies]
    cases includeStreams with
    | true => simp
    | false => simp [mem_ids_filter]

/-! ### One pass -/

theorem bootstrap_of_settled {run : TsharkRun} {quantize : ℚ → ℚ} {includeStreams : Bool}
    (hsettled : index.Settled) :
    bootstrap maxPackets quantize includeStreams index run selected =
      (bootstrapAnswer maxPackets quantize includeStreams index run selected).map .answered := by
  unfold bootstrap
  split
  · exact hsettled.elim
  · exact hsettled.elim
  · rfl
  · rfl

theorem bootstrap_eq_answered {run : TsharkRun} {quantize : ℚ → ℚ} {includeStreams : Bool}
    {answer : BootstrapAnswer} :
    bootstrap maxPackets quantize includeStreams index run selected = .ok (.answered answer) ↔
      index.Settled ∧
        bootstrapAnswer maxPackets quantize includeStreams index run selected = .ok answer := by
  by_cases hsettled : index.Settled
  · rw [bootstrap_of_settled hsettled, and_iff_right hsettled]
    cases bootstrapAnswer maxPackets quantize includeStreams index run selected with
    | error e => exact iff_of_false (fun h => nomatch h) (fun h => nomatch h)
    | ok a => exact ⟨fun h => by cases h; rfl, fun h => by cases h; rfl⟩
  · refine iff_of_false (fun h => ?_) fun h => hsettled h.1
    unfold bootstrap at h
    split at h
    · cases h
    · cases h
    · exact hsettled trivial
    · exact hsettled trivial

theorem bootstrap_eq_error {run : TsharkRun} {quantize : ℚ → ℚ} {includeStreams : Bool} {refusal : Abort}
    (hsettled : index.Settled)
    (h : bootstrapAnswer maxPackets quantize includeStreams index run selected = .error refusal) :
    bootstrap maxPackets quantize includeStreams index run selected = .error refusal := by
  rw [bootstrap_of_settled hsettled, h]
  rfl

/-- The parts of a bootstrap answer are what three requests answer: the list of streams, which has the
selected one when it is that of an index, and is left out when it was not asked for; the flow, in smart mode
at the speed of the page; and the first page of the conversation. -/
structure BootstrapAnswer.Agrees (maxPackets : ℕ) (quantize : ℚ → ℚ) (includeStreams : Bool)
    (index : IndexState) (fields follow : TsharkRun) (selected : ℕ) (answer : BootstrapAnswer) : Prop where
  streams : ∃ streams, streamList maxPackets index fields = .ok streams ∧
    (index.files.isSome = true → selected ∈ streams.map (·.id)) ∧
    answer.streams = if !index.isSupported || includeStreams then streams else []
  flow : flowAnswer maxPackets index fields selected (some .smart) (pageSpeed quantize answer.flow) =
    .ok answer.flow
  payload : conversationAnswer maxPackets index follow selected conversationPreviewBytes 0 =
    .ok answer.payload
  tsharkPasses : answer.tsharkPasses = 1
  indexed : answer.indexed = index.files.isSome

theorem Prints.bootstrapAnswer_agrees (h : Prints rows blanks report fields follow both)
    {quantize : ℚ → ℚ}
    (hquantize : ∀ x, speedMin ≤ x → x ≤ speedMax → speedMin ≤ quantize x ∧ quantize x ≤ speedMax)
    {includeStreams : Bool} {answer : BootstrapAnswer} :
    bootstrapAnswer maxPackets quantize includeStreams index both selected = .ok answer ↔
      rows.length + blanks ≤ maxPackets ∧
        answer.Agrees maxPackets quantize includeStreams index fields follow selected := by
  have hrange : ∀ flow : FlowAnswer,
      speedMin ≤ pageSpeed quantize flow ∧ pageSpeed quantize flow ≤ speedMax := fun flow =>
    hquantize _ (autoSpeed_range _).1 (autoSpeed_range _).2
  rw [h.bootstrapAnswer_eq_ok]
  constructor
  · rintro ⟨frames, hopen, hmany, packets, hlocated, summaries, hsummaries, hselected, detail, hdetail,
      rfl⟩
    have hfew : rows.length ≤ maxPackets := (Nat.le_add_right _ _).trans hmany
    exact ⟨hmany, {
      streams := (h.summaries_iff hfew hopen hlocated hdetail).mp
        ⟨summaries, hsummaries, hselected, rfl⟩
      flow := (h.flowAnswer_eq_ok (hrange _)).mpr
        ⟨frames, hopen, hfew, packets, hlocated, detail, hdetail, rfl⟩
      payload := h.conversationAnswer_eq_ok.mpr ⟨openConversation_of_openFlow hopen, rfl⟩
      tsharkPasses := rfl
      indexed := rfl }⟩
  · rintro ⟨hmany, hagrees⟩
    have hfew : rows.length ≤ maxPackets := (Nat.le_add_right _ _).trans hmany
    obtain ⟨frames, hopen, -, packets, hlocated, detail, hdetail, hflow⟩ :=
      (h.flowAnswer_eq_ok (hrange _)).mp hagrees.flow
    obtain ⟨summaries, hsummaries, hselected, hstreams⟩ :=
      (h.summaries_iff hfew hopen hlocated hdetail).mpr hagrees.streams
    obtain ⟨-, hpayload⟩ := h.conversationAnswer_eq_ok.mp hagrees.payload
    refine ⟨frames, hopen, hmany, packets, hlocated, summaries, hsummaries, hselected, detail, hdetail, ?_⟩
    have hspeed : pageSpeed quantize answer.flow = quantize (autoSpeed detail.2.rttMs) := by
      rw [hflow]
      rfl
    rw [hspeed] at hflow
    obtain ⟨streams, flow, payload, passes, indexed⟩ := answer
    simp only [BootstrapAnswer.mk.injEq]
    exact ⟨hstreams, hflow, hpayload.symm, hagrees.tsharkPasses, hagrees.indexed⟩

/-- ONE PASS AGREES WITH THREE: once the index is settled, `bootstrap` answers exactly when the list of
streams, `flow` and `conversation_payload` do, and with what they answer, unless the rows and the blank lines
behind them are more than `MAX_PACKETS`. It refuses those; what the index refuses `flow` refuses too. An
index that is being built, or that failed, is its answer before any run; the three wait for none, and answer
as they do of a capture that has no index. -/
theorem bootstrap_agrees {quantize : ℚ → ℚ}
    (hquantize : ∀ x, speedMin ≤ x → x ≤ speedMax → speedMin ≤ quantize x ∧ quantize x ≤ speedMax)
    (h : Prints rows blanks report fields follow both) (includeStreams : Bool) (index : IndexState)
    (selected : ℕ) :
    (∀ answer, bootstrap maxPackets quantize includeStreams index both selected = .ok (.answered answer) ↔
      index.Settled ∧ rows.length + blanks ≤ maxPackets ∧
        answer.Agrees maxPackets quantize includeStreams index fields follow selected) ∧
      (index.Settled → maxPackets < rows.length + blanks →
        ∀ frames, openFlow maxPackets index = .ok frames →
          bootstrap maxPackets quantize includeStreams index both selected = .error tooMany) ∧
      (index.Settled → ∀ refusal, openFlow maxPackets index = .error refusal →
        ∀ run mode speed,
          bootstrap maxPackets quantize includeStreams index run selected = .error refusal ∧
            flowAnswer maxPackets index run selected mode speed = .error refusal) ∧
      (∀ ready run, bootstrap maxPackets quantize includeStreams (.supported .indexing ready) run selected =
        .ok .indexing) ∧
      (∀ text ready run,
        bootstrap maxPackets quantize includeStreams (.supported (.error text) ready) run selected =
          .error ⟨422, "Flow indexing failed: ".toList ++ text.getD "unknown error".toList⟩) ∧
      (index.files = none → ∀ run mode speed limit offset,
        streamList maxPackets index run = streamsAnswer maxPackets run ∧
          flowAnswer maxPackets index run selected mode speed =
            flowAnswer maxPackets .unsupported run selected mode speed ∧
          conversationAnswer maxPackets index run selected limit offset =
            conversationAnswer maxPackets .unsupported run selected limit offset) := by
  refine ⟨fun answer => ?_, fun hsettled hmany frames hopen => ?_,
    fun hsettled refusal hopen run mode speed => ⟨?_, ?_⟩, fun _ _ => rfl, fun _ _ _ => rfl,
    fun hfiles run mode speed limit offset => ?_⟩
  · rw [bootstrap_eq_answered, h.bootstrapAnswer_agrees hquantize]
  · refine bootstrap_eq_error hsettled ?_
    rw [bootstrapAnswer, hopen, h.readCaptureWithFollow_eq, if_pos hmany]
    rfl
  · refine bootstrap_eq_error hsettled ?_
    rw [bootstrapAnswer, hopen]
    rfl
  · rw [flowAnswer, hopen]
    rfl
  · have hflow : openFlow maxPackets index = openFlow maxPackets .unsupported := by
      rw [openFlow, hfiles]
      rfl
    have hconversation : openConversation maxPackets index = openConversation maxPackets .unsupported := by
      rw [openConversation, hfiles]
      rfl
    exact ⟨by rw [streamList, hfiles], by rw [flowAnswer, hflow, flowAnswer],
      by rw [conversationAnswer, hconversation, conversationAnswer]⟩

end

/-- The rows of a capture of one packet, and the report of its stream. -/
def oneRow : List Row := [(bareSegment 60 60).row]

def shortReport : Report where
  rule := 67
  long := by decide
  body := "Filter: tcp.stream eq 0\n".toList

def fieldsRun : TsharkRun := .exited 0 (printLines (oneRow.map printRow)) []

def followRun : TsharkRun := .exited 0 (printLines (blankLines 1) ++ shortReport.text) []

def bothRun : TsharkRun :=
  .exited 0 (printLines (oneRow.map printRow) ++ (printLines (blankLines 1) ++ shortReport.text)) []

theorem prints_oneRow : Prints oneRow 1 shortReport fieldsRun followRun bothRun where
  clean row hrow := by
    rw [List.mem_singleton.mp hrow]
    exact (bareSegment 60 60).clean
  fields := ⟨[], rfl⟩
  follow := ⟨[], rfl⟩
  both := ⟨[], rfl⟩

/-- An index that names the packet of `oneRow` as frame 7 of its capture, and flow 3. -/
def readyIndex : Indexed where
  count := .ok 1
  frames := .ok [7]
  extracted := .ok ()
  streams := .ok ((summarize (oneRow.filterMap parseRow |>.map DecodedPacket.packet)).map
    ({ · with id := 3 }))

/-- The streams that an answer lists, and the frames of its flow. -/
def BootstrapReply.shown : BootstrapReply → Option (List ℕ × List ℕ)
  | .indexing => none
  | .answered answer => some (answer.streams.map (·.id), answer.flow.detail.packets.map (·.frame))

theorem exists_answered {reply : Except Abort BootstrapReply} {shown : List ℕ × List ℕ}
    (h : reply.toOption.bind BootstrapReply.shown = some shown) :
    ∃ answer, reply = .ok (.answered answer) ∧ (BootstrapReply.answered answer).shown = some shown := by
  cases reply with
  | error e => cases h
  | ok reply =>
    cases reply with
    | indexing => cases h
    | answered answer => exact ⟨answer, rfl, h⟩

/-- The law at work: with one packet allowed, the one pass is refused and `flow` answers; with two, the one
pass answers, of the whole capture and of the flow that its index extracts. While the index is built it waits
for it, and `flow` answers of the whole capture. -/
theorem bootstrap_agrees_oneRow :
    bootstrap 1 id true .unsupported bothRun 0 = .error tooMany ∧
      (flowAnswer 1 .unsupported fieldsRun 0 (some .smart) 1).toOption.isSome = true ∧
      (∃ answer, bootstrap 2 id true .unsupported bothRun 0 = .ok (.answered answer) ∧
        (BootstrapReply.answered answer).shown = some ([0], [1]) ∧
        answer.Agrees 2 id true .unsupported fieldsRun followRun 0) ∧
      (∃ answer, bootstrap 2 id true (.supported .ready (some readyIndex)) bothRun 3 =
          .ok (.answered answer) ∧
        (BootstrapReply.answered answer).shown = some ([3], [7]) ∧
        answer.Agrees 2 id true (.supported .ready (some readyIndex)) fieldsRun followRun 3) ∧
      bootstrap 2 id true (.supported .indexing none) bothRun 0 = .ok .indexing ∧
      flowAnswer 2 (.supported .indexing none) fieldsRun 0 (some .smart) 1 =
        flowAnswer 2 .unsupported fieldsRun 0 (some .smart) 1 := by
  have hlaw := fun maxPackets index selected =>
    @bootstrap_agrees maxPackets _ _ _ _ _ _ id (fun _ hmin hmax => ⟨hmin, hmax⟩) prints_oneRow true index
      selected
  have hanswered : ∀ {index : IndexState} {selected : ℕ} {shown : List ℕ × List ℕ},
      (bootstrap 2 id true index bothRun selected).toOption.bind BootstrapReply.shown = some shown →
      ∃ answer, bootstrap 2 id true index bothRun selected = .ok (.answered answer) ∧
        (BootstrapReply.answered answer).shown = some shown ∧
        answer.Agrees 2 id true index fieldsRun followRun selected := by
    intro index selected shown hshown
    obtain ⟨answer, hreply, hshown⟩ := exists_answered hshown
    exact ⟨answer, hreply, hshown, (((hlaw 2 index selected).1 answer).mp hreply).2.2⟩
  exact ⟨(hlaw 1 .unsupported 0).2.1 trivial (by decide) none rfl, by decide +kernel,
    hanswered (by decide +kernel), hanswered (by decide +kernel),
    (hlaw 2 .unsupported 0).2.2.2.1 none bothRun,
    ((hlaw 2 (.supported .indexing none) 0).2.2.2.2.2 rfl fieldsRun (some .smart) 1 0 0).2.1⟩

end PacketTrain.Decode
