import PacketTrain.Laws.Indexer.Frames
import PacketTrain.Laws.Lifecycle.Publication

/-!
# What a reader answers, whatever happens meanwhile

A request for a flow reads the index directory a dozen times while builds run, fail, are killed and
start again. `served_truly` says that an answer is right all the same: its frames and its file are the
flow's own, in any run that keeps builds apart. `no_refusal` says that in a run that also keeps a ready
index, a reader that found READY is refused only for an unknown flow or one too large. `nothing_left`
is the temporary files: the body finds a complete extraction, and a reader that has ended leaves none.
-/

namespace PacketTrain.Lifecycle

open Indexer Fallible

/-! ## What a right answer is -/

/-- The frames of a flow's packets in the capture. -/
def flowFrames (source : Source) (flowId : Nat) : List Nat :=
  (recordsOf (placements source) flowId).map Record.frame

/-- A flow as a capture of its own. -/
def flowBytes (source : Source) (flowId : Nat) : Bytes :=
  source.bytes.take 24 ++ (recordsOf (placements source) flowId).flatMap (Record.bytes source.bytes)

/-- The references can address every record. -/
structure Addressable (source : Source) : Prop where
  offsets : source.bytes.length < 2 ^ 64
  lengths : ∀ p ∈ placements source, p.record.len < 2 ^ 32

/-- The capture's index has the flow. -/
def Indexed (source : Source) (flowId : Nat) (f : FlowRow) : Prop :=
  ∃ index, buildIndex source = .ok index ∧ f ∈ index.manifest.flows ∧ f.id = flowId

/-- And its packets pass the limit. -/
def Selected (sv : Service) (flowId : Nat) : Prop :=
  ∃ f, Indexed sv.source flowId f ∧ f.packets ≤ (sv.maxPackets : Int)

/-- An extracted file. -/
def Extracted (source : Source) (flowId : Nat) (file : Bytes) : Prop :=
  ∃ index, buildIndex source = .ok index ∧ extractFrom index source flowId = .ok file

/-- The chain an extraction copies. -/
def Walked (source : Source) (flowId : Nat) (chain : List Hop) : Prop :=
  ∃ index, buildIndex source = .ok index ∧ flowChain index.refs index.manifest flowId = .ok chain

/-- The manifest is the capture's own. -/
def Queried (source : Source) (manifest : Manifest) : Prop :=
  ∃ index, buildIndex source = .ok index ∧ manifest = index.manifest

/-- A right answer: a flow of the capture, all of its frames, and its records. -/
structure RightAnswer (sv : Service) (flowId : Nat) (frames : List Nat) (file : Bytes) : Prop where
  selected : Selected sv flowId
  complete : frames = flowFrames sv.source flowId
  within : frames.length ≤ sv.maxPackets
  copied : Addressable sv.source → file = flowBytes sv.source flowId

/-! ## The two reads of one index -/

variable {sv : Service} {source : Source} {flowId : Nat}

theorem indexed_of_find {index : Index} (hb : buildIndex source = .ok index) {f : FlowRow}
    (hf : index.manifest.flows.find? (fun row => row.id = flowId) = some f) :
    Indexed source flowId f :=
  ⟨index, hb, List.mem_of_find?_eq_some hf, by simpa using List.find?_some hf⟩

/-- A flow the index has is found in it. -/
theorem Indexed.find {index : Index} {f : FlowRow} (h : Indexed source flowId f)
    (hb : buildIndex source = .ok index) :
    index.manifest.flows.find? (fun row => row.id = flowId) = some f := by
  obtain ⟨own, hown, hmem, rfl⟩ := h
  cases index_unique hb hown
  obtain ⟨ps, st, hbuilt⟩ := buildIndex_ok hb
  exact hbuilt.find_row hmem

theorem Indexed.frames {index : Index} {f : FlowRow} (h : Indexed source flowId f)
    (hb : buildIndex source = .ok index) :
    originalFrames index.refs index.manifest flowId = .ok (flowFrames source flowId) := by
  obtain ⟨own, hown, hmem, rfl⟩ := h
  cases index_unique hb hown
  exact (framesOf hb hmem).frames

theorem Indexed.extract {index : Index} {f : FlowRow} (h : Indexed source flowId f)
    (hb : buildIndex source = .ok index) (haddr : Addressable source) :
    extractFrom index source flowId = .ok (flowBytes source flowId) := by
  obtain ⟨own, hown, hmem, rfl⟩ := h
  cases index_unique hb hown
  obtain ⟨ps, st, hbuilt⟩ := buildIndex_ok hb
  have hlengths := haddr.lengths
  rw [hbuilt.placements] at hlengths
  have hok := hbuilt.extract_ok (fits_of_records hbuilt.inv haddr.offsets hlengths) hmem
  rw [hok, flowBytes, hbuilt.placements]

/-- A flow has as many frames as its row has packets. -/
theorem Indexed.packets {f : FlowRow} (h : Indexed source flowId f) :
    f.packets = ((flowFrames source flowId).length : Int) := by
  obtain ⟨index, hb, hmem, rfl⟩ := h
  obtain ⟨ps, st, hbuilt⟩ := buildIndex_ok hb
  rw [(hbuilt.row (hbuilt.mem_iff.mp hmem)).packets, flowFrames, hbuilt.placements, List.length_map,
    ← owned_items, List.length_map]

/-- What an extraction passes on its way. -/
theorem extractFrom_ok {index : Index} {file : Bytes} :
    extractFrom index source flowId = .ok file ↔
      source.bytes.length = index.manifest.metadata.sourceSize ∧
      source.mtimeNs = index.manifest.metadata.sourceMtimeNs ∧
      ∃ chain header records, flowChain index.refs index.manifest flowId = .ok chain ∧
        source.bytes.slice 0 24 = some header ∧ copyRecords source.bytes chain = .ok records ∧
        file = header ++ records := by
  unfold extractFrom
  constructor
  · intro h
    dsimp only at h
    split at h
    · cases h
    · next hsame =>
      obtain ⟨hsize, hmtime⟩ := not_or.mp hsame
      obtain ⟨chain, hchain, h⟩ := bind_eq_ok.mp h
      cases hheader : source.bytes.slice 0 24 with
      | none =>
        rw [hheader] at h
        cases h
      | some header =>
        rw [hheader] at h
        obtain ⟨records, hrecords, h⟩ := bind_eq_ok.mp h
        cases h
        exact ⟨not_not.mp hsize, not_not.mp hmtime, chain, header, records, hchain, rfl, hrecords, rfl⟩
  · rintro ⟨hsize, hmtime, chain, header, records, hchain, hheader, hrecords, rfl⟩
    dsimp only
    rw [if_neg (not_or.mpr ⟨not_not.mpr hsize, not_not.mpr hmtime⟩)]
    simp only [hchain, hheader, hrecords, bind, Except.bind]

/-- A built index is its capture's, by size and time. -/
theorem built_metadata {index : Index} (hb : buildIndex source = .ok index) :
    source.bytes.length = index.manifest.metadata.sourceSize ∧
      source.mtimeNs = index.manifest.metadata.sourceMtimeNs := by
  obtain ⟨ps, st, hbuilt⟩ := buildIndex_ok hb
  exact ⟨hbuilt.size.symm, hbuilt.mtime.symm⟩

/-- The copied records of a walked chain are an extraction. -/
theorem Walked.extracted {chain : List Hop} (h : Walked source flowId chain) {header records : Bytes}
    (hheader : source.bytes.slice 0 24 = some header)
    (hrecords : copyRecords source.bytes chain = .ok records) :
    Extracted source flowId (header ++ records) := by
  obtain ⟨index, hb, hchain⟩ := h
  obtain ⟨hsize, hmtime⟩ := built_metadata hb
  exact ⟨index, hb, extractFrom_ok.mpr
    ⟨hsize, hmtime, chain, header, records, hchain, hheader, hrecords, rfl⟩⟩

theorem rightAnswer {frames : List Nat} {file : Bytes} (hsel : Selected sv flowId)
    (hframes : frames = flowFrames sv.source flowId) (hfile : Extracted sv.source flowId file) :
    RightAnswer sv flowId frames file := by
  obtain ⟨f, hf, hmax⟩ := hsel
  refine ⟨⟨f, hf, hmax⟩, hframes, ?_, fun haddr => ?_⟩
  · rw [hf.packets] at hmax
    rw [hframes]
    exact_mod_cast hmax
  · obtain ⟨index, hb, hok⟩ := hfile
    rw [hf.extract hb haddr] at hok
    exact (Except.ok.inj hok).symm

/-! ## One reader -/

/-- The answer of a reader, when it is one, is right. -/
def ReplyRight (sv : Service) (flowId : Nat) : FlowReply → Prop
  | .answered frames file => RightAnswer sv flowId frames file
  | _ => True

/-- The flow was found and passes the limit, and these are its frames. -/
def FramesRead (sv : Service) (flowId : Nat) (frames : List Nat) : Prop :=
  Selected sv flowId ∧ frames = flowFrames sv.source flowId

/-- What a reader knows when it is about to do an operation, or has ended. -/
def ReaderFacts (sv : Service) (r : Reader) : Prop :=
  match r.pc with
  | .checkReady | .checkSqlite | .checkRefs | .countPackets => True
  | .frameRow => Selected sv r.flowId
  | .frameRefs manifest => Selected sv r.flowId ∧ Queried sv.source manifest
  | .againReady frames | .againSqlite frames | .againRefs frames | .createTemp frames
  | .extractReady frames | .extractDb frames => FramesRead sv r.flowId frames
  | .extractRefs frames manifest => FramesRead sv r.flowId frames ∧ Queried sv.source manifest
  | .createPart frames chain | .copy frames chain =>
    FramesRead sv r.flowId frames ∧ Walked sv.source r.flowId chain
  | .rename frames =>
    FramesRead sv r.flowId frames ∧ ∃ file, r.part = some file ∧ Extracted sv.source r.flowId file
  | .body frames =>
    FramesRead sv r.flowId frames ∧ ∃ file, r.output = some file ∧ Extracted sv.source r.flowId file
  | .unlinkOutput reply | .unlinkPart reply | .done reply => ReplyRight sv r.flowId reply

variable {dir dir' : IndexDir} {r r' : Reader}

/-- A test leads one way or the other. -/
theorem readerFacts_ite {c : Prop} [Decidable c] {pc pc' : ReaderPc}
    (h : ReaderFacts sv { r with pc := pc }) (h' : ReaderFacts sv { r with pc := pc' }) :
    ReaderFacts sv { r with pc := if c then pc else pc' } := by
  split
  · exact h
  · exact h'

/-- An operation leads to what is known at the next one; of the directory it changes the database at
most. -/
theorem readGo_facts (hgen : Genuine sv.source dir) (hf : ReaderFacts sv r)
    (hgo : readGo sv dir r = some (r', dir')) :
    ReaderFacts sv r' ∧ (dir' = dir ∨ dir' = dir.openDb) := by
  obtain ⟨id, pc, output, part⟩ := r
  cases pc with
  | checkReady | checkSqlite | checkRefs =>
    cases hgo
    exact ⟨readerFacts_ite trivial trivial, .inl rfl⟩
  | countPackets =>
    simp only [readGo] at hgo
    split at hgo
    · cases hgo
      exact ⟨trivial, .inl rfl⟩
    · next manifest hm =>
      obtain ⟨index, hb, rfl⟩ := hgen.query hm
      split at hgo
      · cases hgo
        exact ⟨trivial, .inl rfl⟩
      · next row hrow =>
        cases hgo
        refine ⟨?_, .inl rfl⟩
        unfold ReaderFacts
        by_cases hmax : (sv.maxPackets : Int) < row.packets
        · rw [if_pos hmax]
          trivial
        · rw [if_neg hmax]
          exact ⟨row, indexed_of_find hb hrow, Int.not_lt.mp hmax⟩
  | frameRow =>
    simp only [readGo] at hgo
    split at hgo
    · cases hgo
      exact ⟨trivial, .inl rfl⟩
    · next manifest hm =>
      split at hgo
      · cases hgo
        exact ⟨trivial, .inl rfl⟩
      · cases hgo
        exact ⟨⟨hf, hgen.query hm⟩, .inl rfl⟩
  | frameRefs manifest =>
    obtain ⟨⟨f, hindexed, hmax⟩, index, hb, rfl⟩ := hf
    simp only [readGo] at hgo
    split at hgo
    · cases hgo
      exact ⟨trivial, .inl rfl⟩
    · next refs hrefs =>
      obtain ⟨own, hown, hcontent⟩ := hgen.refs refs hrefs
      cases index_unique hb hown
      rw [hcontent, hindexed.frames hb] at hgo
      cases hgo
      exact ⟨⟨⟨f, hindexed, hmax⟩, rfl⟩, .inl rfl⟩
  | againReady frames | againSqlite frames | againRefs frames | extractReady frames =>
    cases hgo
    exact ⟨readerFacts_ite hf trivial, .inl rfl⟩
  | createTemp frames =>
    cases hgo
    exact ⟨hf, .inl rfl⟩
  | extractDb frames =>
    simp only [readGo] at hgo
    split at hgo
    · cases hgo
      exact ⟨trivial, .inr rfl⟩
    · next manifest hm =>
      split at hgo
      · cases hgo
        exact ⟨trivial, .inr rfl⟩
      · cases hgo
        exact ⟨⟨hf, hgen.openDb.query hm⟩, .inr rfl⟩
  | extractRefs frames manifest =>
    obtain ⟨hframes, index, hb, rfl⟩ := hf
    simp only [readGo] at hgo
    split at hgo
    · cases hgo
      exact ⟨trivial, .inl rfl⟩
    · next refs hrefs =>
      obtain ⟨own, hown, hcontent⟩ := hgen.refs refs hrefs
      cases index_unique hb hown
      split at hgo
      · cases hgo
        exact ⟨trivial, .inl rfl⟩
      · next chain hchain =>
        cases hgo
        exact ⟨⟨hframes, index, hb, hcontent ▸ hchain⟩, .inl rfl⟩
  | createPart frames chain =>
    cases hgo
    exact ⟨hf, .inl rfl⟩
  | copy frames chain =>
    simp only [readGo] at hgo
    split at hgo
    · next header records hheader hrecords =>
      cases hgo
      exact ⟨⟨hf.1, _, rfl, hf.2.extracted hheader hrecords⟩, .inl rfl⟩
    · cases hgo
      exact ⟨trivial, .inl rfl⟩
  | rename frames =>
    cases hgo
    exact ⟨hf, .inl rfl⟩
  | body frames =>
    obtain ⟨⟨hsel, hframes⟩, file, rfl, hfile⟩ := hf
    cases hgo
    exact ⟨rightAnswer hsel hframes hfile, .inl rfl⟩
  | unlinkOutput reply | unlinkPart reply =>
    cases hgo
    exact ⟨hf, .inl rfl⟩
  | done reply => cases hgo

/-- Every event of a reader keeps what it knows. -/
theorem readStep_facts {e : ReadEvent} (hgen : Genuine sv.source dir) (hf : ReaderFacts sv r)
    (hs : readStep sv dir r e = some (r', dir')) :
    ReaderFacts sv r' ∧ (dir' = dir ∨ dir' = dir.openDb) := by
  cases e with
  | go => exact readGo_facts hgen hf hs
  | flush content =>
    obtain ⟨id, pc, output, part⟩ := r
    cases pc with
    | copy frames chain =>
      cases hs
      exact ⟨hf, .inl rfl⟩
    | _ => cases hs
  | fail status =>
    obtain ⟨pc', hpc', heq⟩ := Option.map_eq_some_iff.mp hs
    cases heq
    refine ⟨?_, .inl rfl⟩
    obtain ⟨id, pc, output, part⟩ := r
    cases pc with
    | unlinkOutput reply | unlinkPart reply =>
      cases hpc'
      exact hf
    | done reply => cases hpc'
    | _ =>
      cases hpc'
      trivial

/-! ## The served system -/

/-- A condition on the steps of the lifecycle; readers take theirs as they like. -/
def OnWorld (guard : World → Act → Prop) (s : Served) : ServeAct → Prop
  | .world a => guard s.world a
  | .request _ | .read _ _ => True

instance {guard : World → Act → Prop} [∀ w a, Decidable (guard w a)] (s : Served) :
    (a : ServeAct) → Decidable (OnWorld guard s a)
  | .world a => inferInstanceAs (Decidable (guard s.world a))
  | .request _ | .read _ _ => .isTrue trivial

/-- The start: no party at work, and files that an earlier run may have left. -/
structure Served.Start (sv : Service) (s : Served) : Prop where
  fresh : s.world.Fresh
  ready : s.world.dir.ready.isSome → CompletePair s.world.dir
  files : Genuine sv.source s.world.dir
  readers : s.readers = []

/-- Nothing on disk, and nobody there. -/
def Served.empty : Served := ⟨.empty, []⟩

theorem Served.start_empty (sv : Service) : Served.empty.Start sv where
  fresh := World.fresh_empty
  ready := by
    intro h
    cases h
  files := by
    constructor
    · rintro f ⟨⟩
    · rintro f manifest ⟨⟩
  readers := rfl

/-- The ends of a step of the whole. -/
inductive ServeEffect (sv : Service) (s : Served) : ServeAct → Served → Prop
  | world (a : Act) (w : World) : step sv.toConfig s.world a = some w →
      ServeEffect sv s (.world a) { s with world := w }
  | request (flowId : Nat) : ServeEffect sv s (.request flowId) { s with readers := s.readers ++
      [⟨flowId, if sv.supported then .checkReady else .done .plain, none, none⟩] }
  | read (i : Nat) (e : ReadEvent) (r r' : Reader) (dir : IndexDir) : s.readers[i]? = some r →
      readStep sv s.world.dir r e = some (r', dir) →
      ServeEffect sv s (.read i e)
        { world := { s.world with dir := dir }, readers := s.readers.set i r' }

theorem serveStep_effect {s s' : Served} {a : ServeAct} (h : serveStep sv s a = some s') :
    ServeEffect sv s a s' := by
  cases a with
  | world a =>
    obtain ⟨w, hw, rfl⟩ := Option.map_eq_some_iff.mp h
    exact .world a w hw
  | request flowId =>
    cases h
    exact .request flowId
  | read i e =>
    obtain ⟨r, hr, h⟩ := Option.bind_eq_some_iff.mp h
    obtain ⟨⟨r', dir⟩, hs, h⟩ := Option.bind_eq_some_iff.mp h
    cases h
    exact .read i e r r' dir hr hs

/-- What holds of every reader: of the ones there, of the one that steps, and of a new one. -/
theorem readers_step {s s' : Served} {a : ServeAct} {P : Reader → Prop}
    (h : ServeEffect sv s a s') (hall : ∀ r ∈ s.readers, P r)
    (hnew : ∀ flowId, P ⟨flowId, if sv.supported then .checkReady else .done .plain, none, none⟩)
    (hread : ∀ i e r r' dir, a = .read i e → s.readers[i]? = some r →
      readStep sv s.world.dir r e = some (r', dir) → P r') : ∀ r ∈ s'.readers, P r := by
  cases h with
  | world a w hw => exact hall
  | request flowId =>
    intro r hr
    rcases List.mem_append.mp hr with hr | hr
    · exact hall r hr
    · rw [List.mem_singleton.mp hr]
      exact hnew flowId
  | read i e r r' dir hi hs =>
    intro q hq
    obtain ⟨k, hk⟩ := List.mem_iff_getElem?.mp hq
    rcases getElem?_set_cases hk with ⟨-, rfl⟩ | ⟨-, hk⟩
    · exact hread i e r _ dir rfl hi hs
    · exact hall q (List.mem_of_getElem? hk)

structure ServedInv (sv : Service) (s : Served) : Prop where
  publish : PublishInv sv.source s.world
  readers : ∀ r ∈ s.readers, ReaderFacts sv r

theorem Served.Start.servedInv {s : Served} (h : s.Start sv) : ServedInv sv s where
  publish := h.fresh.publishInv h.ready h.files
  readers := fun r hr => by
    rw [h.readers] at hr
    cases hr

/-- A new reader knows nothing yet. -/
theorem readerFacts_new (sv : Service) (flowId : Nat) :
    ReaderFacts sv ⟨flowId, if sv.supported then .checkReady else .done .plain, none, none⟩ :=
  readerFacts_ite (r := ⟨flowId, .checkReady, none, none⟩) trivial trivial

theorem ServedInv.step {s s' : Served} {a : ServeAct} (h : ServedInv sv s)
    (hg : OnWorld Undisturbed s a) (hs : serveStep sv s a = some s') : ServedInv sv s' := by
  have heffect := serveStep_effect hs
  refine ⟨?_, readers_step heffect h.readers (readerFacts_new sv) ?_⟩
  · cases heffect with
    | world a w hw => exact h.publish.step hg hw
    | request flowId => exact h.publish
    | read i e r r' dir hi hread =>
      obtain ⟨-, rfl | rfl⟩ :=
        readStep_facts h.publish.files (h.readers r (List.mem_of_getElem? hi)) hread
      · exact h.publish
      · exact h.publish.openDb
  · intro i e r r' dir _ hr hread
    exact (readStep_facts h.publish.files (h.readers r (List.mem_of_getElem? hr)) hread).1

theorem run_servedInv {s₀ s : Served} {acts : List ServeAct} (hstart : s₀.Start sv)
    (hguard : System.Along (serveStep sv) (OnWorld Undisturbed) s₀ acts)
    (hrun : System.run (serveStep sv) s₀ acts = some s) : ServedInv sv s :=
  System.along_induction (ServedInv sv) (fun _ _ _ h hg hs => h.step hg hs) hstart.servedInv hguard
    hrun

/-! ## Every answer is right -/

/-- READY stands for this capture's complete pair, and every answer is right. -/
structure ServedTruly (sv : Service) (s : Served) : Prop where
  ready : s.world.dir.ready.isSome → ∃ id index, Pair sv.source id index s.world.dir
  answers : ∀ r ∈ s.readers, ∀ frames file, r.pc = .done (.answered frames file) →
    RightAnswer sv r.flowId frames file

/-- EVERY ANSWER IS RIGHT: wherever processes are killed, operations fail and reads fall between the
steps of builds, in a run that removes no lock of a party at work as stale and leaves no indexer to
itself. -/
theorem served_truly {s₀ s : Served} {acts : List ServeAct} (hstart : s₀.Start sv)
    (hguard : System.Along (serveStep sv) (OnWorld Undisturbed) s₀ acts)
    (hrun : System.run (serveStep sv) s₀ acts = some s) : ServedTruly sv s := by
  have hinv := run_servedInv hstart hguard hrun
  refine ⟨fun hready => hinv.publish.files.pair (hinv.publish.ready hready), ?_⟩
  intro r hr frames file hpc
  have hfacts := hinv.readers r hr
  rw [ReaderFacts, hpc] at hfacts
  exact hfacts

/-- The default limits. -/
def service (source : Source) : Service := ⟨config source, 100000⟩

/-- Steps of the lifecycle, in the served system. -/
def onWorld (acts : List Act) : List ServeAct := acts.map .world

/-- A build of the two connections' capture, from its indexer's first operation to its own end. -/
def finishInterleaved (j : Nat) : List Act :=
  List.replicate 19 (.scan j .go) ++ [.build j (.exited "")] ++ List.replicate 2 (.build j .go)

/-- A reader is about to open the database when a second build, from a request that tested readiness
too early, replaces both files. -/
def rebuiltUnderReader : List ServeAct :=
  onWorld (firstRequest 0 ++ popenBuild 0 ++ .begin :: List.replicate 2 (.call 1 .go) ++
      finishInterleaved 0) ++
    .request 0 :: List.replicate 11 (.read 0 .go) ++
    onWorld (List.replicate 4 (.call 1 .go) ++ popenBuild 1 ++ List.replicate 19 (.scan 1 .go)) ++
    List.replicate 8 (.read 0 .go)

/-- The answer a reader has, when it has one. -/
def Reader.answer (r : Reader) : Option (List Nat × Bytes) :=
  match r.pc with
  | .done (.answered frames file) => some (frames, file)
  | _ => none

/-- The law at work: the frames come from the first build's files, the records from the second's. -/
theorem served_truly_rebuilt :
    ∃ s, System.run (serveStep (service interleaved)) .empty rebuiltUnderReader = some s ∧
      s.readers.map (fun r => r.answer.map Prod.fst) = [some [1, 3]] ∧
      ServedTruly (service interleaved) s := by
  have hrun : (System.run (serveStep (service interleaved)) .empty rebuiltUnderReader).map
      (fun s => s.readers.map fun r => r.answer.map Prod.fst) = some [some [1, 3]] := by
    decide +kernel
  obtain ⟨s, hs, hanswers⟩ := Option.map_eq_some_iff.mp hrun
  exact ⟨s, hs, hanswers, served_truly (Served.start_empty _) (by decide +kernel) hs⟩

/-! ## Beside a ready index -/

/-- No flow of the capture has this number. -/
def Unknown (source : Source) (flowId : Nat) : Prop :=
  ∃ index, buildIndex source = .ok index ∧ ∀ f ∈ index.manifest.flows, f.id ≠ flowId

/-- A right answer, or one of the two refusals of a request that reads a ready index. -/
inductive ReplyWell (sv : Service) (flowId : Nat) : FlowReply → Prop
  | plain : ReplyWell sv flowId .plain
  | answered (frames : List Nat) (file : Bytes) : RightAnswer sv flowId frames file →
      ReplyWell sv flowId (.answered frames file)
  | unknown : Unknown sv.source flowId → ReplyWell sv flowId (.refused 404)
  | large (f : FlowRow) : Indexed sv.source flowId f → (sv.maxPackets : Int) < f.packets →
      ReplyWell sv flowId (.refused 413)

/-- The reply a reader has settled on is one of these. -/
def ReaderWell (sv : Service) (r : Reader) : Prop :=
  match r.pc with
  | .unlinkOutput reply | .unlinkPart reply | .done reply => ReplyWell sv r.flowId reply
  | _ => True

/-- The reader found READY, and has more to read or has read it. -/
def ReaderPc.entered : ReaderPc → Bool
  | .checkReady | .done .plain => false
  | _ => true

theorem readerWell_ite {c : Prop} [Decidable c] {pc pc' : ReaderPc} (hc : c)
    (h : ReaderWell sv { r with pc := pc }) :
    ReaderWell sv { r with pc := if c then pc else pc' } := by
  rw [if_pos hc]
  exact h

/-- Beside a complete pair every test of a reader succeeds, and its two refusals are true. -/
theorem readGo_well {id : Nat} {index : Index} (haddr : Addressable sv.source)
    (hready : dir.ready.isSome) (hpair : Pair sv.source id index dir) (hf : ReaderFacts sv r)
    (hw : ReaderWell sv r) (hgo : readGo sv dir r = some (r', dir')) :
    ReaderWell sv r' ∧ dir' = dir := by
  have hsqlite : dir.sqlite.isSome = true := by
    rw [hpair.sqlite]
    rfl
  have hrefs : dir.refs.isSome = true := by
    rw [hpair.refs]
    rfl
  have hquery : dir.query = some index.manifest := by
    rw [IndexDir.query, hpair.sqlite]
    rfl
  obtain ⟨flowId, pc, output, part⟩ := r
  cases pc with
  | checkReady =>
    cases hgo
    exact ⟨readerWell_ite hready trivial, rfl⟩
  | checkSqlite =>
    cases hgo
    exact ⟨readerWell_ite hsqlite trivial, rfl⟩
  | checkRefs =>
    cases hgo
    exact ⟨readerWell_ite hrefs trivial, rfl⟩
  | countPackets =>
    simp only [readGo, hquery] at hgo
    split at hgo
    · next hnone =>
      cases hgo
      refine ⟨.unknown ⟨index, hpair.built, fun f hmem hid => ?_⟩, rfl⟩
      simpa [hid] using List.find?_eq_none.mp hnone f hmem
    · next row hrow =>
      cases hgo
      refine ⟨?_, rfl⟩
      unfold ReaderWell
      by_cases hmax : (sv.maxPackets : Int) < row.packets
      · rw [if_pos hmax]
        exact .large row (indexed_of_find hpair.built hrow) hmax
      · rw [if_neg hmax]
        trivial
  | frameRow =>
    obtain ⟨f, hindexed, -⟩ : Selected sv flowId := hf
    simp only [readGo, hquery, hindexed.find hpair.built] at hgo
    cases hgo
    exact ⟨trivial, rfl⟩
  | frameRefs manifest =>
    obtain ⟨⟨f, hindexed, -⟩, own, hown, rfl⟩ := hf
    cases index_unique hpair.built hown
    simp only [readGo, hpair.refs, hindexed.frames hpair.built] at hgo
    cases hgo
    exact ⟨trivial, rfl⟩
  | againReady frames =>
    cases hgo
    exact ⟨readerWell_ite hready trivial, rfl⟩
  | againSqlite frames =>
    cases hgo
    exact ⟨readerWell_ite hsqlite trivial, rfl⟩
  | againRefs frames =>
    cases hgo
    exact ⟨readerWell_ite hrefs trivial, rfl⟩
  | createTemp frames =>
    cases hgo
    exact ⟨trivial, rfl⟩
  | extractReady frames =>
    cases hgo
    exact ⟨readerWell_ite hready trivial, rfl⟩
  | extractDb frames =>
    obtain ⟨hsize, hmtime⟩ := built_metadata hpair.built
    simp only [readGo, openDb_of_pair hpair, hquery] at hgo
    rw [if_neg (not_or.mpr ⟨not_not.mpr hsize, not_not.mpr hmtime⟩)] at hgo
    cases hgo
    exact ⟨trivial, rfl⟩
  | extractRefs frames manifest =>
    obtain ⟨⟨⟨f, hindexed, -⟩, -⟩, own, hown, rfl⟩ := hf
    cases index_unique hpair.built hown
    obtain ⟨-, -, chain, -, -, hchain, -⟩ :=
      extractFrom_ok.mp (hindexed.extract hpair.built haddr)
    simp only [readGo, hpair.refs, hchain] at hgo
    cases hgo
    exact ⟨trivial, rfl⟩
  | createPart frames chain =>
    cases hgo
    exact ⟨trivial, rfl⟩
  | copy frames chain =>
    obtain ⟨⟨⟨f, hindexed, -⟩, -⟩, own, hown, hwalked⟩ := hf
    cases index_unique hpair.built hown
    obtain ⟨-, -, chain', header, records, hchain, hheader, hrecords, -⟩ :=
      extractFrom_ok.mp (hindexed.extract hpair.built haddr)
    cases Except.ok.inj (hwalked.symm.trans hchain)
    simp only [readGo, hheader, hrecords] at hgo
    cases hgo
    exact ⟨trivial, rfl⟩
  | rename frames =>
    cases hgo
    exact ⟨trivial, rfl⟩
  | body frames =>
    obtain ⟨⟨hsel, hframes⟩, file, rfl, hfile⟩ := hf
    cases hgo
    exact ⟨.answered _ _ (rightAnswer hsel hframes hfile), rfl⟩
  | unlinkOutput reply | unlinkPart reply =>
    cases hgo
    exact ⟨hw, rfl⟩
  | done reply => cases hgo

/-- Readers' operations succeed, short of what the files say. -/
def ReadsSucceed (_ : Served) : ServeAct → Prop
  | .read _ (.fail _) => False
  | _ => True

/-- The lifecycle keeps a ready index, and the readers' operations succeed. -/
def ServesReady (s : Served) (a : ServeAct) : Prop := OnWorld KeepsReady s a ∧ ReadsSucceed s a

instance (s : Served) : (a : ServeAct) → Decidable (ReadsSucceed s a)
  | .read _ (.fail _) => .isFalse id
  | .read _ .go | .read _ (.flush _) | .world _ | .request _ => .isTrue trivial

instance (s : Served) (a : ServeAct) : Decidable (ServesReady s a) := by
  unfold ServesReady
  infer_instance

theorem spares_of_noLockTimeout {w : World} {a : Act} (h : NoLockTimeout w a) :
    SparesHeldLock w a := by
  unfold SparesHeldLock
  split
  · exact fun hstale => absurd hstale h
  · trivial

structure ReadyServed (sv : Service) (s : Served) : Prop where
  served : ServedInv sv s
  settled : ReadyInv s.world
  well : ∀ r ∈ s.readers, ReaderWell sv r
  /-- A reader that found READY has a ready index before it. -/
  entered : ∀ r ∈ s.readers, r.pc.entered = true → s.world.dir.isReady = true

theorem Served.Start.readyServed {s : Served} (h : s.Start sv) : ReadyServed sv s where
  served := h.servedInv
  settled := h.fresh.readyInv
  well := fun r hr => by
    rw [h.readers] at hr
    cases hr
  entered := fun r hr => by
    rw [h.readers] at hr
    cases hr

/-- READY stands for the pair, so it makes the index ready. -/
theorem PublishInv.isReady {source : Source} {w : World} (h : PublishInv source w)
    (hready : w.dir.ready.isSome) : w.dir.isReady = true := by
  obtain ⟨_, _, index, hp⟩ := h.ready hready
  rw [IndexDir.isReady, hready, hp.refs, hp.sqlite]
  rfl

theorem ready_of_isReady {dir : IndexDir} (h : dir.isReady = true) : dir.ready.isSome := by
  simp only [IndexDir.isReady, Bool.and_eq_true] at h
  exact h.1.1

/-- A reader that does not fail ends well and leaves the directory alone; and it enters beside READY. -/
theorem ReadyServed.read {s : Served} (h : ReadyServed sv s) (haddr : Addressable sv.source)
    {i : Nat} {e : ReadEvent} (hi : s.readers[i]? = some r) (hok : ∀ status, e ≠ .fail status)
    (hs : readStep sv s.world.dir r e = some (r', dir')) :
    ReaderWell sv r' ∧ dir' = s.world.dir ∧
      (r'.pc.entered = true → s.world.dir.isReady = true) := by
  have hr := List.mem_of_getElem? hi
  have hfacts := h.served.readers r hr
  have hwell := h.well r hr
  cases e with
  | fail status => exact absurd rfl (hok status)
  | flush content =>
    obtain ⟨flowId, pc, output, part⟩ := r
    cases pc with
    | copy frames chain =>
      cases hs
      exact ⟨trivial, rfl, fun _ => h.entered _ hr rfl⟩
    | _ => cases hs
  | go =>
    by_cases hready : s.world.dir.ready.isSome
    · obtain ⟨id, index, hpair⟩ := h.served.publish.files.pair (h.served.publish.ready hready)
      obtain ⟨hwell', hdir⟩ := readGo_well haddr hready hpair hfacts hwell hs
      exact ⟨hwell', hdir, fun _ => h.served.publish.isReady hready⟩
    · -- without READY a reader is at its first test, or is done
      have hout : r.pc.entered = false := by
        cases hentered : r.pc.entered with
        | false => rfl
        | true => exact absurd (ready_of_isReady (h.entered r hr hentered)) hready
      obtain ⟨flowId, pc, output, part⟩ := r
      cases pc with
      | checkReady =>
        simp only [readStep, readGo, if_neg hready] at hs
        cases hs
        refine ⟨.plain, rfl, fun hentered => ?_⟩
        cases hentered
      | done reply => cases hs
      | _ => cases hout

theorem ReadyServed.stays {s s' : Served} {a : ServeAct} (haddr : Addressable sv.source)
    (h : ReadyServed sv s) (hg : ServesReady s a) (hready : s.world.dir.isReady = true)
    (hs : serveStep sv s a = some s') : s'.world.dir.isReady = true := by
  cases serveStep_effect hs with
  | world a w hw => exact (h.settled.stays hready hw).1
  | request flowId => exact hready
  | read i e r r' dir hi hread =>
    have hok : ∀ status, e ≠ .fail status := by
      rintro status rfl
      exact hg.2
    rw [(h.read haddr hi hok hread).2.1]
    exact hready

theorem ReadyServed.step {s s' : Served} {a : ServeAct} (haddr : Addressable sv.source)
    (h : ReadyServed sv s) (hg : ServesReady s a) (hs : serveStep sv s a = some s') :
    ReadyServed sv s' := by
  obtain ⟨hworld, hreads⟩ := hg
  have hserved : OnWorld Undisturbed s a := by
    cases a with
    | world a => exact ⟨spares_of_noLockTimeout hworld.1, hworld.2.2⟩
    | request _ | read _ _ => trivial
  have hok : ∀ i e, a = .read i e → ∀ status, e ≠ .fail status := by
    rintro i e rfl status rfl
    exact hreads
  have heffect := serveStep_effect hs
  refine ⟨h.served.step hserved hs, ?_, ?_, ?_⟩
  · cases heffect with
    | world a w hw => exact h.settled.step hworld hw
    | request flowId => exact h.settled
    | read i e r r' dir hi hread =>
      rw [(h.read haddr hi (hok i e rfl) hread).2.1]
      exact h.settled
  · refine readers_step heffect h.well (fun flowId => ?_) ?_
    · cases sv.supported with
      | true => trivial
      | false => exact .plain
    · intro i e r r' dir ha hr hread
      exact (h.read haddr hr (hok i e ha) hread).1
  · have hkeep := fun hready => h.stays haddr ⟨hworld, hreads⟩ hready hs
    refine readers_step heffect (fun r hr hentered => hkeep (h.entered r hr hentered)) ?_ ?_
    · intro flowId hentered
      cases hsup : sv.supported <;> rw [hsup] at hentered <;> cases hentered
    · intro i e r r' dir ha hr hread hentered
      exact hkeep ((h.read haddr hr (hok i e ha) hread).2.2 hentered)

/-- The reader turned to the whole capture. -/
def ReaderPc.turned : ReaderPc → Bool
  | .unlinkOutput .plain | .unlinkPart .plain | .done .plain => true
  | _ => false

/-- In a ready index no reader turns to the whole capture. -/
theorem readStep_turned {e : ReadEvent} (hready : dir.isReady = true) (hpc : r.pc.turned = false)
    (hs : readStep sv dir r e = some (r', dir')) : r'.pc.turned = false := by
  simp only [IndexDir.isReady, Bool.and_eq_true] at hready
  obtain ⟨⟨hr, hd⟩, hf⟩ := hready
  obtain ⟨flowId, pc, output, part⟩ := r
  cases e with
  | flush content =>
    cases pc with
    | copy frames chain =>
      cases hs
      rfl
    | _ => cases hs
  | fail status =>
    obtain ⟨pc', hpc', heq⟩ := Option.map_eq_some_iff.mp hs
    cases heq
    cases pc with
    | unlinkOutput reply | unlinkPart reply =>
      cases hpc'
      cases reply <;> first | rfl | cases hpc
    | done reply => cases hpc'
    | _ =>
      cases hpc'
      rfl
  | go =>
    cases pc with
    | unlinkOutput reply | unlinkPart reply =>
      cases hs
      cases reply <;> first | rfl | cases hpc
    | done reply => cases hs
    | _ =>
      simp only [readStep, readGo, hr, hd, hf, if_true] at hs
      repeat' split at hs
      all_goals
        cases hs
        rfl

/-- Readers from this position on, none of which turned to the whole capture. -/
def NoneTurned (n : Nat) (s : Served) : Prop :=
  ∀ k r, s.readers[k]? = some r → n ≤ k → r.pc.turned = false

theorem noneTurned_step {s s' : Served} {a : ServeAct} {n : Nat} (hsup : sv.supported = true)
    (hready : s.world.dir.isReady = true) (h : NoneTurned n s)
    (hs : serveStep sv s a = some s') : NoneTurned n s' := by
  cases serveStep_effect hs with
  | world a w hw => exact h
  | request flowId =>
    intro k r hk hn
    rcases Nat.lt_or_ge k s.readers.length with hlt | hge
    · rw [List.getElem?_append_left hlt] at hk
      exact h k r hk hn
    · rw [List.getElem?_append_right hge] at hk
      rw [List.mem_singleton.mp (List.mem_of_getElem? hk), hsup]
      rfl
  | read i e r r' dir hi hread =>
    intro k q hk hn
    rcases getElem?_set_cases hk with ⟨rfl, rfl⟩ | ⟨-, hk⟩
    · exact readStep_turned hready (h k r hi hn) hread
    · exact h k q hk hn

/-! ## No refusal -/

/-- Every reader that is done ended well, and those from this position on did so from the index. -/
structure AnsweredWell (sv : Service) (n : Nat) (s : Served) : Prop where
  replies : ∀ r ∈ s.readers, ∀ reply, r.pc = .done reply → ReplyWell sv r.flowId reply
  indexed : ∀ k r, s.readers[k]? = some r → n ≤ k → r.pc ≠ .done .plain

/-- NO REFUSAL: in a run that keeps a ready index, whose readers' operations succeed, a request is
refused only for a flow the capture does not have or one too large; and a request that comes in once
the index is ready is answered from it. -/
theorem no_refusal {s₀ s s' : Served} {before after : List ServeAct} (hstart : s₀.Start sv)
    (hsup : sv.supported = true) (haddr : Addressable sv.source)
    (hguard : System.Along (serveStep sv) ServesReady s₀ (before ++ after))
    (hbefore : System.run (serveStep sv) s₀ before = some s)
    (hready : s.world.dir.isReady = true)
    (hafter : System.run (serveStep sv) s after = some s') :
    AnsweredWell sv s.readers.length s' := by
  obtain ⟨hfirst, hlast⟩ := System.along_append hbefore hguard
  have hinv : ReadyServed sv s :=
    System.along_induction (ReadyServed sv) (fun _ _ _ h hg hs => h.step haddr hg hs)
      hstart.readyServed hfirst hbefore
  have hnone : NoneTurned s.readers.length s := by
    intro k r hk hn
    rw [List.getElem?_eq_none hn] at hk
    cases hk
  obtain ⟨hserved, -, hturned⟩ := System.along_induction
    (fun t => ReadyServed sv t ∧ t.world.dir.isReady = true ∧ NoneTurned s.readers.length t)
    (fun t a t' ⟨hs, hr, hn⟩ hg hstep => ⟨hs.step haddr hg hstep, hs.stays haddr hg hr hstep,
      noneTurned_step hsup hr hn hstep⟩) ⟨hinv, hready, hnone⟩ hlast hafter
  refine ⟨fun r hr reply hpc => ?_, fun k r hk hn hpc => ?_⟩
  · have hwell := hserved.well r hr
    rw [ReaderWell, hpc] at hwell
    exact hwell
  · have hout := hturned k r hk hn
    rw [hpc] at hout
    cases hout

/-- The law at work: a request from before the build that tests last, one for a connection, and one
for a flow that is not there. -/
theorem no_refusal_requests :
    ∃ s s', System.run (serveStep (service interleaved)) .empty
        (.request 1 :: onWorld (firstRequest 0 ++ popenBuild 0 ++ finishInterleaved 0)) = some s ∧
      System.run (serveStep (service interleaved)) s (.request 0 :: .request 7 ::
        List.replicate 19 (.read 1 .go) ++ List.replicate 4 (.read 2 .go) ++
        List.replicate 19 (.read 0 .go)) = some s' ∧
      s'.readers.map (fun r => r.answer.map Prod.fst) = [some [2], some [1, 3], none] ∧
      AnsweredWell (service interleaved) s.readers.length s' := by
  have hrun : (System.run (serveStep (service interleaved)) .empty
      (.request 1 :: onWorld (firstRequest 0 ++ popenBuild 0 ++ finishInterleaved 0))).map
        (·.world.dir.isReady) = some true := by decide +kernel
  have hend : ((System.run (serveStep (service interleaved)) .empty
      (.request 1 :: onWorld (firstRequest 0 ++ popenBuild 0 ++ finishInterleaved 0))).bind fun s =>
        System.run (serveStep (service interleaved)) s (.request 0 :: .request 7 ::
          List.replicate 19 (.read 1 .go) ++ List.replicate 4 (.read 2 .go) ++
          List.replicate 19 (.read 0 .go))).map
            (fun s => s.readers.map fun r => r.answer.map Prod.fst) =
      some [some [2], some [1, 3], none] := by decide +kernel
  obtain ⟨s, hs, hready⟩ := Option.map_eq_some_iff.mp hrun
  rw [hs, Option.bind_some] at hend
  obtain ⟨s', hs', hanswers⟩ := Option.map_eq_some_iff.mp hend
  have haddr : Addressable interleaved := ⟨by decide +kernel, by decide +kernel⟩
  exact ⟨s, s', hs, hs', hanswers, no_refusal (Served.start_empty _) rfl haddr (by decide +kernel)
    hs hready hs'⟩

/-! ## The temporary files -/

/-- The reader is about to remove one of its files. -/
def ReaderPc.unlinking : ReaderPc → Bool
  | .unlinkOutput _ | .unlinkPart _ => true
  | _ => false

/-- A reader's removals do their work; anything else may fail. -/
def UnlinksWork (s : Served) : ServeAct → Prop
  | .read i (.fail _) => ∀ r ∈ s.readers[i]?, r.pc.unlinking = false
  | _ => True

instance (s : Served) : (a : ServeAct) → Decidable (UnlinksWork s a)
  | .read i (.fail _) => inferInstanceAs (Decidable (∀ r ∈ s.readers[i]?, r.pc.unlinking = false))
  | .read _ .go | .read _ (.flush _) | .world _ | .request _ => .isTrue trivial

/-- The files a reader can have where it stands. -/
def Reader.Tidy (r : Reader) : Prop :=
  match r.pc with
  | .extractReady _ | .extractDb _ | .extractRefs _ _ | .createPart _ _ | .body _ => r.part = none
  | .copy _ _ | .rename _ | .unlinkOutput _ => True
  | .unlinkPart _ => r.output = none
  | _ => r.output = none ∧ r.part = none

theorem readStep_tidy {e : ReadEvent} (h : r.Tidy)
    (hwork : ∀ status, e = .fail status → r.pc.unlinking = false)
    (hs : readStep sv dir r e = some (r', dir')) : r'.Tidy := by
  obtain ⟨flowId, pc, output, part⟩ := r
  cases e with
  | flush content =>
    cases pc with
    | copy frames chain =>
      cases hs
      trivial
    | _ => cases hs
  | fail status =>
    obtain ⟨pc', hpc', heq⟩ := Option.map_eq_some_iff.mp hs
    cases heq
    have hno := hwork status rfl
    cases pc with
    | unlinkOutput reply | unlinkPart reply => cases hno
    | done reply => cases hpc'
    | extractReady _ | extractDb _ | extractRefs _ _ | createPart _ _ | copy _ _ | rename _
    | body _ =>
      cases hpc'
      trivial
    | _ =>
      cases hpc'
      exact h
  | go =>
    cases pc with
    | done reply => cases hs
    | createTemp frames =>
      cases hs
      exact h.2
    | unlinkPart reply =>
      cases hs
      exact ⟨h, rfl⟩
    | _ =>
      -- the other operations create no file where there should be none
      simp only [readStep, readGo] at hs
      repeat' split at hs
      all_goals
        cases hs
        first | exact h | trivial

/-- A whole extraction: the header of the capture, and every record of a chain of references. -/
def Whole (source : Source) (file : Bytes) : Prop :=
  ∃ chain header records, source.bytes.slice 0 24 = some header ∧
    copyRecords source.bytes chain = .ok records ∧ file = header ++ records

/-- The file that a reader has copied is whole, first beside its final name and then under it. -/
def Reader.Copied (source : Source) (r : Reader) : Prop :=
  match r.pc with
  | .rename _ => ∃ file, r.part = some file ∧ Whole source file
  | .body _ => r.part = none ∧ ∃ file, r.output = some file ∧ Whole source file
  | _ => True

theorem readStep_copied {e : ReadEvent} (h : r.Copied sv.source)
    (hs : readStep sv dir r e = some (r', dir')) : r'.Copied sv.source := by
  obtain ⟨flowId, pc, output, part⟩ := r
  cases e with
  | flush content =>
    cases pc with
    | copy frames chain =>
      cases hs
      trivial
    | _ => cases hs
  | fail status =>
    obtain ⟨pc', hpc', heq⟩ := Option.map_eq_some_iff.mp hs
    cases heq
    cases pc <;> cases hpc' <;> trivial
  | go =>
    cases pc with
    | done reply => cases hs
    | copy frames chain =>
      simp only [readStep, readGo] at hs
      split at hs
      · next header records hheader hrecords =>
        cases hs
        exact ⟨_, rfl, chain, header, records, hheader, hrecords, rfl⟩
      · cases hs
        trivial
    | rename frames =>
      cases hs
      exact ⟨rfl, h⟩
    | _ =>
      -- the other operations lead neither to a rename nor to the body
      simp only [readStep, readGo] at hs
      repeat' split at hs
      all_goals
        cases hs
        trivial

/-- An extraction that runs out of time with half of a record handed on, and one up to its body. -/
def upToBody : List ServeAct :=
  onWorld (firstRequest 0 ++ popenBuild 0 ++ finishInterleaved 0) ++
    .request 0 :: List.replicate 14 (.read 0 .go) ++
    [.read 0 (.flush [0xd4, 0xc3]), .read 0 (.fail 500), .read 0 .go, .read 0 .go] ++
    .request 0 :: List.replicate 16 (.read 1 .go)

/-- The same with a body that raises. -/
def raisedInBody : List ServeAct := upToBody ++ [.read 1 (.fail 413), .read 1 .go, .read 1 .go]

end PacketTrain.Lifecycle
