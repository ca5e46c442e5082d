import PacketTrain.Indexer.Frames
import PacketTrain.Laws.Indexer.RoundTrip

/-!
# Two walkers of one chain

`extract` and `original_frames` walk `refs.bin` in two languages. `SameWalk` is what they agree on: the
same frames, or a refusal for the same reason. They agree on every file (`walk_same`), because they make
the same checks in the same order; the one check `extract` has more, that an offset fits 64 bits, refuses
what lies outside a mapped file anyway. Both stop by the packet count alone: any two fuels past it give
one answer.

On an index that a scan left, the frames are those of the flow's records, in order, so the k-th packet of
an extracted file is the k-th of these frames.
-/

namespace PacketTrain.Indexer

open Fallible

/-- Two answers that agree: the same frames, or a refusal for the same reason. -/
inductive SameWalk : Except ExtractError (List Hop) → Except FramesError (List Nat) → Prop
  | found (chain : List Hop) : SameWalk (.ok chain) (.ok (chain.map Hop.frame))
  | overflow : SameWalk (.error .offsetOverflow) (.error .outside)
  | outside : SameWalk (.error .referenceOutside) (.error .outside)
  | crossed (owner : Nat) : SameWalk (.error (.crossedInto owner)) (.error .crossedOwners)
  | cycle : SameWalk (.error .cycle) (.error .cycle)
  | mismatch (expected found : Nat) :
      SameWalk (.error (.countMismatch expected found)) (.error (.countMismatch expected found))

/-- Agreeing answers succeed together, with the same frames. -/
theorem SameWalk.ok_iff {x : Except ExtractError (List Hop)} {y : Except FramesError (List Nat)}
    (h : SameWalk x y) (frames : List Nat) :
    (∃ chain, x = .ok chain ∧ chain.map Hop.frame = frames) ↔ y = .ok frames := by
  cases h with
  | found chain =>
    refine ⟨fun h => ?_, fun h => ?_⟩
    · obtain ⟨chain', hchain, rfl⟩ := h
      rw [Except.ok.inj hchain]
    · exact ⟨chain, rfl, Except.ok.inj h⟩
  | overflow | outside | crossed | cycle | mismatch => simp

/-! ## One hop -/

/-- An unsigned reference unpacks to the row that stands there. -/
theorem unpackRef_natCast (refs : Bytes) (current : Nat) :
    unpackRef refs current =
      match refAt refs current with
      | none => .error .outside
      | some row => .ok row := by
  have hoffset : (current : Int) * (refSize : Int) = ((current * refSize : Nat) : Int) := by
    push_cast
    rfl
  have hpos : ¬ ((current * refSize : Nat) : Int) < 0 := by omega
  rw [unpackRef, refAt, hoffset]
  simp only [if_neg hpos]
  by_cases hlen : (refs.length : Int) < ((current * refSize : Nat) : Int) + refSize
  · have hslice : refs.slice (current * refSize) (current * refSize + refSize) = none :=
      if_neg (by omega)
    rw [if_pos hlen, hslice]
    rfl
  · have hslice : refs.slice (current * refSize) (current * refSize + refSize) =
        some ((refs.drop (current * refSize)).take (current * refSize + refSize -
          current * refSize)) :=
      Bytes.slice_of_le (by omega) (by omega)
    rw [if_neg hlen, Int.toNat_natCast, hslice]
    rfl

theorem refAt_eq_some {refs : Bytes} {current : Nat} {row : RefRow} (h : refAt refs current = some row) :
    current * refSize + refSize ≤ refs.length := by
  obtain ⟨bytes, hslice, -⟩ := Option.map_eq_some_iff.mp h
  exact (Bytes.slice_eq_some hslice).2.1

/-! ## The walk -/

/-- The two loops agree from any reference, when the fuel covers the packets that are left. -/
theorem walk_same {refs : Bytes} (hmapped : refs.length < 2 ^ 63) (flowId packets : Nat) (fuel : Nat)
    (current : Nat) (chain : List Hop) (hroom : chain.length ≤ packets)
    (hfuel : packets < chain.length + fuel) :
    SameWalk (walkChain refs flowId packets fuel current chain)
      (framesLoop refs flowId packets fuel current (chain.map Hop.frame)) := by
  induction fuel generalizing current chain with
  | zero => omega
  | succ fuel ih =>
    unfold walkChain framesLoop
    by_cases hend : current = noRef
    · rw [if_pos hend, if_pos (by exact_mod_cast hend)]
      exact .found chain
    · rw [if_neg hend, if_neg (by exact_mod_cast hend)]
      simp only [unpackRef_natCast]
      cases hrow : refAt refs current with
      | none =>
        by_cases hover : 2 ^ 64 ≤ current * refSize
        · rw [if_pos hover]
          exact .overflow
        · rw [if_neg hover]
          exact .outside
      | some row =>
        have hinside := refAt_eq_some hrow
        have hlen : (chain.map Hop.frame ++ [row.frame]).length = (chain ++ [row.hop]).length := by
          simp
        rw [if_neg (by omega)]
        show SameWalk (if row.owner ≠ flowId then _ else _) (if row.owner ≠ flowId then _ else _)
        by_cases howner : row.owner ≠ flowId
        · rw [if_pos howner, if_pos howner]
          exact .crossed row.owner
        · rw [if_neg howner, if_neg howner]
          simp only [hlen, Nat.cast_lt]
          by_cases hcycle : packets < (chain ++ [row.hop]).length
          · rw [if_pos hcycle, if_pos hcycle]
            exact .cycle
          · rw [if_neg hcycle, if_neg hcycle]
            have hgrow : (chain ++ [row.hop]).length = chain.length + 1 := by simp
            have hrest := ih row.previous (chain ++ [row.hop]) (by omega) (by omega)
            rw [List.map_append] at hrest
            exact hrest

/-- The packet count stops `extract`'s loop: any two fuels past it give one answer. -/
theorem walkChain_fuel (refs : Bytes) (flowId packets fuel fuel' : Nat) (current : Nat)
    (chain : List Hop) (hroom : chain.length ≤ packets) (h : packets < chain.length + fuel)
    (h' : packets < chain.length + fuel') :
    walkChain refs flowId packets fuel current chain =
      walkChain refs flowId packets fuel' current chain := by
  induction fuel generalizing fuel' current chain with
  | zero => omega
  | succ fuel ih =>
    obtain ⟨fuel', rfl⟩ : ∃ n, fuel' = n + 1 := ⟨fuel' - 1, by omega⟩
    unfold walkChain
    cases refAt refs current with
    | none => rfl
    | some row =>
      simp only [List.length_append, List.length_singleton]
      by_cases hcycle : packets < chain.length + 1
      · simp only [if_pos hcycle]
      · have hgrow : (chain ++ [row.hop]).length = chain.length + 1 := by simp
        rw [ih fuel' row.previous (chain ++ [row.hop]) (by omega) (by omega) (by omega)]

/-- And that of `original_frames`. -/
theorem framesLoop_fuel (refs : Bytes) (flowId packets fuel fuel' : Nat) (current : Int)
    (frames : List Nat) (hroom : frames.length ≤ packets) (h : packets < frames.length + fuel)
    (h' : packets < frames.length + fuel') :
    framesLoop refs flowId packets fuel current frames =
      framesLoop refs flowId packets fuel' current frames := by
  induction fuel generalizing fuel' current frames with
  | zero => omega
  | succ fuel ih =>
    obtain ⟨fuel', rfl⟩ : ∃ n, fuel' = n + 1 := ⟨fuel' - 1, by omega⟩
    unfold framesLoop
    cases unpackRef refs current with
    | error e => rfl
    | ok row =>
      simp only [bind, Except.bind, List.length_append, List.length_singleton]
      by_cases hcycle : (packets : Int) < ((frames.length + 1 : Nat) : Int)
      · simp only [if_pos hcycle]
      · have hgrow : (frames ++ [row.frame]).length = frames.length + 1 := by simp
        rw [ih fuel' row.previous (frames ++ [row.frame]) (by omega) (by omega) (by omega)]

/-! ## The two readers of a row -/

/-- The manifest's row of a flow, with columns that a walk can start from. -/
structure StartsWalk (manifest : Manifest) (flowId : Nat) (row : FlowRow) : Prop where
  find : manifest.flows.find? (fun row => row.id = flowId) = some row
  lastRef_nonneg : 0 ≤ row.lastRef
  lastRef_lt : row.lastRef < 2 ^ 63
  packets_nonneg : 0 ≤ row.packets

/-- What two walkers of one file have in common: they answer alike, and a walk of `packets + 1` hops
already has the answer of every longer one. -/
structure WalkersAgree (refs : Bytes) (manifest : Manifest) (flowId : Nat) (row : FlowRow) : Prop where
  same : SameWalk (flowChain refs manifest flowId) (originalFrames refs manifest flowId)
  extract_stops : ∀ extra, walkChain refs flowId row.packets.toNat
    (row.packets.toNat + 1 + extra) row.lastRef.toNat [] =
      walkChain refs flowId row.packets.toNat (row.packets.toNat + 1) row.lastRef.toNat []
  frames_stops : ∀ extra, framesLoop refs flowId row.packets
    (row.packets.toNat + 1 + extra) row.lastRef [] =
      framesLoop refs flowId row.packets (row.packets.toNat + 1) row.lastRef []

theorem walkersAgree {refs : Bytes} (hsize : 1 ≤ refs.length) (hmapped : refs.length < 2 ^ 63)
    {manifest : Manifest} {flowId : Nat} {row : FlowRow} (h : StartsWalk manifest flowId row) :
    WalkersAgree refs manifest flowId row := by
  obtain ⟨last, hlast⟩ := Int.eq_ofNat_of_zero_le h.lastRef_nonneg
  obtain ⟨packets, hpackets⟩ := Int.eq_ofNat_of_zero_le h.packets_nonneg
  have hsame := walk_same hmapped flowId packets (packets + 1) last [] (Nat.zero_le _) (by simp)
  refine ⟨?_, fun extra => ?_, fun extra => ?_⟩
  · have hne : refs.isEmpty = false := by
      rw [List.isEmpty_eq_false_iff, ← List.length_pos_iff]
      exact hsize
    rw [flowChain, originalFrames, h.find]
    simp only [hlast, hpackets, u64OfSql_natCast, Int.toNat_natCast, hne, Bool.false_eq_true, if_false,
      bind, Except.bind]
    rw [List.map_nil] at hsame
    generalize walkChain refs flowId packets (packets + 1) last [] = x at hsame ⊢
    generalize framesLoop refs flowId (packets : Int) (packets + 1) (last : Int) [] = y at hsame ⊢
    cases hsame with
    | found chain =>
      simp only [List.length_map, ne_eq, Nat.cast_inj]
      by_cases hcount : chain.length = packets
      · rw [if_neg (not_not.mpr hcount), if_neg (not_not.mpr hcount), ← List.map_reverse]
        exact .found _
      · rw [if_pos hcount, if_pos hcount]
        exact .mismatch _ _
    | overflow => exact .overflow
    | outside => exact .outside
    | crossed owner => exact .crossed owner
    | cycle => exact .cycle
    | mismatch expected found => exact .mismatch expected found
  · exact walkChain_fuel refs flowId _ _ _ _ [] (Nat.zero_le _) (by simp; omega) (by simp)
  · rw [hpackets, Int.toNat_natCast]
    exact framesLoop_fuel refs flowId _ _ _ _ [] (Nat.zero_le _) (by simp; omega) (by simp)

/-! ## On an index that a scan left -/

/-- What the server reads of a flow: the frames of its records. -/
structure FramesOf (source : Source) (index : Index) (f : FlowRow) : Prop where
  /-- `original_frames` answers with the frames of the flow's records, in order. -/
  frames : originalFrames index.refs index.manifest f.id =
    .ok ((recordsOf (placements source) f.id).map Record.frame)
  increasing : ((recordsOf (placements source) f.id).map Record.frame).Pairwise (· < ·)
  /-- `extract` copies the records with these frames, in this order. -/
  copies : ∃ chain, flowChain index.refs index.manifest f.id = .ok chain ∧
    chain.map Hop.frame = (recordsOf (placements source) f.id).map Record.frame
  /-- The extracted file is these records, when a record's length fits its 32 bits in a reference. -/
  extracted : source.bytes.length < 2 ^ 64 → (∀ p ∈ placements source, p.record.len < 2 ^ 32) →
    ∀ dir : IndexDir, dir.Holds index →
      extract dir source f.id = .ok (source.bytes.take 24 ++
        (recordsOf (placements source) f.id).flatMap (Record.bytes source.bytes))
  /-- The k-th packet of the extracted file is the k-th record's frame, -/
  toOriginal : ∀ k r, (recordsOf (placements source) f.id)[k]? = some r →
    originalFrame ((recordsOf (placements source) f.id).map Record.frame) (k + 1) = some r.frame
  /-- and a frame comes from one packet of the extracted file, its own record's. -/
  toLocal : ∀ localFrame frame,
    originalFrame ((recordsOf (placements source) f.id).map Record.frame) localFrame = some frame →
    ∃! k, localFrame = k + 1 ∧ ∃ r, (recordsOf (placements source) f.id)[k]? = some r ∧ r.frame = frame

theorem originalFrame_succ (frames : List Nat) (k : Nat) : originalFrame frames (k + 1) = frames[k]? := by
  rw [originalFrame]
  by_cases hk : frames.length < k + 1
  · rw [if_pos (.inr hk), List.getElem?_eq_none (by omega)]
  · rw [if_neg (by omega), Nat.add_sub_cancel]

theorem framesOf {source : Source} {index : Index} (hbuild : buildIndex source = .ok index)
    {f : FlowRow} (hf : f ∈ index.manifest.flows) : FramesOf source index f := by
  obtain ⟨ps, st, h⟩ := buildIndex_ok hbuild
  have hrow := h.row (h.mem_iff.mp hf)
  have hreadable := readable_refLog h.inv
  have hchain := h.flowChain_rows hf
  have hframes : ((Chain.owned (refLog ps) f.id).map fun e => (rowOf e.1).hop).map Hop.frame =
      (recordsOf ps f.id).map Record.frame := by
    rw [← owned_items, List.map_map, List.map_map]
    rfl
  have hlength : index.refs.length = (refLog ps).length * refSize := by
    rw [h.refs, h.inv.refsInv.refs, Bytes.length_flatMap_const encodeLink length_encodeLink]
  have hlog : 0 < (refLog ps).length := by
    obtain ⟨e, rest, hcons⟩ := List.exists_cons_of_ne_nil hrow.started
    have hmem : e ∈ Chain.owned (refLog ps) f.id := by rw [hcons]; exact List.mem_cons_self
    have hlt := (List.getElem?_eq_some_iff.mp (Chain.mem_owned.mp hmem).1).1
    omega
  have hshort := hreadable.short
  have hstarts : StartsWalk index.manifest f.id f := by
    refine ⟨h.find_row hf, by rw [hrow.lastRef]; exact Int.natCast_nonneg _, ?_,
      by rw [hrow.packets]; exact Int.natCast_nonneg _⟩
    rw [hrow.lastRef]
    obtain ⟨last, hlast⟩ : ∃ last, Chain.lastOf (refLog ps) f.id = some last := by
      rw [Chain.lastOf_eq_getLast hreadable.linked]
      obtain ⟨e, rest, hcons⟩ := List.exists_cons_of_ne_nil hrow.started
      exact ⟨_, by rw [hcons, List.getLast?_cons, Option.map_some]⟩
    have hlt := Chain.lastOf_lt hlast
    rw [hlast]
    show ((last : Nat) : Int) < 2 ^ 63
    omega
  have hagree := walkersAgree (by rw [hlength, refSize]; omega) (by rw [hlength, refSize]; omega) hstarts
  have hread : originalFrames index.refs index.manifest f.id =
      .ok ((recordsOf ps f.id).map Record.frame) :=
    (hagree.same.ok_iff _).mp ⟨_, hchain, hframes⟩
  refine ⟨h.placements ▸ hread, h.placements ▸ recordsOf_ordered h f.id,
    ⟨_, hchain, h.placements ▸ hframes⟩, fun hmap hlen dir hdir => ?_, fun k r hk => ?_,
    fun localFrame frame hlocal => ?_⟩
  · rw [h.placements] at hlen ⊢
    rw [hdir.extract]
    exact h.extract_ok (fits_of_records h.inv hmap hlen) hf
  · rw [originalFrame_succ, List.getElem?_map, hk, Option.map_some]
  · rcases localFrame with _ | k
    · rw [originalFrame, if_pos (.inl Nat.zero_lt_one)] at hlocal
      cases hlocal
    · rw [originalFrame_succ, List.getElem?_map] at hlocal
      obtain ⟨r, hr, hframe⟩ := Option.map_eq_some_iff.mp hlocal
      refine ⟨k, ⟨rfl, r, hr, hframe⟩, fun k' hk' => ?_⟩
      exact (Nat.succ.inj hk'.1).symm

/-- THE WALKERS AGREE: on every file of references and every row, the two answer alike and stop within
one hop more than the flow has packets; on an index that a scan left, the frames are the flow's. -/
theorem original_frames_agree :
    (∀ (refs : Bytes) (manifest : Manifest) (flowId : Nat) (row : FlowRow), 1 ≤ refs.length →
      refs.length < 2 ^ 63 → StartsWalk manifest flowId row →
      WalkersAgree refs manifest flowId row) ∧
    ∀ (source : Source) (index : Index), buildIndex source = .ok index →
      ∀ f ∈ index.manifest.flows, FramesOf source index f :=
  ⟨fun _ _ _ _ hsize hmapped h => walkersAgree hsize hmapped h, fun _ _ hbuild _ hf =>
    framesOf hbuild hf⟩

/-- The first of two interleaved connections has the frames 1 and 3. Against a file of one byte both
walkers find its last reference outside. -/
theorem original_frames_agree_interleaved : ∃ index f, buildIndex interleaved = .ok index ∧
    FramesOf interleaved index f ∧ originalFrames index.refs index.manifest f.id = .ok [1, 3] ∧
    WalkersAgree [0] index.manifest f.id f ∧
    originalFrames [0] index.manifest f.id = .error .outside := by
  have hrun : (buildIndex interleaved).map (fun i => (i.manifest.flows.head?.map fun f =>
      (f.id, f.lastRef, f.packets), originalFrames i.refs i.manifest 0,
      originalFrames [0] i.manifest 0)) = .ok (some (0, 2, 2), .ok [1, 3], .error .outside) := by
    decide +kernel
  cases hb : buildIndex interleaved with
  | error e =>
    rw [hb] at hrun
    cases hrun
  | ok index =>
    rw [hb] at hrun
    obtain ⟨hhead, hrun⟩ := Prod.mk.inj (Except.ok.inj hrun)
    obtain ⟨hfound, houtside⟩ := Prod.mk.inj hrun
    obtain ⟨f, hf, hrow⟩ := Option.map_eq_some_iff.mp hhead
    obtain ⟨hid, hrow⟩ := Prod.mk.inj hrow
    obtain ⟨hlast, hpackets⟩ := Prod.mk.inj hrow
    have hfind : index.manifest.flows.find? (fun row => row.id = f.id) = some f := by
      obtain ⟨rest, hflows⟩ := List.head?_eq_some_iff.mp hf
      rw [hflows, List.find?_cons_of_pos (by simp)]
    have hstarts : StartsWalk index.manifest f.id f :=
      ⟨hfind, by rw [hlast]; decide, by rw [hlast]; decide, by rw [hpackets]; decide⟩
    exact ⟨index, f, rfl, original_frames_agree.2 interleaved index hb f (List.mem_of_find?_eq_some hfind),
      hid ▸ hfound, original_frames_agree.1 [0] index.manifest f.id f (by decide) (by decide) hstarts,
      hid ▸ houtside⟩

end PacketTrain.Indexer
