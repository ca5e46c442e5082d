import PacketTrain.Laws.Decode.Signatures
import PacketTrain.Lib.Fallible

/-!
# Families over a capture

What `match` answers is made of the streams one by one: it does not depend on how their packets are mixed
(`matchAnswer_eq`), and of two captures with no stream in common it is the sum (`matchRows_perm`). Each
count is the number of the streams whose stack got that name.
-/

namespace PacketTrain.Decode

open Fallible Analysis

/-! ## Streams one by one -/

/-- The entry of a stream, if it has packets. -/
def rowOf (packets : List DecodedPacket) (stream : ℤ) : Option (Except OptionFault MatchRow) :=
  match streamRows packets stream with
  | [] => none
  | first :: rest => some (matchRow first rest)

theorem matchRows_eq (packets : List DecodedPacket) :
    matchRows packets = (streamNumbers packets).filterMap (rowOf packets) := rfl

theorem mem_streamNumbers {packets : List DecodedPacket} {stream : ℤ} :
    stream ∈ streamNumbers packets ↔ streamRows packets stream ≠ [] := by
  simp [streamNumbers, streamRows, List.filter_eq_nil_iff]

theorem nodup_streamNumbers (packets : List DecodedPacket) : (streamNumbers packets).Nodup :=
  (perm_sortOn id _).nodup_iff.mpr (List.nodup_dedup _)

theorem rowOf_congr {packets packets' : List DecodedPacket} {stream : ℤ}
    (h : streamRows packets stream = streamRows packets' stream) :
    rowOf packets stream = rowOf packets' stream := by
  rw [rowOf, rowOf, h]

/-- A capture whose packets are mixed in another way has the same answer. -/
theorem matchAnswer_eq {packets packets' : List DecodedPacket}
    (h : ∀ stream, streamRows packets stream = streamRows packets' stream) :
    matchAnswer packets = matchAnswer packets' := by
  have hnumbers : streamNumbers packets = streamNumbers packets' := by
    apply sortOn_eq_of_perm
    · apply (List.perm_ext_iff_of_nodup (List.nodup_dedup _) (List.nodup_dedup _)).mpr
      intro stream
      have hmem := @mem_streamNumbers packets stream
      rw [h, ← mem_streamNumbers, streamNumbers, streamNumbers, mem_sortOn, mem_sortOn] at hmem
      exact hmem
    · exact fun _ _ _ _ heq => heq
  rw [matchAnswer, matchAnswer, matchRows_eq, matchRows_eq, hnumbers,
    List.filterMap_congr fun stream _ => rowOf_congr (h stream)]

/-- One capture is two others, with no stream in common, mixed in any way. -/
structure Mixed (a b c : List DecodedPacket) : Prop where
  apart : ∀ stream, streamRows a stream = [] ∨ streamRows b stream = []
  both : ∀ stream, streamRows c stream = streamRows a stream ++ streamRows b stream

theorem Mixed.symm {a b c : List DecodedPacket} (h : Mixed a b c) : Mixed b a c where
  apart stream := (h.apart stream).symm
  both stream := by
    rw [h.both]
    rcases h.apart stream with hnil | hnil <;> simp [hnil]

theorem Mixed.rowOf_eq {a b c : List DecodedPacket} (h : Mixed a b c) {stream : ℤ}
    (hmem : stream ∈ streamNumbers a) : rowOf c stream = rowOf a stream := by
  apply rowOf_congr
  rw [h.both, (h.apart stream).resolve_left (mem_streamNumbers.mp hmem), List.append_nil]

theorem Mixed.perm_streamNumbers {a b c : List DecodedPacket} (h : Mixed a b c) :
    (streamNumbers c).Perm (streamNumbers a ++ streamNumbers b) := by
  refine (List.perm_ext_iff_of_nodup (nodup_streamNumbers c) ?_).mpr fun stream => ?_
  · refine (nodup_streamNumbers a).append (nodup_streamNumbers b) fun stream ha hb => ?_
    exact (h.apart stream).elim (mem_streamNumbers.mp ha) (mem_streamNumbers.mp hb)
  · rw [List.mem_append, mem_streamNumbers, mem_streamNumbers, mem_streamNumbers, h.both, Ne,
      List.append_eq_nil_iff, not_and_or]

/-- The entries are those of the two. -/
theorem Mixed.perm_matchRows {a b c : List DecodedPacket} (h : Mixed a b c) :
    (matchRows c).Perm (matchRows a ++ matchRows b) := by
  have hperm := h.perm_streamNumbers.filterMap (rowOf c)
  rwa [List.filterMap_append, List.filterMap_congr fun stream hmem => h.rowOf_eq hmem,
    List.filterMap_congr fun stream hmem => h.symm.rowOf_eq hmem] at hperm

theorem id_of_matchRow {first : DecodedPacket} {rest : List DecodedPacket} {row : MatchRow}
    (h : matchRow first rest = .ok row) : row.id = first.stream := by
  obtain ⟨evidence, -, hrow⟩ := bind_eq_ok.mp h
  cases hrow
  rfl

/-- One entry a stream, in the order of the stream numbers. -/
theorem ids_of_rows {packets : List DecodedPacket} {streams : List ℤ} {entries : List MatchRow}
    (hstreams : ∀ stream ∈ streams, streamRows packets stream ≠ [])
    (h : streams.filterMap (rowOf packets) = entries.map .ok) : entries.map (·.id) = streams := by
  induction streams generalizing entries with
  | nil =>
    rw [List.filterMap_nil, eq_comm, List.map_eq_nil_iff] at h
    rw [h, List.map_nil]
  | cons stream streams ih =>
    obtain ⟨hstream, hstreams⟩ := List.forall_mem_cons.mp hstreams
    cases hrows : streamRows packets stream with
    | nil => exact absurd hrows hstream
    | cons first rest =>
      rw [List.filterMap_cons, rowOf, hrows] at h
      cases entries with
      | nil => cases h
      | cons row entries =>
        rw [List.map_cons] at h
        obtain ⟨hrow, hrest⟩ := List.cons.inj h
        have hfirst : first.stream = stream := by
          have hmem : first ∈ streamRows packets stream := hrows ▸ List.mem_cons_self
          simpa using (List.mem_filter.mp hmem).2
        rw [List.map_cons, ih hstreams hrest, id_of_matchRow hrow, hfirst]

/-! ## Counts -/

/-- A stack is counted once for its side and its name. -/
theorem count_familyKeys (rows : List MatchRow) (side : Side) (family : String) :
    (familyKeys rows).countP (· = (side.text, family)) =
      rows.countP fun row => (row.view side).family = some family := by
  induction rows with
  | nil => rfl
  | cons row rows ih =>
    rw [familyKeys, List.flatMap_cons, List.countP_append, ← familyKeys, ih, List.countP_cons, Nat.add_comm]
    congr 1
    cases hclient : row.client.family <;> cases hserver : row.server.family <;> cases side <;>
      simp [MatchRow.view, hclient, hserver, Side.text, List.countP_cons]

theorem mem_counts {rows : List MatchRow} {c : FamilyCount} : c ∈ crossConnectionConsistency rows ↔
    0 < c.connections ∧ c.connections = (familyKeys rows).countP (· = (c.side, c.family)) := by
  rw [crossConnectionConsistency, List.mem_map]
  constructor
  · rintro ⟨item, hitem, rfl⟩
    exact Dict.mem_count.mp (mem_sortOn.mp hitem)
  · intro h
    exact ⟨((c.side, c.family), c.connections), mem_sortOn.mpr (Dict.mem_count.mpr h), rfl⟩

/-- The counts stand in the order of side and name, each pair once. -/
theorem pairwise_counts (rows : List MatchRow) : (crossConnectionConsistency rows).Pairwise fun c c' =>
    toLex (c.side, c.family) < toLex (c'.side, c'.family) := by
  rw [crossConnectionConsistency, List.pairwise_map]
  have hsorted := inOrder_sortOn (fun item : (String × String) × ℕ => toLex item.1)
    (Dict.count (familyKeys rows))
  have hnodup : ((sortOn (fun item : (String × String) × ℕ => toLex item.1)
      (Dict.count (familyKeys rows))).map Prod.fst).Nodup :=
    ((perm_sortOn _ _).map Prod.fst).nodup_iff.mpr (Dict.nodup_keys_tally _ _ _ _)
  refine (hsorted.and (List.pairwise_map.mp hnodup)).imp ?_
  rintro item item' ⟨hle, hne⟩
  exact lt_of_le_of_ne hle fun heq => hne (toLex.injective heq)

/-! ## The law -/

/-- The number that is reported for a side and a name. -/
def reported (answer : MatchAnswer) (side : Side) (family : String) : ℕ :=
  ((answer.counts.find? fun c => c.side = side.text ∧ c.family = family).map (·.connections)).getD 0

/-- The counts are those of the entries, and the entries those of the streams. -/
structure Counted (packets : List DecodedPacket) (answer : MatchAnswer) : Prop where
  ids : answer.entries.map (·.id) = streamNumbers packets
  streams : answer.streams = (packets.map (·.stream)).dedup.length
  ordered : answer.counts.Pairwise fun c c' => toLex (c.side, c.family) < toLex (c'.side, c'.family)
  positive : ∀ c ∈ answer.counts, 0 < c.connections ∧ ∃ side : Side, c.side = side.text
  counted : ∀ side family, reported answer side family =
    answer.entries.countP fun row => (row.view side).family = some family

theorem matchAnswer_eq_ok {packets : List DecodedPacket} {answer : MatchAnswer} :
    matchAnswer packets = .ok answer ↔ matchRows packets = answer.entries.map .ok ∧
      answer.streams = answer.entries.length ∧
        answer.counts = crossConnectionConsistency answer.entries := by
  rw [matchAnswer, bind_eq_ok]
  constructor
  · rintro ⟨rows, hrows, h⟩
    cases h
    exact ⟨mapM_id_eq_ok.mp hrows, rfl, rfl⟩
  · rintro ⟨hrows, hstreams, hcounts⟩
    refine ⟨answer.entries, mapM_id_eq_ok.mpr hrows, ?_⟩
    rw [← hstreams, ← hcounts]

theorem reported_eq {answer : MatchAnswer} (h : answer.counts = crossConnectionConsistency answer.entries)
    (side : Side) (family : String) : reported answer side family =
      answer.entries.countP fun row => (row.view side).family = some family := by
  rw [reported, h, ← count_familyKeys]
  cases hfind : (crossConnectionConsistency answer.entries).find? fun c =>
      c.side = side.text ∧ c.family = family with
  | some c =>
    have hkey := List.find?_some hfind
    rw [decide_eq_true_iff] at hkey
    rw [Option.map_some, Option.getD_some, (mem_counts.mp (List.mem_of_find?_eq_some hfind)).2, hkey.1,
      hkey.2]
  | none =>
    rw [List.find?_eq_none] at hfind
    by_contra hpos
    have hmem := @mem_counts answer.entries ⟨side.text, family,
      (familyKeys answer.entries).countP (· = (side.text, family))⟩
    exact hfind _ (hmem.mpr ⟨Nat.pos_of_ne_zero (Ne.symm hpos), rfl⟩) (decide_eq_true ⟨rfl, rfl⟩)

theorem counted {packets : List DecodedPacket} {answer : MatchAnswer}
    (h : matchAnswer packets = .ok answer) : Counted packets answer := by
  obtain ⟨hrows, hstreams, hcounts⟩ := matchAnswer_eq_ok.mp h
  have hids : answer.entries.map (·.id) = streamNumbers packets :=
    ids_of_rows (fun _ => mem_streamNumbers.mp) hrows
  refine ⟨hids, ?_, hcounts ▸ pairwise_counts answer.entries, fun c hc => ?_, reported_eq hcounts⟩
  · rw [hstreams, ← List.length_map (·.id), hids, streamNumbers, (perm_sortOn id _).length_eq]
  · obtain ⟨hpos, hcount⟩ := mem_counts.mp (hcounts ▸ hc)
    refine ⟨hpos, ?_⟩
    obtain ⟨key, hkey, heq⟩ := List.countP_pos_iff.mp (hcount ▸ hpos)
    obtain ⟨row, -, hrow⟩ := List.mem_flatMap.mp hkey
    obtain ⟨side, -, hside⟩ := List.mem_filterMap.mp hrow
    obtain ⟨family, -, rfl⟩ := Option.map_eq_some_iff.mp hside
    exact ⟨side, (Prod.mk.inj (of_decide_eq_true heq)).1.symm⟩

theorem mem_of_streamRows {packets : List DecodedPacket} {stream : ℤ} {rows : List DecodedPacket}
    (h : streamRows packets stream = rows) {p : DecodedPacket} (hp : p ∈ rows) :
    p ∈ packets ∧ p.stream = stream := by
  rw [← h] at hp
  exact ⟨(List.mem_filter.mp hp).1, of_decide_eq_true (List.mem_filter.mp hp).2⟩

/-- Where every SYN carries options, every stream has an entry. -/
theorem exists_matchAnswer {packets : List DecodedPacket}
    (hsent : ∀ p ∈ packets, p.syn → ∃ options, Offers p options) :
    ∃ answer, matchAnswer packets = .ok answer ∧ ∀ row ∈ answer.entries, ∃ first rest,
      streamRows packets row.id = first :: rest ∧
        ∀ side, ShownAs (synOf first rest side) (row.view side) := by
  have hall : ∀ outcome ∈ matchRows packets, ∃ row, outcome = .ok row ∧ ∃ first rest,
      streamRows packets row.id = first :: rest ∧
        ∀ side, ShownAs (synOf first rest side) (row.view side) := by
    intro outcome houtcome
    obtain ⟨stream, hstream, hrow⟩ := List.mem_filterMap.mp houtcome
    cases hrows : streamRows packets stream with
    | nil =>
      rw [hrows] at hrow
      cases hrow
    | cons first rest =>
      rw [hrows] at hrow
      obtain rfl := Option.some.inj hrow
      obtain ⟨row, hrow, hid, hshown⟩ := exists_matchRow fun side => stackView_shown side fun p hp =>
        hsent p (mem_of_streamRows hrows (mem_of_synOf hp).1).1 (mem_of_synOf hp).2
      refine ⟨row, hrow, first, rest, ?_, hshown⟩
      rw [hid, (mem_of_streamRows hrows List.mem_cons_self).2, hrows]
  have hrows : matchRows packets ∈ Set.range (List.map Except.ok) := by
    rw [Set.range_list_map]
    intro outcome houtcome
    obtain ⟨row, rfl, -⟩ := hall outcome houtcome
    exact ⟨row, rfl⟩
  obtain ⟨rows, hrows⟩ := hrows
  refine ⟨⟨rows.length, rows, crossConnectionConsistency rows⟩,
    matchAnswer_eq_ok.mpr ⟨hrows.symm, rfl, rfl⟩, fun row hrow => ?_⟩
  obtain ⟨row', heq, hshown⟩ := hall (.ok row) (hrows ▸ List.mem_map_of_mem hrow)
  rwa [Except.ok.inj heq]

/-- What is said of a stack is counted under the family that it says. -/
theorem exists_view {packets : List DecodedPacket} {answer : MatchAnswer}
    (h : matchAnswer packets = .ok answer) {c : FamilyCount} (hc : c ∈ answer.counts) :
    ∃ row ∈ answer.entries, ∃ side : Side, (row.view side).family = some c.family := by
  obtain ⟨-, -, hcounts⟩ := matchAnswer_eq_ok.mp h
  obtain ⟨hpos, side, hside⟩ := (counted h).positive c hc
  rw [(mem_counts.mp (hcounts ▸ hc)).2, hside, count_familyKeys, List.countP_pos_iff] at hpos
  obtain ⟨row, hrow, hfamily⟩ := hpos
  exact ⟨row, hrow, side, of_decide_eq_true hfamily⟩

theorem Mixed.mem_iff {a b c : List DecodedPacket} (h : Mixed a b c) (p : DecodedPacket) :
    p ∈ c ↔ p ∈ a ∨ p ∈ b := by
  have hmem := congrArg (p ∈ ·) (h.both p.stream)
  simpa [streamRows] using hmem

/-- THE RECURRING FAMILIES. In every capture whose SYNs carry options as a sender writes them, `match`
answers, with one entry a stream in the order of the stream numbers and both stacks described from the
stream's own SYNs. Each pair of a side and a family is reported once, in order, with the number of the
streams whose stack got that name. The answer is the same however the streams are interleaved, and the
answer for two captures without a common stream, mixed in any way, is the sum of theirs. Where no SYN offers
SACK, the option of kind 4, two of the six families are never reported. -/
theorem families_counted (packets : List DecodedPacket)
    (hsent : ∀ p ∈ packets, p.syn → ∃ options, Offers p options) :
    ∃ answer, matchAnswer packets = .ok answer ∧ Counted packets answer ∧
      (∀ row ∈ answer.entries, ∃ first rest, streamRows packets row.id = first :: rest ∧
        ∀ side, ShownAs (synOf first rest side) (row.view side)) ∧
      (∀ packets', (∀ stream, streamRows packets' stream = streamRows packets stream) →
        matchAnswer packets' = .ok answer) ∧
      (∀ a b, Mixed a b packets → ∃ x y, matchAnswer a = .ok x ∧ matchAnswer b = .ok y ∧
        answer.streams = x.streams + y.streams ∧ answer.entries.Perm (x.entries ++ y.entries) ∧
          ∀ side family, reported answer side family = reported x side family + reported y side family) ∧
      ((∀ p ∈ packets, p.syn → ∃ options, Offers p options ∧ ∀ option ∈ options, optionKind option ≠ 4) →
        ∀ c ∈ answer.counts, c.family ≠ "BSD" ∧ c.family ≠ "Linux (timestamps disabled)") := by
  obtain ⟨answer, hanswer, hshown⟩ := exists_matchAnswer hsent
  refine ⟨answer, hanswer, counted hanswer, hshown, fun packets' h => ?_, fun a b hmixed => ?_, ?_⟩
  · rw [matchAnswer_eq h, hanswer]
  · obtain ⟨x, hx, -⟩ := exists_matchAnswer fun p hp => hsent p ((hmixed.mem_iff p).mpr (.inl hp))
    obtain ⟨y, hy, -⟩ := exists_matchAnswer fun p hp => hsent p ((hmixed.mem_iff p).mpr (.inr hp))
    obtain ⟨hrows, hstreams, hcounts⟩ := matchAnswer_eq_ok.mp hanswer
    obtain ⟨hrowsx, hstreamsx, hcountsx⟩ := matchAnswer_eq_ok.mp hx
    obtain ⟨hrowsy, hstreamsy, hcountsy⟩ := matchAnswer_eq_ok.mp hy
    have hperm := hmixed.perm_matchRows
    rw [hrows, hrowsx, hrowsy, ← List.map_append,
      List.map_perm_map_iff fun _ _ h => Except.ok.inj h] at hperm
    refine ⟨x, y, hx, hy, ?_, hperm, fun side family => ?_⟩
    · rw [hstreams, hstreamsx, hstreamsy, hperm.length_eq, List.length_append]
    · rw [reported_eq hcounts, reported_eq hcountsx, reported_eq hcountsy, hperm.countP_eq,
        List.countP_append]
  · intro hkinds c hc
    obtain ⟨row, hrow, side, hfamily⟩ := exists_view hanswer hc
    obtain ⟨first, rest, hrows, hview⟩ := hshown row hrow
    rcases hview side with ⟨-, role, note, hnone⟩ | ⟨p, e, hsyn, heq, hdescribed⟩
    · rw [hnone] at hfamily
      cases hfamily
    · obtain ⟨hmem, hflag⟩ := mem_of_synOf hsyn
      obtain ⟨options, hoffers, hkind⟩ := hkinds p (mem_of_streamRows hrows hmem).1 hflag
      have hshape := (hdescribed options hoffers).2 hkind
      have hname : e.family = some c.family := by rwa [heq] at hfamily
      exact ⟨fun h => hshape.notBsd (h ▸ hname), fun h => hshape.notUntimed (h ▸ hname)⟩

/-- The law at work: two connections of one FreeBSD host, and a row of a third stream between them. -/
theorem families_counted_freebsd :
    let packets := [freebsdSyn, { freebsdSyn with stream := 7, syn := false },
      { freebsdSyn with stream := 2, sport := 40001 }]
    (matchAnswer packets).toOption.map (·.counts) = some [⟨"client", "BSD", 2⟩] ∧
      ∃ answer, matchAnswer packets = .ok answer ∧ Counted packets answer ∧
        ∀ packets', (∀ stream, streamRows packets' stream = streamRows packets stream) →
          matchAnswer packets' = .ok answer := by
  refine ⟨by decide +kernel, ?_⟩
  obtain ⟨answer, hanswer, hcounted, -, hmixed, -⟩ := families_counted
    [freebsdSyn, { freebsdSyn with stream := 7, syn := false },
      { freebsdSyn with stream := 2, sport := 40001 }] (by
        intro p hp _
        simp only [List.mem_cons, List.not_mem_nil, or_false] at hp
        refine ⟨freebsdOptions, none, ?_⟩
        rcases hp with rfl | rfl | rfl <;> rfl)
  exact ⟨answer, hanswer, hcounted, hmixed⟩

end PacketTrain.Decode
