import PacketTrain.Indexer.Parse
import PacketTrain.Lib.Fallible

/-!
# The parser answers on any bytes

`parseTcp` reads its frame by positions that the frame itself supplies. Each read stands behind a
length check that covers it, and each loop moves its position on and stops where a check fails, so
the parser has an answer for every frame (`parseTcp_answers`): no read leaves the frame, and no
chain of tags or extension headers keeps a loop going.
-/

namespace PacketTrain.Indexer

open Fallible

/-! ## Reads in bounds -/

theorem sliceAt_answers {data : Bytes} {a b : Nat} (hab : a ≤ b) (hb : b ≤ data.length) :
    Answers (sliceAt data a b) := by
  unfold sliceAt
  rw [Bytes.slice_of_le hab hb]
  exact answers_ok _

theorem byteAt_answers {data : Bytes} {i : Nat} (h : i < data.length) :
    Answers (byteAt data i) := by
  unfold byteAt
  rw [List.getElem?_eq_getElem h]
  exact answers_ok _

theorem be16At_answers {data : Bytes} {off : Nat} (h : off + 2 ≤ data.length) :
    Answers (be16At data off) :=
  (sliceAt_answers (Nat.le_add_right _ _) h).bind fun _ _ => answers_ok _

theorem be32At_answers {data : Bytes} {off : Nat} (h : off + 4 ≤ data.length) :
    Answers (be32At data off) :=
  (sliceAt_answers (Nat.le_add_right _ _) h).bind fun _ _ => answers_ok _

/-! ## Relative reads -/

section

variable (pre post : Bytes)

theorem sliceAt_append (a b : Nat) :
    sliceAt (pre ++ post) (pre.length + a) (pre.length + b) = sliceAt post a b := by
  rw [sliceAt, sliceAt, Bytes.slice_append_right]

theorem be16At_append (a : Nat) : be16At (pre ++ post) (pre.length + a) = be16At post a := by
  rw [be16At, be16At, Nat.add_assoc, sliceAt_append]

theorem be32At_append (a : Nat) : be32At (pre ++ post) (pre.length + a) = be32At post a := by
  rw [be32At, be32At, Nat.add_assoc, sliceAt_append]

theorem byteAt_append (a : Nat) : byteAt (pre ++ post) (pre.length + a) = byteAt post a := by
  rw [byteAt, byteAt, List.getElem?_append_right (Nat.le_add_right _ _), Nat.add_sub_cancel_left]

theorem byteAt_length : byteAt (pre ++ post) pre.length = byteAt post 0 := byteAt_append pre post 0

end

/-! ## The tag loop -/

theorem skipTags_done {packet : Bytes} {eth : Nat} (h : isTag eth = false) (fuel off : Nat) :
    skipTags packet fuel off eth = .ok (some (off, eth)) := by
  unfold skipTags
  rw [h, if_neg Bool.false_ne_true]

theorem skipTags_step {packet : Bytes} {off eth next : Nat} (h : isTag eth = true)
    (hroom : off + 4 ≤ packet.length) (hread : be16At packet (off + 2) = .ok next) (fuel : Nat) :
    skipTags packet (fuel + 1) off eth = skipTags packet fuel (off + 4) next := by
  conv_lhs => unfold skipTags
  simp only [h, if_true, if_neg (Nat.not_lt.mpr hroom), hread, bind, Except.bind]

/-- The tag loop answers while its fuel exceeds the bytes ahead: a tag that is skipped lies in the
frame. -/
theorem skipTags_answers {packet : Bytes} {fuel off : Nat} (eth : Nat)
    (hfuel : packet.length - off < fuel) : Answers (skipTags packet fuel off eth) := by
  induction fuel generalizing off eth with
  | zero => omega
  | succ fuel ih =>
    unfold skipTags
    refine answers_ite (fun _ => answers_ite (fun _ => answers_ok _) fun hroom => ?_)
      fun _ => answers_ok _
    refine (be16At_answers (by omega)).bind fun eth' _ => ih eth' ?_
    omega

/-! ## The extension loop -/

theorem skipExtensions_done {packet src dst : Bytes} {e : Extensions}
    (h : isExtension e.next = false) (fuel : Nat) :
    skipExtensions packet src dst fuel e = .ok (some e) := by
  unfold skipExtensions
  rw [h, if_neg Bool.false_ne_true]

theorem skipExtensions_step {packet src dst : Bytes} {e e' : Extensions}
    (hs : skipExtension packet src dst e = .ok (some e')) (h : isExtension e.next = true)
    (fuel : Nat) :
    skipExtensions packet src dst (fuel + 1) e = skipExtensions packet src dst fuel e' := by
  conv_lhs => unfold skipExtensions
  simp only [if_pos h, hs, bind, Except.bind]

theorem skipExtension_answers (packet src dst : Bytes) (e : Extensions) :
    Answers (skipExtension packet src dst e) := by
  unfold skipExtension
  refine answers_ite (fun _ => answers_ok _) fun hroom => ?_
  refine (byteAt_answers (by omega)).bind fun next _ => answers_ite (fun _ => ?_) fun _ => ?_
  · refine answers_ite (fun _ => answers_ok _) fun hlong => ?_
    refine (be16At_answers (by omega)).bind fun frag _ => ?_
    exact (be32At_answers (by omega)).bind fun ident _ => answers_ok _
  · exact (byteAt_answers (by omega)).bind fun size _ => answers_ok _

/-- A header that is skipped began in the frame, and the next stands at least eight bytes on. -/
theorem skipExtension_advances {packet src dst : Bytes} {e e' : Extensions}
    (h : skipExtension packet src dst e = .ok (some e')) :
    e.cur + 2 ≤ packet.length ∧ e.cur + 8 ≤ e'.cur := by
  unfold skipExtension at h
  split at h
  · cases h
  next hroom =>
    obtain ⟨next, -, h⟩ := bind_eq_ok.mp h
    refine ⟨by omega, ?_⟩
    split at h
    · split at h
      · cases h
      · obtain ⟨frag, -, h⟩ := bind_eq_ok.mp h
        obtain ⟨ident, -, h⟩ := bind_eq_ok.mp h
        cases h
        exact Nat.le_refl _
    · obtain ⟨size, -, h⟩ := bind_eq_ok.mp h
      cases h
      show e.cur + 8 ≤ e.cur + if e.next = 51 then (size.toNat + 2) * 4 else (size.toNat + 1) * 8
      split <;> omega

theorem skipExtensions_answers {packet src dst : Bytes} {fuel : Nat} {e : Extensions}
    (hfuel : packet.length - e.cur < fuel) : Answers (skipExtensions packet src dst fuel e) := by
  induction fuel generalizing e with
  | zero => omega
  | succ fuel ih =>
    unfold skipExtensions
    refine answers_ite (fun _ => ?_) fun _ => answers_ok _
    refine (skipExtension_answers packet src dst e).bind fun skipped hskipped => ?_
    cases skipped with
    | none => exact answers_ok _
    | some e' =>
      obtain ⟨hroom, hnext⟩ := skipExtension_advances hskipped
      exact ih (by omega)

/-! ## The headers -/

theorem ipv4Header_answers (packet : Bytes) (off : Nat) : Answers (ipv4Header packet off) := by
  unfold ipv4Header
  refine answers_ite (fun _ => answers_ok _) fun hroom => ?_
  refine (byteAt_answers (by omega)).bind fun first _ => ?_
  refine answers_ite (fun _ => answers_ok _) fun hihl => ?_
  refine (byteAt_answers (by omega)).bind fun protocol _ => ?_
  refine answers_ite (fun _ => answers_ok _) fun _ => ?_
  refine (be16At_answers (by omega)).bind fun frag _ => ?_
  refine (be16At_answers (by omega)).bind fun ident _ => ?_
  refine (sliceAt_answers (by omega) (by omega)).bind fun src _ => ?_
  refine (sliceAt_answers (by omega) (by omega)).bind fun dst _ => ?_
  exact (be16At_answers (by omega)).bind fun total _ => answers_ok _

theorem ipv6Header_answers (packet : Bytes) (off : Nat) : Answers (ipv6Header packet off) := by
  unfold ipv6Header
  refine answers_ite (fun _ => answers_ok _) fun hroom => ?_
  refine (byteAt_answers (by omega)).bind fun first _ => ?_
  refine answers_ite (fun _ => answers_ok _) fun _ => ?_
  refine (sliceAt_answers (by omega) (by omega)).bind fun src _ => ?_
  refine (sliceAt_answers (by omega) (by omega)).bind fun dst _ => ?_
  refine (be16At_answers (by omega)).bind fun length _ => ?_
  refine (byteAt_answers (by omega)).bind fun next _ => ?_
  have hfuel : packet.length - (off + 40) < packet.length := by omega
  refine (skipExtensions_answers hfuel).bind fun skipped _ => ?_
  cases skipped with
  | none => exact answers_ok _
  | some e => exact answers_ite (fun _ => answers_ok _) fun _ => answers_ok _

theorem tcpHeader_answers (packet : Bytes) (n : Network) : Answers (tcpHeader packet n) := by
  unfold tcpHeader
  refine answers_ite (fun _ => answers_ok _) fun _ => ?_
  refine answers_ite (fun _ => answers_ok _) fun hroom => ?_
  refine (be16At_answers (by omega)).bind fun sport _ => ?_
  refine (be16At_answers (by omega)).bind fun dport _ => ?_
  refine (byteAt_answers (by omega)).bind fun dataOff _ => ?_
  refine answers_ite (fun _ => answers_ok _) fun _ => ?_
  refine (byteAt_answers (by omega)).bind fun flags _ => ?_
  exact (be16At_answers (by omega)).bind fun window _ => answers_ok _

/-- `parse_tcp` answers on every frame. -/
theorem parseTcp_answers (packet : Bytes) (linktype : Nat) :
    Answers (parseTcp packet linktype) := by
  unfold parseTcp
  refine answers_ite (fun _ => answers_ok _) fun hshort => ?_
  refine (be16At_answers (by omega)).bind fun eth _ => ?_
  refine (skipTags_answers eth (by omega)).bind fun skipped _ => ?_
  rcases skipped with _ | ⟨off, eth⟩
  · exact answers_ok _
  refine Answers.bind (answers_ite (fun _ => ipv4Header_answers packet off) fun _ =>
    answers_ite (fun _ => ipv6Header_answers packet off) fun _ => answers_ok _) fun network _ => ?_
  cases network with
  | none => exact answers_ok _
  | some n => exact tcpHeader_answers packet n

/-- A packet that is indexed came through the TCP header. -/
theorem parseTcp_header {packet : Bytes} {linktype : Nat} {p : ParsedPacket}
    (h : parseTcp packet linktype = .ok (some p)) : ∃ n, tcpHeader packet n = .ok (some p) := by
  unfold parseTcp at h
  split at h
  · cases h
  obtain ⟨eth, -, h⟩ := bind_eq_ok.mp h
  obtain ⟨skipped, -, h⟩ := bind_eq_ok.mp h
  rcases skipped with _ | ⟨off, eth⟩
  · cases h
  obtain ⟨network, -, h⟩ := bind_eq_ok.mp h
  cases network with
  | none => cases h
  | some n => exact ⟨n, h⟩

/-- A packet that is not a later fragment has a flow key. -/
theorem parseTcp_key {packet : Bytes} {linktype : Nat} {p : ParsedPacket}
    (h : parseTcp packet linktype = .ok (some p)) (hheader : p.nonInitialFragment = false) :
    ∃ key, p.key = some key := by
  obtain ⟨n, h⟩ := parseTcp_header h
  unfold tcpHeader at h
  split at h
  · cases h
    cases hheader
  split at h
  · cases h
  obtain ⟨sport, -, h⟩ := bind_eq_ok.mp h
  obtain ⟨dport, -, h⟩ := bind_eq_ok.mp h
  obtain ⟨dataOff, -, h⟩ := bind_eq_ok.mp h
  dsimp only at h
  split at h
  · cases h
  obtain ⟨flags, -, h⟩ := bind_eq_ok.mp h
  obtain ⟨window, -, h⟩ := bind_eq_ok.mp h
  cases h
  exact ⟨_, rfl⟩

end PacketTrain.Indexer
