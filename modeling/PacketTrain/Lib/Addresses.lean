import PacketTrain.Lib.Bytes
import PacketTrain.Lib.Numerals

/-!
# Internet addresses as text

Four octets are written in decimal with points between. Sixteen are written as eight hexadecimal groups
with colons between, the first of the longest runs of two zero groups or more as two colons; an address
that stands for four octets ends with these. `longestZeros_spec` is the run, and `readIpv4_ipv4Text` and
`readIpv6_ipv6Text` say that the text of an address names it.
-/

namespace PacketTrain.Addresses

open Lines Hex Numerals

/-- The groups of two bytes, the high byte first. -/
def segments : Bytes → List ℕ
  | high :: low :: rest => (high.toNat * 256 + low.toNat) :: segments rest
  | _ => []

/-- A run of groups. -/
structure Span where
  start : ℕ
  len : ℕ
deriving DecidableEq, Repr

/-- One group, with its index: the longest run of zeros so far, and the run that ends here. -/
def spanStep (spans : Span × Span) (item : ℕ × ℕ) : Span × Span :=
  if item.1 = 0 then
    let current : Span := ⟨if spans.2.len = 0 then item.2 else spans.2.start, spans.2.len + 1⟩
    (if spans.1.len < current.len then current else spans.1, current)
  else (spans.1, ⟨0, 0⟩)

def zeroSpans (groups : List ℕ) : Span × Span := groups.zipIdx.foldl spanStep (⟨0, 0⟩, ⟨0, 0⟩)

/-- The first of the longest runs of zeros. -/
def longestZeros (groups : List ℕ) : Span := (zeroSpans groups).1

/-- Numerals with a sign between. -/
def numerals (base : ℕ) (sign : Char) (values : List ℕ) : Text :=
  [sign].intercalate (values.map (Nat.toDigits base))

/-- `Ipv4Addr` as text. -/
def ipv4Text (octets : Bytes) : Text := numerals 10 '.' (octets.map UInt8.toNat)

/-- The first twelve bytes of an address that stands for four octets. -/
def mappedPrefix : Bytes := List.replicate 10 0 ++ [0xff, 0xff]

/-- The groups, a run of zeros as two colons. -/
def groupsText (groups : List ℕ) : Text :=
  let zeros := longestZeros groups
  if 1 < zeros.len then
    numerals 16 ':' (groups.take zeros.start) ++ "::".toList ++
      numerals 16 ':' (groups.drop (zeros.start + zeros.len))
  else numerals 16 ':' groups

/-- `Ipv6Addr` as text. -/
def ipv6Text (octets : Bytes) : Text :=
  if octets.take 12 = mappedPrefix then "::ffff:".toList ++ ipv4Text (octets.drop 12)
  else groupsText (segments octets)

/-! ## Reading -/

def readIpv4 (text : Text) : Bytes := (text.splitOn '.').map fun part => UInt8.ofNat (ofDigits 10 part)

/-- The groups of a text: what stands before the first empty part and what stands after it, and zeros for
those left out. -/
def readGroups (count : ℕ) (text : Text) : List ℕ :=
  let parts := text.splitOn ':'
  let left := parts.takeWhile (· ≠ [])
  let right := (parts.dropWhile (· ≠ [])).filter (· ≠ [])
  left.map (ofDigits 16) ++ List.replicate (count - left.length - right.length) 0 ++
    right.map (ofDigits 16)

/-- The bytes of groups. -/
def bytesOf (groups : List ℕ) : Bytes :=
  groups.flatMap fun n => [UInt8.ofNat (n / 256), UInt8.ofNat (n % 256)]

def readIpv6 (text : Text) : Bytes :=
  if '.' ∈ text then mappedPrefix ++ readIpv4 (text.drop 7) else bytesOf (readGroups 8 text)

/-! ## The longest run of zeros -/

/-- The groups of a span are zero. -/
def ZeroRun (groups : List ℕ) (s : Span) : Prop :=
  ∀ i, s.start ≤ i → i < s.start + s.len → groups[i]? = some 0

/-- What the two runs are. -/
structure SpansOf (groups : List ℕ) (spans : Span × Span) : Prop where
  longest : ZeroRun groups spans.1
  current : ZeroRun groups spans.2
  /-- The current run ends where the groups end. -/
  ends : 0 < spans.2.len → spans.2.start + spans.2.len = groups.length
  best : ∀ s, ZeroRun groups s → 0 < s.len →
    s.len ≤ spans.1.len ∧ (s.len = spans.1.len → spans.1.start ≤ s.start)
  last : ∀ s, ZeroRun groups s → s.start + s.len = groups.length → s.len ≤ spans.2.len

theorem ZeroRun.end_le {groups : List ℕ} {s : Span} (h : ZeroRun groups s) (hpos : 0 < s.len) :
    s.start + s.len ≤ groups.length := by
  have hlast := h (s.start + s.len - 1) (by omega) (by omega)
  have hlt := (List.getElem?_eq_some_iff.mp hlast).1
  omega

theorem ZeroRun.append {groups : List ℕ} {s : Span} (h : ZeroRun groups s) (n : ℕ) :
    ZeroRun (groups ++ [n]) s := by
  intro i hlo hhi
  have hi := h i hlo hhi
  rw [List.getElem?_append_left (List.getElem?_eq_some_iff.mp hi).1]
  exact hi

theorem zeroRun_concat {groups : List ℕ} {n : ℕ} {s : Span} (hend : s.start + s.len ≤ groups.length) :
    ZeroRun (groups ++ [n]) s ↔ ZeroRun groups s := by
  refine forall_congr' fun i => forall_congr' fun _ => forall_congr' fun hi => ?_
  rw [List.getElem?_append_left (by omega)]

/-- A run that takes the last group is a run without it, and a zero. -/
theorem zeroRun_concat_last {groups : List ℕ} {n start len : ℕ} (hend : start + len = groups.length) :
    ZeroRun (groups ++ [n]) ⟨start, len + 1⟩ ↔ ZeroRun groups ⟨start, len⟩ ∧ n = 0 := by
  constructor
  · intro h
    refine ⟨fun i hlo hhi => ?_, ?_⟩
    · have hi := h i hlo (by simp only at hhi ⊢; omega)
      rwa [List.getElem?_append_left (by simp only at hhi; omega)] at hi
    · have hlast := h groups.length (by simp only; omega) (by simp only; omega)
      simpa using hlast
  · rintro ⟨h, rfl⟩ i hlo hhi
    simp only at hlo hhi
    rcases Nat.lt_or_ge i groups.length with hlt | hge
    · rw [List.getElem?_append_left hlt]
      exact h i hlo (by simp only; omega)
    · obtain rfl : i = groups.length := by omega
      simp

theorem spansOf_nil : SpansOf [] (⟨0, 0⟩, ⟨0, 0⟩) where
  longest := fun i _ hi => absurd hi (by simp)
  current := fun i _ hi => absurd hi (by simp)
  ends := fun h => absurd h (lt_irrefl 0)
  best := fun s hs hpos => absurd (hs.end_le hpos) (by simp only [List.length_nil]; omega)
  last := fun s _ hend => by
    simp only [List.length_nil] at hend
    omega

/-- A run of the longer list ends before the last group, or takes it in. -/
theorem zeroRun_concat_cases {groups : List ℕ} {n : ℕ} {s : Span} (hs : ZeroRun (groups ++ [n]) s)
    (hpos : 0 < s.len) :
    ZeroRun groups s ∨ n = 0 ∧ s.start + s.len = groups.length + 1 ∧
      ZeroRun groups ⟨s.start, s.len - 1⟩ := by
  have hend := hs.end_le hpos
  rw [List.length_append, List.length_singleton] at hend
  rcases Nat.lt_or_ge groups.length (s.start + s.len) with hlast | hinside
  · have hsplit : s = ⟨s.start, s.len - 1 + 1⟩ := by rw [Nat.sub_add_cancel hpos]
    rw [hsplit] at hs
    obtain ⟨hrun, hzero⟩ := (zeroRun_concat_last (by omega)).mp hs
    exact .inr ⟨hzero, by omega, hrun⟩
  · exact .inl ((zeroRun_concat hinside).mp hs)

/-- One group more. -/
theorem SpansOf.concat {groups : List ℕ} {spans : Span × Span} (h : SpansOf groups spans) (n : ℕ) :
    SpansOf (groups ++ [n]) (spanStep spans (n, groups.length)) := by
  obtain ⟨longest, current⟩ := spans
  have hlongest : 0 < longest.len → longest.start + longest.len ≤ groups.length := h.longest.end_le
  have hlength : (groups ++ [n]).length = groups.length + 1 := by simp
  rw [spanStep]
  by_cases hzero : n = 0
  · subst hzero
    rw [if_pos rfl]
    dsimp only
    obtain ⟨start, hstart⟩ : ∃ start, start = if current.len = 0 then groups.length else current.start :=
      ⟨_, rfl⟩
    rw [← hstart]
    have hends : start + current.len = groups.length := by
      have hold := h.ends
      dsimp only at hold
      split at hstart <;> omega
    have hcurrent : ZeroRun (groups ++ [0]) ⟨start, current.len + 1⟩ := by
      refine (zeroRun_concat_last hends).mpr ⟨fun i hlo hhi => ?_, rfl⟩
      dsimp only at hlo hhi
      split at hstart
      · omega
      · exact h.current i (by dsimp only; omega) (by dsimp only; omega)
    have hlast : ∀ s, ZeroRun (groups ++ [0]) s → s.start + s.len = groups.length + 1 →
        s.len ≤ current.len + 1 := by
      intro s hs hend
      rcases Nat.eq_zero_or_pos s.len with hnone | hpos
      · omega
      · rcases zeroRun_concat_cases hs hpos with hold | ⟨-, -, hrun⟩
        · have := hold.end_le hpos
          omega
        · have := h.last _ hrun (by dsimp only; omega)
          dsimp only at this
          omega
    refine ⟨?_, hcurrent, fun _ => by dsimp only; omega, fun s hs hpos => ?_, fun s hs hend => ?_⟩
    · dsimp only
      split
      · exact hcurrent
      · exact h.longest.append 0
    · -- a run inside the old groups is no longer than the old longest one; one that takes the zero is
      -- no longer than the current one, and then they start together
      rcases zeroRun_concat_cases hs hpos with hold | ⟨-, hend, -⟩
      · have hbest := h.best s hold hpos
        dsimp only at hbest ⊢
        split
        · dsimp only
          omega
        · exact hbest
      · have hle := hlast s hs hend
        dsimp only
        split
        · dsimp only
          omega
        · omega
    · exact hlast s hs (by omega)
  · rw [if_neg hzero]
    refine ⟨h.longest.append n, fun i _ hi => absurd hi (by dsimp only; omega),
      fun hpos => absurd hpos (lt_irrefl 0), fun s hs hpos => ?_, fun s hs hend => ?_⟩
    · rcases zeroRun_concat_cases hs hpos with hold | ⟨hn, -⟩
      · exact h.best s hold hpos
      · exact absurd hn hzero
    · rcases Nat.eq_zero_or_pos s.len with hnone | hpos
      · exact hnone.le
      · rcases zeroRun_concat_cases hs hpos with hold | ⟨hn, -⟩
        · have := hold.end_le hpos
          omega
        · exact absurd hn hzero

theorem zeroSpans_spec (groups : List ℕ) : SpansOf groups (zeroSpans groups) := by
  induction groups using List.reverseRecOn with
  | nil => exact spansOf_nil
  | append_singleton groups n ih =>
    rw [zeroSpans, List.zipIdx_append, List.foldl_append]
    have hstep := ih.concat n
    simpa [zeroSpans] using hstep

/-- THE RUN THAT IS LEFT OUT: its groups are zeros, no run is longer, and of those as long it is the
first. -/
theorem longestZeros_spec (groups : List ℕ) :
    ZeroRun groups (longestZeros groups) ∧ ∀ s, ZeroRun groups s → 0 < s.len →
      s.len ≤ (longestZeros groups).len ∧
        (s.len = (longestZeros groups).len → (longestZeros groups).start ≤ s.start) :=
  ⟨(zeroSpans_spec groups).longest, (zeroSpans_spec groups).best⟩

/-- So the groups are what is before it, zeros, and what is behind. -/
theorem take_zeros_drop {groups : List ℕ} {s : Span} (h : ZeroRun groups s) :
    groups.take s.start ++ (List.replicate s.len 0 ++ groups.drop (s.start + s.len)) = groups := by
  have hzeros : (groups.drop s.start).take s.len = List.replicate s.len 0 := by
    refine List.ext_getElem? fun i => ?_
    rcases Nat.lt_or_ge i s.len with hi | hi
    · rw [List.getElem?_take_of_lt hi, List.getElem?_drop, h _ (by omega) (by omega),
        List.getElem?_replicate_of_lt hi]
    · rw [List.getElem?_eq_none (by rw [List.length_take]; omega),
        List.getElem?_eq_none (by simpa using hi)]
  rw [← hzeros, ← List.drop_drop, List.take_append_drop, List.take_append_drop]

/-! ## Numerals with a sign between -/

theorem intercalate_append {sep : Text} {left right : List Text} (hleft : left ≠ []) (hright : right ≠ []) :
    sep.intercalate (left ++ right) = sep.intercalate left ++ (sep ++ sep.intercalate right) := by
  induction left with
  | nil => exact absurd rfl hleft
  | cons part left ih =>
    cases left with
    | nil =>
      obtain ⟨first, rest, rfl⟩ := List.exists_cons_of_ne_nil hright
      rw [List.singleton_append, List.intercalate_cons_cons, List.intercalate_singleton, List.append_assoc]
    | cons next left =>
      rw [List.cons_append, List.cons_append, List.intercalate_cons_cons, ← List.cons_append,
        ih (List.cons_ne_nil _ _), List.intercalate_cons_cons]
      simp only [List.append_assoc]

/-- An empty part shows as two separators. -/
theorem intercalate_empty {sep : Text} {left right : List Text} (hleft : left ≠ []) (hright : right ≠ []) :
    sep.intercalate (left ++ [] :: right) =
      sep.intercalate left ++ (sep ++ sep) ++ sep.intercalate right := by
  obtain ⟨first, rest, rfl⟩ := List.exists_cons_of_ne_nil hright
  rw [intercalate_append hleft (List.cons_ne_nil _ _), List.intercalate_cons_cons, List.nil_append]
  simp only [List.append_assoc]

/-- A sign that is no digit. -/
def IsSign (sign : Char) : Prop := ∀ d < 16, Nat.digitChar d ≠ sign

theorem isSign_point : IsSign '.' := fun _ hd => (digitChar_plain hd).2.2.2.2.1

theorem isSign_colon : IsSign ':' := by
  intro d hd
  interval_cases d <;> decide

theorem not_mem_toDigits {base : ℕ} (hbase : 1 < base) (hsmall : base ≤ 16) {sign : Char}
    (hsign : IsSign sign) (n : ℕ) : sign ∉ Nat.toDigits base n := by
  intro hmem
  obtain ⟨d, hd, hdigit⟩ := spelled_toDigits hbase n sign hmem
  exact hsign d (hd.trans_le hsmall) hdigit.symm

/-- The parts of numerals: none are an empty part. -/
def partsOf (base : ℕ) (values : List ℕ) : List Text :=
  if values = [] then [[]] else values.map (Nat.toDigits base)

theorem partsOf_ne_nil (base : ℕ) (values : List ℕ) : partsOf base values ≠ [] := by
  rw [partsOf]
  split
  · exact List.cons_ne_nil _ _
  · next hne => simpa using hne

theorem numerals_eq (base : ℕ) (sign : Char) (values : List ℕ) :
    numerals base sign values = [sign].intercalate (partsOf base values) := by
  rw [numerals, partsOf]
  split
  · next hnone =>
    rw [hnone]
    rfl
  · rfl

theorem not_mem_partsOf {base : ℕ} (hbase : 1 < base) (hsmall : base ≤ 16) {sign : Char}
    (hsign : IsSign sign) {values : List ℕ} : ∀ part ∈ partsOf base values, sign ∉ part := by
  intro part hpart
  rw [partsOf] at hpart
  split at hpart
  · rw [List.mem_singleton.mp hpart]
    exact List.not_mem_nil
  · obtain ⟨n, -, rfl⟩ := List.mem_map.mp hpart
    exact not_mem_toDigits hbase hsmall hsign n

/-- The numerals are read back. -/
theorem map_ofDigits_toDigits {base : ℕ} (hbase : 1 < base) (hsmall : base ≤ 16) (values : List ℕ) :
    (values.map (Nat.toDigits base)).map (ofDigits base) = values := by
  rw [List.map_map]
  exact (List.map_congr_left fun n _ => ofDigits_toDigits hbase hsmall n).trans (List.map_id _)

/-- The characters of numerals are digits and the sign. -/
theorem mem_numerals {base : ℕ} (hbase : 1 < base) {sign c : Char} {values : List ℕ}
    (h : c ∈ numerals base sign values) : c = sign ∨ ∃ d < base, c = Nat.digitChar d := by
  refine (mem_intercalate h).imp_right ?_
  rintro ⟨part, hpart, hc⟩
  obtain ⟨n, -, rfl⟩ := List.mem_map.mp hpart
  exact spelled_toDigits hbase n c hc

/-- The sign is there between two. -/
theorem sign_mem_numerals (base : ℕ) (sign : Char) {values : List ℕ} (h : 2 ≤ values.length) :
    sign ∈ numerals base sign values := by
  match values, h with
  | a :: b :: rest, _ =>
    rw [numerals, List.map_cons, List.map_cons, List.intercalate_cons_cons]
    exact List.mem_append_left _ (List.mem_append_right _ (List.mem_singleton_self _))

/-! ## Four octets -/

theorem readIpv4_ipv4Text {octets : Bytes} (hne : octets ≠ []) : readIpv4 (ipv4Text octets) = octets := by
  have hparts : (ipv4Text octets).splitOn '.' = (octets.map UInt8.toNat).map (Nat.toDigits 10) := by
    refine List.splitOn_intercalate '.' (fun part hpart => ?_) (by simpa using hne)
    obtain ⟨n, -, rfl⟩ := List.mem_map.mp hpart
    exact not_mem_toDigits (by decide) (by decide) isSign_point n
  have hread : ∀ parts : List Text, parts.map (fun part => UInt8.ofNat (ofDigits 10 part)) =
      (parts.map (ofDigits 10)).map UInt8.ofNat := fun parts => by rw [List.map_map]; rfl
  rw [readIpv4, hparts, hread, map_ofDigits_toDigits (by decide) (by decide), List.map_map]
  exact (List.map_congr_left fun b _ => UInt8.ofNat_toNat).trans (List.map_id _)

/-! ## Groups -/

theorem length_segments : ∀ octets : Bytes, (segments octets).length = octets.length / 2
  | [] => rfl
  | [_] => by simp [segments]
  | _ :: _ :: rest => by
    rw [segments, List.length_cons, length_segments rest, List.length_cons, List.length_cons]
    omega

theorem bytesOf_segments : ∀ {octets : Bytes}, octets.length % 2 = 0 → bytesOf (segments octets) = octets
  | [], _ => rfl
  | [_], h => absurd h (by simp)
  | high :: low :: rest, h => by
    have hrest : rest.length % 2 = 0 := by
      rw [List.length_cons, List.length_cons] at h
      omega
    have hlow := low.toNat_lt
    have hhigh : (high.toNat * 256 + low.toNat) / 256 = high.toNat := by omega
    have hmod : (high.toNat * 256 + low.toNat) % 256 = low.toNat := by omega
    rw [segments, bytesOf, List.flatMap_cons, ← bytesOf, bytesOf_segments hrest, hhigh, hmod,
      UInt8.ofNat_toNat, UInt8.ofNat_toNat]
    rfl

theorem numeral_ne_nil {base : ℕ} {values : List ℕ} :
    ∀ part ∈ values.map (Nat.toDigits base), decide (part ≠ []) = true := by
  intro part hpart
  obtain ⟨n, -, rfl⟩ := List.mem_map.mp hpart
  exact decide_eq_true Nat.toDigits_ne_nil

theorem filter_partsOf (base : ℕ) (values : List ℕ) :
    (partsOf base values).filter (· ≠ []) = values.map (Nat.toDigits base) := by
  rw [partsOf]
  split
  · next hnone =>
    rw [hnone]
    rfl
  · exact List.filter_eq_self.mpr numeral_ne_nil

/-- The first empty part ends the numerals on the left, also when there are none. -/
theorem takeWhile_partsOf (base : ℕ) (values : List ℕ) (rest : List Text) :
    (partsOf base values ++ [] :: rest).takeWhile (· ≠ []) = values.map (Nat.toDigits base) ∧
      ((partsOf base values ++ [] :: rest).dropWhile (· ≠ [])).filter (· ≠ []) =
        rest.filter (· ≠ []) := by
  rw [partsOf]
  split
  · next hnone =>
    rw [hnone]
    exact ⟨rfl, rfl⟩
  · rw [List.takeWhile_append_of_pos numeral_ne_nil, List.dropWhile_append_of_pos numeral_ne_nil]
    exact ⟨List.append_nil _, rfl⟩

/-- What is read from the parts on both sides of an empty one. -/
theorem readGroups_parts (count : ℕ) (left right : List ℕ) :
    readGroups count ([':'].intercalate (partsOf 16 left ++ [] :: partsOf 16 right)) =
      left ++ List.replicate (count - left.length - right.length) 0 ++ right := by
  have hparts : ([':'].intercalate (partsOf 16 left ++ [] :: partsOf 16 right)).splitOn ':' =
      partsOf 16 left ++ [] :: partsOf 16 right := by
    refine List.splitOn_intercalate ':' (fun part hpart => ?_) (by simp)
    rcases List.mem_append.mp hpart with hleft | hright
    · exact not_mem_partsOf (by decide) (by decide) isSign_colon part hleft
    · rcases List.mem_cons.mp hright with rfl | hright
      · exact List.not_mem_nil
      · exact not_mem_partsOf (by decide) (by decide) isSign_colon part hright
  obtain ⟨htake, hdrop⟩ := takeWhile_partsOf 16 left (partsOf 16 right)
  rw [readGroups, hparts]
  simp only [htake, hdrop, filter_partsOf, map_ofDigits_toDigits (by decide : 1 < 16) (by decide),
    List.length_map]

/-- What is read from numerals alone. -/
theorem readGroups_numerals {values : List ℕ} (hne : values ≠ []) :
    readGroups values.length (numerals 16 ':' values) = values := by
  have hparts : (numerals 16 ':' values).splitOn ':' = values.map (Nat.toDigits 16) := by
    refine List.splitOn_intercalate ':' (fun part hpart => ?_) (by simpa using hne)
    obtain ⟨n, -, rfl⟩ := List.mem_map.mp hpart
    exact not_mem_toDigits (by decide) (by decide) isSign_colon n
  have htake : (values.map (Nat.toDigits 16)).takeWhile (· ≠ []) = values.map (Nat.toDigits 16) :=
    List.takeWhile_eq_self_iff.mpr numeral_ne_nil
  have hdrop : (values.map (Nat.toDigits 16)).dropWhile (· ≠ []) = [] :=
    List.dropWhile_eq_nil_iff.mpr numeral_ne_nil
  rw [readGroups, hparts]
  simp only [htake, hdrop, List.filter_nil, List.append_nil,
    map_ofDigits_toDigits (by decide : 1 < 16) (by decide), List.length_map, List.map_nil,
    List.length_nil, Nat.sub_self, List.replicate_zero]

theorem readGroups_groupsText {groups : List ℕ} (hne : groups ≠ []) :
    readGroups groups.length (groupsText groups) = groups := by
  rw [groupsText]
  split
  · next hlong =>
    obtain ⟨hrun, -⟩ := longestZeros_spec groups
    have hend := hrun.end_le (by omega)
    have htext : numerals 16 ':' (groups.take (longestZeros groups).start) ++ "::".toList ++
        numerals 16 ':' (groups.drop ((longestZeros groups).start + (longestZeros groups).len)) =
        [':'].intercalate (partsOf 16 (groups.take (longestZeros groups).start) ++
          [] :: partsOf 16 (groups.drop ((longestZeros groups).start + (longestZeros groups).len))) := by
      rw [intercalate_empty (partsOf_ne_nil _ _) (partsOf_ne_nil _ _), ← numerals_eq, ← numerals_eq]
      rfl
    have hcount : groups.length - (groups.take (longestZeros groups).start).length -
        (groups.drop ((longestZeros groups).start + (longestZeros groups).len)).length =
        (longestZeros groups).len := by
      rw [List.length_take, List.length_drop]
      omega
    rw [htext, readGroups_parts, hcount, List.append_assoc, take_zeros_drop hrun]
  · exact readGroups_numerals hne

/-! ## Characters -/

theorem mem_groupsText {c : Char} {groups : List ℕ} (h : c ∈ groupsText groups) :
    c = ':' ∨ ∃ d < 16, c = Nat.digitChar d := by
  have hcolon : ∀ {c : Char}, c ∈ "::".toList → c = ':' := by
    intro c hc
    simpa using hc
  rw [groupsText] at h
  split at h
  · rcases List.mem_append.mp h with h | hright
    · rcases List.mem_append.mp h with hleft | hsep
      · exact mem_numerals (by decide) hleft
      · exact .inl (hcolon hsep)
    · exact mem_numerals (by decide) hright
  · exact mem_numerals (by decide) h

/-- No point in groups. -/
theorem point_not_mem_groupsText (groups : List ℕ) : '.' ∉ groupsText groups := by
  intro hmem
  rcases mem_groupsText hmem with hsign | ⟨d, hd, hdigit⟩
  · exact absurd hsign (by decide)
  · exact isSign_point d hd hdigit.symm

theorem colon_mem_groupsText {groups : List ℕ} (h : 2 ≤ groups.length) : ':' ∈ groupsText groups := by
  rw [groupsText]
  split
  · simp
  · exact sign_mem_numerals 16 ':' h

/-- Only sixteen octets are written with colons. -/
theorem colon_mem_ipv6Text {octets : Bytes} (h : octets.length = 16) : ':' ∈ ipv6Text octets := by
  rw [ipv6Text]
  split
  · exact List.mem_append_left _ (by decide)
  · exact colon_mem_groupsText (by rw [length_segments, h]; decide)

theorem colon_not_mem_ipv4Text (octets : Bytes) : ':' ∉ ipv4Text octets := by
  intro hmem
  rcases mem_numerals (by decide) hmem with hsign | ⟨d, hd, hdigit⟩
  · exact absurd hsign (by decide)
  · exact isSign_colon d (by omega) hdigit.symm

/-- The characters of an address. -/
def IsAddressChar (c : Char) : Prop := c = '.' ∨ c = ':' ∨ ∃ d < 16, c = Nat.digitChar d

theorem mem_ipv4Text {c : Char} {octets : Bytes} (h : c ∈ ipv4Text octets) : IsAddressChar c := by
  refine (mem_numerals (by decide) h).imp_right fun ⟨d, hd, hdigit⟩ => ?_
  exact .inr ⟨d, by omega, hdigit⟩

theorem mem_ipv6Text {c : Char} {octets : Bytes} (h : c ∈ ipv6Text octets) : IsAddressChar c := by
  rw [ipv6Text] at h
  split at h
  · rcases List.mem_append.mp h with hmapped | hoctets
    · have hsigns : c = ':' ∨ c = 'f' ∨ c = ':' := by simpa using hmapped
      rcases hsigns with rfl | rfl | rfl
      · exact .inr (.inl rfl)
      · exact .inr (.inr ⟨15, by decide, rfl⟩)
      · exact .inr (.inl rfl)
    · exact mem_ipv4Text hoctets
  · exact .inr (mem_groupsText h)

/-- THE TEXT OF AN ADDRESS names it. -/
theorem readIpv6_ipv6Text {octets : Bytes} (h : octets.length = 16) : readIpv6 (ipv6Text octets) = octets := by
  rw [ipv6Text]
  split
  · next hmapped =>
    have hlength : (octets.drop 12).length = 4 := by rw [List.length_drop, h]
    have hpoint : '.' ∈ "::ffff:".toList ++ ipv4Text (octets.drop 12) :=
      List.mem_append_right _ (sign_mem_numerals 10 '.' (by rw [List.length_map]; omega))
    have hdrop : ("::ffff:".toList ++ ipv4Text (octets.drop 12)).drop 7 = ipv4Text (octets.drop 12) := rfl
    rw [readIpv6, if_pos hpoint, hdrop, readIpv4_ipv4Text (List.ne_nil_of_length_pos (by omega)),
      ← hmapped, List.take_append_drop]
  · have hlength : (segments octets).length = 8 := by rw [length_segments, h]
    have hread := readGroups_groupsText (List.ne_nil_of_length_pos (by omega : 0 < (segments octets).length))
    rw [hlength] at hread
    rw [readIpv6, if_neg (point_not_mem_groupsText _), hread, bytesOf_segments (by omega)]

/-- Of two runs as long the first is left out. -/
example : ipv6Text [0x20, 1, 0, 0, 0, 0, 0, 1, 0, 0, 0, 0, 0, 1, 0, 1] = "2001::1:0:0:1:1".toList := by
  decide +kernel

end PacketTrain.Addresses
