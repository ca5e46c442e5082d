import PacketTrain.Decode.Signatures
import PacketTrain.Laws.Analysis.Options

/-!
# The family that is named

A SYN is named after the first of the signatures that agree best with it (`family_iff`). Every signature
wants SACK, the option of kind 4. A SYN that does not offer it has the option order of none of them, so
three numbers are what its stack is named by (`bestMatch_of_shape`), and of two signatures with the same
numbers the second is not named.
-/

namespace PacketTrain.Decode

open Lines Strings Hex Analysis

/-! ## The best signature -/

section

variable (names : List Text) (window mss : ℤ) (wscale : Option ℤ)

/-- How many fields are what an entry wants. -/
def agreement (entry : Signature) : ℕ := (comparisons names window mss wscale entry).countP (·.2)

/-- How many are not. -/
def differing (entry : Signature) : ℕ := (comparisons names window mss wscale entry).countP (!·.2)

/-- One entry comes before another wherever they stand. -/
def Outdoes (entry other : Signature) : Prop :=
  agreement names window mss wscale other < agreement names window mss wscale entry ∨
    agreement names window mss wscale other = agreement names window mss wscale entry ∧
      differing names window mss wscale entry < differing names window mss wscale other

/-- The entry that a SYN is named after: two fields agree, no entry agrees better, and those before it
agree less. -/
def IsBest (entry : Signature) : Prop :=
  2 ≤ agreement names window mss wscale entry ∧
    ∃ before after, signatures = before ++ entry :: after ∧
      (∀ other ∈ before, Outdoes names window mss wscale entry other) ∧
        ∀ other ∈ after, ¬Outdoes names window mss wscale other entry

end

section

variable {names : List Text} {window mss : ℤ} {wscale : Option ℤ}

theorem compareEntry_eq_none {entry : Signature}
    (h : compareEntry names window mss wscale entry = none) :
    agreement names window mss wscale entry = 0 := by
  rw [compareEntry] at h
  split at h
  · assumption
  · cases h

theorem compareEntry_eq_some {entry : Signature} {m : SignatureMatch}
    (h : compareEntry names window mss wscale entry = some m) :
    m.family = entry.family ∧ m.agreement = agreement names window mss wscale entry ∧
      m.differingFields.length = differing names window mss wscale entry := by
  rw [compareEntry] at h
  split at h
  · cases h
  · cases h
    refine ⟨rfl, rfl, ?_⟩
    rw [List.length_map, differing, List.countP_eq_length_filter]

/-- The order of the matches is that of the entries. -/
theorem matchOrder_lt_iff {entry other : Signature} {m m' : SignatureMatch}
    (h : compareEntry names window mss wscale entry = some m)
    (h' : compareEntry names window mss wscale other = some m') :
    matchOrder m < matchOrder m' ↔ Outdoes names window mss wscale entry other := by
  obtain ⟨-, hagree, hdiffer⟩ := compareEntry_eq_some h
  obtain ⟨-, hagree', hdiffer'⟩ := compareEntry_eq_some h'
  rw [matchOrder, matchOrder, Prod.Lex.toLex_lt_toLex, hagree, hagree', hdiffer, hdiffer', neg_lt_neg_iff,
    neg_inj, Nat.cast_lt, Nat.cast_inj, eq_comm (a := agreement names window mss wscale entry)]
  rfl

/-- The best entry makes the first match, -/
theorem head?_of_isBest {entry : Signature} (h : IsBest names window mss wscale entry) :
    ∃ m, compareEntry names window mss wscale entry = some m ∧
      (matchSignature names window mss wscale).head? = some m := by
  obtain ⟨htwo, before, after, hsplit, hbefore, hafter⟩ := h
  cases hm : compareEntry names window mss wscale entry with
  | none => exact absurd (compareEntry_eq_none hm) (by omega)
  | some m =>
    refine ⟨m, rfl, ?_⟩
    rw [matchSignature, head?_sortOn_iff]
    refine ⟨before.filterMap (compareEntry names window mss wscale),
      after.filterMap (compareEntry names window mss wscale), ?_, ?_, ?_⟩
    · rw [hsplit, List.filterMap_append, List.filterMap_cons_some hm]
    · intro m' hm'
      obtain ⟨other, hother, hm'⟩ := List.mem_filterMap.mp hm'
      exact (matchOrder_lt_iff hm hm').mpr (hbefore other hother)
    · intro m' hm'
      obtain ⟨other, hother, hm'⟩ := List.mem_filterMap.mp hm'
      exact not_lt.mp (mt (matchOrder_lt_iff hm' hm).mp (hafter other hother))

/-- and a first match with two agreeing fields is that of the best entry. -/
theorem exists_isBest {m : SignatureMatch}
    (hhead : (matchSignature names window mss wscale).head? = some m) (htwo : 2 ≤ m.agreement) :
    ∃ entry, IsBest names window mss wscale entry ∧
      compareEntry names window mss wscale entry = some m := by
  rw [matchSignature, head?_sortOn_iff] at hhead
  obtain ⟨earlier, later, hsplit, hearlier, hlater⟩ := hhead
  obtain ⟨l, l', hsignatures, hl, hl'⟩ := List.filterMap_eq_append_iff.mp hsplit
  obtain ⟨skipped, entry, after, hl'_eq, hskipped, hentry, hafter⟩ := List.filterMap_eq_cons_iff.mp hl'
  have hagree := (compareEntry_eq_some hentry).2.1
  refine ⟨entry, ⟨hagree ▸ htwo, l ++ skipped, after, ?_, ?_, ?_⟩, hentry⟩
  · rw [hsignatures, hl'_eq, List.append_assoc]
  · intro other hother
    cases hm' : compareEntry names window mss wscale other with
    | none =>
      have hzero := compareEntry_eq_none hm'
      exact .inl (by omega)
    | some m' =>
      rcases List.mem_append.mp hother with hother | hother
      · refine (matchOrder_lt_iff hentry hm').mp (hearlier m' ?_)
        exact hl ▸ List.mem_filterMap.mpr ⟨other, hother, hm'⟩
      · rw [hskipped other hother] at hm'
        cases hm'
  · intro other hother
    cases hm' : compareEntry names window mss wscale other with
    | none =>
      have hzero := compareEntry_eq_none hm'
      rintro (hlt | ⟨heq, -⟩) <;> omega
    | some m' =>
      rw [← matchOrder_lt_iff hm' hentry, not_lt]
      exact hlater m' (hafter ▸ List.mem_filterMap.mpr ⟨other, hother, hm'⟩)

end

/-! ## The evidence -/

/-- The shift that an entry is compared with. -/
def shiftOf (p : DecodedPacket) : Option ℤ := presentScale (some p.wscale)

section

variable (side : Side) (p : DecodedPacket) (names : List Text)

/-- The entry that a captured SYN is named after, if any. -/
def NamedAfter (entry : Signature) : Prop := IsBest names p.window p.mss (shiftOf p) entry

/-- The first of the matches, if it is good enough to name a family. -/
def bestMatch : Option SignatureMatch :=
  (matchSignature names p.window p.mss (shiftOf p)).head?.filter (2 ≤ ·.agreement)

theorem family_eq : (stackEvidence side p names).family = (bestMatch p names).map (·.family) := by
  rw [bestMatch, shiftOf]
  cases hmatch : matchSignature names p.window p.mss (presentScale (some p.wscale)) with
  | nil => simp [stackEvidence, hmatch]
  | cons best rest =>
    by_cases htwo : 2 ≤ best.agreement <;> simp [stackEvidence, hmatch, htwo, Option.filter_some]

theorem confidence_iff : (stackEvidence side p names).confidence = "moderate" ↔
    ∃ best ∈ bestMatch p names, 3 ≤ best.agreement := by
  rw [bestMatch, shiftOf]
  cases hmatch : matchSignature names p.window p.mss (presentScale (some p.wscale)) with
  | nil => simp [stackEvidence, hmatch]
  | cons best rest =>
    by_cases htwo : 2 ≤ best.agreement
    · by_cases hthree : 3 ≤ best.agreement <;>
        simp [stackEvidence, hmatch, htwo, hthree, Option.filter_some]
    · simp [stackEvidence, hmatch, htwo, Option.filter_some]

/-- What is named is named after the best signature. -/
theorem exists_namedAfter {best : SignatureMatch} (h : bestMatch p names = some best) :
    ∃ entry, NamedAfter p names entry ∧ entry.family = best.family ∧
      agreement names p.window p.mss (shiftOf p) entry = best.agreement := by
  obtain ⟨hhead, htwo⟩ := Option.filter_eq_some_iff.mp h
  obtain ⟨entry, hbest, hentry⟩ := exists_isBest hhead (of_decide_eq_true htwo)
  obtain ⟨hfamily, hagree, -⟩ := compareEntry_eq_some hentry
  exact ⟨entry, hbest, hfamily.symm, hagree.symm⟩

theorem bestMatch_of_namedAfter {entry : Signature} (h : NamedAfter p names entry) :
    ∃ best, bestMatch p names = some best ∧ entry.family = best.family ∧
      agreement names p.window p.mss (shiftOf p) entry = best.agreement := by
  obtain ⟨best, hentry, hhead⟩ := head?_of_isBest h
  obtain ⟨hfamily, hagree, -⟩ := compareEntry_eq_some hentry
  refine ⟨best, Option.filter_eq_some_iff.mpr ⟨hhead, ?_⟩, hfamily.symm, hagree.symm⟩
  exact decide_eq_true (hagree ▸ h.1)

/-- A stack has the name of its best signature, -/
theorem family_iff {family : String} : (stackEvidence side p names).family = some family ↔
    ∃ entry, NamedAfter p names entry ∧ entry.family = family := by
  rw [family_eq, Option.map_eq_some_iff]
  constructor
  · rintro ⟨best, hbest, rfl⟩
    obtain ⟨entry, hentry, hfamily, -⟩ := exists_namedAfter p names hbest
    exact ⟨entry, hentry, hfamily⟩
  · rintro ⟨entry, hentry, rfl⟩
    obtain ⟨best, hbest, hfamily, -⟩ := bestMatch_of_namedAfter p names hentry
    exact ⟨best, hbest, hfamily.symm⟩

/-- and the answer is as sure as many of its fields agree. -/
theorem confidence_iff_agreement : (stackEvidence side p names).confidence = "moderate" ↔
    ∃ entry, NamedAfter p names entry ∧ 3 ≤ agreement names p.window p.mss (shiftOf p) entry := by
  rw [confidence_iff]
  constructor
  · rintro ⟨best, hbest, hthree⟩
    obtain ⟨entry, hentry, -, hagree⟩ := exists_namedAfter p names hbest
    exact ⟨entry, hentry, hagree ▸ hthree⟩
  · rintro ⟨entry, hentry, hthree⟩
    obtain ⟨best, hbest, -, hagree⟩ := bestMatch_of_namedAfter p names hentry
    exact ⟨best, hbest, hagree ▸ hthree⟩

end

/-! ## Three numbers -/

/-- How many of three numbers are those of an entry. -/
def alike (window mss : ℤ) (shift : Option ℤ) (window' mss' shift' : ℤ) : ℕ :=
  [decide (window = window'), decide (mss = mss'), decide (shift = some shift')].count true

/-- The family by window, MSS and shift. -/
def familyByShape (window mss : ℤ) (shift : Option ℤ) : Option String :=
  if window = 8192 ∧ mss = 8960 then some "Network appliance / middlebox"
  else if 2 ≤ alike window mss shift 64240 1460 7 then some "Linux 4.x/5.x/6.x"
  else if shift = some 6 ∧ (window = 65535 ∨ mss = 1460) then some "macOS / iOS"
  else if 2 ≤ alike window mss shift 65535 1460 8 then some "Windows 10/11"
  else none

/-- A value that no entry wants does as well as any other. -/
def standIn {β : Type} [DecidableEq β] (wanted : List β) (other x : β) : β := if x ∈ wanted then x else other

theorem standIn_mem {β : Type} [DecidableEq β] (wanted : List β) (other x : β) :
    standIn wanted other x ∈ other :: wanted := by
  rw [standIn]
  split
  · exact List.mem_cons_of_mem _ ‹_›
  · exact List.mem_cons_self

theorem eq_standIn {β : Type} [DecidableEq β] {wanted : List β} {other : β} (hother : other ∉ wanted)
    {y : β} (hy : y ∈ wanted) (x : β) : x = y ↔ standIn wanted other x = y := by
  rw [standIn]
  split
  · exact Iff.rfl
  · next hx => exact ⟨fun h => absurd (h ▸ hy) hx, fun h => absurd (h ▸ hy) hother⟩

def wantedWindows : List ℤ := [64240, 65535, 8192]

def wantedSizes : List ℤ := [1460, 8960]

def wantedShifts : List (Option ℤ) := [some 6, some 7, some 8]

/-- The shapes of which three numbers agree. -/
def wholeShapes : List (ℤ × ℤ × Option ℤ) :=
  [(64240, 1460, some 7), (65535, 1460, some 8), (65535, 1460, some 6)]

/-- A SYN without options, of the numbers that entries want and one other of each kind. -/
theorem shape_table : ∀ w ∈ 0 :: wantedWindows, ∀ m ∈ 0 :: wantedSizes, ∀ s ∈ none :: wantedShifts,
    ((matchSignature [] w m s).head?.filter (2 ≤ ·.agreement)).map (·.family) = familyByShape w m s ∧
      ((∃ best ∈ (matchSignature [] w m s).head?.filter (2 ≤ ·.agreement), 3 ≤ best.agreement) ↔
        (w, m, s) ∈ wholeShapes) := by
  decide +kernel

/-- What entries want is on the lists, and it is always options too. -/
theorem wanted_of_signature : ∀ entry ∈ signatures, entry.window ∈ wantedWindows ∧
    entry.mss ∈ wantedSizes ∧ (∀ shift ∈ entry.wscale, some shift ∈ wantedShifts) ∧
      offeredOptionSummary [] ≠ entry.expected := by
  decide +kernel

section

variable {names : List Text} (hnames : ∀ entry ∈ signatures, offeredOptionSummary names ≠ entry.expected)
  (window mss : ℤ) (shift : Option ℤ)

include hnames

/-- Options that match no entry, and numbers that no entry wants, are as good as any other. -/
theorem matchSignature_standIn (hshift : presentScale shift = shift) :
    matchSignature names window mss shift =
      matchSignature [] (standIn wantedWindows 0 window) (standIn wantedSizes 0 mss)
        (standIn wantedShifts none shift) := by
  have hkeep : presentScale (standIn wantedShifts none shift) = standIn wantedShifts none shift := by
    have hall : ∀ s ∈ none :: wantedShifts, presentScale s = s := by decide
    exact hall _ (standIn_mem _ _ _)
  rw [matchSignature, matchSignature]
  congr 1
  apply List.filterMap_congr
  intro entry hentry
  obtain ⟨hwindow, hmss, hwscale, hnone⟩ := wanted_of_signature entry hentry
  have hfields : comparisons names window mss shift entry =
      comparisons [] (standIn wantedWindows 0 window) (standIn wantedSizes 0 mss)
        (standIn wantedShifts none shift) entry := by
    rw [comparisons, comparisons, hshift, hkeep]
    have hwindows : (0 : ℤ) ∉ wantedWindows := by decide
    have hsizes : (0 : ℤ) ∉ wantedSizes := by decide
    simp only [hnames entry hentry, hnone, ← eq_standIn hwindows hwindow window, ← eq_standIn hsizes hmss mss]
    cases hscale : entry.wscale with
    | none => rfl
    | some wanted =>
      have hshifts : none ∉ wantedShifts := by decide
      simp only [← eq_standIn hshifts (hwscale wanted hscale) shift]
  rw [compareEntry, compareEntry, hfields]

/-- The table is that of every SYN whose options match no entry. -/
theorem bestMatch_of_shape (hshift : presentScale shift = shift) :
    ((matchSignature names window mss shift).head?.filter (2 ≤ ·.agreement)).map (·.family) =
        familyByShape window mss shift ∧
      ((∃ best ∈ (matchSignature names window mss shift).head?.filter (2 ≤ ·.agreement),
          3 ≤ best.agreement) ↔ (window, mss, shift) ∈ wholeShapes) := by
  have hwindow : ∀ w ∈ wantedWindows, window = w ↔ standIn wantedWindows 0 window = w :=
    fun w hw => eq_standIn (by decide) hw window
  have hmss : ∀ m ∈ wantedSizes, mss = m ↔ standIn wantedSizes 0 mss = m :=
    fun m hm => eq_standIn (by decide) hm mss
  have hwscale : ∀ s ∈ wantedShifts, shift = s ↔ standIn wantedShifts none shift = s :=
    fun s hs => eq_standIn (by decide) hs shift
  obtain ⟨hfamily, hwhole⟩ := shape_table _ (standIn_mem wantedWindows 0 window) _
    (standIn_mem wantedSizes 0 mss) _ (standIn_mem wantedShifts none shift)
  rw [matchSignature_standIn hnames window mss shift hshift, hfamily, hwhole]
  generalize standIn wantedWindows 0 window = w at hwindow ⊢
  generalize standIn wantedSizes 0 mss = m at hmss ⊢
  generalize standIn wantedShifts none shift = s at hwscale ⊢
  simp only [wantedWindows, wantedSizes, wantedShifts, List.forall_mem_cons] at hwindow hmss hwscale
  constructor
  · simp only [familyByShape, alike, hwindow, hmss, hwscale]
    congr
  · simp only [wholeShapes, List.mem_cons, Prod.mk.injEq, hwindow, hmss, hwscale, List.not_mem_nil]

end

/-! ## Options -/

def optionKind : TcpOption → UInt8
  | .nop => 1
  | .sized kind _ _ _ => kind

/-- A name of the table is the name of one kind. -/
theorem kind_of_optionName {kind : UInt8} (item : ℕ × String) (hitem : item ∈ optionNames)
    (h : optionName kind = item.2.toList) : kind.toNat = item.1 := by
  have htable : ∀ a ∈ optionNames, a.2.toList.take 1 ≠ ['k'] ∧
      ∀ b ∈ optionNames, a.2.toList = b.2.toList → a.1 = b.1 := by decide
  rw [optionName] at h
  cases hfind : optionNames.find? fun item => item.1 = kind.toNat with
  | some found =>
    rw [hfind] at h
    have hkind := List.find?_some hfind
    rw [← of_decide_eq_true hkind]
    exact (htable found (List.mem_of_find?_eq_some hfind)).2 item hitem h
  | none =>
    rw [hfind] at h
    exact absurd (congrArg (List.take 1) h).symm (htable item hitem).1

/-- An option that a sender writes is no end of the list. -/
theorem name_ne_eol (option : TcpOption) : option.name ≠ "eol".toList := by
  cases option with
  | nop => decide
  | sized kind data hkind hsize =>
    intro h
    have hzero := kind_of_optionName (0, "eol") (by decide) h
    exact absurd (UInt8.le_iff_toNat_le.mp hkind) (by rw [hzero]; decide)

theorem kind_of_sack {option : TcpOption} (h : option.name = "sack".toList) : optionKind option = 4 := by
  cases option with
  | nop => exact absurd h (by decide)
  | sized kind data hkind hsize =>
    exact UInt8.toNat_inj.mp (kind_of_optionName (4, "sack") (by decide) h)

theorem offered_names (options : List TcpOption) :
    offeredOptionSummary (options.map TcpOption.name) = options.map TcpOption.name := by
  rw [offeredOptionSummary, List.filter_eq_self]
  intro name hname
  obtain ⟨option, -, rfl⟩ := List.mem_map.mp hname
  simpa using name_ne_eol option

/-- Every signature wants SACK. -/
theorem options_differ {options : List TcpOption} (h : ∀ option ∈ options, optionKind option ≠ 4) :
    ∀ entry ∈ signatures, offeredOptionSummary (options.map TcpOption.name) ≠ entry.expected := by
  have hsack : ∀ entry ∈ signatures, "sack".toList ∈ entry.expected := by decide +kernel
  intro entry hentry heq
  have hmem := hsack entry hentry
  rw [← heq, offered_names] at hmem
  obtain ⟨option, hoption, hname⟩ := List.mem_map.mp hmem
  exact h option hoption (kind_of_sack hname)

/-! ## The two ends of a stream -/

/-- What the answer says of a stack, whose SYN carried some options. -/
structure Described (p : DecodedPacket) (options : List TcpOption) (e : StackEvidence) : Prop where
  frame : e.frame = p.frame
  order : e.optionOrder = options.map TcpOption.name
  named : ∀ family, e.family = some family ↔
    ∃ entry, NamedAfter p (options.map TcpOption.name) entry ∧ entry.family = family
  sure : e.confidence = "moderate" ↔ ∃ entry, NamedAfter p (options.map TcpOption.name) entry ∧
    3 ≤ agreement (options.map TcpOption.name) p.window p.mss (shiftOf p) entry

/-- What it says of a SYN that does not offer SACK. -/
structure NamedByShape (p : DecodedPacket) (e : StackEvidence) : Prop where
  family : e.family = familyByShape p.window p.mss (shiftOf p)
  sure : e.confidence = "moderate" ↔ (p.window, p.mss, shiftOf p) ∈ wholeShapes
  notBsd : e.family ≠ some "BSD"
  notUntimed : e.family ≠ some "Linux (timestamps disabled)"

/-- Whatever it is named, the answer shows what was captured. -/
theorem stackEvidence_shows (side : Side) (p : DecodedPacket) (names : List Text) :
    (stackEvidence side p names).frame = p.frame ∧
      (stackEvidence side p names).optionOrder = offeredOptionSummary names := by
  rw [stackEvidence]
  split
  · exact ⟨rfl, rfl⟩
  · split <;> exact ⟨rfl, rfl⟩

theorem described (side : Side) (p : DecodedPacket) (options : List TcpOption) :
    Described p options (stackEvidence side p (options.map TcpOption.name)) where
  frame := (stackEvidence_shows side p _).1
  order := (stackEvidence_shows side p _).2.trans (offered_names options)
  named _ := family_iff side p _
  sure := confidence_iff_agreement side p _

theorem presentScale_presentScale (wscale : Option ℤ) :
    presentScale (presentScale wscale) = presentScale wscale := by
  cases wscale with
  | none => rfl
  | some shift =>
    by_cases hshift : 0 ≤ shift <;> simp [presentScale, Option.filter_some, hshift]

theorem familyByShape_ne (window mss : ℤ) (shift : Option ℤ) :
    familyByShape window mss shift ≠ some "BSD" ∧
      familyByShape window mss shift ≠ some "Linux (timestamps disabled)" := by
  rw [familyByShape]
  split_ifs <;> decide

theorem namedByShape (side : Side) (p : DecodedPacket) {options : List TcpOption}
    (h : ∀ option ∈ options, optionKind option ≠ 4) :
    NamedByShape p (stackEvidence side p (options.map TcpOption.name)) := by
  obtain ⟨hfamily, hsure⟩ := bestMatch_of_shape (options_differ h) p.window p.mss (shiftOf p)
    (presentScale_presentScale _)
  have heq : (stackEvidence side p (options.map TcpOption.name)).family =
      familyByShape p.window p.mss (shiftOf p) := (family_eq side p _).trans hfamily
  obtain ⟨hbsd, huntimed⟩ := familyByShape_ne p.window p.mss (shiftOf p)
  exact ⟨heq, (confidence_iff side p _).trans hsure, heq ▸ hbsd, heq ▸ huntimed⟩

/-- A SYN as a sender writes it: the options it offers, and what follows the end of the list. -/
def Offers (p : DecodedPacket) (options : List TcpOption) : Prop :=
  ∃ tail, p.optionsRaw = hexText (options.flatMap TcpOption.bytes ++ padding tail)

/-- The SYN that an end of a stream is known by: the first SYN without ACK, and the first SYN with ACK
that does not come from the endpoint that orients the stream. -/
def synOf (first : DecodedPacket) (rest : List DecodedPacket) : Side → Option DecodedPacket
  | .client => (first :: rest).find? fun p => p.syn ∧ !p.ackFlag
  | .server =>
    let client := orientingRow first rest
    (first :: rest).find? fun p => p.syn ∧ p.ackFlag ∧ (p.src, p.sport) ≠ (client.src, client.sport)

/-- What the answer says of one end of a stream. -/
def ShownAs (syn : Option DecodedPacket) (view : StackView) : Prop :=
  (syn = none ∧ ∃ role note, view = .unobserved role note) ∨
    ∃ p e, syn = some p ∧ view = .observed e ∧ ∀ options, Offers p options → Described p options e ∧
      ((∀ option ∈ options, optionKind option ≠ 4) → NamedByShape p e)

/-- The packet that orients a stream is the SYN that its client is known by. -/
theorem clientSyn_orienting (first : DecodedPacket) (rest : List DecodedPacket) :
    clientSyn (first :: rest) ((orientingRow first rest).src, (orientingRow first rest).sport) =
      synOf first rest .client := by
  rw [clientSyn, synOf, orientingRow]
  cases hfind : (first :: rest).find? fun p => p.syn ∧ !p.ackFlag with
  | none =>
    rw [List.find?_eq_none] at hfind ⊢
    intro p hp h
    rw [decide_eq_true_iff] at h
    exact hfind p hp (decide_eq_true ⟨h.1, h.2.1⟩)
  | some p =>
    obtain ⟨hsyn, before, after, hsplit, hbefore⟩ := List.find?_eq_some_iff_append.mp hfind
    rw [decide_eq_true_iff] at hsyn
    rw [Option.getD_some, List.find?_eq_some_iff_append]
    refine ⟨decide_eq_true ⟨hsyn.1, hsyn.2, rfl⟩, before, after, hsplit, fun q hq => ?_⟩
    have hother := hbefore q hq
    rw [Bool.not_eq_true', decide_eq_false_iff_not] at hother ⊢
    exact fun h => hother ⟨h.1, h.2.1⟩

theorem stackView_shown (side : Side) {syn : Option DecodedPacket}
    (hsyn : ∀ p ∈ syn, ∃ options, Offers p options) :
    ∃ view, stackView side syn = .ok view ∧ ShownAs syn view := by
  cases syn with
  | none => exact ⟨_, rfl, .inl ⟨rfl, _, _, rfl⟩⟩
  | some p =>
    obtain ⟨options, tail, hraw⟩ := hsyn p rfl
    have hparse : parseOptions p.optionsRaw = .ok (options.map TcpOption.name) :=
      hraw ▸ parseOptions_inverts.1 options tail
    refine ⟨_, by rw [stackView, hparse]; rfl, .inr ⟨p, _, rfl, rfl, ?_⟩⟩
    rintro options' ⟨tail', hraw'⟩
    have hparse' := parseOptions_inverts.1 options' tail'
    rw [← hraw', hparse] at hparse'
    rw [Except.ok.inj hparse']
    exact ⟨described side p options', namedByShape side p⟩

/-- The entry of a stream is what is said of its two ends. -/
theorem exists_matchRow {first : DecodedPacket} {rest : List DecodedPacket} {said : Side → StackView → Prop}
    (h : ∀ side, ∃ view, stackView side (synOf first rest side) = .ok view ∧ said side view) :
    ∃ row, matchRow first rest = .ok row ∧ row.id = first.stream ∧ ∀ side, said side (row.view side) := by
  obtain ⟨client, hclient, hsaid⟩ := h .client
  obtain ⟨server, hserver, hsaid'⟩ := h .server
  refine ⟨⟨first.stream, client, server, (orientingRow first rest).dport⟩, ?_, rfl, fun side => ?_⟩
  · rw [synOf] at hserver
    rw [matchRow, fingerprintEndpoint, clientSyn_orienting, hclient, serverSyn, hserver]
    rfl
  · cases side
    · exact hsaid
    · exact hsaid'

theorem mem_of_synOf {first : DecodedPacket} {rest : List DecodedPacket} {side : Side} {p : DecodedPacket}
    (h : synOf first rest side = some p) : p ∈ first :: rest ∧ p.syn := by
  cases side <;>
  · rw [synOf] at h
    have hsyn := List.find?_some h
    exact ⟨List.mem_of_find?_eq_some h, (of_decide_eq_true hsyn).1⟩

/-- THE NAMED STACKS. In every stream whose SYNs carry options as a sender writes them, the client's
stack is described from the first SYN without ACK and the server's from the first SYN with ACK of another
endpoint, whenever there is one. The description lists the options in their order and is named after the
best signature: at least two fields agree, none agrees better, and no earlier one as well; it is sure of
itself exactly when three agree. The stack of a SYN that does not offer SACK, the option of kind 4, is named
by window, MSS and shift alone, and never BSD or Linux without timestamps. -/
theorem stacks_named (first : DecodedPacket) (rest : List DecodedPacket)
    (hsent : ∀ p ∈ first :: rest, p.syn → ∃ options, Offers p options) :
    ∃ row, matchRow first rest = .ok row ∧ row.id = first.stream ∧
      ∀ side, ShownAs (synOf first rest side) (row.view side) := by
  exact exists_matchRow fun side => stackView_shown side fun p hp =>
    hsent p (mem_of_synOf hp).1 (mem_of_synOf hp).2

/-- What FreeBSD offers: MSS, NOP, window scale, SACK, timestamps. -/
def freebsdOptions : List TcpOption :=
  [.sized 2 [5, 180] (by decide) (by decide), .nop, .sized 3 [6] (by decide) (by decide),
    .sized 4 [] (by decide) (by decide), .sized 8 [0, 0, 0, 1, 0, 0, 0, 0] (by decide) (by decide)]

/-- The same without SACK and timestamps. -/
def plainOptions : List TcpOption := freebsdOptions.take 3

def freebsdSyn : DecodedPacket :=
  { decodedPacket (fun _ => []) 0 with
    frame := 1
    sport := 40000
    dport := 443
    syn := true
    window := 65535
    mss := 1460
    wscale := 6
    optionsRaw := hexText (freebsdOptions.flatMap TcpOption.bytes ++ padding none) }

def plainSynAck : DecodedPacket :=
  { freebsdSyn with
    frame := 2
    sport := 443
    dport := 40000
    ackFlag := true
    optionsRaw := hexText (plainOptions.flatMap TcpOption.bytes ++ padding none) }

/-- The law at work: a SYN of FreeBSD is named so. The answer to it has the same three numbers and does not
offer SACK: it is named after the earlier signature of those numbers. -/
theorem stacks_named_freebsd :
    (matchRow freebsdSyn [plainSynAck]).toOption.map (fun row => (row.client.family, row.server.family)) =
        some (some "BSD", some "macOS / iOS") ∧
      ∃ row, matchRow freebsdSyn [plainSynAck] = .ok row ∧ row.id = freebsdSyn.stream ∧
        ∀ side, ShownAs (synOf freebsdSyn [plainSynAck] side) (row.view side) := by
  refine ⟨by decide +kernel, stacks_named freebsdSyn [plainSynAck] fun p hp _ => ?_⟩
  rcases List.mem_cons.mp hp with rfl | hp
  · exact ⟨freebsdOptions, none, rfl⟩
  · obtain rfl := List.mem_singleton.mp hp
    exact ⟨plainOptions, none, rfl⟩

end PacketTrain.Decode
