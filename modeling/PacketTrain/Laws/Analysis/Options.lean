import Mathlib.Logic.Relation
import PacketTrain.Analysis.Fingerprint

/-!
# Options decoded

What stands at a position of the option bytes is one of three things: an option with its end, an
option whose length byte is wrong, or nothing more to read (`Stands`, `stands_unique`). The loop
follows the options from end to end, so it names each option that a sender wrote and says of hostile
bytes exactly where a length was wrong (`parseOptions_inverts`).
-/

namespace PacketTrain.Analysis

open Lines Hex Relation

/-! ## Options as they are sent -/

/-- An option of a sender: a NOP, or a kind and its data. -/
inductive TcpOption
  | nop
  | sized (kind : UInt8) (data : Bytes) (hkind : 2 ≤ kind) (hsize : data.length ≤ 253)

/-- The bytes of an option. The length byte counts the kind and itself. -/
def TcpOption.bytes : TcpOption → Bytes
  | .nop => [1]
  | .sized kind data _ _ => kind :: UInt8.ofNat (data.length + 2) :: data

def TcpOption.name : TcpOption → Text
  | .nop => "nop".toList
  | .sized kind _ _ _ => optionName kind

/-- What may follow the options: an end-of-list byte and any padding. -/
def padding : Option Bytes → Bytes
  | none => []
  | some rest => 0 :: rest

/-! ## What stands at a position -/

inductive Found
  | option (next : ℕ) (name : Text)
  | malformed (kind : UInt8)
  | finished

/-- What a reader finds at a position of the bytes. -/
inductive Stands (data : Bytes) (index : ℕ) : Found → Prop
  | nop : data[index]? = some 1 → Stands data index (.option (index + 1) "nop".toList)
  | sized (kind length : UInt8) : data[index]? = some kind → 2 ≤ kind →
      data[index + 1]? = some length → 2 ≤ length → index + length.toNat ≤ data.length →
      Stands data index (.option (index + length.toNat) (optionName kind))
  | malformed (kind length : UInt8) : data[index]? = some kind → 2 ≤ kind →
      data[index + 1]? = some length → (length < 2 ∨ data.length < index + length.toNat) →
      Stands data index (.malformed kind)
  | past : data[index]? = none → Stands data index .finished
  | endOfList : data[index]? = some 0 → Stands data index .finished
  | lengthless (kind : UInt8) : data[index]? = some kind → 2 ≤ kind → data[index + 1]? = none →
      Stands data index .finished

/-- A whole option stands between two positions. -/
def Spans (data : Bytes) (i j : ℕ) : Prop := ∃ name, Stands data i (.option j name)

/-- The walk reaches a position: from the first byte, over whole options. -/
def WalkReaches (data : Bytes) (index : ℕ) : Prop := ReflTransGen (Spans data) 0 index

theorem kind_cases (kind : UInt8) : kind = 0 ∨ kind = 1 ∨ 2 ≤ kind := by
  simp only [UInt8.le_iff_toNat_le, ← UInt8.toNat_inj, UInt8.reduceToNat]
  omega

theorem exists_stands (data : Bytes) (index : ℕ) : ∃ found, Stands data index found := by
  cases hkind : data[index]? with
  | none => exact ⟨_, .past hkind⟩
  | some kind =>
    rcases kind_cases kind with rfl | rfl | hsized
    · exact ⟨_, .endOfList hkind⟩
    · exact ⟨_, .nop hkind⟩
    cases hlength : data[index + 1]? with
    | none => exact ⟨_, .lengthless kind hkind hsized hlength⟩
    | some length =>
      by_cases hbad : length < 2 ∨ data.length < index + length.toNat
      · exact ⟨_, .malformed kind length hkind hsized hlength hbad⟩
      · rw [not_or, UInt8.not_lt, Nat.not_lt] at hbad
        exact ⟨_, .sized kind length hkind hsized hlength hbad.1 hbad.2⟩

/-- One thing stands at a position. -/
theorem stands_unique {data : Bytes} {index : ℕ} {a b : Found} (ha : Stands data index a)
    (hb : Stands data index b) : a = b := by
  -- two of the six cases either read the same bytes or differ in a byte or a bound
  cases ha <;> cases hb <;> grind

/-! ## The loop -/

theorem octetAt_eq {data : Bytes} {index : ℕ} {b : UInt8} (h : data[index]? = some b) :
    octetAt data index = .ok b := by
  rw [octetAt, h]

theorem lt_of_octet {data : Bytes} {index : ℕ} {b : UInt8} (h : data[index]? = some b) :
    index < data.length := (List.getElem?_eq_some_iff.mp h).1

theorem ne_of_sized {kind : UInt8} (h : 2 ≤ kind) : kind ≠ 0 ∧ kind ≠ 1 := by
  constructor <;> rintro rfl <;> exact absurd h (by decide)

/-- The loop at an option goes to the option's end, with less fuel to need. -/
theorem optionLoop_option {data : Bytes} {fuel index next : ℕ} {name : Text} (names : List Text)
    (h : Stands data index (.option next name)) (hfuel : data.length ≤ fuel + index) :
    ∃ fuel', data.length ≤ fuel' + next ∧ fuel' < fuel ∧
      optionLoop data fuel index names = optionLoop data fuel' next (names ++ [name]) := by
  cases h with
  | nop hkind =>
    have hlt := lt_of_octet hkind
    obtain ⟨fuel, rfl⟩ : ∃ n, fuel = n + 1 := ⟨fuel - 1, by omega⟩
    refine ⟨fuel, by omega, Nat.lt_succ_self _, ?_⟩
    rw [optionLoop, if_pos hlt, octetAt_eq hkind]
    rfl
  | sized kind length hkind hsized hlength hshort hlong =>
    have hlt := lt_of_octet hkind
    have hnext := lt_of_octet hlength
    have htwo : 2 ≤ length.toNat := UInt8.le_iff_toNat_le.mp hshort
    obtain ⟨fuel, rfl⟩ : ∃ n, fuel = n + 1 := ⟨fuel - 1, by omega⟩
    refine ⟨fuel, by omega, Nat.lt_succ_self _, ?_⟩
    have hgood : ¬(length < 2 ∨ data.length < index + length.toNat) := by
      rw [not_or, UInt8.not_lt, Nat.not_lt]
      exact ⟨hshort, hlong⟩
    rw [optionLoop, if_pos hlt, octetAt_eq hkind]
    show (if kind = 0 then _ else _) = _
    rw [if_neg (ne_of_sized hsized).1, if_neg (ne_of_sized hsized).2,
      if_neg (Nat.not_le.mpr hnext), octetAt_eq hlength]
    show (if length < 2 ∨ _ then _ else _) = _
    rw [if_neg hgood]

theorem optionLoop_malformed {data : Bytes} {fuel index : ℕ} {kind : UInt8} (names : List Text)
    (h : Stands data index (.malformed kind)) (hfuel : data.length ≤ fuel + index) :
    optionLoop data fuel index names = .ok (names ++ [malformedName kind]) := by
  cases h with
  | malformed _ length hkind hsized hlength hbad =>
    have hlt := lt_of_octet hkind
    have hnext := lt_of_octet hlength
    obtain ⟨fuel, rfl⟩ : ∃ n, fuel = n + 1 := ⟨fuel - 1, by omega⟩
    rw [optionLoop, if_pos hlt, octetAt_eq hkind]
    show (if kind = 0 then _ else _) = _
    rw [if_neg (ne_of_sized hsized).1, if_neg (ne_of_sized hsized).2,
      if_neg (Nat.not_le.mpr hnext), octetAt_eq hlength]
    show (if length < 2 ∨ _ then _ else _) = _
    rw [if_pos hbad]

theorem optionLoop_finished {data : Bytes} {fuel index : ℕ} (names : List Text)
    (h : Stands data index .finished) (hfuel : data.length ≤ fuel + index) :
    optionLoop data fuel index names = .ok names := by
  cases h with
  | past hpast =>
    rw [optionLoop.eq_def]
    exact if_neg (Nat.not_lt.mpr (List.getElem?_eq_none_iff.mp hpast))
  | endOfList hkind =>
    have hlt := lt_of_octet hkind
    obtain ⟨fuel, rfl⟩ : ∃ n, fuel = n + 1 := ⟨fuel - 1, by omega⟩
    rw [optionLoop, if_pos hlt, octetAt_eq hkind]
    rfl
  | lengthless kind hkind hsized hlength =>
    have hlt := lt_of_octet hkind
    obtain ⟨fuel, rfl⟩ : ∃ n, fuel = n + 1 := ⟨fuel - 1, by omega⟩
    rw [optionLoop, if_pos hlt, octetAt_eq hkind]
    show (if kind = 0 then _ else _) = _
    rw [if_neg (ne_of_sized hsized).1, if_neg (ne_of_sized hsized).2,
      if_pos (List.getElem?_eq_none_iff.mp hlength)]

/-- The parser on the digits of some bytes is its loop on the bytes. -/
theorem parseOptions_hexText (data : Bytes) :
    parseOptions (hexText data) = optionLoop data data.length 0 [] := by
  rw [parseOptions, fromhex_hexText]
  cases data with
  | nil => rfl
  | cons b data => exact if_neg (List.cons_ne_nil _ _)

/-! ## Options of a sender -/

theorem name_stands (option : TcpOption) (pre post : Bytes) :
    Stands (pre ++ (option.bytes ++ post)) pre.length
      (.option (pre.length + option.bytes.length) option.name) := by
  have hread : ∀ n,
      (pre ++ (option.bytes ++ post))[pre.length + n]? = (option.bytes ++ post)[n]? := by
    intro n
    rw [List.getElem?_append_right (Nat.le_add_right _ _), Nat.add_sub_cancel_left]
  cases option with
  | nop => exact .nop (hread 0)
  | sized kind data hkind hsize =>
    have hlength : (UInt8.ofNat (data.length + 2)).toNat = data.length + 2 := by
      rw [UInt8.toNat_ofNat', Nat.mod_eq_of_lt (by omega)]
    have hend : (TcpOption.sized kind data hkind hsize).bytes.length = data.length + 2 := rfl
    rw [hend, ← hlength]
    refine .sized kind _ (hread 0) hkind (hread 1) ?_ ?_
    · rw [UInt8.le_iff_toNat_le, hlength]
      exact Nat.le_add_left _ _
    · rw [hlength, List.length_append, List.length_append, hend]
      omega

/-- After the options, nothing more is read. -/
theorem padding_stands (pre : Bytes) (tail : Option Bytes) :
    Stands (pre ++ padding tail) pre.length .finished := by
  cases tail with
  | none =>
    refine .past ?_
    rw [padding, List.append_nil, List.getElem?_eq_none_iff]
  | some rest =>
    refine .endOfList ?_
    rw [padding, List.getElem?_append_right (Nat.le_refl _), Nat.sub_self]
    rfl

theorem optionLoop_bytes (pre : Bytes) (options : List TcpOption) (tail : Option Bytes) {fuel : ℕ}
    (names : List Text)
    (hfuel : (pre ++ (options.flatMap TcpOption.bytes ++ padding tail)).length ≤
      fuel + pre.length) :
    optionLoop (pre ++ (options.flatMap TcpOption.bytes ++ padding tail)) fuel pre.length names =
      .ok (names ++ options.map TcpOption.name) := by
  induction options generalizing pre fuel names with
  | nil =>
    rw [List.flatMap_nil, List.nil_append, List.map_nil, List.append_nil] at *
    exact optionLoop_finished names (padding_stands pre tail) hfuel
  | cons option options ih =>
    rw [List.flatMap_cons, List.append_assoc] at *
    have hstands := name_stands option pre (options.flatMap TcpOption.bytes ++ padding tail)
    obtain ⟨fuel', hfuel', -, hloop⟩ := optionLoop_option names hstands hfuel
    rw [← List.length_append, ← List.append_assoc] at hloop hfuel'
    rw [← List.append_assoc, hloop, ih _ _ hfuel', List.map_cons, List.append_assoc,
      List.singleton_append]

/-! ## Hostile bytes -/

theorem malformedName_inj {a b : UInt8} (h : malformedName a = malformedName b) : a = b := by
  have hdecimal := congrArg readInt (List.append_cancel_left h)
  rw [readInt_decimal, readInt_decimal, Option.some.injEq, Nat.cast_inj] at hdecimal
  exact UInt8.toNat_inj.mp hdecimal

/-- No option has a name that begins like a report. -/
theorem take_optionName (kind : UInt8) : (optionName kind).take 2 ≠ ['m', 'a'] := by
  have htable : ∀ item ∈ optionNames, item.2.toList.take 2 ≠ ['m', 'a'] := by decide
  rw [optionName]
  split
  · next item hitem => exact htable item (List.mem_of_find?_eq_some hitem)
  · exact fun h => absurd (List.head_eq_of_cons_eq h) (by decide)

theorem name_ne_malformed {data : Bytes} {index next : ℕ} {name : Text}
    (h : Stands data index (.option next name)) (kind : UInt8) : name ≠ malformedName kind := by
  intro heq
  have htake : name.take 2 = ['m', 'a'] := congrArg (List.take 2) heq
  cases h with
  | nop => exact absurd htake (by decide)
  | sized => exact take_optionName _ htake

/-- From any position the loop answers, and it reports a wrong length that lies ahead. -/
theorem optionLoop_reports {data : Bytes} {fuel : ℕ} : ∀ {index : ℕ} (names : List Text),
    data.length ≤ fuel + index → ∃ more, optionLoop data fuel index names = .ok (names ++ more) ∧
      ∀ kind, more.getLast? = some (malformedName kind) ↔
        ∃ j, ReflTransGen (Spans data) index j ∧ Stands data j (.malformed kind) := by
  induction fuel using Nat.strong_induction_on with
  | _ fuel ih =>
    intro index names hfuel
    obtain ⟨found, hfound⟩ := exists_stands data index
    cases found with
    | finished =>
      refine ⟨[], ?_, fun kind => ⟨fun h => (nomatch h), ?_⟩⟩
      · rw [optionLoop_finished names hfound hfuel, List.append_nil]
      · rintro ⟨j, hreach, hbad⟩
        rcases hreach.cases_head with rfl | ⟨next, ⟨name, hnext⟩, -⟩
        · cases stands_unique hfound hbad
        · cases stands_unique hfound hnext
    | malformed here =>
      refine ⟨[malformedName here], optionLoop_malformed names hfound hfuel, fun kind => ?_⟩
      constructor
      · intro h
        obtain rfl := malformedName_inj (Option.some.inj h)
        exact ⟨index, .refl, hfound⟩
      · rintro ⟨j, hreach, hbad⟩
        rcases hreach.cases_head with rfl | ⟨next, ⟨name, hnext⟩, -⟩
        · cases stands_unique hfound hbad
          rfl
        · cases stands_unique hfound hnext
    | option next name =>
      obtain ⟨fuel', hfuel', hlt, hloop⟩ := optionLoop_option names hfound hfuel
      obtain ⟨more, hmore, hlast⟩ := ih fuel' hlt (names ++ [name]) hfuel'
      refine ⟨name :: more, ?_, fun kind => ?_⟩
      · rw [hloop, hmore, List.append_assoc, List.singleton_append]
      · -- the option's own name reports nothing, so a report is one of the rest
        have hrest : (name :: more).getLast? = some (malformedName kind) ↔
            more.getLast? = some (malformedName kind) := by
          rw [List.getLast?_cons]
          cases more.getLast? with
          | none => simpa using name_ne_malformed hfound kind
          | some last => rfl
        rw [hrest, hlast]
        constructor
        · rintro ⟨j, hreach, hbad⟩
          exact ⟨j, .head ⟨name, hfound⟩ hreach, hbad⟩
        · rintro ⟨j, hreach, hbad⟩
          rcases hreach.cases_head with rfl | ⟨next', ⟨name', hnext⟩, hreach⟩
          · cases stands_unique hfound hbad
          · cases stands_unique hfound hnext
            exact ⟨j, hreach, hbad⟩

/-- The options of a sender come back by name, whatever follows an end-of-list byte. Any bytes at
all have an answer, whose last name reports a kind exactly when the walk over whole options comes to
one of that kind with a length byte below two or past the end. -/
theorem parseOptions_inverts :
    (∀ (options : List TcpOption) (tail : Option Bytes),
      parseOptions (hexText (options.flatMap TcpOption.bytes ++ padding tail)) =
        .ok (options.map TcpOption.name)) ∧
      ∀ data : Bytes, ∃ names, parseOptions (hexText data) = .ok names ∧
        ∀ kind, names.getLast? = some (malformedName kind) ↔
          ∃ index, WalkReaches data index ∧ Stands data index (.malformed kind) := by
  constructor
  · intro options tail
    rw [parseOptions_hexText]
    exact optionLoop_bytes [] options tail [] (Nat.le_refl _)
  · intro data
    rw [parseOptions_hexText]
    exact optionLoop_reports [] (Nat.le_refl _)

end PacketTrain.Analysis
