import PacketTrain.Laws.Analysis.Verdicts

/-!
# Two clocks

Where `_classify` asks whether a duplicate ACK came between a repeat and its original, the three times
are not of one clock: those of the segments count from the first payload of the direction, that of the
ACK from the first packet of the stream. So each duplicate ACK is taken to come later by the time between
these two (`judgedOnOneClock_iff`, and `judgedOnOneClock_iff_of_micro` for times of whole microseconds), and
a packet in front of the stream changes that time (`frontsHarmless_iff`).
-/

namespace PacketTrain.Analysis

/-! ## Verdicts by the capture times -/

/-- When the duplicate ACKs were captured. -/
def dupAckTimes (group : List FlowPacket) : List ℚ := (group.filter (·.dupAck)).filterMap (·.ts)

/-- A time is between the capture times of two packets, or is one of them. -/
def Between (original p : FlowPacket) (t : ℚ) : Prop :=
  (∃ start ∈ original.ts, start ≤ t) ∧ ∃ stop ∈ p.ts, t ≤ stop

/-- The same to the microsecond, where the microseconds are counted from a base. -/
def BetweenFrom (base : ℚ) (original p : FlowPacket) (t : ℚ) : Prop :=
  (∃ start ∈ original.ts, roundTo 3 ((start - base) * 1000) ≤ roundTo 3 ((t - base) * 1000)) ∧
    ∃ stop ∈ p.ts, roundTo 3 ((t - base) * 1000) ≤ roundTo 3 ((stop - base) * 1000)

instance (original p : FlowPacket) : DecidablePred (Between original p) := fun _ =>
  inferInstanceAs (Decidable (_ ∧ _))

instance (base : ℚ) (original p : FlowPacket) : DecidablePred (BetweenFrom base original p) := fun _ =>
  inferInstanceAs (Decidable (_ ∧ _))

/-- The clock of the segments: milliseconds since the first payload of their side. -/
def sideClockMs (group : List FlowPacket) (side : Side) (p : FlowPacket) : Option ℚ :=
  sinceOrigin (origin (payloadOf group side)) p.ts

/-- One packet was captured at most `REORDER_WINDOW_MS` after another. -/
def SoonAfter (original p : FlowPacket) : Prop :=
  ∃ start ∈ original.ts, ∃ stop ∈ p.ts, start ≤ stop ∧ (stop - start) * 1000 ≤ reorderWindowMs

instance (original p : FlowPacket) : Decidable (SoonAfter original p) :=
  inferInstanceAs (Decidable (∃ start ∈ original.ts, _))

/-- The same to the microsecond, counted from the first payload of the side. -/
def SoonToMicros (group : List FlowPacket) (side : Side) (original p : FlowPacket) : Prop :=
  ∃ start ∈ sideClockMs group side original, ∃ stop ∈ sideClockMs group side p,
    0 ≤ stop - start ∧ stop - start ≤ reorderWindowMs

/-- A repeat that follows its original soon is called a retransmission exactly when a duplicate ACK was
captured between the two, and reordering when none was. -/
def JudgedOnOneClock (group : List FlowPacket) : Prop :=
  ∀ side, ∀ a ∈ repeated group side, ∀ original ∈ originalOf group side a.2, SoonAfter original a.2 →
    ((listedRepeat group side a).verdict = .retransmission ↔
      ∃ t ∈ dupAckTimes group, Between original a.2 t) ∧
    ((¬ ∃ t ∈ dupAckTimes group, Between original a.2 t) →
      (listedRepeat group side a).verdict = .reordering)

/-- Packets that come before a stream and carry no payload of a side: its handshake, and what the other
side sent. -/
structure Front (group : List FlowPacket) (side : Side) (front : List FlowPacket) : Prop where
  stamped : Stamped front
  ordered : front.Pairwise fun p q => ∃ t ∈ p.ts, ∃ u ∈ q.ts, t ≤ u
  earlier : ∀ p ∈ front, ∀ t ∈ p.ts, ∀ q ∈ group, ∀ u ∈ q.ts, t ≤ u
  control : payloadOf front side = []

/-- Earlier control packets in front of the stream change no verdict. -/
def FrontsHarmless (group : List FlowPacket) : Prop :=
  ∀ side front, Front group side front →
    (judged (front ++ group) side).map ListedRepeat.verdict =
      (judged group side).map ListedRepeat.verdict

/-! ## The delay of the first payload -/

/-- What a delay of the duplicate ACKs does not matter to: one that is between the two packets stays there;
or one leaves exactly when one comes. -/
def Unmoved (group : List FlowPacket) (base delay : ℚ) (original p : FlowPacket) : Prop :=
  (∃ t ∈ dupAckTimes group, Between original p t ∧ BetweenFrom base original p (t + delay)) ∨
    ((∃ t ∈ dupAckTimes group, Between original p t ∧ ¬ BetweenFrom base original p (t + delay)) ↔
      ∃ t ∈ dupAckTimes group, ¬ Between original p t ∧ BetweenFrom base original p (t + delay))

/-- At no soon repeat does it matter by how much the first payload of its side follows the first packet of
the stream. -/
def DelayHarmless (group : List FlowPacket) : Prop :=
  ∀ side, ∀ a ∈ repeated group side, ∀ original ∈ originalOf group side a.2, SoonAfter original a.2 →
    ∀ first ∈ origin group, ∀ payload ∈ origin (payloadOf group side),
      Unmoved group payload (payload - first) original a.2

theorem unmoved_iff {group : List FlowPacket} {base delay : ℚ} {original p : FlowPacket} :
    Unmoved group base delay original p ↔
      ((∃ t ∈ dupAckTimes group, BetweenFrom base original p (t + delay)) ↔
        ∃ t ∈ dupAckTimes group, Between original p t) := by
  constructor
  · rintro (⟨t, ht, hbetween, hdelayed⟩ | hmoved)
    · exact iff_of_true ⟨t, ht, hdelayed⟩ ⟨t, ht, hbetween⟩
    · constructor
      · rintro ⟨t, ht, hdelayed⟩
        by_cases hbetween : Between original p t
        · exact ⟨t, ht, hbetween⟩
        · obtain ⟨u, hu, hleft, -⟩ := hmoved.mpr ⟨t, ht, hbetween, hdelayed⟩
          exact ⟨u, hu, hleft⟩
      · rintro ⟨t, ht, hbetween⟩
        by_cases hdelayed : BetweenFrom base original p (t + delay)
        · exact ⟨t, ht, hdelayed⟩
        · obtain ⟨u, hu, -, hcame⟩ := hmoved.mp ⟨t, ht, hbetween, hdelayed⟩
          exact ⟨u, hu, hcame⟩
  · intro hsame
    rw [Unmoved, or_iff_not_imp_left]
    intro hnone
    constructor
    · rintro ⟨t, ht, hbetween, -⟩
      obtain ⟨u, hu, hcame⟩ := hsame.mpr ⟨t, ht, hbetween⟩
      exact ⟨u, hu, fun hstays => hnone ⟨u, hu, hstays, hcame⟩, hcame⟩
    · rintro ⟨t, ht, -, hdelayed⟩
      obtain ⟨u, hu, hleft⟩ := hsame.mp ⟨t, ht, hdelayed⟩
      exact ⟨u, hu, hleft, fun hstays => hnone ⟨u, hu, hleft, hstays⟩⟩

/-- Rounding keeps a time within the reorder window in it. -/
theorem roundTo_gap_le {start stop origin : ℚ} (h : (stop - start) * 1000 ≤ reorderWindowMs) :
    roundTo 3 ((stop - origin) * 1000) - roundTo 3 ((start - origin) * 1000) ≤ reorderWindowMs := by
  have hle : (stop - origin) * 1000 ≤ (start - origin) * 1000 + reorderWindowMs := by linarith
  have hround := roundTo_mono 3 hle
  have hwindow : roundTo 3 ((start - origin) * 1000 + reorderWindowMs) =
      roundTo 3 ((start - origin) * 1000) + reorderWindowMs := by
    have hmicros : ((start - origin) * 1000 + reorderWindowMs) * 10 ^ 3 =
        (start - origin) * 1000 * 10 ^ 3 + ((200000 : ℤ) : ℚ) := by
      rw [reorderWindowMs]
      push_cast
      ring
    rw [roundTo, roundTo, hmicros, halfEven_add_even _ (by decide), reorderWindowMs]
    push_cast
    ring
  linarith

/-- There is a duplicate ACK, by the clock of the stream, exactly when there is one at such a time. -/
theorem duplicateAcks_eq_zero_iff {group : List FlowPacket} {first start stop : ℚ}
    (hfirst : origin group = some first) :
    duplicateAcks group start stop = 0 ↔ ¬ ∃ t ∈ dupAckTimes group,
      start ≤ roundTo 3 ((t - first) * 1000) ∧ roundTo 3 ((t - first) * 1000) ≤ stop := by
  have hclocked : ∀ p : FlowPacket, (∃ t ∈ sinceOrigin (origin group) p.ts, start ≤ t ∧ t ≤ stop) ↔
      ∃ t ∈ p.ts, start ≤ roundTo 3 ((t - first) * 1000) ∧ roundTo 3 ((t - first) * 1000) ≤ stop := by
    intro p
    rw [hfirst]
    cases p.ts <;> simp [sinceOrigin]
  rw [duplicateAcks, List.countP_eq_zero]
  simp only [dupAckTimes, List.mem_filterMap, List.mem_filter, decide_eq_true_eq, hclocked]
  constructor
  · rintro hnone ⟨t, ⟨p, ⟨hp, hdup⟩, hts⟩, hbetween⟩
    exact hnone p hp ⟨hdup, t, hts, hbetween⟩
  · rintro hnone p hp ⟨hdup, t, hts, hbetween⟩
    exact hnone ⟨t, ⟨p, ⟨hp, hdup⟩, hts⟩, hbetween⟩

/-- The original of a repeat is a payload packet of its side. -/
theorem mem_payloadOf_of_originalOf {group : List FlowPacket} {side : Side} {p original : FlowPacket}
    (h : original ∈ originalOf group side p) : original ∈ payloadOf group side := by
  have hfirst := List.mem_of_mem_filter (List.argmax_mem h)
  obtain ⟨a, ha, rfl⟩ := List.mem_map.mp hfirst
  exact (mem_of_mem_arrivals (List.mem_of_mem_filter ha)).1

/-- The clock of a side counts from some time where a payload packet has one. -/
theorem exists_origin {group : List FlowPacket} {p : FlowPacket} {ts : ℚ} (hp : p ∈ group)
    (hts : p.ts = some ts) : ∃ first, origin group = some first ∧ first ≤ ts := by
  have hmem : ts ∈ captureTimes group := List.mem_filterMap.mpr ⟨p, hp, hts⟩
  have hsome : origin group ≠ none := mt List.min?_eq_none_iff.mp (List.ne_nil_of_mem hmem)
  obtain ⟨first, hfirst⟩ := Option.ne_none_iff_exists'.mp hsome
  exact ⟨first, hfirst, (List.min?_eq_some_iff.mp hfirst).2 ts hmem⟩

/-! ## The verdict on a soon repeat -/

/-- The verdict on a repeat that follows its original soon, to the microsecond. -/
theorem verdict_of_soon {group : List FlowPacket} {side : Side} {a : List FlowPacket × FlowPacket}
    {original : FlowPacket} {start stop : ℚ} (horiginal : original ∈ originalOf group side a.2)
    (hstart : sideClockMs group side original = some start)
    (hstop : sideClockMs group side a.2 = some stop) (hgap : 0 ≤ stop - start)
    (hwindow : stop - start ≤ reorderWindowMs) :
    (listedRepeat group side a).verdict =
      if duplicateAcks group start stop = 0 then .reordering else .retransmission := by
  have hfrom : (segmentOf group side original).timeMs = some start := hstart
  have hto : ∀ bytes, (repeatWith group side a bytes).timeMs = some stop := fun _ => hstop
  rw [listedRepeat]
  dsimp only
  rw [classify, argmax_firsts, Option.mem_def.mp horiginal, Option.map_some]
  simp only [hfrom, hto]
  rw [if_neg (not_lt.mpr hgap), apply_ite Prod.fst]
  simp only [hwindow, true_and]

/-- What the verdict on a soon repeat depends on: the duplicate ACKs, each taken to come later by as much
as the first payload of the side follows the first packet of the stream. -/
theorem verdict_of_soonAfter {group : List FlowPacket} {side : Side}
    {a : List FlowPacket × FlowPacket} {original : FlowPacket} {first payload : ℚ}
    (horiginal : original ∈ originalOf group side a.2) (hsoon : SoonAfter original a.2)
    (hfirst : origin group = some first) (hpayload : origin (payloadOf group side) = some payload) :
    ((listedRepeat group side a).verdict = .retransmission ↔
      ∃ t ∈ dupAckTimes group, BetweenFrom payload original a.2 (t + (payload - first))) ∧
    ((listedRepeat group side a).verdict = .reordering ↔
      ¬ ∃ t ∈ dupAckTimes group, BetweenFrom payload original a.2 (t + (payload - first))) := by
  obtain ⟨start, hstart, stop, hstop, hle, hwindow⟩ := hsoon
  rw [Option.mem_def] at hstart hstop
  have hclock : ∀ {q : FlowPacket} {t}, q.ts = some t →
      sideClockMs group side q = some (roundTo 3 ((t - payload) * 1000)) := by
    intro q t ht
    rw [sideClockMs, hpayload, ht]
    rfl
  have hgap : 0 ≤ roundTo 3 ((stop - payload) * 1000) - roundTo 3 ((start - payload) * 1000) :=
    sub_nonneg.mpr (roundTo_mono 3 (by linarith))
  have hshift : ∀ t : ℚ, t + (payload - first) - payload = t - first := fun t => by ring
  rw [verdict_of_soon horiginal (hclock hstart) (hclock hstop) hgap (roundTo_gap_le hwindow)]
  simp only [BetweenFrom, hstart, hstop, Option.mem_some_iff, exists_eq_left', hshift]
  have hnone := @duplicateAcks_eq_zero_iff group first (roundTo 3 ((start - payload) * 1000))
    (roundTo 3 ((stop - payload) * 1000)) hfirst
  by_cases hacks : duplicateAcks group (roundTo 3 ((start - payload) * 1000))
      (roundTo 3 ((stop - payload) * 1000)) = 0
  · rw [if_pos hacks]
    exact ⟨iff_of_false (fun h => nomatch h) (hnone.mp hacks), iff_of_true rfl (hnone.mp hacks)⟩
  · rw [if_neg hacks]
    have hsome := not_not.mp (mt hnone.mpr hacks)
    exact ⟨iff_of_true rfl hsome, iff_of_false (fun h => nomatch h) (not_not.mpr hsome)⟩

/-- ONE CLOCK: the verdicts on soon repeats are decided by the capture times exactly when the delay of the
first payload does not matter to them. -/
theorem judgedOnOneClock_iff (group : List FlowPacket) :
    JudgedOnOneClock group ↔ DelayHarmless group := by
  have hverdict : ∀ {side} {a : List FlowPacket × FlowPacket} {original},
      original ∈ originalOf group side a.2 → SoonAfter original a.2 →
      ∃ first ∈ origin group, ∃ payload ∈ origin (payloadOf group side),
        ((listedRepeat group side a).verdict = .retransmission ↔
          ∃ t ∈ dupAckTimes group, BetweenFrom payload original a.2 (t + (payload - first))) ∧
        ((listedRepeat group side a).verdict = .reordering ↔
          ¬ ∃ t ∈ dupAckTimes group, BetweenFrom payload original a.2 (t + (payload - first))) := by
    intro side a original horiginal hsoon
    have hmem := mem_payloadOf_of_originalOf horiginal
    obtain ⟨start, hstart, -⟩ := id hsoon
    obtain ⟨first, hfirst, -⟩ := exists_origin (List.mem_of_mem_filter hmem) hstart
    obtain ⟨payload, hpayload, -⟩ := exists_origin hmem hstart
    exact ⟨first, hfirst, payload, hpayload, verdict_of_soonAfter horiginal hsoon hfirst hpayload⟩
  constructor
  · intro h side a ha original horiginal hsoon first hfirst payload hpayload
    obtain ⟨hretransmission, -⟩ := h side a ha original horiginal hsoon
    obtain ⟨hdelayed, -⟩ := verdict_of_soonAfter horiginal hsoon hfirst hpayload
    exact unmoved_iff.mpr (hdelayed.symm.trans hretransmission)
  · intro h side a ha original horiginal hsoon
    obtain ⟨first, hfirst, payload, hpayload, hretransmission, hreordering⟩ :=
      hverdict horiginal hsoon
    have hunmoved := unmoved_iff.mp (h side a ha original horiginal hsoon first hfirst payload hpayload)
    exact ⟨hretransmission.trans hunmoved, fun hnot => hreordering.mpr (mt hunmoved.mp hnot)⟩

/-- Times of whole microseconds. -/
def Micro (group : List FlowPacket) : Prop := ∀ p ∈ group, ∀ t ∈ p.ts, roundTo 6 t = t

instance : DecidablePred Micro := fun _ => inferInstanceAs (Decidable (∀ p ∈ _, _))

/-- The time between two whole microseconds is not rounded. -/
theorem roundTo_sub_micro {t base : ℚ} (ht : roundTo 6 t = t) (hbase : roundTo 6 base = base) :
    roundTo 3 ((t - base) * 1000) = (t - base) * 1000 := by
  obtain ⟨n, hn⟩ := roundTo_milli 6 t
  obtain ⟨m, hm⟩ := roundTo_milli 6 base
  have hmilli : (t - base) * 1000 = ((n - m : ℤ) : ℚ) / 10 ^ 3 := by
    rw [← ht, ← hbase, hn, hm]
    push_cast
    ring
  exact roundTo_of_milli hmilli

theorem roundTo_add_sub_micro {t u v : ℚ} (ht : roundTo 6 t = t) (hu : roundTo 6 u = u)
    (hv : roundTo 6 v = v) : roundTo 6 (t + (u - v)) = t + (u - v) := by
  obtain ⟨n, hn⟩ := roundTo_milli 6 t
  obtain ⟨m, hm⟩ := roundTo_milli 6 u
  obtain ⟨k, hk⟩ := roundTo_milli 6 v
  have hmicros : t + (u - v) = ((n + (m - k) : ℤ) : ℚ) / 10 ^ 6 := by
    rw [← ht, ← hu, ← hv, hn, hm, hk]
    push_cast
    ring
  exact roundTo_of_milli hmicros

theorem betweenFrom_iff_of_micro {group : List FlowPacket} (hmicro : Micro group) {base t : ℚ}
    {original p : FlowPacket} (horiginal : original ∈ group) (hp : p ∈ group)
    (hbase : roundTo 6 base = base) (ht : roundTo 6 t = t) :
    BetweenFrom base original p t ↔ Between original p t := by
  have hexact : ∀ {q : FlowPacket}, q ∈ group → ∀ u ∈ q.ts,
      roundTo 3 ((u - base) * 1000) = (u - base) * 1000 :=
    fun hq u hu => roundTo_sub_micro (hmicro _ hq u hu) hbase
  have hle : ∀ x y : ℚ, (x - base) * 1000 ≤ (y - base) * 1000 ↔ x ≤ y := fun x y => by
    rw [mul_le_mul_iff_left₀ (by norm_num), sub_le_sub_iff_right]
  rw [BetweenFrom, Between, roundTo_sub_micro ht hbase]
  refine and_congr (exists_congr fun u => and_congr_right fun hu => ?_)
    (exists_congr fun u => and_congr_right fun hu => ?_)
  · rw [hexact horiginal u hu, hle]
  · rw [hexact hp u hu, hle]

/-- Some duplicate ACK was captured from the start on and the delay or more before the stop; or one in the
last of the delay before the stop, exactly when one was in the delay before the start. -/
def TailsMatch (group : List FlowPacket) (delay start stop : ℚ) : Prop :=
  (∃ t ∈ dupAckTimes group, start ≤ t ∧ t ≤ stop - delay) ∨
    ((∃ t ∈ dupAckTimes group, start ≤ t ∧ stop - delay < t ∧ t ≤ stop) ↔
      ∃ t ∈ dupAckTimes group, start - delay ≤ t ∧ t < start ∧ t ≤ stop - delay)

instance (group : List FlowPacket) (delay start stop : ℚ) : Decidable (TailsMatch group delay start stop) :=
  inferInstanceAs (Decidable (_ ∨ _))

theorem unmoved_iff_of_micro {group : List FlowPacket} (hmicro : Micro group) {side : Side}
    {original p : FlowPacket} (horiginal : original ∈ payloadOf group side) (hp : p ∈ group)
    {start stop first payload : ℚ} (hstart : original.ts = some start) (hstop : p.ts = some stop)
    (hfirst : origin group = some first) (hpayload : origin (payloadOf group side) = some payload) :
    Unmoved group payload (payload - first) original p ↔
      TailsMatch group (payload - first) start stop := by
  obtain ⟨q, hq, hqts⟩ := List.mem_filterMap.mp (List.min?_eq_some_iff.mp hpayload).1
  obtain ⟨r, hr, hrts⟩ := List.mem_filterMap.mp (List.min?_eq_some_iff.mp hfirst).1
  have hqmem := List.mem_of_mem_filter hq
  have hbase := hmicro q hqmem payload hqts
  -- the first payload does not come before the first packet
  obtain ⟨first', hfirst', hle⟩ := exists_origin hqmem hqts
  obtain rfl : first = first' := Option.some.inj (hfirst.symm.trans hfirst')
  have hbetween : ∀ t, Between original p t ↔ start ≤ t ∧ t ≤ stop := by
    intro t
    simp only [Between, hstart, hstop, Option.mem_some_iff, exists_eq_left']
  have hdelayed : ∀ t ∈ dupAckTimes group, BetweenFrom payload original p (t + (payload - first)) ↔
      start ≤ t + (payload - first) ∧ t + (payload - first) ≤ stop := by
    intro t ht
    obtain ⟨d, hd, hts⟩ := List.mem_filterMap.mp ht
    have hsum := roundTo_add_sub_micro (hmicro d (List.mem_of_mem_filter hd) t hts) hbase
      (hmicro r hr first hrts)
    rw [betweenFrom_iff_of_micro hmicro (List.mem_of_mem_filter horiginal) hp hbase hsum, hbetween]
  rw [Unmoved, TailsMatch]
  refine or_congr ?_ (iff_congr ?_ ?_) <;>
    refine exists_congr fun t => and_congr_right fun ht => ?_ <;>
    rw [hbetween, hdelayed t ht]
  · constructor
    · rintro ⟨⟨hfrom, -⟩, -, hto⟩
      exact ⟨hfrom, by linarith⟩
    · rintro ⟨hfrom, hto⟩
      exact ⟨⟨hfrom, by linarith⟩, by linarith, by linarith⟩
  · constructor
    · rintro ⟨⟨hfrom, hto⟩, hout⟩
      exact ⟨hfrom, not_le.mp fun hin => hout ⟨by linarith, by linarith⟩, hto⟩
    · rintro ⟨hfrom, hout, hto⟩
      exact ⟨⟨hfrom, hto⟩, fun hin => by linarith [hin.2]⟩
  · constructor
    · rintro ⟨hout, hfrom, hto⟩
      exact ⟨by linarith, not_le.mp fun hin => hout ⟨hin, by linarith⟩, by linarith⟩
    · rintro ⟨hfrom, hout, hto⟩
      exact ⟨fun hin => by linarith [hin.1], by linarith, by linarith⟩

/-- At every soon repeat the tails of the delay match. -/
def DelaySpared (group : List FlowPacket) : Prop :=
  ∀ side, ∀ a ∈ repeated group side, ∀ original ∈ originalOf group side a.2,
    ∀ start ∈ original.ts, ∀ stop ∈ a.2.ts, start ≤ stop → (stop - start) * 1000 ≤ reorderWindowMs →
      ∀ first ∈ origin group, ∀ payload ∈ origin (payloadOf group side),
        TailsMatch group (payload - first) start stop

/-- The law for times of whole microseconds, which need no rounding. -/
theorem judgedOnOneClock_iff_of_micro {group : List FlowPacket} (hmicro : Micro group) :
    JudgedOnOneClock group ↔ DelaySpared group := by
  rw [judgedOnOneClock_iff]
  refine forall_congr' fun side => forall₂_congr fun a ha => forall₂_congr fun original horiginal => ?_
  have hlast := List.mem_of_mem_filter (mem_of_mem_arrivals (List.mem_of_mem_filter ha)).1
  have htails : ∀ {start stop first payload : ℚ}, original.ts = some start → a.2.ts = some stop →
      origin group = some first → origin (payloadOf group side) = some payload →
      (Unmoved group payload (payload - first) original a.2 ↔
        TailsMatch group (payload - first) start stop) :=
    unmoved_iff_of_micro hmicro (mem_payloadOf_of_originalOf horiginal) hlast
  constructor
  · intro h start hstart stop hstop hle hwindow first hfirst payload hpayload
    exact (htails hstart hstop hfirst hpayload).mp
      (h ⟨start, hstart, stop, hstop, hle, hwindow⟩ first hfirst payload hpayload)
  · rintro h ⟨start, hstart, stop, hstop, hle, hwindow⟩ first hfirst payload hpayload
    exact (htails hstart hstop hfirst hpayload).mpr
      (h start hstart stop hstop hle hwindow first hfirst payload hpayload)

/-! ## Packets in front -/

/-- No repeat follows its original soon, to the microsecond. -/
def NoneSoon (group : List FlowPacket) : Prop :=
  ∀ side, ∀ a ∈ repeated group side, ∀ original ∈ originalOf group side a.2,
    ¬ SoonToMicros group side original a.2

section

variable {group group' : List FlowPacket} {side : Side}
  (h : payloadOf group' side = payloadOf group side)
include h

theorem repeated_congr : repeated group' side = repeated group side := by
  rw [repeated, repeated, payloadArrivals, payloadArrivals, payloadBase, payloadBase, h]

theorem firstSent_congr : firstSent group' side = firstSent group side := by
  rw [firstSent, firstSent, payloadArrivals, payloadArrivals, payloadBase, payloadBase, h]

theorem originalOf_congr (p : FlowPacket) : originalOf group' side p = originalOf group side p := by
  have hshared : sharedBytes group' side p = sharedBytes group side p := by
    funext q
    rw [sharedBytes, sharedBytes, payloadBase, payloadBase, h]
  rw [originalOf, originalOf, firstSent_congr h, hshared]

theorem sideClockMs_congr (p : FlowPacket) : sideClockMs group' side p = sideClockMs group side p := by
  rw [sideClockMs, sideClockMs, h]

theorem segmentOf_congr : segmentOf group' side = segmentOf group side := by
  funext p
  simp only [segmentOf, payloadBase, h]

/-- The report on a repeat that does not follow its original soon depends on the payload of its side. -/
theorem listedRepeat_congr {a : List FlowPacket × FlowPacket}
    (hlate : ∀ original ∈ originalOf group side a.2, ¬ SoonToMicros group side original a.2) :
    listedRepeat group' side a = listedRepeat group side a := by
  have hbase : payloadBase group' side = payloadBase group side := by
    rw [payloadBase, payloadBase, h]
  have hrepeat : ∀ bytes, repeatWith group' side a bytes = repeatWith group side a bytes := fun bytes => by
    simp only [repeatWith, segmentOf_congr h]
  have hverdict : ∀ bytes,
      classify (repeatWith group side a bytes) ((firstSent group side).map (segmentOf group side)) group' =
        classify (repeatWith group side a bytes) ((firstSent group side).map (segmentOf group side))
          group := by
    intro bytes
    rw [classify, classify, argmax_firsts]
    cases horiginal : originalOf group side a.2 with
    | none => rfl
    | some original =>
      have hnot := hlate original horiginal
      have hto : (repeatWith group side a bytes).timeMs = sideClockMs group side a.2 := rfl
      have hfrom : (segmentOf group side original).timeMs = sideClockMs group side original := rfl
      simp only [Option.map_some, hto, hfrom]
      cases hstop : sideClockMs group side a.2 with
      | none => rfl
      | some stop =>
        cases hstart : sideClockMs group side original with
        | none => rfl
        | some start =>
          dsimp only
          split
          · rfl
          · next hgap =>
            have hwindow : ¬ stop - start ≤ reorderWindowMs := fun hle =>
              hnot ⟨start, hstart, stop, hstop, not_lt.mp hgap, hle⟩
            rw [if_neg fun hsoon => hwindow hsoon.1, if_neg fun hsoon => hwindow hsoon.1]
  rw [listedRepeat, listedRepeat, hbase, segmentOf_congr h, firstSent_congr h, hrepeat, hverdict]

end

/-- A packet captured at a time that carries no payload and is no duplicate ACK. -/
def plainAt (t : ℚ) : FlowPacket := { plainAck with ts := some t, timeMs := 0, direction := .out }

/-- A duplicate ACK of the other side captured at a time. -/
def dupAckAt (side : Side) (t : ℚ) : FlowPacket :=
  { serverAck with dupAck := true, ts := some t, timeMs := 0, direction := wanted (!side.fromClient) }

theorem payloadOf_front (group : List FlowPacket) {front : List FlowPacket} {side : Side}
    (h : payloadOf front side = []) :
    payloadOf (front ++ group) side = payloadOf group side := by
  have happend : payloadOf (front ++ group) side = payloadOf front side ++ payloadOf group side :=
    List.filter_append _ _
  rw [happend, h, List.nil_append]

/-- The first packet of a front is the first of the stream that it makes. -/
theorem origin_front {group rest : List FlowPacket} {side : Side} {p : FlowPacket} {t : ℚ}
    (h : Front group side (p :: rest)) (ht : p.ts = some t) :
    origin ((p :: rest) ++ group) = some t := by
  rw [origin, List.min?_eq_some_iff]
  refine ⟨List.mem_filterMap.mpr ⟨p, List.mem_cons_self, ht⟩, fun u hu => ?_⟩
  obtain ⟨q, hq, hqts⟩ := List.mem_filterMap.mp hu
  rcases List.mem_append.mp hq with hq | hq
  · rcases List.mem_cons.mp hq with rfl | hq
    · exact (Option.some.inj (ht.symm.trans hqts)).le
    · obtain ⟨t', ht', u', hu', hle⟩ := (List.pairwise_cons.mp h.ordered).1 q hq
      rw [Option.mem_def] at ht' hu'
      rw [Option.some.inj (ht.symm.trans ht'), Option.some.inj (hqts.symm.trans hu')]
      exact hle
  · exact h.earlier p List.mem_cons_self t ht q hq u hqts

/-- The verdict on a soon repeat, with a front. -/
theorem verdict_of_front {group front : List FlowPacket} {side : Side}
    {a : List FlowPacket × FlowPacket} {original : FlowPacket} {start stop : ℚ}
    (hfront : Front group side front) (horiginal : original ∈ originalOf group side a.2)
    (hstart : sideClockMs group side original = some start)
    (hstop : sideClockMs group side a.2 = some stop) (hgap : 0 ≤ stop - start)
    (hwindow : stop - start ≤ reorderWindowMs) :
    (listedRepeat (front ++ group) side a).verdict =
      if duplicateAcks (front ++ group) start stop = 0 then .reordering else .retransmission := by
  have hpayload := payloadOf_front group hfront.control
  rw [← originalOf_congr hpayload] at horiginal
  rw [← sideClockMs_congr hpayload] at hstart hstop
  exact verdict_of_soon horiginal hstart hstop hgap hwindow

/-- A packet far enough in front puts every duplicate ACK after the repeat. -/
theorem exists_front_without {group : List FlowPacket} (side : Side) {first stop : ℚ}
    (hfirst : origin group = some first) (hstop : roundTo 3 stop = stop) (hnonneg : 0 ≤ stop) :
    ∃ front, Front group side front ∧ ∀ start, duplicateAcks (front ++ group) start stop = 0 := by
  have hmin : ∀ q ∈ group, ∀ u ∈ q.ts, first ≤ u := fun q hq u hu =>
    (List.min?_eq_some_iff.mp hfirst).2 u (List.mem_filterMap.mpr ⟨q, hq, hu⟩)
  have hfront : Front group side [plainAt (first - (stop + 1) / 1000)] := by
    refine ⟨?_, List.pairwise_singleton _ _, ?_, by cases side <;> rfl⟩
    · intro p hp
      rw [List.mem_singleton.mp hp]
      rfl
    · intro p hp t ht q hq u hu
      rw [List.mem_singleton.mp hp] at ht
      cases ht
      have hle := hmin q hq u hu
      linarith
  refine ⟨_, hfront, fun start => ?_⟩
  rw [duplicateAcks_eq_zero_iff (origin_front hfront rfl)]
  rintro ⟨t, ht, -, hle⟩
  obtain ⟨d, hd, hts⟩ := List.mem_filterMap.mp ht
  obtain ⟨hd, hdup⟩ := List.mem_filter.mp hd
  rcases List.mem_append.mp hd with hd | hd
  · rw [List.mem_singleton.mp hd] at hdup
    cases hdup
  · -- counted from the front it is a millisecond late at least
    have hlate : stop + 1 ≤ (t - (first - (stop + 1) / 1000)) * 1000 := by
      have hle := hmin d hd t hts
      linarith
    have hround := roundTo_mono 3 hlate
    obtain ⟨n, hn⟩ := roundTo_milli 3 stop
    have hexact : roundTo 3 (stop + 1) = stop + 1 := by
      apply roundTo_of_milli (n := n + 1000)
      rw [← hstop, hn]
      push_cast
      ring
    linarith

/-- A duplicate ACK in front, as long after the first packet as the original is after the first payload,
counts as one after the original. -/
theorem exists_front_with {group : List FlowPacket} (side : Side) {first start stop sent : ℚ}
    (hfirst : origin group = some first) (hstart : roundTo 3 (sent * 1000) = start) (hsent : 0 ≤ sent)
    (hle : start ≤ stop) : ∃ front, Front group side front ∧ duplicateAcks (front ++ group) start stop ≠ 0 := by
  have hmin : ∀ q ∈ group, ∀ u ∈ q.ts, first ≤ u := fun q hq u hu =>
    (List.min?_eq_some_iff.mp hfirst).2 u (List.mem_filterMap.mpr ⟨q, hq, hu⟩)
  have hfront : Front group side [plainAt (first - sent), dupAckAt side first] := by
    refine ⟨?_, ?_, ?_, by cases side <;> rfl⟩
    · intro p hp
      rcases List.mem_pair.mp hp with rfl | rfl <;> rfl
    · refine List.pairwise_pair.mpr ⟨_, rfl, _, rfl, ?_⟩
      linarith
    · intro p hp t ht q hq u hu
      have hle := hmin q hq u hu
      rcases List.mem_pair.mp hp with rfl | rfl <;> cases ht
      · linarith
      · exact hle
  refine ⟨_, hfront, ?_⟩
  rw [Ne, duplicateAcks_eq_zero_iff (origin_front hfront rfl), not_not]
  have hshift : first - (first - sent) = sent := by ring
  refine ⟨first, ?_, ?_⟩
  · exact List.mem_filterMap.mpr ⟨dupAckAt side first, List.mem_filter.mpr ⟨by simp, rfl⟩, rfl⟩
  · rw [hshift, hstart]
    exact ⟨le_rfl, hle⟩

theorem sideClockMs_eq_some {group : List FlowPacket} {side : Side} {p : FlowPacket} {t : ℚ}
    (h : sideClockMs group side p = some t) :
    ∃ ts payload, p.ts = some ts ∧ origin (payloadOf group side) = some payload ∧
      roundTo 3 ((ts - payload) * 1000) = t := by
  rw [sideClockMs] at h
  cases hts : p.ts with
  | none =>
    rw [hts] at h
    cases h
  | some ts =>
    cases hpayload : origin (payloadOf group side) with
    | none =>
      rw [hts, hpayload] at h
      cases h
    | some payload =>
      rw [hts, hpayload] at h
      exact ⟨ts, payload, rfl, rfl, Option.some.inj h⟩

/-- FRONTS change no verdict exactly when no repeat is soon. -/
theorem frontsHarmless_iff (group : List FlowPacket) : FrontsHarmless group ↔ NoneSoon group := by
  constructor
  · rintro hharmless side a ha original horiginal ⟨start, hstart, stop, hstop, hgap, hwindow⟩
    have hmem := mem_payloadOf_of_originalOf horiginal
    -- whatever is in front, the verdict is the same
    have hsame : ∀ front, Front group side front →
        (if duplicateAcks (front ++ group) start stop = 0 then Verdict.reordering else .retransmission) =
          (listedRepeat group side a).verdict := by
      intro front hfront
      have hverdicts := hharmless side front hfront
      rw [judged_eq_map, judged_eq_map, repeated_congr (payloadOf_front group hfront.control), List.map_map,
        List.map_map] at hverdicts
      rw [← verdict_of_front hfront horiginal hstart hstop hgap hwindow]
      exact List.map_inj_left.mp hverdicts a ha
    obtain ⟨ts, payload, hts, hpayload, hexact⟩ := sideClockMs_eq_some hstart
    obtain ⟨_, _, -, -, hround⟩ := sideClockMs_eq_some hstop
    obtain ⟨first, hfirst, -⟩ := exists_origin (List.mem_of_mem_filter hmem) hts
    have hsent : 0 ≤ ts - payload := by
      obtain ⟨payload', hpayload', hle⟩ := exists_origin hmem hts
      rw [Option.some.inj (hpayload.symm.trans hpayload')]
      exact sub_nonneg.mpr hle
    have hstart0 : 0 ≤ start := by
      have hzero : roundTo 3 0 = 0 := (roundTo_eq_zero_iff 3 0).mpr (by norm_num)
      rw [← hexact, ← hzero]
      exact roundTo_mono 3 (by linarith)
    have hmilli : roundTo 3 stop = stop := by
      obtain ⟨n, hn⟩ := roundTo_milli 3 _
      exact roundTo_of_milli (hround.symm.trans hn)
    obtain ⟨far, hfar, hnone⟩ := exists_front_without side hfirst hmilli (show 0 ≤ stop by linarith)
    obtain ⟨near, hnear, hsome⟩ := exists_front_with side hfirst hexact hsent
      (show start ≤ stop by linarith)
    have hfar := hsame far hfar
    have hnear := hsame near hnear
    rw [if_pos (hnone start)] at hfar
    rw [if_neg hsome, ← hfar] at hnear
    cases hnear
  · intro hnone side front hfront
    have hpayload := payloadOf_front group hfront.control
    rw [judged_eq_map, judged_eq_map, repeated_congr hpayload]
    congr 1
    exact List.map_congr_left fun a ha => listedRepeat_congr hpayload (hnone side a ha)

/-- The verdicts on soon repeats are decided by the capture times exactly when the delay of the first
payload does not matter to them, which for times of whole microseconds is told by the tails of the delay; and
packets put in front of the stream change no verdict exactly when no repeat is soon. -/
theorem judged_on_one_clock_iff (group : List FlowPacket) :
    (JudgedOnOneClock group ↔ DelayHarmless group) ∧
      (Micro group → (JudgedOnOneClock group ↔ DelaySpared group)) ∧
      (FrontsHarmless group ↔ NoneSoon group) :=
  ⟨judgedOnOneClock_iff group, judgedOnOneClock_iff_of_micro, frontsHarmless_iff group⟩

/-- Ten bytes, a duplicate ACK for them, and the ten bytes again a tenth of a second after the first. -/
def fastRetransmit : List FlowPacket :=
  [ { plainAck with frame := 2, length := 10, ts := some 1, timeMs := 500, direction := .out },
    { serverAck with frame := 3, dupAck := true, ts := some (21 / 20), timeMs := 550,
                     direction := .in_ },
    { plainAck with frame := 4, length := 10, ts := some (11 / 10), timeMs := 600,
                    direction := .out } ]

/-- The same after a SYN, half a second earlier. -/
def openedFastRetransmit : List FlowPacket :=
  { plainAck with seq := 999, syn := true, ts := some (1 / 2), timeMs := 0, direction := .out } ::
    fastRetransmit

/-- Without the SYN there is one clock. With the SYN in front the duplicate ACK, counted from it, comes
after the repeat, counted from the first payload, and a retransmission becomes reordering. -/
theorem fastRetransmit_misjudged :
    (openedFastRetransmit.Pairwise fun p q => ∃ t ∈ p.ts, ∃ t' ∈ q.ts, t ≤ t') ∧
      (judged fastRetransmit .client).map (fun r => (r.frame, r.verdict)) = [(4, .retransmission)] ∧
      (judged openedFastRetransmit .client).map (fun r => (r.frame, r.verdict)) =
        [(4, .reordering)] ∧
      JudgedOnOneClock fastRetransmit ∧ ¬ JudgedOnOneClock openedFastRetransmit ∧
      ¬ FrontsHarmless fastRetransmit := by
  have hwithout : (judged fastRetransmit .client).map (fun r => (r.frame, r.verdict)) =
      [(4, .retransmission)] := by
    decide +kernel
  have hwith : (judged openedFastRetransmit .client).map (fun r => (r.frame, r.verdict)) =
      [(4, .reordering)] := by
    decide +kernel
  refine ⟨by decide +kernel, hwithout, hwith, ?_, ?_, ?_⟩
  · refine (judgedOnOneClock_iff_of_micro (by decide +kernel)).mpr fun side => ?_
    cases side <;> decide +kernel
  · intro h
    have hclient := h .client
    revert hclient
    decide +kernel
  · intro h
    have hfront : Front fastRetransmit .client (openedFastRetransmit.take 1) := by
      refine ⟨List.forall_mem_singleton.mpr rfl, ?_, ?_, ?_⟩ <;> decide +kernel
    have hsame := h .client _ hfront
    revert hsame
    decide +kernel

end PacketTrain.Analysis
