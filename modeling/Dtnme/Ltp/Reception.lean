import Dtnme.Library.Transition
import Dtnme.Ltp.ContigBlocks
import Dtnme.Ltp.Overlap

/-! # Reception of a red part

Whole runs of incoming red segments on a fresh session. Along a run whose segments
each repeat received bytes, or merge and settle, the block map is the canonical
decomposition of the received bytes and the byte counter is the length of what is
stored. Completion is then sound if no end of block falls short of the stored data.
-/

namespace Dtnme.Ltp
open Library Runs

variable {s : LTPSession} {ds : LTPDataSegment} {S : Set ℕ}

/-- The bytes of a list of segments. -/
def receivedBytes (l : List LTPDataSegment) : Set ℕ :=
  {x | ∃ ds ∈ l, ds.startByte ≤ x ∧ x ≤ ds.stopByte}

/-- A red segment with a proper range. -/
def IncomingRed (ds : LTPDataSegment) : Prop := ds.redGreen = .red ∧ Ranged ds

instance : Decidable (IncomingRed ds) := inferInstanceAs (Decidable (_ ∧ _))

/-- The segments that the session takes in as it should: they repeat received bytes, or they
merge into the block map and then either match the start of a stored segment or settle. -/
def Accepts (s : LTPSession) (ds : LTPDataSegment) : Prop :=
  Repeats s.redContigBlocks ds.startByte ds.stopByte ∨
    (Mergeable s.redContigBlocks ds.startByte ds.stopByte ∧
      (s.redSegments.find? ds.startByte ≠ none ∨
        Settles s.redSegments ds.startByte ds.stopByte))

instance : Decidable (Accepts s ds) := inferInstanceAs (Decidable (_ ∨ _))

/-- The two maps and the two counters agree on the received bytes `S`. -/
structure Consistent (s : LTPSession) (S : Set ℕ) : Prop where
  live : s.redProcessed = false
  blocks : Decomposes s.redContigBlocks.find? S
  first : s.firstContiguousBytes = (s.redContigBlocks.find? 0).elim 0 (· + 1)
  bound : ∀ x ∈ S, x + 1 < 2 ^ 64
  segments : SegmentsOk s.redSegments
  stored : storedBytes s.redSegments ⊆ S
  count : s.redBytesReceived = s.redSegments.sum (·.payloadLength)

theorem Consistent.new (engineId sessionId : ℕ) : Consistent (.new engineId sessionId) ∅ where
  live := rfl
  blocks := Decomposes.empty
  first := rfl
  bound x hx := hx.elim
  segments := .empty
  stored := by
    rintro x ⟨k, ds, hk, -⟩
    simp [LTPSession.new] at hk
  count := rfl

/-- The stored segments end below the largest word. -/
theorem Consistent.stop_lt (h : Consistent s S) {k : ℕ} {es : LTPDataSegment}
    (hk : s.redSegments.find? k = some es) : es.stopByte < 2 ^ 64 - 1 := by
  have := h.bound es.stopByte (h.stored ⟨k, es, hk, h.segments.nonempty hk, le_rfl⟩)
  omega

theorem Consistent.sum_lt (h : Consistent s S) :
    s.redSegments.sum (·.payloadLength) < 2 ^ 64 := by
  have := h.segments.sum_le fun k es hk => h.stop_lt hk
  omega

/-- The received bytes after one more range. -/
def extend (S : Set ℕ) (ds : LTPDataSegment) : Set ℕ :=
  {x | x ∈ S ∨ (ds.startByte ≤ x ∧ x ≤ ds.stopByte)}

theorem receivedBytes_append (l : List LTPDataSegment) (ds : LTPDataSegment) :
    receivedBytes (l ++ [ds]) = extend (receivedBytes l) ds := by
  ext x
  simp only [receivedBytes, extend, List.mem_append, List.mem_singleton, Set.mem_ofPred_eq]
  constructor
  · rintro ⟨es, hes | rfl, hx⟩
    · exact Or.inl ⟨es, hes, hx⟩
    · exact Or.inr hx
  · rintro (⟨es, hes, hx⟩ | hx)
    · exact ⟨es, Or.inl hes, hx⟩
    · exact ⟨ds, Or.inr rfl, hx⟩

/-! ## One segment -/

theorem Consistent.noteRedEob (h : Consistent s S) (ds : LTPDataSegment) :
    Consistent (s.noteRedEob ds) S := { h with }

theorem addSegmentIncoming_red (h : Consistent s S) (hds : IncomingRed ds) {r : ContigCheck}
    (hr : checkRedContigBlocks s.redContigBlocks ds.startByte ds.stopByte = .ok r) :
    addSegmentIncoming s ds = addRed (s.noteRedEob ds) ds r := by
  have hcheck : checkRedContigBlocks (s.noteRedEob ds).redContigBlocks ds.startByte ds.stopByte =
      .ok r := hr
  unfold addSegmentIncoming
  rw [if_neg (by simp [h.live])]
  simp only [hds.1, hcheck]
  rfl

/-- A repeated range changes neither map. -/
theorem addSegmentIncoming_repeats (h : Consistent s S) (hds : IncomingRed ds)
    (hr : Repeats s.redContigBlocks ds.startByte ds.stopByte) :
    addSegmentIncoming s ds = .ok ⟨-1, s.noteRedEob ds, ds⟩ := by
  rw [addSegmentIncoming_red h hds (checkRedContigBlocks_repeats h.blocks hds.2.ordered hr)]
  simp only [addRed, LTPSession.setContig, Bool.not_true, Bool.false_and, Bool.false_eq_true,
    if_false, if_true]
  rfl

/-- A repeated range adds no byte. -/
theorem Consistent.repeats (h : Consistent s S)
    (hr : Repeats s.redContigBlocks ds.startByte ds.stopByte) : Consistent s (extend S ds) := by
  obtain ⟨a, b, hab, ha, hb⟩ := hr
  have hmem : ∀ x, x ∈ extend S ds ↔ x ∈ S := by
    intro x
    constructor
    · rintro (hx | hx)
      · exact hx
      · exact h.blocks.mem hab (ha.trans hx.1) (hx.2.trans hb)
    · exact Or.inl
  rw [Set.ext hmem]
  exact h

/-- An absorbed range adds its bytes to the block map and to the prefix counter. -/
theorem Consistent.setContig (h : Consistent s S) (hds : Ranged ds) {r : ContigCheck}
    (hdup : r.duplicate = false)
    (ha : Absorbed s.redContigBlocks r.blocks ds.startByte ds.stopByte r.contigStart r.contigStop
      r.overlap) : Consistent (s.setContig r) (extend S ds) where
  live := h.live
  blocks := by
    refine h.blocks.replace (ha.first.trans (hds.ordered.trans ha.last)) ha.low ha.inside ha.high
      ha.find fun x => ?_
    constructor
    · rintro (hx | hx)
      · exact Or.inl hx
      · exact Or.inr ⟨ha.first.trans hx.1, hx.2.trans ha.last⟩
    · rintro (hx | hx)
      · exact Or.inl hx
      · rcases ha.filled x hx.1 hx.2 with hx | ⟨a, b, hab, hax, hxb⟩
        · exact Or.inr hx
        · exact Or.inl (h.blocks.mem hab hax hxb)
  first := by
    simp only [LTPSession.setContig, hdup, Bool.not_false, Bool.true_and, beq_iff_eq]
    rw [ha.find]
    by_cases hzero : r.contigStart = 0
    · rw [if_pos hzero, if_pos hzero.symm, u64_of_lt ha.bound]
      rfl
    · rw [if_neg hzero, if_neg (Ne.symm hzero), if_neg (by omega), h.first]
  bound := by
    rintro x (hx | hx)
    · exact h.bound x hx
    · have := hds.bound
      omega
  segments := h.segments
  stored := fun x hx => Or.inl (h.stored hx)
  count := h.count

/-- The session with its segments trimmed and the incoming one stored. -/
def LTPSession.storeTrimmed (s : LTPSession) (m : OrdMap ℕ LTPDataSegment) (ds : LTPDataSegment) :
    LTPSession :=
  { s with redSegments := m, redBytesReceived := m.sum (·.payloadLength) }.storeRed ds

theorem Consistent.storeTrimmed (h : Consistent s S) {m : OrdMap ℕ LTPDataSegment}
    {ds' : LTPDataSegment} (ht : Trimmed s.redSegments m ds ds')
    (hS : ∀ x, ds.startByte ≤ x → x ≤ ds.stopByte → x ∈ S) :
    Consistent (s.storeTrimmed m ds') S := by
  have hnew : m.find? ds'.startByte = none := by
    cases hk : m.find? ds'.startByte with
    | none => rfl
    | some es =>
      have := ht.apart _ es hk
      have := ht.segments.nonempty hk
      have := ht.ranged.ordered
      omega
  have hok : SegmentsOk (m.insert ds'.startByte ds') := ht.segments.insert ht.ranged ht.apart
  have hstored : storedBytes (m.insert ds'.startByte ds') ⊆ S := by
    intro x hx
    rcases (storedBytes_insert hnew x).mp hx with ⟨k, es, hk, hx⟩ | hx
    · exact h.stored ⟨k, es, ht.kept k es hk, hx⟩
    · refine hS x ?_ (hx.2.trans ht.stop)
      rw [← ht.start]
      exact hx.1
  have hsum : (m.insert ds'.startByte ds').sum (·.payloadLength) < 2 ^ 64 := by
    have := hok.sum_le (N := 2 ^ 64 - 1) fun k es hk => by
      have := h.bound es.stopByte (hstored ⟨k, es, hk, hok.nonempty hk, le_rfl⟩)
      omega
    omega
  have hadd := OrdMap.sum_insert (v := ds') (·.payloadLength) hnew
  refine { h with segments := hok, stored := hstored, count := ?_ }
  show u64 (m.sum (·.payloadLength) + ds'.payloadLength) =
    (m.insert ds'.startByte ds').sum (·.payloadLength)
  rw [u64_of_lt (by omega)]
  omega

/-- A range that merges but matches the start of a stored segment is dropped. -/
theorem addSegmentIncoming_matches (h : Consistent s S) (hds : IncomingRed ds)
    (hm : Mergeable s.redContigBlocks ds.startByte ds.stopByte)
    (hstart : s.redSegments.find? ds.startByte ≠ none) :
    ∃ r, addSegmentIncoming s ds = .ok ⟨-1, (s.noteRedEob ds).setContig r, ds⟩ ∧
      Consistent ((s.noteRedEob ds).setContig r) (extend S ds) := by
  obtain ⟨r, hr, hdup, ha⟩ :=
    checkRedContigBlocks_mergeable h.blocks h.bound hds.2.ordered hds.2.bound hm
  obtain ⟨es, hes⟩ := Option.ne_none_iff_exists'.mp hstart
  have hov : r.overlap = true := by
    by_contra hov
    obtain ⟨a, b, hab, hax, hxb⟩ := (h.blocks.covers _).mp
      (h.stored ⟨_, es, hes, le_rfl, h.segments.nonempty hes⟩)
    have := ha.apart (Bool.eq_false_iff.mpr hov) a b hab
    have := hds.2.ordered
    omega
  refine ⟨r, ?_, (h.noteRedEob ds).setContig hds.2 hdup ha⟩
  rw [addSegmentIncoming_red h hds hr]
  have hes' : ((s.noteRedEob ds).setContig r).redSegments.find? ds.startByte = some es := hes
  simp only [addRed, hdup, hov, checkAndTrim, hes', Bool.not_true, Bool.false_eq_true, if_false]
  rfl

/-- A range that merges and settles is stored. -/
theorem addSegmentIncoming_settles (h : Consistent s S) (hds : IncomingRed ds)
    (hm : Mergeable s.redContigBlocks ds.startByte ds.stopByte)
    (hstart : s.redSegments.find? ds.startByte = none)
    (hset : Settles s.redSegments ds.startByte ds.stopByte) :
    ∃ r m ds', Trimmed s.redSegments m ds ds' ∧
      addSegmentIncoming s ds =
        .ok ⟨0, ((s.noteRedEob ds).setContig r).storeTrimmed m ds', ds'⟩ ∧
      Consistent (((s.noteRedEob ds).setContig r).storeTrimmed m ds') (extend S ds) := by
  obtain ⟨r, hr, hdup, ha⟩ :=
    checkRedContigBlocks_mergeable h.blocks h.bound hds.2.ordered hds.2.bound hm
  have hcons := (h.noteRedEob ds).setContig hds.2 hdup ha
  have hS : ∀ x, ds.startByte ≤ x → x ≤ ds.stopByte → x ∈ extend S ds := fun x h₁ h₂ =>
    Or.inr ⟨h₁, h₂⟩
  cases hov : r.overlap with
  | false =>
    have ht : Trimmed s.redSegments s.redSegments ds ds := by
      refine ⟨h.segments, fun _ _ hk => hk, hds.2, rfl, le_rfl, rfl, fun k es hk => ?_,
        fun _ => rfl, fun _ => ⟨rfl, rfl⟩⟩
      -- a stored byte in the range would lie in a block, and the check met none
      by_contra hmeet
      have hord := hds.2.ordered
      have hne := h.segments.nonempty hk
      obtain ⟨a, b, hab, hax, hxb⟩ := (h.blocks.covers _).mp
        (h.stored ⟨k, es, hk, le_max_left k ds.startByte, by omega⟩)
      have := ha.apart hov a b hab
      omega
    refine ⟨r, s.redSegments, ds, ht, ?_, hcons.storeTrimmed ht hS⟩
    rw [addSegmentIncoming_red h hds hr]
    simp only [addRed, hdup, hov, Bool.not_false, Bool.false_eq_true, if_false, if_true,
      LTPSession.storeTrimmed, ← h.count]
    rfl
  | true =>
    obtain ⟨m, ds', hloop, ht⟩ := trimLoop_settles (trimFuel s.redSegments ds) h.segments hds.2
      hstart hset (by unfold trimFuel; omega) h.sum_lt
    refine ⟨r, m, ds', ht, ?_, hcons.storeTrimmed ht hS⟩
    rw [addSegmentIncoming_red h hds hr]
    have htrim : checkAndTrim ((s.noteRedEob ds).setContig r).redSegments
        ((s.noteRedEob ds).setContig r).redBytesReceived ds =
          .ok ⟨true, m, m.sum (·.payloadLength), ds'⟩ := by
      show checkAndTrim s.redSegments s.redBytesReceived ds = _
      unfold checkAndTrim
      rw [hstart, h.count]
      exact hloop
    simp only [addRed, hdup, hov, Bool.not_true, Bool.false_eq_true, if_false, htrim]
    rfl

/-! ## Runs -/

/-- One call of `AddSegment_incoming`. -/
def addStep (s : LTPSession) (ds : LTPDataSegment) : Except Fault LTPSession := do
  let r ← addSegmentIncoming s ds
  .ok r.session

theorem addStep_accepts (h : Consistent s S) (hds : IncomingRed ds) (ha : Accepts s ds) :
    ∃ s', addStep s ds = .ok s' ∧ Consistent s' (extend S ds) := by
  unfold addStep
  rcases ha with hr | ⟨hm, hset⟩
  · rw [addSegmentIncoming_repeats h hds hr]
    exact ⟨_, rfl, (h.noteRedEob ds).repeats hr⟩
  · by_cases hstart : s.redSegments.find? ds.startByte = none
    · obtain ⟨r, m, ds', -, hadd, hcons⟩ :=
        addSegmentIncoming_settles h hds hm hstart (hset.resolve_left (absurd hstart))
      rw [hadd]
      exact ⟨_, rfl, hcons⟩
    · obtain ⟨r, hadd, hcons⟩ := addSegmentIncoming_matches h hds hm hstart
      rw [hadd]
      exact ⟨_, rfl, hcons⟩

/-- The block map lists the maximal runs of `S`, and the prefix counter measures its prefix. -/
structure Canonical (s : LTPSession) (S : Set ℕ) : Prop where
  runs : ∀ a b, s.redContigBlocks.find? a = some b ↔ IsRun S a b
  first : PrefixLength S s.firstContiguousBytes

theorem Consistent.canonical (h : Consistent s S) : Canonical s S where
  runs _ _ := h.blocks.isRun_iff
  first := h.first ▸ h.blocks.prefixLength

/-- Along every run of accepted segments, no call faults and the maps stay consistent. -/
theorem run_addStep_consistent (engineId sessionId : ℕ) {l : List LTPDataSegment}
    (hl : ∀ ds ∈ l, IncomingRed ds) (hrun : Meets addStep Accepts (.new engineId sessionId) l) :
    ∃ s, run addStep (.new engineId sessionId) l = .ok s ∧ Consistent s (receivedBytes l) := by
  refine run_invariant (fun s past => Consistent s (receivedBytes past)) ?_ ?_
    (hrun.and_forall hl)
  · rintro s past ds h ⟨ha, hds⟩
    rw [receivedBytes_append]
    exact addStep_accepts h hds ha
  · have hempty : receivedBytes [] = ∅ := by
      simp [receivedBytes]
    rw [hempty]
    exact .new engineId sessionId

/-- After each call of a run of accepted segments the block map is canonical. -/
theorem addSegmentIncoming_run_canonical (engineId sessionId : ℕ) (l : List LTPDataSegment)
    (hl : ∀ ds ∈ l, IncomingRed ds) (hrun : Meets addStep Accepts (.new engineId sessionId) l)
    (n : ℕ) :
    ∃ s, run addStep (.new engineId sessionId) (l.take n) = .ok s ∧
      Canonical s (receivedBytes (l.take n)) := by
  obtain ⟨s, hs, hcons⟩ := run_addStep_consistent engineId sessionId
    (fun ds hds => hl ds (List.mem_of_mem_take hds)) (hrun.take n)
  exact ⟨s, hs, hcons.canonical⟩

/-- A red segment for client service 1, with a payload of zeros. -/
def redSegment (start stop : ℕ) (eob : Bool) : LTPDataSegment :=
  { engineId := 1, sessionId := 1, segmentType := .ds, redGreen := .red, clientServiceId := 1,
    isCheckpoint := eob, isRedEndofblock := eob, offset := start, startByte := start,
    stopByte := stop, payloadLength := stop + 1 - start,
    payload := List.replicate (stop + 1 - start) 0 }

/-- A containment, an extension downwards and a repeat. -/
theorem addSegmentIncoming_run_canonical_contains :
    ∃ s, run addStep (.new 1 1) [redSegment 8 9 false, redSegment 5 12 false,
        redSegment 0 4 false, redSegment 1 6 false] = .ok s ∧
      Canonical s (receivedBytes [redSegment 8 9 false, redSegment 5 12 false,
        redSegment 0 4 false, redSegment 1 6 false]) :=
  addSegmentIncoming_run_canonical 1 1 [redSegment 8 9 false, redSegment 5 12 false,
    redSegment 0 4 false, redSegment 1 6 false] (by decide +kernel) (by decide +kernel) 4

/-- A segment that starts where a shorter block starts fails an assertion. -/
theorem addSegmentIncoming_run_not_canonical :
    ¬ ∀ (engineId sessionId : ℕ) (l : List LTPDataSegment), (∀ ds ∈ l, IncomingRed ds) →
      ∀ n, ∃ s, run addStep (.new engineId sessionId) (l.take n) = .ok s ∧
        Canonical s (receivedBytes (l.take n)) := by
  intro hall
  obtain ⟨s, hs, -⟩ := hall 1 1 [redSegment 0 4 false, redSegment 0 9 false] (by decide +kernel) 2
  have hfault : run addStep (.new 1 1) [redSegment 0 4 false, redSegment 0 9 false] =
      .error .assertFailed := by decide +kernel
  rw [List.take_of_length_le (by simp), hfault] at hs
  cases hs

end Dtnme.Ltp
