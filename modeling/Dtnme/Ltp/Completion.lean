import Dtnme.Ltp.Reception

/-! # Completion of a red part

The receiver adds a segment and, unless it was a duplicate, notes an end of block.
The red part counts as full when two counters agree. Along a run of accepted segments
the answer is sound, provided that no end of block is stored below the expected length.
-/

namespace Dtnme.Ltp
open Library Runs

variable {s : LTPSession} {ds : LTPDataSegment} {S : Set ℕ}

/-- The session part of `process_incoming_data_segment`: add, then note the end of block. -/
def receiveRed (s : LTPSession) (ds : LTPDataSegment) : Except Fault AddResult := do
  let r ← addSegmentIncoming s ds
  if r.status ≠ -1 ∧ r.ds.isEndofblock then .ok { r with session := setEob r.session r.ds }
  else .ok r

def receiveStep (s : LTPSession) (ds : LTPDataSegment) : Except Fault LTPSession := do
  let r ← receiveRed s ds
  .ok r.session

/-- Accepted, and an end of block that gets stored does not fall below the expected length. -/
def AcceptsEob (s : LTPSession) (ds : LTPDataSegment) : Prop :=
  Repeats s.redContigBlocks ds.startByte ds.stopByte ∨
    (Mergeable s.redContigBlocks ds.startByte ds.stopByte ∧
      (s.redSegments.find? ds.startByte ≠ none ∨
        (Settles s.redSegments ds.startByte ds.stopByte ∧
          (ds.isEndofblock = true → s.expectedRedBytes ≤ ds.stopByte + 1))))

instance : Decidable (AcceptsEob s ds) := inferInstanceAs (Decidable (_ ∨ _))

/-- No stored segment reaches past the expected length. -/
def Within (s : LTPSession) : Prop :=
  ∀ k es, s.redSegments.find? k = some es → es.stopByte < s.expectedRedBytes

theorem Within.new (engineId sessionId : ℕ) : Within (.new engineId sessionId) := by
  intro k es hk
  simp [LTPSession.new] at hk

theorem Within.storeTrimmed (h : Within s) {m : OrdMap ℕ LTPDataSegment} {ds' : LTPDataSegment}
    (ht : Trimmed s.redSegments m ds ds') : Within (s.storeTrimmed m ds') := by
  intro k es hk
  have hexp : (s.storeTrimmed m ds').expectedRedBytes =
      if s.expectedRedBytes < ds'.stopByte + 1 then ds'.stopByte + 1 else s.expectedRedBytes := by
    simp only [LTPSession.storeTrimmed, LTPSession.storeRed, u64_of_lt ht.ranged.bound]
  have hfind : (m.insert ds'.startByte ds').find? k = some es := hk
  rw [OrdMap.find?_insert] at hfind
  rw [hexp]
  split_ifs at hfind with hks
  · cases hfind
    split_ifs <;> omega
  · have := h k es (ht.kept k es hfind)
    split_ifs <;> omega

theorem setEob_red (hds : IncomingRed ds) : setEob s ds =
    { s with expectedRedBytes := ds.stopByte + 1, redComplete := true } := by
  simp only [setEob, hds.1, u64_of_lt hds.2.bound]

/-- One accepted segment keeps the maps consistent and inside the expected length. -/
theorem receiveRed_accepts (h : Consistent s S) (hw : Within s) (hds : IncomingRed ds)
    (ha : AcceptsEob s ds) :
    ∃ r, receiveRed s ds = .ok r ∧ Consistent r.session (extend S ds) ∧ Within r.session := by
  unfold receiveRed
  rcases ha with hr | ⟨hm, hset⟩
  · rw [addSegmentIncoming_repeats h hds hr]
    exact ⟨_, rfl, (h.noteRedEob ds).repeats hr, hw⟩
  · by_cases hstart : s.redSegments.find? ds.startByte = none
    · obtain ⟨hset, heob⟩ := hset.resolve_left (absurd hstart)
      obtain ⟨r, m, ds', ht, hadd, hcons⟩ := addSegmentIncoming_settles h hds hm hstart hset
      have hwithin : Within (((s.noteRedEob ds).setContig r).storeTrimmed m ds') :=
        Within.storeTrimmed (s := (s.noteRedEob ds).setContig r) hw ht
      rw [hadd]
      by_cases he : ds'.isEndofblock = true
      · -- nothing stored reaches past an end of block, so it was not cut
        have hle : s.expectedRedBytes ≤ ds.stopByte + 1 := by
          refine heob ?_
          rw [← he]
          simp only [LTPSegment.isEndofblock, ht.flags]
        obtain rfl : ds' = ds := ht.whole fun k es hk => by
          have := hw k es hk
          omega
        refine ⟨_, if_pos ⟨by simp, he⟩, ?_, ?_⟩
        · rw [setEob_red hds]
          exact { hcons with }
        · rw [setEob_red hds]
          intro k es hk
          have hfind : (m.insert ds'.startByte ds').find? k = some es := hk
          rw [OrdMap.find?_insert] at hfind
          split_ifs at hfind with hks
          · cases hfind
            exact Nat.lt_succ_self _
          · exact lt_of_lt_of_le (hw k es (ht.kept k es hfind)) hle
      · exact ⟨_, if_neg fun h => he h.2, hcons, hwithin⟩
    · obtain ⟨r, hadd, hcons⟩ := addSegmentIncoming_matches h hds hm hstart
      rw [hadd]
      exact ⟨_, rfl, hcons, hw⟩

/-- What a full answer promises: the expected bytes are stored, once each, and counted. -/
structure Complete (s : LTPSession) : Prop where
  covers : ∀ x < s.expectedRedBytes, ∃ k es, s.redSegments.find? k = some es ∧
    es.startByte ≤ x ∧ x ≤ es.stopByte
  disjoint : ∀ k l es fs, s.redSegments.find? k = some es → s.redSegments.find? l = some fs →
    k ≠ l → es.stopByte < fs.startByte ∨ fs.stopByte < es.startByte
  count : s.redBytesReceived = s.redSegments.sum (·.payloadLength)

theorem Consistent.complete (h : Consistent s S) (hw : Within s) (hfull : isRedFull s ≠ 0) :
    Complete s where
  covers x hx := by
    have heq : s.redBytesReceived = s.expectedRedBytes := by
      unfold isRedFull at hfull
      by_contra hne
      simp [hne] at hfull
    obtain ⟨k, es, hk, hkx, hxs⟩ := h.segments.full hw (h.count ▸ heq) x hx
    exact ⟨k, es, hk, (h.segments.keyed hk).le.trans hkx, hxs⟩
  disjoint k l es fs hk hl hkl := by
    rw [h.segments.keyed hk, h.segments.keyed hl]
    rcases Nat.lt_or_gt_of_ne hkl with hlt | hlt
    · exact Or.inl (h.segments.apart hk hl hlt)
    · exact Or.inr (h.segments.apart hl hk hlt)
  count := h.count

/-- Along a run of accepted segments, a full red part is a complete one. -/
theorem receiveStep_run_complete (engineId sessionId : ℕ) (l : List LTPDataSegment)
    (hl : ∀ ds ∈ l, IncomingRed ds)
    (hrun : Meets receiveStep AcceptsEob (.new engineId sessionId) l) (n : ℕ) :
    ∃ s, run receiveStep (.new engineId sessionId) (l.take n) = .ok s ∧
      (isRedFull s ≠ 0 → Complete s) := by
  have hinit : Consistent (.new engineId sessionId) (receivedBytes []) := by
    simpa [receivedBytes] using Consistent.new engineId sessionId
  obtain ⟨s, hs, hcons, hw⟩ := run_invariant
    (fun s past => Consistent s (receivedBytes past) ∧ Within s)
    (by
      rintro s past ds ⟨h, hw⟩ ⟨ha, hds⟩
      rw [receivedBytes_append]
      obtain ⟨r, hr, hinv⟩ := receiveRed_accepts h hw hds ha
      exact ⟨r.session, by simp only [receiveStep, hr, bind, Except.bind], hinv⟩)
    ⟨hinit, .new engineId sessionId⟩ ((hrun.and_forall hl).take n)
  exact ⟨s, hs, hcons.complete hw⟩

/-- A gap, an end of block out of order, and the piece that closes the gap. -/
theorem receiveStep_run_complete_closes_gap :
    ∃ s, run receiveStep (.new 1 1) [redSegment 0 4 false, redSegment 8 9 true,
        redSegment 5 7 false] = .ok s ∧ (isRedFull s ≠ 0 → Complete s) :=
  receiveStep_run_complete 1 1 [redSegment 0 4 false, redSegment 8 9 true, redSegment 5 7 false]
    (by decide +kernel) (by decide +kernel) 3

/-- An end of block below a stored segment makes the counters agree too early. -/
theorem receiveStep_run_not_complete :
    ¬ ∀ (engineId sessionId : ℕ) (l : List LTPDataSegment), (∀ ds ∈ l, IncomingRed ds) →
      ∀ s, run receiveStep (.new engineId sessionId) l = .ok s → isRedFull s ≠ 0 → Complete s := by
  intro hall
  obtain ⟨s, hs, hfull, hexp, hmiss⟩ : ∃ s, run receiveStep (.new 1 1)
      [redSegment 10 10 false, redSegment 4 4 true, redSegment 0 2 false] = .ok s ∧
      isRedFull s ≠ 0 ∧ 3 < s.expectedRedBytes ∧
      ∀ k es, s.redSegments.find? k = some es → ¬ (es.startByte ≤ 3 ∧ 3 ≤ es.stopByte) :=
    by decide +kernel
  obtain ⟨k, es, hk, hx⟩ := (hall 1 1 _ (by decide +kernel) s hs hfull).covers 3 hexp
  exact hmiss k es hk hx

end Dtnme.Ltp
