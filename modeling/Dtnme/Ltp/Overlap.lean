import Dtnme.Library.Runs
import Dtnme.Ltp.Session

/-! # Trimming against stored segments

The trimming loop on a map of disjoint segments. When the incoming range starts
outside them, the loop deletes those that the range holds whole, cuts the range
at one that reaches past its end, and stops. The count of stored bytes follows.
-/

namespace Dtnme.Ltp
open Library

/-- Stored segments: keyed by their first byte, as long as they say, and disjoint. -/
structure SegmentsOk (m : OrdMap ℕ LTPDataSegment) : Prop where
  keyed : ∀ {k ds}, m.find? k = some ds → ds.startByte = k
  length : ∀ {k ds}, m.find? k = some ds → ds.payloadLength + k = ds.stopByte + 1
  nonempty : ∀ {k ds}, m.find? k = some ds → k ≤ ds.stopByte
  apart : ∀ {k l ds es}, m.find? k = some ds → m.find? l = some es → k < l → ds.stopByte < l

/-- The bytes held by the stored segments. -/
def storedBytes (m : OrdMap ℕ LTPDataSegment) : Set ℕ :=
  {x | ∃ k ds, m.find? k = some ds ∧ k ≤ x ∧ x ≤ ds.stopByte}

/-- The trimming loop makes progress: no stored segment holds the first byte of the range
together with an earlier one, and none that reaches past the end starts at the second byte. -/
def Settles (m : OrdMap ℕ LTPDataSegment) (start stop : ℕ) : Prop :=
  ∀ k ds, m.find? k = some ds → (k < start → ds.stopByte < start) ∧
    (k = start + 1 → k ≤ stop → ds.stopByte ≤ stop)

instance (m : OrdMap ℕ LTPDataSegment) (start stop : ℕ) : Decidable (Settles m start stop) := by
  unfold Settles
  infer_instance

/-- A range that says how long it is, and stays clear of the largest word. -/
structure Ranged (ds : LTPDataSegment) : Prop where
  length : ds.payloadLength + ds.startByte = ds.stopByte + 1
  ordered : ds.startByte ≤ ds.stopByte
  bound : ds.stopByte + 1 < 2 ^ 64

instance (ds : LTPDataSegment) : Decidable (Ranged ds) :=
  decidable_of_iff (ds.payloadLength + ds.startByte = ds.stopByte + 1 ∧
    ds.startByte ≤ ds.stopByte ∧ ds.stopByte + 1 < 2 ^ 64)
    ⟨fun h => ⟨h.1, h.2.1, h.2.2⟩, fun h => ⟨h.length, h.ordered, h.bound⟩⟩

variable {m : OrdMap ℕ LTPDataSegment} {ds : LTPDataSegment}

theorem SegmentsOk.empty : SegmentsOk .empty where
  keyed h := by simp at h
  length h := by simp at h
  nonempty h := by simp at h
  apart h := by simp at h

theorem SegmentsOk.erase (h : SegmentsOk m) (k : ℕ) : SegmentsOk (m.erase k) := by
  have hsub : ∀ {j es}, (m.erase k).find? j = some es → m.find? j = some es := by
    intro j es hj
    rw [OrdMap.find?_erase] at hj
    split_ifs at hj
    exact hj
  exact ⟨fun hj => h.keyed (hsub hj), fun hj => h.length (hsub hj), fun hj => h.nonempty (hsub hj),
    fun hj hl => h.apart (hsub hj) (hsub hl)⟩

/-- A segment that is as long as it says goes where no other is. -/
theorem SegmentsOk.insert_range (h : SegmentsOk m)
    (hlength : ds.payloadLength + ds.startByte = ds.stopByte + 1)
    (hordered : ds.startByte ≤ ds.stopByte)
    (hout : ∀ k es, m.find? k = some es → es.stopByte < ds.startByte ∨ ds.stopByte < k) :
    SegmentsOk (m.insert ds.startByte ds) := by
  have hcases : ∀ {j es}, (m.insert ds.startByte ds).find? j = some es →
      (j = ds.startByte ∧ es = ds) ∨ m.find? j = some es := by
    intro j es hj
    rw [OrdMap.find?_insert] at hj
    split_ifs at hj with hjs
    · exact Or.inl ⟨hjs, (Option.some.inj hj).symm⟩
    · exact Or.inr hj
  refine ⟨fun hj => ?_, fun hj => ?_, fun hj => ?_, fun hj hl hlt => ?_⟩
  · rcases hcases hj with ⟨rfl, rfl⟩ | hj
    · rfl
    · exact h.keyed hj
  · rcases hcases hj with ⟨rfl, rfl⟩ | hj
    · exact hlength
    · exact h.length hj
  · rcases hcases hj with ⟨rfl, rfl⟩ | hj
    · exact hordered
    · exact h.nonempty hj
  · rcases hcases hj with ⟨hk, rfl⟩ | hj' <;> rcases hcases hl with ⟨hk', rfl⟩ | hl'
    · omega
    · have := hout _ _ hl'
      have := h.nonempty hl'
      omega
    · have := hout _ _ hj'
      omega
    · exact h.apart hj' hl' hlt

theorem SegmentsOk.insert (h : SegmentsOk m) (hds : Ranged ds)
    (hout : ∀ k es, m.find? k = some es → es.stopByte < ds.startByte ∨ ds.stopByte < k) :
    SegmentsOk (m.insert ds.startByte ds) :=
  h.insert_range hds.length hds.ordered hout

theorem storedBytes_insert (hnew : m.find? ds.startByte = none) (x : ℕ) :
    x ∈ storedBytes (m.insert ds.startByte ds) ↔
      x ∈ storedBytes m ∨ (ds.startByte ≤ x ∧ x ≤ ds.stopByte) := by
  constructor
  · rintro ⟨k, es, hk, h₁, h₂⟩
    rw [OrdMap.find?_insert] at hk
    split_ifs at hk with hks
    · cases hk
      exact Or.inr ⟨hks ▸ h₁, h₂⟩
    · exact Or.inl ⟨k, es, hk, h₁, h₂⟩
  · rintro (⟨k, es, hk, h₁, h₂⟩ | ⟨h₁, h₂⟩)
    · refine ⟨k, es, ?_, h₁, h₂⟩
      rw [OrdMap.find?_insert, if_neg, hk]
      rintro rfl
      rw [hnew] at hk
      cases hk
    · exact ⟨ds.startByte, ds, by simp, h₁, h₂⟩

private theorem SegmentsOk.packing (h : SegmentsOk m) {N : ℕ}
    (hN : ∀ k ds, m.find? k = some ds → ds.stopByte < N) :
    m.sum (·.payloadLength) ≤ N ∧
      (m.sum (·.payloadLength) = N → ∀ x < N, x ∈ storedBytes m) := by
  have hfind : ∀ p ∈ m.entries, m.find? p.1 = some p.2 := fun p hp =>
    OrdMap.find?_eq_some_iff.mpr hp
  have hpw : m.entries.Pairwise (fun a b => a.2.stopByte < b.1) :=
    m.sorted.imp_of_mem fun ha hb hlt => h.apart (hfind _ ha) (hfind _ hb) hlt
  have hmap : m.sum (·.payloadLength) =
      (m.entries.map (fun p => p.2.stopByte + 1 - p.1)).sum := by
    unfold OrdMap.sum
    congr 1
    refine List.map_congr_left fun p hp => ?_
    have := h.length (hfind p hp)
    show p.2.payloadLength = p.2.stopByte + 1 - p.1
    omega
  obtain ⟨hsum, hcov⟩ := Runs.packed (fun p : ℕ × LTPDataSegment => p.1) (fun p => p.2.stopByte)
    m.entries 0 hpw (fun p hp => h.nonempty (hfind p hp)) (fun p _ => Nat.zero_le _)
    (fun p hp => hN p.1 p.2 (hfind p hp)) (Nat.zero_le N)
  rw [hmap]
  refine ⟨hsum, fun heq x hx => ?_⟩
  obtain ⟨p, hp, hpx⟩ := hcov heq x (Nat.zero_le x) hx
  exact ⟨p.1, p.2, hfind p hp, hpx⟩

theorem SegmentsOk.sum_le (h : SegmentsOk m) {N : ℕ}
    (hN : ∀ k ds, m.find? k = some ds → ds.stopByte < N) : m.sum (·.payloadLength) ≤ N :=
  (h.packing hN).1

/-- As many stored bytes as there are positions: every position is stored. -/
theorem SegmentsOk.full (h : SegmentsOk m) {N : ℕ}
    (hN : ∀ k ds, m.find? k = some ds → ds.stopByte < N)
    (hsum : m.sum (·.payloadLength) = N) (x : ℕ) (hx : x < N) : x ∈ storedBytes m :=
  (h.packing hN).2 hsum x hx

/-! ## One scan -/

namespace LTPDataSegment

variable (ds this : LTPDataSegment)

theorem trimRight_startByte : (ds.trimRight this).startByte = ds.startByte := by
  unfold trimRight
  with_reducible rfl

theorem trimRight_toLTPSegment : (ds.trimRight this).toLTPSegment = ds.toLTPSegment := by
  unfold trimRight
  with_reducible rfl

theorem trimRight_payloadLength : (ds.trimRight this).payloadLength =
    u64Sub ds.payloadLength (u64Sub (u64Sub this.startByte 1) ds.startByte) := by
  unfold trimRight
  with_reducible rfl

theorem trimRight_stopByte : (ds.trimRight this).stopByte =
    u64 (ds.startByte + u64Sub (ds.trimRight this).payloadLength 1) := by
  rw [trimRight_payloadLength]
  unfold trimRight
  with_reducible rfl

end LTPDataSegment

/-- A scan that begins with a segment below the incoming one ends at once. -/
theorem overlapScan_complete_of_below {l : List (ℕ × LTPDataSegment)}
    (h : ∀ p ∈ l, p.2.stopByte < ds.startByte) : overlapScan ds l = .complete := by
  cases l with
  | nil => rfl
  | cons p l => simp only [overlapScan, if_pos (h p List.mem_cons_self)]

/-- What a scan finds when the trimming makes progress: nothing, a stored segment to delete, or
a right end to cut. -/
theorem checkOverlap_settles (h : SegmentsOk m) (hds : Ranged ds)
    (hnew : m.find? ds.startByte = none) (hset : Settles m ds.startByte ds.stopByte) :
    (checkOverlap m ds = .complete ∧
      ∀ k es, m.find? k = some es → es.stopByte < ds.startByte ∨ ds.stopByte < k) ∨
    (∃ k old, m.find? k = some old ∧ ds.startByte < k ∧ k ≤ ds.stopByte ∧
      checkOverlap m ds = .deleted old) ∨
    ∃ k old, m.find? k = some old ∧ ds.startByte < k ∧ k ≤ ds.stopByte ∧
      ds.stopByte < old.stopByte ∧
      checkOverlap m ds = .adjusted (ds.trimRight old) ∧
      (ds.trimRight old).payloadLength < ds.payloadLength ∧
      (ds.trimRight old).stopByte < ds.stopByte ∧ Ranged (ds.trimRight old) ∧
      Settles m ds.startByte (ds.trimRight old).stopByte := by
  have hlen := hds.length
  have hord := hds.ordered
  have hbound := hds.bound
  have hbelow : ∀ k es, m.find? k = some es → k ≤ ds.startByte → es.stopByte < ds.startByte := by
    intro k es hk hks
    refine (hset k es hk).1 (lt_of_le_of_ne hks ?_)
    rintro rfl
    rw [hnew] at hk
    cases hk
  unfold checkOverlap scanOrder
  cases hub : m.upperBound? ds.startByte with
  | none =>
    have hnone := OrdMap.upperBound?_eq_none hub
    have hall : ∀ k es, m.find? k = some es → es.stopByte < ds.startByte := by
      intro k es hk
      refine hbelow k es hk ?_
      by_contra hlt
      rw [hnone k (by omega)] at hk
      cases hk
    refine Or.inl ⟨overlapScan_complete_of_below fun p hp => ?_, fun k es hk => Or.inl (hall k es hk)⟩
    exact hall p.1 p.2 (OrdMap.find?_eq_some_iff.mpr (List.mem_reverse.mp hp))
  | some kv =>
    obtain ⟨k, this⟩ := kv
    obtain ⟨hk, hlt, hgap⟩ := OrdMap.upperBound?_eq_some hub
    have hkey := h.keyed hk
    have hne := h.nonempty hk
    simp only
    rw [OrdMap.entries_upto_reverse hk]
    simp only [overlapScan]
    rw [if_neg (by omega)]
    have hleft : decide (this.startByte ≤ ds.startByte) = false := decide_eq_false (by omega)
    simp only [hleft, Bool.and_false, Bool.false_and, Bool.false_eq_true, if_false]
    by_cases hkstop : k ≤ ds.stopByte
    · refine Or.inr ?_
      by_cases hin : this.stopByte ≤ ds.stopByte
      · refine Or.inl ⟨k, this, hk, hlt, hkstop, ?_⟩
        rw [if_pos ⟨by omega, hin⟩]
      · -- the second byte of the range is free, so the cut shortens the range
        have hsecond : k ≠ ds.startByte + 1 := fun heq => hin ((hset k this hk).2 heq hkstop)
        have hright : (decide (ds.stopByte ≤ this.stopByte) &&
            decide (this.startByte ≤ ds.stopByte)) = true := by
          simp only [Bool.and_eq_true, decide_eq_true_eq]
          omega
        have hadjust : u64Sub (u64Sub this.startByte 1) ds.startByte = k - 1 - ds.startByte := by
          have hbefore : u64Sub this.startByte 1 = k - 1 := by
            rw [u64Sub_of_le (by omega) (by omega), hkey]
          rw [hbefore, u64Sub_of_le (by omega) (by omega)]
        have hcut : (ds.trimRight this).payloadLength =
            ds.payloadLength - (k - 1 - ds.startByte) := by
          rw [ds.trimRight_payloadLength, hadjust, u64Sub_of_le (by omega) (by omega)]
        have hstop : (ds.trimRight this).stopByte = ds.stopByte - (k - 1 - ds.startByte) := by
          rw [ds.trimRight_stopByte, hcut, u64Sub_of_le (by omega) (by omega), u64_of_lt (by omega)]
          omega
        have hstart := ds.trimRight_startByte this
        refine Or.inr ⟨k, this, hk, hlt, hkstop, by omega, ?_, by omega, by omega,
          ⟨by omega, by omega, by omega⟩, fun j es hj => ⟨(hset j es hj).1, fun hj' _ => ?_⟩⟩
        · rw [if_neg (by omega), if_pos hright]
        · rw [hgap j (by omega) (by omega)] at hj
          cases hj
    · have hright : decide (this.startByte ≤ ds.stopByte) = false := decide_eq_false (by omega)
      simp only [hright, Bool.and_false, Bool.false_eq_true, if_false]
      rw [if_neg (by omega)]
      refine Or.inl ⟨overlapScan_complete_of_below fun p hp => ?_, fun j es hj => ?_⟩
      · obtain ⟨hp, hpk⟩ := List.mem_filter.mp (List.mem_reverse.mp hp)
        have hpf := OrdMap.find?_eq_some_iff.mpr hp
        refine hbelow p.1 p.2 hpf ?_
        by_contra hgt
        rw [hgap p.1 (by omega) (of_decide_eq_true hpk)] at hpf
        cases hpf
      · rcases Nat.lt_or_ge ds.startByte j with hj' | hj'
        · have : k ≤ j := by
            by_contra hjk
            rw [hgap j hj' (by omega)] at hj
            cases hj
          exact Or.inr (by omega)
        · exact Or.inl (hbelow j es hj hj')

/-! ## The loop -/

/-- A segment map after trimming, and the segment to put into it. -/
structure Trimmed (m m' : OrdMap ℕ LTPDataSegment) (ds ds' : LTPDataSegment) : Prop where
  segments : SegmentsOk m'
  kept : ∀ k es, m'.find? k = some es → m.find? k = some es
  ranged : Ranged ds'
  start : ds'.startByte = ds.startByte
  stop : ds'.stopByte ≤ ds.stopByte
  flags : ds'.toLTPSegment = ds.toLTPSegment
  apart : ∀ k es, m'.find? k = some es → es.stopByte < ds'.startByte ∨ ds'.stopByte < k
  whole : (∀ k es, m.find? k = some es → es.stopByte ≤ ds.stopByte) → ds' = ds
  untouched : (∀ k es, m.find? k = some es → es.stopByte < ds.startByte ∨ ds.stopByte < k) →
    m' = m ∧ ds' = ds

/-- Where it makes progress, the loop ends, with the byte count in step. -/
theorem trimLoop_settles (fuel : ℕ) (h : SegmentsOk m) (hds : Ranged ds)
    (hnew : m.find? ds.startByte = none) (hset : Settles m ds.startByte ds.stopByte)
    (hfuel : m.size + ds.payloadLength < fuel) (hsum : m.sum (·.payloadLength) < 2 ^ 64) :
    ∃ m' ds', trimLoop fuel m (m.sum (·.payloadLength)) ds =
        .ok ⟨true, m', m'.sum (·.payloadLength), ds'⟩ ∧ Trimmed m m' ds ds' := by
  induction fuel generalizing m ds with
  | zero => exact absurd hfuel (Nat.not_lt_zero _)
  | succ fuel ih =>
    rcases checkOverlap_settles h hds hnew hset with
      ⟨hc, hout⟩ | ⟨k, old, hk, hsk, hks, hc⟩ |
      ⟨k, old, hk, hsk, hks, hpast, hc, hlen, hstop, hr, hset'⟩
    · refine ⟨m, ds, ?_, h, fun _ _ hk => hk, hds, rfl, le_rfl, rfl, hout, fun _ => rfl,
        fun _ => ⟨rfl, rfl⟩⟩
      simp only [trimLoop, hc]
    · have hkey := h.keyed hk
      have hsplit := OrdMap.sum_erase (·.payloadLength) hk
      have hsub : ∀ j es, (m.erase k).find? j = some es → m.find? j = some es := by
        intro j es hj
        rw [OrdMap.find?_erase] at hj
        split_ifs at hj
        exact hj
      have hsize := OrdMap.size_erase hk
      obtain ⟨m', ds', hloop, ht⟩ := ih (m := m.erase k) (h.erase k) hds
        (by rw [OrdMap.find?_erase, if_neg (by omega), hnew])
        (fun j es hj => hset j es (hsub j es hj)) (by omega) (by omega)
      refine ⟨m', ds', ?_, { ht with
        kept := fun j es hj => hsub j es (ht.kept j es hj)
        whole := fun hall => ht.whole fun j es hj => hall j es (hsub j es hj)
        untouched := fun hout => absurd (hout k old hk) (by
          have := h.nonempty hk
          omega) }⟩
      simp only [trimLoop, hc, hkey]
      rw [u64Sub_of_le hsum (by omega), hsplit, Nat.add_sub_cancel_left]
      exact hloop
    · have hstart := ds.trimRight_startByte old
      obtain ⟨m', ds', hloop, ht⟩ := ih h hr (by rw [hstart, hnew])
        (by rw [hstart]; exact hset') (by omega) hsum
      refine ⟨m', ds', ?_, { ht with
        start := ht.start.trans hstart
        flags := ht.flags.trans (ds.trimRight_toLTPSegment old)
        stop := ht.stop.trans hstop.le
        whole := fun hall => ?_
        untouched := fun hout => absurd (hout k old hk) (by omega) }⟩
      · simp only [trimLoop, hc]
        exact hloop
      · have := hall k old hk
        omega

end Dtnme.Ltp
