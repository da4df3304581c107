import Dtnme.Ltp.Reception

/-! # When trimming is exact

Every stored map and every incoming range, also those on which the trimming loop repeats
for ever, returns early or loses bytes. The loop first deletes what the range holds whole,
then shortens the range by the distance to a segment that reaches past its end, and comes
to rest, or not, at a segment that holds the first byte.
-/

namespace Dtnme.Ltp
open Library

/-- The range of an incoming segment, as the parser sets it. -/
structure Formed (ds : LTPDataSegment) : Prop where
  offset : ds.offset = ds.startByte
  length : ds.payloadLength < 2 ^ 64
  fits : ds.startByte + ds.payloadLength ≤ 2 ^ 64
  stop : ds.stopByte = u64Sub (u64 (ds.startByte + ds.payloadLength)) 1

/-- The positions of the payload. -/
def LTPDataSegment.bytes (ds : LTPDataSegment) : Set ℕ :=
  {x | ds.startByte ≤ x ∧ x < ds.startByte + ds.payloadLength}

/-- What trimming promises of its result: the range clear of the map, with its own payload bytes,
and no byte more or less than before; or a map that held the range already. -/
structure TrimExact (m : OrdMap ℕ LTPDataSegment) (redBytes : ℕ) (ds : LTPDataSegment)
    (r : TrimResult) : Prop where
  apart : r.insert = true → Disjoint r.ds.bytes (storedBytes r.segments)
  union : r.insert = true → storedBytes r.segments ∪ r.ds.bytes = storedBytes m ∪ ds.bytes
  payload : r.insert = true → ds.startByte ≤ r.ds.startByte ∧
    r.ds.payload.take r.ds.payloadLength =
      (ds.payload.drop (r.ds.startByte - ds.startByte)).take r.ds.payloadLength
  unchanged : r.insert = false → r.segments = m ∧ ds.bytes ⊆ storedBytes m
  green : ds.redGreen = .green → r.redBytes = redBytes

/-- The trimming returns, with an exact result. -/
def Trims (m : OrdMap ℕ LTPDataSegment) (redBytes : ℕ) (ds : LTPDataSegment) : Prop :=
  ∃ r, checkAndTrim m redBytes ds = .ok r ∧ TrimExact m redBytes ds r

/-- Some stored segment begins before the range and holds its first byte. -/
def HoldsFirst (m : OrdMap ℕ LTPDataSegment) (ds es : LTPDataSegment) : Prop :=
  m.find? es.startByte = some es ∧ es.startByte < ds.startByte ∧ ds.startByte ≤ es.stopByte

/-- The stored segments inside the range, behind its first byte. -/
def Inside (m : OrdMap ℕ LTPDataSegment) (ds : LTPDataSegment) (k : ℕ) (es : LTPDataSegment) : Prop :=
  m.find? k = some es ∧ ds.startByte < k ∧ es.stopByte ≤ ds.stopByte

/-- A stored segment begins behind the first byte of the range and reaches past its end. -/
def Straddles (m : OrdMap ℕ LTPDataSegment) (ds : LTPDataSegment) (k : ℕ) (es : LTPDataSegment) :
    Prop :=
  m.find? k = some es ∧ ds.startByte < k ∧ k ≤ ds.stopByte ∧ ds.stopByte < es.stopByte

/-- The condition on a range that no stored segment begins with. -/
def TrimsWell (m : OrdMap ℕ LTPDataSegment) (ds : LTPDataSegment) : Prop :=
  (∃ es, HoldsFirst m ds es ∧ (ds.stopByte ≤ es.stopByte ∨
    ds.startByte < es.stopByte ∧ ∃ fs, Straddles m ds (es.stopByte + 1) fs)) ∨
  (∀ es, ¬ HoldsFirst m ds es) ∧
    (∀ k es, Straddles m ds k es →
      ds.startByte + 1 < k ∧ (k - 1 - ds.startByte) ∣ (ds.stopByte - ds.startByte)) ∧
    (ds.redGreen = .green → ∀ k es, ¬ Inside m ds k es)

/-- The condition for an exact result. -/
def Trimmable (m : OrdMap ℕ LTPDataSegment) (ds : LTPDataSegment) : Prop :=
  if ds.payloadLength = 0 then ds.startByte = 0 → m.find? 0 ≠ none ∨ ∀ k, m.find? k = none
  else if m.find? ds.startByte = none then TrimsWell m ds
  else ds.bytes ⊆ storedBytes m

variable {m : OrdMap ℕ LTPDataSegment} {ds : LTPDataSegment}

theorem Formed.stop_of_pos (h : Formed ds) (hpos : 0 < ds.payloadLength) :
    ds.stopByte + 1 = ds.startByte + ds.payloadLength := by
  have hfits := h.fits
  rw [h.stop]
  unfold u64Sub u64
  omega

theorem Formed.stop_of_empty (h : Formed ds) (hempty : ds.payloadLength = 0) :
    ds.stopByte = if ds.startByte = 0 then 2 ^ 64 - 1 else ds.startByte - 1 := by
  have hfits := h.fits
  rw [h.stop, hempty]
  unfold u64Sub u64
  split_ifs <;> omega

theorem Formed.stop_lt (h : Formed ds) : ds.stopByte < 2 ^ 64 := by
  rw [h.stop]
  unfold u64Sub
  exact u64_lt _

theorem Formed.bytes_eq (h : Formed ds) (hpos : 0 < ds.payloadLength) :
    ds.bytes = {x | ds.startByte ≤ x ∧ x ≤ ds.stopByte} := by
  have := h.stop_of_pos hpos
  ext x
  change ds.startByte ≤ x ∧ x < ds.startByte + ds.payloadLength ↔ ds.startByte ≤ x ∧ x ≤ ds.stopByte
  omega

/-! ## One scan -/

/-- Below the first byte only the last stored segment can matter. -/
theorem overlapScan_below {l : List (ℕ × LTPDataSegment)} (h : SegmentsOk m)
    (hmem : ∀ p ∈ l, m.find? p.1 = some p.2) (hlt : ∀ p ∈ l, p.1 < ds.startByte)
    (hall : ∀ k es, m.find? k = some es → k < ds.startByte → (k, es) ∈ l)
    (hdesc : l.Pairwise fun a b => b.1 < a.1) :
    (overlapScan ds l = .complete ∧ ∀ es, ¬ HoldsFirst m ds es) ∨
    ∃ es, HoldsFirst m ds es ∧
      ((ds.stopByte ≤ es.stopByte → es.startByte ≤ ds.stopByte → overlapScan ds l = .duplicate) ∧
        (es.stopByte < ds.stopByte → overlapScan ds l = .adjusted (ds.trimLeft es))) := by
  cases l with
  | nil =>
    refine Or.inl ⟨rfl, ?_⟩
    rintro es ⟨hes, hbefore, -⟩
    exact absurd (hall _ es hes hbefore) (List.not_mem_nil)
  | cons p l =>
    obtain ⟨k, es⟩ := p
    have hk : m.find? k = some es := hmem _ List.mem_cons_self
    have hks : k < ds.startByte := hlt _ List.mem_cons_self
    have hkey := h.keyed hk
    obtain ⟨hhead, -⟩ := List.pairwise_cons.mp hdesc
    by_cases hhold : ds.startByte ≤ es.stopByte
    · refine Or.inr ⟨es, ⟨hkey ▸ hk, hkey ▸ hks, hhold⟩, ?_, ?_⟩
      · intro hstop hle
        simp only [overlapScan]
        rw [if_neg (by omega), if_pos]
        simp only [Bool.and_eq_true, decide_eq_true_eq]
        omega
      · intro hstop
        simp only [overlapScan]
        have hright : decide (ds.stopByte ≤ es.stopByte) = false := decide_eq_false (by omega)
        rw [if_neg (by omega)]
        simp only [hright, Bool.false_and, Bool.and_false, Bool.false_eq_true, if_false]
        rw [if_neg (by omega), if_pos]
        simp only [Bool.and_eq_true, decide_eq_true_eq]
        omega
    · refine Or.inl ⟨?_, ?_⟩
      · simp only [overlapScan]
        rw [if_pos (by omega)]
      · rintro fs ⟨hfs, hbefore, hfirst⟩
        rcases List.mem_cons.mp (hall _ fs hfs hbefore) with heq | hin
        · cases heq
          exact hhold hfirst
        · have hlow := hhead _ hin
          have := h.apart hfs hk hlow
          omega

/-- What a scan finds: the first segment that begins inside the range, or else the segment that
holds the first byte, or nothing. -/
theorem checkOverlap_cases (h : SegmentsOk m) (hnew : m.find? ds.startByte = none) :
    (∃ k es, m.find? k = some es ∧ ds.startByte < k ∧ k ≤ ds.stopByte ∧
      (∀ i, ds.startByte < i → i < k → m.find? i = none) ∧
      ((es.stopByte ≤ ds.stopByte ∧ checkOverlap m ds = .deleted es) ∨
        (ds.stopByte < es.stopByte ∧ checkOverlap m ds = .adjusted (ds.trimRight es)))) ∨
    (∀ k es, m.find? k = some es → ds.startByte < k → ds.stopByte < k) ∧
      ((checkOverlap m ds = .complete ∧ ∀ es, ¬ HoldsFirst m ds es) ∨
        ∃ es, HoldsFirst m ds es ∧
          ((ds.stopByte ≤ es.stopByte → es.startByte ≤ ds.stopByte →
              checkOverlap m ds = .duplicate) ∧
            (es.stopByte < ds.stopByte → checkOverlap m ds = .adjusted (ds.trimLeft es)))) := by
  have hbefore : ∀ k es, m.find? k = some es → ¬ ds.startByte < k → k < ds.startByte := by
    intro k es hk hle
    apply lt_of_le_of_ne (not_lt.mp hle)
    rintro rfl
    rw [hnew] at hk
    cases hk
  have hsorted : m.entries.reverse.Pairwise fun a b => b.1 < a.1 := by
    rw [List.pairwise_reverse]
    exact m.sorted
  unfold checkOverlap scanOrder
  cases hub : m.upperBound? ds.startByte with
  | none =>
    have hnone := OrdMap.upperBound?_eq_none hub
    refine Or.inr ⟨?_, ?_⟩
    · intro k es hk hlt
      rw [hnone k hlt] at hk
      cases hk
    · apply overlapScan_below h
      · intro p hp
        exact OrdMap.find?_eq_some_iff.mpr (List.mem_reverse.mp hp)
      · intro p hp
        have hfind := OrdMap.find?_eq_some_iff.mpr (List.mem_reverse.mp hp)
        apply hbefore p.1 p.2 hfind
        intro hlt
        rw [hnone _ hlt] at hfind
        cases hfind
      · intro k es hk _
        exact List.mem_reverse.mpr (OrdMap.find?_eq_some_iff.mp hk)
      · exact hsorted
  | some kv =>
    obtain ⟨k, es⟩ := kv
    obtain ⟨hk, hlt, hgap⟩ := OrdMap.upperBound?_eq_some hub
    have hkey := h.keyed hk
    have hne := h.nonempty hk
    simp only
    rw [OrdMap.entries_upto_reverse hk]
    simp only [overlapScan]
    rw [if_neg (by omega)]
    have hleft : decide (es.startByte ≤ ds.startByte) = false := decide_eq_false (by omega)
    simp only [hleft, Bool.and_false, Bool.false_and, Bool.false_eq_true, if_false]
    by_cases hkstop : k ≤ ds.stopByte
    · refine Or.inl ⟨k, es, hk, hlt, hkstop, hgap, ?_⟩
      by_cases hin : es.stopByte ≤ ds.stopByte
      · exact Or.inl ⟨hin, if_pos ⟨by omega, hin⟩⟩
      · refine Or.inr ⟨by omega, ?_⟩
        rw [if_neg (by omega), if_pos]
        simp only [Bool.and_eq_true, decide_eq_true_eq]
        omega
    · have hright : decide (es.startByte ≤ ds.stopByte) = false := decide_eq_false (by omega)
      simp only [hright, Bool.and_false, Bool.false_eq_true, if_false]
      rw [if_neg (by omega)]
      refine Or.inr ⟨?_, ?_⟩
      · intro i fs hi hi'
        by_contra hle
        rw [hgap i hi' (by omega)] at hi
        cases hi
      · apply overlapScan_below h
        · intro p hp
          exact OrdMap.find?_eq_some_iff.mpr (List.mem_filter.mp (List.mem_reverse.mp hp)).1
        · intro p hp
          obtain ⟨hp, hpk⟩ := List.mem_filter.mp (List.mem_reverse.mp hp)
          have hfind := OrdMap.find?_eq_some_iff.mpr hp
          apply hbefore p.1 p.2 hfind
          intro hgt
          rw [hgap p.1 hgt (of_decide_eq_true hpk)] at hfind
          cases hfind
        · intro i fs hi hi'
          refine List.mem_reverse.mpr (List.mem_filter.mpr ⟨OrdMap.find?_eq_some_iff.mp hi, ?_⟩)
          exact decide_eq_true (by omega)
        · rw [List.pairwise_reverse]
          exact m.sorted.filter _

/-! ## The loop -/

/-- A round that changes nothing is repeated for ever. -/
theorem trimLoop_fixed (hfixed : checkOverlap m ds = .adjusted ds) (fuel redBytes : ℕ) :
    trimLoop fuel m redBytes ds = .error .noReturn := by
  induction fuel with
  | zero => rfl
  | succ fuel ih =>
    simp only [trimLoop, hfixed]
    exact ih

/-- The segments inside the range are deleted one by one. -/
structure Cleared (m m' : OrdMap ℕ LTPDataSegment) (ds : LTPDataSegment) : Prop where
  segments : SegmentsOk m'
  find : ∀ k es, m'.find? k = some es ↔ m.find? k = some es ∧ ¬ Inside m ds k es
  size : m'.size ≤ m.size

theorem Cleared.refl (h : SegmentsOk m) (hnone : ∀ k es, ¬ Inside m ds k es) : Cleared m m ds :=
  ⟨h, fun k es => ⟨fun hk => ⟨hk, hnone k es⟩, fun hk => hk.1⟩, le_rfl⟩

theorem u64_u64Sub_add {a b : ℕ} (ha : a < 2 ^ 64) : u64 (u64Sub a b + b) = a := by
  unfold u64Sub u64
  omega

/-- If the first segment behind the first byte is not inside the range, none is. -/
theorem not_inside_of_first (h : SegmentsOk m) {k : ℕ} {es : LTPDataSegment}
    (hk : m.find? k = some es) (hgap : ∀ i, ds.startByte < i → i < k → m.find? i = none)
    (hpast : ds.stopByte < es.stopByte) (j : ℕ) (fs : LTPDataSegment) : ¬ Inside m ds j fs := by
  rintro ⟨hj, hsj, hin⟩
  have hne := h.nonempty hj
  rcases lt_trichotomy j k with hjk | rfl | hjk
  · rw [hgap j hsj hjk] at hj
    cases hj
  · cases hk.symm.trans hj
    omega
  · have := h.apart hk hj hjk
    omega

private theorem trimLoop_deletes_from (fuel redBytes a : ℕ) (h : SegmentsOk m)
    (hnew : m.find? ds.startByte = none) (hred : redBytes < 2 ^ 64)
    (hfuel : m.size + ds.payloadLength < fuel) (ha : ds.startByte < a) (hat : a ≤ ds.stopByte + 1)
    (hlow : ∀ k es, Inside m ds k es → a ≤ k) :
    ∃ m' redBytes' fuel' deleted, Cleared m m' ds ∧ m'.size + ds.payloadLength < fuel' ∧
      trimLoop fuel m redBytes ds = trimLoop fuel' m' redBytes' ds ∧
      redBytes' < 2 ^ 64 ∧ u64 (redBytes' + deleted) = redBytes ∧
      deleted ≤ ds.stopByte + 1 - a ∧
      ((∀ k es, ¬ Inside m ds k es) → m' = m ∧ redBytes' = redBytes) ∧
      ((∃ k es, Inside m ds k es) → 0 < deleted) := by
  induction fuel generalizing m redBytes a with
  | zero => exact absurd hfuel (Nat.not_lt_zero _)
  | succ fuel ih =>
    have hdone (hnone : ∀ k es, ¬ Inside m ds k es) :
        ∃ m' redBytes' fuel' deleted, Cleared m m' ds ∧ m'.size + ds.payloadLength < fuel' ∧
          trimLoop (fuel + 1) m redBytes ds = trimLoop fuel' m' redBytes' ds ∧
          redBytes' < 2 ^ 64 ∧ u64 (redBytes' + deleted) = redBytes ∧
          deleted ≤ ds.stopByte + 1 - a ∧
          ((∀ k es, ¬ Inside m ds k es) → m' = m ∧ redBytes' = redBytes) ∧
          ((∃ k es, Inside m ds k es) → 0 < deleted) :=
      ⟨m, redBytes, fuel + 1, 0, Cleared.refl h hnone, hfuel, rfl, hred, u64_of_lt hred,
        Nat.zero_le _, fun _ => ⟨rfl, rfl⟩, fun ⟨k, es, hin⟩ => absurd hin (hnone k es)⟩
    rcases checkOverlap_cases h hnew with
      ⟨k, es, hk, hsk, hkt, hgap, ⟨hin, hc⟩ | ⟨hpast, -⟩⟩ | ⟨hfar, -⟩
    · have hkey := h.keyed hk
      have hlen := h.length hk
      have hne := h.nonempty hk
      have hak := hlow k es ⟨hk, hsk, hin⟩
      have hsize := OrdMap.size_erase hk
      have hsub : ∀ j fs, (m.erase k).find? j = some fs ↔ j ≠ k ∧ m.find? j = some fs := by
        intro j fs
        rw [OrdMap.find?_erase]
        split_ifs with hjk <;> simp [hjk]
      have hinside : ∀ j fs, Inside (m.erase k) ds j fs ↔ j ≠ k ∧ Inside m ds j fs := by
        intro j fs
        simp only [Inside, hsub]
        tauto
      have hlow' : ∀ j fs, Inside (m.erase k) ds j fs → es.stopByte + 1 ≤ j := by
        intro j fs hj
        obtain ⟨hjk, hj⟩ := (hinside j fs).mp hj
        have hlt : k < j := by
          apply lt_of_le_of_ne ?_ (Ne.symm hjk)
          by_contra hjlt
          have := hgap j hj.2.1 (not_le.mp hjlt)
          rw [hj.1] at this
          cases this
        exact h.apart hk hj.1 hlt
      obtain ⟨m', red', fuel', deleted, hcl, hfuel', hloop, hred', hsum, hdel, hnone, hsome⟩ :=
        ih (u64Sub redBytes es.payloadLength) (es.stopByte + 1) (h.erase k)
          (by rw [OrdMap.find?_erase, if_neg (by omega), hnew])
          (by unfold u64Sub; exact u64_lt _) (by omega) (by omega) (by omega) hlow'
      refine ⟨m', red', fuel', deleted + es.payloadLength, ⟨hcl.segments, ?_, ?_⟩, hfuel', ?_,
        hred', ?_, by omega, ?_, ?_⟩
      · intro j fs
        rw [hcl.find, hsub, hinside]
        constructor
        · rintro ⟨⟨hjk, hj⟩, hnot⟩
          exact ⟨hj, fun hjin => hnot ⟨hjk, hjin⟩⟩
        · rintro ⟨hj, hnot⟩
          refine ⟨⟨?_, hj⟩, fun hjin => hnot hjin.2⟩
          rintro rfl
          cases hk.symm.trans hj
          exact hnot ⟨hk, hsk, hin⟩
      · exact le_trans hcl.size (by omega)
      · simp only [trimLoop, hc, hkey]
        exact hloop
      · rw [← Nat.add_assoc]
        have := u64_u64Sub_add (b := es.payloadLength) hred
        rw [← hsum] at this
        unfold u64 at this ⊢
        omega
      · intro hnone'
        exact absurd ⟨hk, hsk, hin⟩ (hnone' k es)
      · intro _
        omega
    · exact hdone (not_inside_of_first h hk hgap hpast)
    · apply hdone
      rintro j fs ⟨hj, hsj, hin⟩
      have := hfar j fs hj hsj
      have := h.nonempty hj
      omega

/-- The deletions come first, and the red byte counter loses their lengths. -/
theorem trimLoop_deletes (fuel redBytes : ℕ) (h : SegmentsOk m) (hnew : m.find? ds.startByte = none)
    (hord : ds.startByte ≤ ds.stopByte) (hstop : ds.stopByte < 2 ^ 64) (hred : redBytes < 2 ^ 64)
    (hfuel : m.size + ds.payloadLength < fuel) :
    ∃ m' redBytes' fuel', Cleared m m' ds ∧ m'.size + ds.payloadLength < fuel' ∧
      trimLoop fuel m redBytes ds = trimLoop fuel' m' redBytes' ds ∧
      ((∀ k es, ¬ Inside m ds k es) → m' = m ∧ redBytes' = redBytes) ∧
      ((∃ k es, Inside m ds k es) → redBytes' ≠ redBytes) := by
  obtain ⟨m', red', fuel', deleted, hcl, hfuel', hloop, hred', hsum, hdel, hnone, hsome⟩ :=
    trimLoop_deletes_from fuel redBytes (ds.startByte + 1) h hnew hred hfuel (Nat.lt_succ_self _)
      (by omega) fun k es hin => hin.2.1
  refine ⟨m', red', fuel', hcl, hfuel', hloop, hnone, ?_⟩
  intro hin heq
  have hpos := hsome hin
  rw [heq] at hsum
  unfold u64 at hsum
  omega

/-- The range after its right end was cut. -/
def LTPDataSegment.withStop (ds : LTPDataSegment) (stop : ℕ) : LTPDataSegment :=
  { ds with payloadLength := stop + 1 - ds.startByte, stopByte := stop }

theorem Formed.withStop (h : Formed ds) (hpos : 0 < ds.payloadLength) {stop : ℕ}
    (hord : ds.startByte ≤ stop) (hstop : stop ≤ ds.stopByte) : Formed (ds.withStop stop) := by
  have hlt := h.stop_lt
  have hlen := h.length
  have heq := h.stop_of_pos hpos
  constructor
  · exact h.offset
  · simp only [LTPDataSegment.withStop]
    omega
  · simp only [LTPDataSegment.withStop]
    omega
  · simp only [LTPDataSegment.withStop]
    unfold u64Sub u64
    omega

theorem trimRight_eq (hds : Formed ds) (hpos : 0 < ds.payloadLength) {k : ℕ} {es : LTPDataSegment}
    (hkey : es.startByte = k) (hsk : ds.startByte < k) (hkt : k ≤ ds.stopByte) :
    ds.trimRight es = ds.withStop (ds.stopByte - (k - 1 - ds.startByte)) := by
  have hstop := hds.stop_of_pos hpos
  have hlt := hds.stop_lt
  have hlength := hds.length
  have hdist : u64Sub (u64Sub es.startByte 1) ds.startByte = k - 1 - ds.startByte := by
    rw [hkey, u64Sub_of_le (by omega : k < 2 ^ 64) (by omega), u64Sub_of_le (by omega) (by omega)]
  have hlen : u64Sub ds.payloadLength (k - 1 - ds.startByte) =
      ds.stopByte - (k - 1 - ds.startByte) + 1 - ds.startByte := by
    rw [u64Sub_of_le hlength (by omega)]
    omega
  have hend : u64 (ds.startByte +
      u64Sub (ds.stopByte - (k - 1 - ds.startByte) + 1 - ds.startByte) 1) =
      ds.stopByte - (k - 1 - ds.startByte) := by
    rw [u64Sub_of_le (by omega) (by omega), u64_of_lt (by omega)]
    omega
  unfold LTPDataSegment.trimRight LTPDataSegment.withStop
  simp only [hdist, hlen, hend]

/-- The cut is repeated until the end lies before the segment that reaches past it. -/
theorem trimLoop_cuts (fuel redBytes : ℕ) (h : SegmentsOk m) (hnew : m.find? ds.startByte = none)
    (hds : Formed ds) (hpos : 0 < ds.payloadLength) {k : ℕ} {es : LTPDataSegment}
    (hk : m.find? k = some es) (hsk : ds.startByte + 1 < k) (hkt : k ≤ ds.stopByte)
    (hpast : ds.stopByte < es.stopByte) (hgap : ∀ i, ds.startByte < i → i < k → m.find? i = none)
    (hfuel : m.size + ds.payloadLength < fuel) :
    ∃ stop fuel' j, ds.stopByte = stop + j * (k - 1 - ds.startByte) ∧ ds.startByte < stop ∧
      stop < k ∧ 0 < j ∧ m.size + (ds.withStop stop).payloadLength < fuel' ∧
      trimLoop fuel m redBytes ds = trimLoop fuel' m redBytes (ds.withStop stop) := by
  induction fuel generalizing ds with
  | zero => exact absurd hfuel (Nat.not_lt_zero _)
  | succ fuel ih =>
    have hkey := h.keyed hk
    have hlen := hds.stop_of_pos hpos
    have hcut : checkOverlap m ds = .adjusted (ds.trimRight es) := by
      rcases checkOverlap_cases h hnew with
        ⟨i, fs, hi, hsi, -, hgapi, hcase⟩ | ⟨hfar, -⟩
      · have hik : i = k := by
          apply le_antisymm
          · by_contra hlt
            rw [hgapi k (by omega) (by omega)] at hk
            cases hk
          · by_contra hlt
            rw [hgap i hsi (by omega)] at hi
            cases hi
        subst hik
        cases hk.symm.trans hi
        exact hcase.elim (fun hin => absurd hin.1 (by omega)) fun hadj => hadj.2
      · exact absurd (hfar k es hk (by omega)) (by omega)
    rw [trimRight_eq hds hpos hkey (by omega) hkt] at hcut
    have hround : trimLoop (fuel + 1) m redBytes ds =
        trimLoop fuel m redBytes (ds.withStop (ds.stopByte - (k - 1 - ds.startByte))) := by
      simp only [trimLoop, hcut]
    by_cases hdone : ds.stopByte - (k - 1 - ds.startByte) < k
    · refine ⟨_, fuel, 1, ?_, ?_, hdone, Nat.one_pos, ?_, hround⟩
      · omega
      · omega
      · simp only [LTPDataSegment.withStop]
        omega
    · have hnew' : m.find? (ds.withStop (ds.stopByte - (k - 1 - ds.startByte))).startByte = none :=
        hnew
      have hformed : Formed (ds.withStop (ds.stopByte - (k - 1 - ds.startByte))) :=
        hds.withStop hpos (by omega) (Nat.sub_le _ _)
      obtain ⟨stop, fuel', j, heq, hlow, hhigh, hj, hfuel', hloop⟩ :=
        ih hnew' hformed
          (by simp only [LTPDataSegment.withStop]; omega) hsk (not_lt.mp hdone)
          (by simp only [LTPDataSegment.withStop]; omega) hgap
          (by simp only [LTPDataSegment.withStop]; omega)
      refine ⟨stop, fuel', j + 1, ?_, hlow, hhigh, Nat.succ_pos j, hfuel', hround.trans hloop⟩
      simp only [LTPDataSegment.withStop] at heq
      rw [Nat.add_mul, Nat.one_mul]
      omega

theorem HoldsFirst.unique {es fs : LTPDataSegment} (h : SegmentsOk m) (hes : HoldsFirst m ds es)
    (hfs : HoldsFirst m ds fs) : es = fs := by
  obtain ⟨hfind, hlt, hle⟩ := hes
  obtain ⟨hfind', hlt', hle'⟩ := hfs
  rcases lt_trichotomy es.startByte fs.startByte with hcmp | hcmp | hcmp
  · have := h.apart hfind hfind' hcmp
    omega
  · rw [hcmp] at hfind
    exact Option.some.inj (hfind.symm.trans hfind')
  · have := h.apart hfind' hfind hcmp
    omega

theorem withStop_self (hds : Formed ds) (hpos : 0 < ds.payloadLength) :
    ds.withStop ds.stopByte = ds := by
  have hlen : ds.stopByte + 1 - ds.startByte = ds.payloadLength := by
    have := hds.stop_of_pos hpos
    omega
  unfold LTPDataSegment.withStop
  rw [hlen]

/-- Cutting the front leaves the byte that the range shares with the stored segment. -/
theorem trimLeft_eq (hds : Formed ds) (hpos : 0 < ds.payloadLength) {es : LTPDataSegment}
    (hle : ds.startByte ≤ es.stopByte) (hlt : es.stopByte < ds.stopByte) :
    ds.trimLeft es = { ds with
      payload := ds.payload.drop (es.stopByte - ds.startByte)
      offset := es.stopByte
      payloadLength := ds.stopByte + 1 - es.stopByte
      startByte := es.stopByte } := by
  have hstop := hds.stop_of_pos hpos
  have hbound := hds.stop_lt
  have hlength := hds.length
  have hadjust : u64Sub es.stopByte ds.offset = es.stopByte - ds.startByte := by
    rw [hds.offset, u64Sub_of_le (by omega) hle]
  have hoffset : u64 (ds.offset + (es.stopByte - ds.startByte)) = es.stopByte := by
    rw [hds.offset, Nat.add_sub_cancel' hle, u64_of_lt (by omega)]
  have hlen : u64Sub ds.payloadLength (es.stopByte - ds.startByte) =
      ds.stopByte + 1 - es.stopByte := by
    rw [u64Sub_of_le hlength (by omega)]
    omega
  have hend : u64Sub (u64 (es.stopByte + (ds.stopByte + 1 - es.stopByte))) 1 = ds.stopByte := by
    unfold u64Sub u64
    omega
  unfold LTPDataSegment.trimLeft
  simp only [hadjust, hoffset, hlen, hend]

/-- With a segment across the first byte and none behind it, the front is cut down to the shared
byte and then for ever by nothing. -/
theorem trimLoop_stuck (h : SegmentsOk m) (hnew : m.find? ds.startByte = none) (hds : Formed ds)
    (hpos : 0 < ds.payloadLength) (hfar : ∀ k es, m.find? k = some es → ds.startByte < k → ds.stopByte < k)
    {es : LTPDataSegment} (hes : HoldsFirst m ds es) (hlt : es.stopByte < ds.stopByte)
    (fuel redBytes : ℕ) : trimLoop fuel m redBytes ds = .error .noReturn := by
  have hstop := hds.stop_of_pos hpos
  have hbound := hds.stop_lt
  obtain ⟨hfind, hbefore, hle⟩ := id hes
  have hfront := trimLeft_eq hds hpos hle hlt
  have hcut : checkOverlap m ds = .adjusted (ds.trimLeft es) := by
    rcases checkOverlap_cases h hnew with ⟨k, fs, hk, hsk, hkt, -⟩ | ⟨-, ⟨-, hnone⟩ | ⟨fs, hfs, -, hadj⟩⟩
    · exact absurd (hfar k fs hk hsk) (by omega)
    · exact absurd hes (hnone es)
    · cases hes.unique h hfs
      exact hadj hlt
  cases fuel with
  | zero => rfl
  | succ fuel =>
    simp only [trimLoop, hcut]
    apply trimLoop_fixed
    have hstart : (ds.trimLeft es).startByte = es.stopByte := by rw [hfront]
    have hsame : (ds.trimLeft es).stopByte = ds.stopByte := by rw [hfront]
    have hnew' : m.find? (ds.trimLeft es).startByte = none := by
      rw [hstart]
      cases hcase : m.find? es.stopByte with
      | none => rfl
      | some fs =>
        have := h.apart hfind hcase (by omega)
        exact absurd this (lt_irrefl _)
    have hholds : HoldsFirst m (ds.trimLeft es) es :=
      ⟨hfind, by rw [hstart]; omega, by rw [hstart]⟩
    have hagain : (ds.trimLeft es).trimLeft es = ds.trimLeft es := by
      have hformed : Formed (ds.trimLeft es) := by
        constructor
        · rw [hfront]
        · rw [hfront]
          simp only
          omega
        · rw [hfront]
          simp only
          omega
        · rw [hfront]
          simp only
          unfold u64Sub u64
          omega
      have hpos' : 0 < (ds.trimLeft es).payloadLength := by
        rw [hfront]
        simp only
        omega
      rw [trimLeft_eq hformed hpos' hstart.le (by rw [hsame]; exact hlt), hstart, hsame]
      simp [hfront]
    rcases checkOverlap_cases h hnew' with ⟨k, fs, hk, hsk, hkt, -⟩ | ⟨-, ⟨-, hnone⟩ | ⟨fs, hfs, -, hadj⟩⟩
    · rw [hstart] at hsk
      rw [hsame] at hkt
      exact absurd (hfar k fs hk (by omega)) (by omega)
    · exact absurd hholds (hnone es)
    · cases hholds.unique h hfs
      rw [hadj (by rw [hsame]; exact hlt), hagain]

/-- A range that nothing begins inside of comes to rest. -/
theorem trimLoop_rests (h : SegmentsOk m) (hnew : m.find? ds.startByte = none)
    (hord : ds.startByte ≤ ds.stopByte)
    (hfar : ∀ k es, m.find? k = some es → ds.startByte < k → ds.stopByte < k)
    {fuel : ℕ} (hfuel : 0 < fuel) (redBytes : ℕ) :
    ((∀ es, ¬ HoldsFirst m ds es) → trimLoop fuel m redBytes ds = .ok ⟨true, m, redBytes, ds⟩) ∧
      ∀ es, HoldsFirst m ds es → ds.stopByte ≤ es.stopByte →
        trimLoop fuel m redBytes ds = .ok ⟨false, m, redBytes, ds⟩ := by
  obtain ⟨fuel, rfl⟩ := Nat.exists_eq_add_of_lt hfuel
  rw [Nat.zero_add]
  rcases checkOverlap_cases h hnew with
    ⟨k, fs, hk, hsk, hkt, -⟩ | ⟨-, ⟨hc, hnone⟩ | ⟨fs, hfs, hdup, -⟩⟩
  · exact absurd (hfar k fs hk hsk) (by omega)
  · refine ⟨?_, fun es hes => absurd hes (hnone es)⟩
    intro _
    simp only [trimLoop, hc]
  · refine ⟨fun hnone => absurd hfs (hnone fs), ?_⟩
    intro es hes hstop
    cases hes.unique h hfs
    simp only [trimLoop, hdup hstop (by have := hes.2.1; omega)]

/-! ## Exactness -/

theorem Cleared.holdsFirst_iff {m' : OrdMap ℕ LTPDataSegment} (hcl : Cleared m m' ds)
    (es : LTPDataSegment) : HoldsFirst m' ds es ↔ HoldsFirst m ds es := by
  constructor
  · rintro ⟨hfind, hrest⟩
    exact ⟨((hcl.find _ _).mp hfind).1, hrest⟩
  · rintro ⟨hfind, hlt, hle⟩
    exact ⟨(hcl.find _ _).mpr ⟨hfind, fun hin => absurd hin.2.1 (by omega)⟩, hlt, hle⟩

theorem Cleared.find_none {m' : OrdMap ℕ LTPDataSegment} (hcl : Cleared m m' ds) {k : ℕ}
    (hk : m.find? k = none) : m'.find? k = none := by
  cases hcase : m'.find? k with
  | none => rfl
  | some es =>
    have := ((hcl.find _ _).mp hcase).1
    rw [hk] at this
    cases this

/-- Nothing stored lies between the first byte and the segment that reaches past the end, once
the segments inside are gone. -/
theorem Cleared.gap {m' : OrdMap ℕ LTPDataSegment} (h : SegmentsOk m) (hcl : Cleared m m' ds)
    {k : ℕ} {es : LTPDataSegment} (hstr : Straddles m ds k es) (i : ℕ) (hsi : ds.startByte < i)
    (hik : i < k) : m'.find? i = none := by
  cases hcase : m'.find? i with
  | none => rfl
  | some fs =>
    obtain ⟨hfind, hnot⟩ := (hcl.find _ _).mp hcase
    have := h.apart hfind hstr.1 hik
    have := hstr.2.2.1
    exact absurd ⟨hfind, hsi, by omega⟩ hnot

theorem Cleared.stored_subset {m' : OrdMap ℕ LTPDataSegment} (hcl : Cleared m m' ds) :
    storedBytes m' ⊆ storedBytes m := by
  rintro x ⟨k, es, hk, hkx, hxe⟩
  exact ⟨k, es, ((hcl.find _ _).mp hk).1, hkx, hxe⟩

/-- The bytes of the range up to a new end, with what is left of the map, are all bytes there
were, if every byte of the range behind the new end is stored in what is left. -/
theorem Cleared.union {m' : OrdMap ℕ LTPDataSegment} (hcl : Cleared m m' ds)
    (hds : Formed ds) (hpos : 0 < ds.payloadLength) {stop : ℕ} (hord : ds.startByte ≤ stop) (hstop : stop ≤ ds.stopByte)
    (hrest : ∀ x, stop < x → x ≤ ds.stopByte → x ∈ storedBytes m') :
    storedBytes m' ∪ (ds.withStop stop).bytes = storedBytes m ∪ ds.bytes := by
  have hend := hds.stop_of_pos hpos
  have hcut : (ds.withStop stop).bytes = {x | ds.startByte ≤ x ∧ x ≤ stop} := by
    ext x
    change ds.startByte ≤ x ∧ x < ds.startByte + (stop + 1 - ds.startByte) ↔
      ds.startByte ≤ x ∧ x ≤ stop
    omega
  rw [hcut, hds.bytes_eq hpos]
  ext x
  constructor
  · rintro (hx | ⟨h₁, h₂⟩)
    · exact Or.inl (hcl.stored_subset hx)
    · exact Or.inr ⟨h₁, h₂.trans hstop⟩
  · have hrange : ds.startByte ≤ x → x ≤ ds.stopByte →
        x ∈ storedBytes m' ∪ {x | ds.startByte ≤ x ∧ x ≤ stop} := by
      intro h₁ h₂
      by_cases hx : x ≤ stop
      · exact Or.inr ⟨h₁, hx⟩
      · exact Or.inl (hrest x (not_le.mp hx) h₂)
    rintro (⟨k, es, hk, hkx, hxe⟩ | ⟨h₁, h₂⟩)
    · by_cases hin : Inside m ds k es
      · exact hrange (hin.2.1.le.trans hkx) (hxe.trans hin.2.2)
      · exact Or.inl ⟨k, es, (hcl.find _ _).mpr ⟨hk, hin⟩, hkx, hxe⟩
    · exact hrange h₁ h₂

/-- The result of a range that comes to rest with nothing across its first byte. -/
theorem trimExact_of_union (m : OrdMap ℕ LTPDataSegment) (redBytes redBytes' : ℕ)
    {m' : OrdMap ℕ LTPDataSegment} {stop : ℕ}
    (h' : SegmentsOk m') (hnew : m'.find? ds.startByte = none)
    (hclear : ∀ es, ¬ HoldsFirst m' ds es)
    (hord : ds.startByte ≤ stop)
    (hfar : ∀ k es, m'.find? k = some es → ds.startByte < k → stop < k) :
    TrimExact m redBytes ds ⟨true, m', redBytes', ds.withStop stop⟩ ↔
      storedBytes m' ∪ (ds.withStop stop).bytes = storedBytes m ∪ ds.bytes ∧
        (ds.redGreen = .green → redBytes' = redBytes) := by
  constructor
  · intro hexact
    exact ⟨hexact.union rfl, hexact.green⟩
  · rintro ⟨hunion, hgreen⟩
    constructor
    · intro _
      apply Set.disjoint_left.mpr
      rintro x ⟨h₁, h₂⟩ ⟨k, es, hk, hkx, hxe⟩
      simp only [LTPDataSegment.withStop] at h₁ h₂
      have hkey := h'.keyed hk
      rcases lt_trichotomy k ds.startByte with hlt | rfl | hlt
      · exact hclear es ⟨hkey.symm ▸ hk, hkey.symm ▸ hlt, h₁.trans hxe⟩
      · rw [hnew] at hk
        cases hk
      · have := hfar k es hk hlt
        omega
    · exact fun _ => hunion
    · intro _
      refine ⟨le_rfl, ?_⟩
      simp [LTPDataSegment.withStop]
    · intro hfalse
      cases hfalse
    · exact hgreen

variable {redBytes : ℕ}

theorem checkAndTrim_known (hknown : m.find? ds.startByte ≠ none) :
    Trims m redBytes ds ↔ ds.bytes ⊆ storedBytes m := by
  obtain ⟨es, hes⟩ := Option.ne_none_iff_exists'.mp hknown
  have hcheck : checkAndTrim m redBytes ds = .ok ⟨false, m, redBytes, ds⟩ := by
    simp only [checkAndTrim, hes]
  constructor
  · rintro ⟨r, hr, hexact⟩
    rw [hcheck] at hr
    cases hr
    exact (hexact.unchanged rfl).2
  · intro hsub
    refine ⟨_, hcheck, ?_⟩
    constructor
    case unchanged => exact fun _ => ⟨rfl, hsub⟩
    case green => exact fun _ => rfl
    all_goals
      intro h
      cases h

theorem checkAndTrim_new (hnew : m.find? ds.startByte = none) :
    checkAndTrim m redBytes ds = trimLoop (trimFuel m ds) m redBytes ds := by
  simp only [checkAndTrim, hnew]

/-- A range without bytes is exact, unless it begins at 0: its stop byte is then the largest
word, and it deletes every stored segment. -/
theorem trims_empty (h : SegmentsOk m) (hbound : ∀ k es, m.find? k = some es → es.stopByte < 2 ^ 64)
    (hds : Formed ds) (hred : redBytes < 2 ^ 64) (hempty : ds.payloadLength = 0)
    (hnew : m.find? ds.startByte = none) :
    Trims m redBytes ds ↔ (ds.startByte = 0 → ∀ k, m.find? k = none) := by
  have hstop := hds.stop_of_empty hempty
  have hbytes : ds.bytes = ∅ := by
    ext x
    simp only [LTPDataSegment.bytes, hempty, Nat.add_zero, Set.mem_empty_iff_false, iff_false]
    rintro ⟨h₁, h₂⟩
    omega
  have hsame (b : Bool) : TrimExact m redBytes ds ⟨b, m, redBytes, ds⟩ := by
    constructor
    · intro _
      rw [hbytes]
      exact Set.empty_disjoint _
    · exact fun _ => rfl
    · intro _
      exact ⟨le_rfl, by simp⟩
    · intro _
      rw [hbytes]
      exact ⟨rfl, Set.empty_subset _⟩
    · exact fun _ => rfl
  rw [Trims, checkAndTrim_new hnew]
  by_cases hzero : ds.startByte = 0
  · rw [if_pos hzero] at hstop
    obtain ⟨m', redBytes', fuel, hcl, hfuel, hloop, hnone, -⟩ :=
      trimLoop_deletes (trimFuel m ds) redBytes h hnew (by omega) (by omega) hred
        (by unfold trimFuel; omega)
    have hgone : ∀ k, m'.find? k = none := by
      intro k
      cases hcase : m'.find? k with
      | none => rfl
      | some es =>
        obtain ⟨hk, hnot⟩ := (hcl.find _ _).mp hcase
        have := hbound k es hk
        refine absurd ⟨hk, ?_, by omega⟩ hnot
        rw [hzero]
        apply Nat.pos_of_ne_zero
        rintro rfl
        rw [← hzero, hnew] at hk
        cases hk
    have hrest := (trimLoop_rests hcl.segments (hgone ds.startByte) (by omega)
      (fun k es hk => absurd hk (by simp [hgone])) (Nat.lt_of_le_of_lt (Nat.zero_le _) hfuel)
      redBytes').1 (by rintro es ⟨hes, -⟩; simp [hgone] at hes)
    rw [hloop, hrest]
    constructor
    · rintro ⟨r, hr, hexact⟩ _ k
      cases hr
      have hunion := hexact.union rfl
      rw [hbytes, Set.union_empty, Set.union_empty] at hunion
      cases hcase : m.find? k with
      | none => rfl
      | some es =>
        have hmem : k ∈ storedBytes m := ⟨k, es, hcase, le_rfl, h.nonempty hcase⟩
        rw [← hunion] at hmem
        obtain ⟨j, fs, hj, -⟩ := hmem
        simp [hgone] at hj
    · intro hnothing
      obtain ⟨rfl, rfl⟩ := hnone fun k es hin => by
        have := hin.1
        simp [hnothing hzero] at this
      exact ⟨_, rfl, hsame true⟩
  · rw [if_neg hzero] at hstop
    refine ⟨fun _ hz => absurd hz hzero, fun _ => ?_⟩
    have hround : ∃ b, trimLoop (trimFuel m ds) m redBytes ds = .ok ⟨b, m, redBytes, ds⟩ := by
      unfold trimFuel
      rcases checkOverlap_cases h hnew with
        ⟨k, es, -, hsk, hkt, -⟩ | ⟨-, ⟨hc, -⟩ | ⟨es, hes, hdup, -⟩⟩
      · omega
      · exact ⟨true, by simp only [trimLoop, hc]⟩
      · obtain ⟨-, hlt, hle⟩ := hes
        exact ⟨false, by simp only [trimLoop, hdup (by omega) (by omega)]⟩
    obtain ⟨b, hb⟩ := hround
    exact ⟨_, hb, hsame b⟩

theorem Straddles.unique {k j : ℕ} {es fs : LTPDataSegment} (h : SegmentsOk m)
    (hes : Straddles m ds k es) (hfs : Straddles m ds j fs) : k = j := by
  obtain ⟨hk, -, hkt, hpast⟩ := hes
  obtain ⟨hj, -, hjt, hpast'⟩ := hfs
  rcases lt_trichotomy k j with hlt | heq | hlt
  · have := h.apart hk hj hlt
    omega
  · exact heq
  · have := h.apart hj hk hlt
    omega

/-- No segment reaches past the end: the rest of the map stays clear of the range. -/
theorem trims_unstraddled (h : SegmentsOk m) (hds : Formed ds) (hpos : 0 < ds.payloadLength)
    (hred : redBytes < 2 ^ 64) (hnew : m.find? ds.startByte = none)
    (hno : ∀ k es, ¬ Straddles m ds k es) : Trims m redBytes ds ↔ TrimsWell m ds := by
  have hstop := hds.stop_of_pos hpos
  obtain ⟨m', redBytes', fuel, hcl, hfuel, hloop, hnone, hsome⟩ :=
    trimLoop_deletes (trimFuel m ds) redBytes h hnew (by omega) hds.stop_lt hred
      (by unfold trimFuel; omega)
  have hfar : ∀ k es, m'.find? k = some es → ds.startByte < k → ds.stopByte < k := by
    intro k es hk hsk
    obtain ⟨hfind, hnot⟩ := (hcl.find _ _).mp hk
    by_contra hle
    by_cases hin : es.stopByte ≤ ds.stopByte
    · exact hnot ⟨hfind, hsk, hin⟩
    · exact hno k es ⟨hfind, hsk, by omega, by omega⟩
  have hnew' := hcl.find_none hnew
  have hrests := trimLoop_rests hcl.segments hnew' (by omega) hfar
    (Nat.lt_of_le_of_lt (Nat.zero_le _) hfuel) redBytes'
  rw [Trims, checkAndTrim_new hnew, hloop]
  by_cases hfirst : ∃ es, HoldsFirst m ds es
  · obtain ⟨es, hes⟩ := hfirst
    have hes' := (hcl.holdsFirst_iff es).mpr hes
    have hwell : TrimsWell m ds ↔ ds.stopByte ≤ es.stopByte := by
      constructor
      · rintro (⟨fs, hfs, hcase⟩ | ⟨hclear, -⟩)
        · cases hes.unique h hfs
          exact hcase.resolve_right fun hstr => absurd hstr.2 fun ⟨gs, hgs⟩ => hno _ gs hgs
        · exact absurd hes (hclear es)
      · exact fun hle => Or.inl ⟨es, hes, Or.inl hle⟩
    rw [hwell]
    constructor
    · rintro ⟨r, hr, -⟩
      by_contra hlt
      rw [trimLoop_stuck hcl.segments hnew' hds hpos hfar hes' (not_le.mp hlt)] at hr
      cases hr
    · intro hle
      have hnoinside : ∀ k fs, ¬ Inside m ds k fs := by
        rintro k fs ⟨hk, hsk, hin⟩
        have := h.apart hes.1 hk (lt_trans hes.2.1 hsk)
        have := h.nonempty hk
        omega
      obtain ⟨rfl, rfl⟩ := hnone hnoinside
      refine ⟨_, hrests.2 es hes' hle, nofun, nofun, nofun, ?_, fun _ => rfl⟩
      intro _
      refine ⟨rfl, ?_⟩
      rw [hds.bytes_eq hpos]
      rintro x ⟨h₁, h₂⟩
      exact ⟨_, es, hes.1, hes.2.1.le.trans h₁, h₂.trans hle⟩
  · have hclear : ∀ es, ¬ HoldsFirst m ds es := fun es hes => hfirst ⟨es, hes⟩
    have hclear' : ∀ es, ¬ HoldsFirst m' ds es := fun es hes =>
      hclear es ((hcl.holdsFirst_iff es).mp hes)
    have hself := withStop_self hds hpos
    have hord : ds.startByte ≤ ds.stopByte := by omega
    have hexact := trimExact_of_union m redBytes redBytes' hcl.segments hnew' hclear' hord hfar
    have hunion := hcl.union hds hpos hord le_rfl
      (fun x h₁ h₂ => absurd h₁ (by omega))
    rw [hself] at hexact hunion
    rw [hrests.1 hclear']
    have hwell : TrimsWell m ds ↔ (ds.redGreen = .green → ∀ k es, ¬ Inside m ds k es) := by
      constructor
      · rintro (⟨fs, hfs, -⟩ | ⟨-, -, hgreen⟩)
        · exact absurd hfs (hclear fs)
        · exact hgreen
      · exact fun hgreen => Or.inr ⟨hclear, fun k es hstr => absurd hstr (hno k es), hgreen⟩
    rw [hwell]
    constructor
    · rintro ⟨r, hr, hexact'⟩ hcolor k es hin
      cases hr
      exact hsome ⟨k, es, hin⟩ (hexact'.green hcolor)
    · intro hgreen
      refine ⟨_, rfl, hexact.mpr ⟨hunion, ?_⟩⟩
      intro hcolor
      exact (hnone (hgreen hcolor)).2

section
variable {m' : OrdMap ℕ LTPDataSegment} {redBytes' stop k : ℕ} {es fs : LTPDataSegment}

theorem Straddles.cleared (hcl : Cleared m m' ds) (hstr : Straddles m ds k es) :
    Straddles m' ds k es :=
  ⟨(hcl.find k es).mpr ⟨hstr.1, fun hin => absurd hin.2.2 (not_le.mpr hstr.2.2.2)⟩, hstr.2⟩

/-- Next to the first byte the distance is 0, and cutting changes nothing. -/
theorem trimLoop_next (h : SegmentsOk m) (hds : Formed ds) (hpos : 0 < ds.payloadLength)
    (hnew : m.find? ds.startByte = none) (hstr : Straddles m ds k es) (hnext : k = ds.startByte + 1)
    (fuel redBytes : ℕ) : trimLoop fuel m redBytes ds = .error .noReturn := by
  obtain ⟨hk, hsk, hkt, -⟩ := id hstr
  have htrim : ds.trimRight es = ds := by
    rw [trimRight_eq hds hpos (h.keyed hk) hsk hkt, hnext, Nat.add_sub_cancel, Nat.sub_self,
      Nat.sub_zero, withStop_self hds hpos]
  have hcut : checkOverlap m ds = .adjusted ds := by
    rcases checkOverlap_cases h hnew with ⟨i, fs, hi, hsi, -, hgapi, hcase⟩ | ⟨hfar, -⟩
    · have hik : i = k := by
        by_contra hne
        have := hgapi k hsk (by omega)
        rw [hk] at this
        cases this
      subst hik
      cases hk.symm.trans hi
      rw [htrim] at hcase
      exact hcase.elim (fun hin => absurd hin.1 (not_le.mpr hstr.2.2.2)) fun hadj => hadj.2
    · exact absurd (hfar k es hk hsk) (by omega)
  exact trimLoop_fixed hcut fuel redBytes

theorem not_trimsWell_next (h : SegmentsOk m) (hstr : Straddles m ds k es)
    (hnext : k = ds.startByte + 1) : ¬ TrimsWell m ds := by
  rintro (⟨fs, hfs, hcase | ⟨hlt, gs, hgs⟩⟩ | ⟨-, hstraddle, -⟩)
  · have := h.apart hfs.1 hstr.1 (lt_trans hfs.2.1 hstr.2.1)
    have := hstr.2.2.1
    omega
  · have := hgs.unique h hstr
    omega
  · exact absurd (hstraddle k es hstr).1 (by omega)

/-! ### A stored segment holds the first byte -/

theorem trimsWell_first_iff (h : SegmentsOk m) (hstr : Straddles m ds k es)
    (hfar : ds.startByte + 1 < k) (hfs : HoldsFirst m ds fs) :
    TrimsWell m ds ↔ fs.stopByte + 1 = k := by
  have hbelow : fs.stopByte < k := h.apart hfs.1 hstr.1 (lt_trans hfs.2.1 hstr.2.1)
  have hkt := hstr.2.2.1
  constructor
  · rintro (⟨gs, hgs, hcase⟩ | ⟨hclear, -⟩)
    · cases hfs.unique h hgs
      rcases hcase with hover | ⟨-, us, hus⟩
      · omega
      · exact hus.unique h hstr
    · exact absurd hfs (hclear fs)
  · intro hnext
    refine Or.inl ⟨fs, hfs, Or.inr ⟨by omega, es, ?_⟩⟩
    rw [hnext]
    exact hstr

theorem not_inside_of_touching (h : SegmentsOk m) (hstr : Straddles m ds k es)
    (hfs : HoldsFirst m ds fs) (hnext : fs.stopByte + 1 = k) (i : ℕ) (gs : LTPDataSegment) :
    ¬ Inside m ds i gs := by
  rintro ⟨hi, hsi, hin⟩
  have hne := h.nonempty hi
  have hafter := h.apart hfs.1 hi (lt_trans hfs.2.1 hsi)
  have hpast := hstr.2.2.2
  rcases lt_trichotomy i k with hlt | rfl | hlt
  · omega
  · cases hstr.1.symm.trans hi
    omega
  · have := h.apart hstr.1 hi hlt
    omega

/-- The range is taken for one that is stored. It is, if the two segments touch; else the byte behind
the first one is missing. -/
theorem trimExact_stored_iff (h : SegmentsOk m) (hds : Formed ds) (hpos : 0 < ds.payloadLength)
    (hcl : Cleared m m' ds) (hstr : Straddles m ds k es) (hfs : HoldsFirst m ds fs)
    (hnone : (∀ i gs, ¬ Inside m ds i gs) → m' = m ∧ redBytes' = redBytes) :
    TrimExact m redBytes ds ⟨false, m', redBytes', ds.withStop stop⟩ ↔ fs.stopByte + 1 = k := by
  have hbelow : fs.stopByte < k := h.apart hfs.1 hstr.1 (lt_trans hfs.2.1 hstr.2.1)
  have hkt := hstr.2.2.1
  have hheld := hfs.2
  constructor
  · intro hexact
    obtain ⟨hsame, hcovered⟩ := hexact.unchanged rfl
    by_contra hne
    rw [hds.bytes_eq hpos] at hcovered
    obtain ⟨i, gs, hi, hix, hxi⟩ := hcovered (show ds.startByte ≤ fs.stopByte + 1 ∧
      fs.stopByte + 1 ≤ ds.stopByte from ⟨by omega, by omega⟩)
    rcases lt_trichotomy i fs.startByte with hlt | rfl | hlt
    · have := h.apart hi hfs.1 hlt
      omega
    · cases hfs.1.symm.trans hi
      omega
    · have hafter := h.apart hfs.1 hi hlt
      have hgone := hcl.gap h hstr i (by omega) (by omega)
      simp only at hsame
      rw [hsame, hi] at hgone
      cases hgone
  · intro hnext
    obtain ⟨rfl, rfl⟩ := hnone (not_inside_of_touching h hstr hfs hnext)
    refine ⟨nofun, nofun, nofun, fun _ => ⟨rfl, ?_⟩, fun _ => rfl⟩
    rw [hds.bytes_eq hpos]
    rintro x ⟨h₁, h₂⟩
    have hpast := hstr.2.2.2
    by_cases hx : x ≤ fs.stopByte
    · exact ⟨_, fs, hfs.1, hfs.2.1.le.trans h₁, hx⟩
    · exact ⟨k, es, hstr.1, by omega, by omega⟩

/-! ### No stored segment holds the first byte -/

theorem trimsWell_clear_iff (h : SegmentsOk m) (hstr : Straddles m ds k es)
    (hclear : ∀ fs, ¬ HoldsFirst m ds fs) {j : ℕ}
    (heq : ds.stopByte = stop + j * (k - 1 - ds.startByte)) (hlow : ds.startByte < stop)
    (hhigh : stop < k) :
    TrimsWell m ds ↔ stop = k - 1 ∧ (ds.redGreen = .green → ∀ i fs, ¬ Inside m ds i fs) := by
  have hdivides : (k - 1 - ds.startByte) ∣ (ds.stopByte - ds.startByte) ↔ stop = k - 1 := by
    have hsplit : ds.stopByte - ds.startByte =
        (stop - ds.startByte) + j * (k - 1 - ds.startByte) := by omega
    rw [hsplit, Nat.dvd_add_left (Dvd.intro_left j rfl)]
    constructor
    · intro hdvd
      have := Nat.le_of_dvd (by omega) hdvd
      omega
    · intro hend
      rw [hend]
  constructor
  · rintro (⟨fs, hfs, -⟩ | ⟨-, hstraddle, hgreen⟩)
    · exact absurd hfs (hclear fs)
    · exact ⟨hdivides.mp (hstraddle k es hstr).2, hgreen⟩
  · rintro ⟨hend, hgreen⟩
    refine Or.inr ⟨hclear, ?_, hgreen⟩
    intro i fs hi
    cases hi.unique h hstr
    exact ⟨by omega, hdivides.mpr hend⟩

/-- The byte before the segment across the end is stored only if the range is cut right before it. -/
theorem stop_of_union (h : SegmentsOk m) (hds : Formed ds) (hpos : 0 < ds.payloadLength)
    (hnew : m.find? ds.startByte = none) (hcl : Cleared m m' ds) (hstr : Straddles m ds k es)
    (hfar : ds.startByte + 1 < k) (hclear : ∀ fs, ¬ HoldsFirst m ds fs)
    (hlow : ds.startByte < stop) (hhigh : stop < k)
    (hunion : storedBytes m' ∪ (ds.withStop stop).bytes = storedBytes m ∪ ds.bytes) :
    stop = k - 1 := by
  have hkt := hstr.2.2.1
  have hmem : k - 1 ∈ storedBytes m ∪ ds.bytes := by
    refine Or.inr ?_
    rw [hds.bytes_eq hpos]
    exact ⟨by omega, by omega⟩
  rw [← hunion] at hmem
  rcases hmem with ⟨i, fs, hi, hix, hxi⟩ | ⟨-, hx⟩
  · exfalso
    obtain ⟨hi', -⟩ := (hcl.find _ _).mp hi
    rcases lt_trichotomy i ds.startByte with hlt | rfl | hlt
    · have hkey := h.keyed hi'
      exact hclear fs ⟨hkey.symm ▸ hi', hkey.symm ▸ hlt, by omega⟩
    · rw [hnew] at hi'
      cases hi'
    · rw [hcl.gap h hstr i hlt (by omega)] at hi
      cases hi
  · simp only [LTPDataSegment.withStop] at hx
    omega

end

/-- A segment reaches past the end: the range is cut by the distance to it, over and over, and so
ends before it exactly if the distance divides the length. -/
theorem trims_straddled (h : SegmentsOk m) (hds : Formed ds) (hpos : 0 < ds.payloadLength)
    (hred : redBytes < 2 ^ 64) (hnew : m.find? ds.startByte = none) {k : ℕ} {es : LTPDataSegment}
    (hstr : Straddles m ds k es) : Trims m redBytes ds ↔ TrimsWell m ds := by
  have hstop := hds.stop_of_pos hpos
  obtain ⟨hk, hsk, hkt, hpast⟩ := id hstr
  obtain ⟨m', redBytes', fuel, hcl, hfuel, hloop, hnone, hsome⟩ :=
    trimLoop_deletes (trimFuel m ds) redBytes h hnew (by omega) hds.stop_lt hred
      (by unfold trimFuel; omega)
  have hnew' := hcl.find_none hnew
  have hstr' := hstr.cleared hcl
  have hgap := fun i h₁ h₂ => hcl.gap h hstr i h₁ h₂
  rw [Trims, checkAndTrim_new hnew, hloop]
  by_cases hdist : k = ds.startByte + 1
  · refine iff_of_false ?_ (not_trimsWell_next h hstr hdist)
    rintro ⟨r, hr, -⟩
    rw [trimLoop_next hcl.segments hds hpos hnew' hstr' hdist] at hr
    cases hr
  have hfar : ds.startByte + 1 < k := by omega
  obtain ⟨stop, fuel', j, heq, hlow, hhigh, hj, hfuel', hcuts⟩ :=
    trimLoop_cuts fuel redBytes' hcl.segments hnew' hds hpos hstr'.1 hfar hkt hpast hgap hfuel
  have hle : stop ≤ ds.stopByte := by omega
  have hnew'' : m'.find? (ds.withStop stop).startByte = none := hnew'
  have hbehind : ∀ i fs, m'.find? i = some fs → (ds.withStop stop).startByte < i →
      (ds.withStop stop).stopByte < i := by
    intro i fs hi hsi
    by_contra hlt
    rw [hgap i hsi (lt_of_le_of_lt (not_lt.mp hlt) hhigh)] at hi
    cases hi
  have hrests := trimLoop_rests hcl.segments hnew'' hlow.le hbehind
    (Nat.lt_of_le_of_lt (Nat.zero_le _) hfuel') redBytes'
  rw [hcuts]
  by_cases hfirst : ∃ fs, HoldsFirst m ds fs
  · obtain ⟨fs, hfs⟩ := hfirst
    have hfs' : HoldsFirst m' (ds.withStop stop) fs := (hcl.holdsFirst_iff fs).mpr hfs
    rw [trimsWell_first_iff h hstr hfar hfs]
    by_cases hreach : stop ≤ fs.stopByte
    · rw [hrests.2 fs hfs' hreach, ← trimExact_stored_iff h hds hpos hcl hstr hfs hnone]
      exact ⟨fun ⟨_, hr, hr'⟩ => Except.ok.inj hr ▸ hr', fun hr => ⟨_, rfl, hr⟩⟩
    · -- the loop cuts at the front and at the end in turn
      refine iff_of_false ?_ (by omega)
      rintro ⟨r, hr, -⟩
      have hformed : Formed (ds.withStop stop) := hds.withStop hpos hlow.le hle
      have hpos' : 0 < (ds.withStop stop).payloadLength := by
        simp only [LTPDataSegment.withStop]
        omega
      rw [trimLoop_stuck hcl.segments hnew'' hformed hpos' hbehind hfs'
        (not_le.mp hreach)] at hr
      cases hr
  · have hclear : ∀ fs, ¬ HoldsFirst m ds fs := fun fs hfs => hfirst ⟨fs, hfs⟩
    have hclear' : ∀ fs, ¬ HoldsFirst m' ds fs := fun fs hfs =>
      hclear fs ((hcl.holdsFirst_iff fs).mp hfs)
    have hexact := trimExact_of_union m redBytes redBytes' hcl.segments hnew' hclear' hlow.le hbehind
    rw [hrests.1 hclear', trimsWell_clear_iff h hstr hclear heq hlow hhigh]
    constructor
    · rintro ⟨r, hr, hexact'⟩
      cases hr
      obtain ⟨hunion, hgreen⟩ := hexact.mp hexact'
      refine ⟨stop_of_union h hds hpos hnew hcl hstr hfar hclear hlow hhigh hunion, ?_⟩
      exact fun hcolor i fs hin => hsome ⟨i, fs, hin⟩ (hgreen hcolor)
    · rintro ⟨hend, hgreen⟩
      refine ⟨_, rfl, hexact.mpr ⟨?_, fun hcolor => (hnone (hgreen hcolor)).2⟩⟩
      apply hcl.union hds hpos hlow.le hle
      intro x h₁ h₂
      exact ⟨k, es, hstr'.1, by omega, by omega⟩

/-- For every map of disjoint segments and every incoming segment, trimming returns with an
exact result exactly under the condition. -/
theorem checkAndTrim_exact_iff (h : SegmentsOk m)
    (hbound : ∀ k es, m.find? k = some es → es.stopByte < 2 ^ 64) (hds : Formed ds)
    (hred : redBytes < 2 ^ 64) : Trims m redBytes ds ↔ Trimmable m ds := by
  unfold Trimmable
  split_ifs with hempty hnew
  · by_cases hnew : m.find? ds.startByte = none
    · rw [trims_empty h hbound hds hred hempty hnew]
      constructor
      · exact fun hall hzero => Or.inr (hall hzero)
      · intro hcase hzero
        apply (hcase hzero).resolve_left
        rw [← hzero]
        exact not_not.mpr hnew
    · rw [checkAndTrim_known hnew]
      have hnone : ds.bytes ⊆ storedBytes m := by
        rintro x ⟨h₁, h₂⟩
        omega
      exact iff_of_true hnone fun hzero => Or.inl (hzero ▸ hnew)
  · have hpos := Nat.pos_of_ne_zero hempty
    by_cases hstr : ∃ k es, Straddles m ds k es
    · obtain ⟨k, es, hstr⟩ := hstr
      exact trims_straddled h hds hpos hred hnew hstr
    · exact trims_unstraddled h hds hpos hred hnew fun k es hes => hstr ⟨k, es, hes⟩
  · exact checkAndTrim_known hnew

/-- One stored segment. -/
def storedOnly (ds : LTPDataSegment) : OrdMap ℕ LTPDataSegment := OrdMap.empty.insert ds.startByte ds

theorem find?_storedOnly {es : LTPDataSegment} {k : ℕ} :
    (storedOnly ds).find? k = some es ↔ k = ds.startByte ∧ es = ds := by
  rw [storedOnly, OrdMap.find?_insert]
  split_ifs with hk <;> simp [hk, eq_comm]

theorem segmentsOk_storedOnly (hds : Ranged ds) : SegmentsOk (storedOnly ds) :=
  SegmentsOk.empty.insert hds fun k es hk => by simp at hk

theorem formed_redSegment {start stop : ℕ} (hord : start ≤ stop) (hstop : stop + 1 < 2 ^ 64)
    (eob : Bool) : Formed (redSegment start stop eob) := by
  constructor
  · rfl
  · simp only [redSegment]
    omega
  · simp only [redSegment]
    omega
  · simp only [redSegment]
    unfold u64Sub u64
    omega

/-- The distance to the stored segment is 4, and the range is two times that long. -/
theorem checkAndTrim_exact_divided :
    Trims (storedOnly (redSegment 10 14 false)) 5 (redSegment 5 13 false) := by
  refine (checkAndTrim_exact_iff (segmentsOk_storedOnly (by decide +kernel)) ?_
    (formed_redSegment (by decide) (by decide) false) (by decide)).mpr ?_
  · intro k es hk
    obtain ⟨-, rfl⟩ := find?_storedOnly.mp hk
    decide
  · refine Or.inr ⟨?_, ?_, fun hgreen => by cases hgreen⟩
    · rintro es ⟨hes, hlt, -⟩
      obtain ⟨hstart, -⟩ := find?_storedOnly.mp hes
      rw [hstart] at hlt
      exact absurd hlt (by decide)
    · rintro k es ⟨hk, -⟩
      obtain ⟨rfl, rfl⟩ := find?_storedOnly.mp hk
      decide

/-- A range that begins inside a stored segment is trimmed for ever; one that begins with a stored
segment and goes on is dropped; one that reaches into a stored segment loses bytes; and a green
segment inside a green range is taken off the red bytes. -/
theorem checkAndTrim_inexact :
    checkAndTrim (storedOnly (redSegment 0 4 false)) 5 (redSegment 2 6 false) = .error .noReturn ∧
    (∃ r, checkAndTrim (storedOnly (redSegment 0 4 false)) 5 (redSegment 0 9 false) = .ok r ∧
      r.insert = false) ∧
    (∃ r, checkAndTrim (storedOnly (redSegment 10 14 false)) 5 (redSegment 5 12 false) = .ok r ∧
      r.insert = true ∧ r.ds.startByte = 5 ∧ r.ds.stopByte = 8) ∧
    ∃ r, checkAndTrim (storedOnly { redSegment 6 8 false with redGreen := .green }) 7
      { redSegment 5 9 false with redGreen := .green } = .ok r ∧ r.redBytes = 4 := by
  refine ⟨?_, ?_, ?_, ?_⟩ <;> decide +kernel

end Dtnme.Ltp
