import Dtnme.Bundling.AcsRecord

/-! # What an accepted aggregate custody signal says

The bytes behind the status byte spell pairs of a difference and a length. A sum of differences and
lengths may wrap, and of two entries with one left edge only the first is kept.
-/

namespace Dtnme.Bundling
open Library

/-! ## Pairs and ranges -/

/-- The differences and lengths that the bytes spell. -/
def decodePairs : ℕ → List UInt8 → Option (List (ℕ × ℕ))
  | 0, bytes => if bytes.length = 0 then some [] else none
  | fuel + 1, bytes =>
    if bytes.length = 0 then some []
    else
      match (decode (memOf bytes 0) 0 bytes.length).result with
      | none => none
      | some (diff, n₁) =>
        let bytes := bytes.drop n₁
        match (decode (memOf bytes 0) 0 bytes.length).result with
        | none => none
        | some (fillLen, n₂) => (decodePairs fuel (bytes.drop n₂)).map ((diff, fillLen) :: ·)

/-- Left edges and lengths, with sums that have no bound. -/
def ranges : ℕ → List (ℕ × ℕ) → List (ℕ × ℕ)
  | _, [] => []
  | rightEdge, (diff, fillLen) :: l =>
    (rightEdge + diff, fillLen) :: ranges (rightEdge + diff + fillLen - 1) l

/-- Left edges and lengths, with the sums of the parser. -/
def wordRanges : ℕ → List (ℕ × ℕ) → List (ℕ × ℕ)
  | _, [] => []
  | rightEdge, (diff, fillLen) :: l =>
    let leftEdge := u64 (rightEdge + diff)
    (leftEdge, fillLen) :: wordRanges (u64 (leftEdge + u64Sub fillLen 1)) l

/-- The signal means its pairs: no edge wraps, each pair has an entry, and the ids are those of the
ranges. -/
structure Means (pairs : List (ℕ × ℕ)) (m : OrdMap ℕ (ℕ × ℕ)) : Prop where
  leftEdges : wordRanges 0 pairs = ranges 0 pairs
  rightEdges : ∀ r ∈ ranges 0 pairs, u64 (r.1 + u64Sub r.2 1) = r.1 + r.2 - 1
  entries : m.size = pairs.length
  ids : fillIds m.values = fillIds (ranges 0 pairs)

/-! ## The two checks of the parser -/

/-- A range that passes the checks. -/
def Passes (r : ℕ × ℕ) : Prop := 0 < r.1 ∧ r.1 < 2 ^ 64 ∧ r.1 + r.2 ≤ 2 ^ 64

theorem Passes.rightEdge {r : ℕ × ℕ} (h : Passes r) : u64 (r.1 + u64Sub r.2 1) = r.1 + r.2 - 1 := by
  obtain ⟨hpos, hlt, hle⟩ := h
  unfold u64Sub u64
  omega

theorem wordRanges_passes {rightEdge diff fillLen : ℕ} (hzero : u64 (rightEdge + diff) ≠ 0)
    (hfill : ¬ u64 (u64Sub (2 ^ 64 - 1) (u64 (rightEdge + diff)) + 1) < fillLen) :
    Passes (u64 (rightEdge + diff), fillLen) := by
  have hlt := u64_lt (rightEdge + diff)
  rw [u64Sub_of_le (by norm_num) (by omega), u64_of_lt (n := _ + 1) (by omega)] at hfill
  refine ⟨Nat.pos_of_ne_zero hzero, hlt, ?_⟩
  dsimp only
  omega

theorem length_wordRanges (rightEdge : ℕ) (pairs : List (ℕ × ℕ)) :
    (wordRanges rightEdge pairs).length = pairs.length := by
  induction pairs generalizing rightEdge with
  | nil => rfl
  | cons p l ih => rw [wordRanges, List.length_cons, ih, List.length_cons]

/-- The parser inserts the ranges one after another. -/
theorem parseEntries_eq {fuel : ℕ} {bytes : List UInt8} {rightEdge : ℕ} {m m' : OrdMap ℕ (ℕ × ℕ)}
    (hfuel : bytes.length ≤ fuel) (h : parseEntries fuel bytes rightEdge m = some m') :
    ∃ pairs, decodePairs fuel bytes = some pairs ∧
      (∀ r ∈ wordRanges rightEdge pairs, Passes r) ∧
      m' = ((wordRanges rightEdge pairs).map fun r => (r.1, r)).foldl OrdMap.insertNew m := by
  induction fuel generalizing bytes rightEdge m with
  | zero =>
    cases h
    refine ⟨[], ?_, by simp [wordRanges], rfl⟩
    rw [decodePairs, if_pos (Nat.le_zero.mp hfuel)]
  | succ fuel ih =>
    rw [parseEntries] at h
    rw [decodePairs]
    split_ifs at h ⊢ with hempty
    · cases h
      exact ⟨[], rfl, by simp [wordRanges], rfl⟩
    · cases hdiff : (decode (memOf bytes 0) 0 bytes.length).result with
      | none => simp [hdiff] at h
      | some p =>
        obtain ⟨diff, n₁⟩ := p
        simp only [hdiff] at h ⊢
        cases hlen : (decode (memOf (bytes.drop n₁) 0) 0 (bytes.drop n₁).length).result with
        | none =>
          simp only [hlen] at h
          cases h
        | some q =>
          obtain ⟨fillLen, n₂⟩ := q
          simp only [hlen] at h ⊢
          split_ifs at h with hzero hfill hold
          all_goals
            have hread := (encodingLen_pos diff).trans (decode_bound hdiff).2.2
            have hshort : ((bytes.drop n₁).drop n₂).length ≤ fuel := by
              rw [List.length_drop, List.length_drop]
              omega
            obtain ⟨pairs, hpairs, hpasses, hmap⟩ := ih hshort h
            refine ⟨(diff, fillLen) :: pairs, by rw [hpairs, Option.map_some], ?_, ?_⟩
            · rw [wordRanges, List.forall_mem_cons]
              exact ⟨wordRanges_passes hzero hfill, hpasses⟩
            · rw [hmap, wordRanges, List.map_cons, List.foldl_cons]
              simp [OrdMap.insertNew, hold]

/-! ## Wraps and collisions -/

/-- If the checks pass, then nothing wraps exactly if each left edge is a word. -/
theorem wordRanges_eq_iff {rightEdge : ℕ} {pairs : List (ℕ × ℕ)}
    (h : ∀ r ∈ wordRanges rightEdge pairs, Passes r) :
    wordRanges rightEdge pairs = ranges rightEdge pairs ↔
      ∀ r ∈ ranges rightEdge pairs, r.1 < 2 ^ 64 := by
  induction pairs generalizing rightEdge with
  | nil => simp [wordRanges, ranges]
  | cons p l ih =>
    obtain ⟨diff, fillLen⟩ := p
    rw [wordRanges, List.forall_mem_cons] at h
    obtain ⟨hpasses, hrest⟩ := h
    rw [wordRanges, ranges, List.forall_mem_cons, List.cons.injEq, Prod.mk.injEq]
    have hright := hpasses.rightEdge
    dsimp only at hright hrest ⊢
    by_cases hleft : rightEdge + diff < 2 ^ 64
    · rw [u64_of_lt hleft] at hright hrest ⊢
      rw [hright] at hrest ⊢
      rw [ih hrest]
      exact ⟨fun hboth => ⟨hleft, hboth.2⟩, fun hboth => ⟨⟨rfl, rfl⟩, hboth.2⟩⟩
    · refine iff_of_false ?_ fun hboth => hleft hboth.1
      rintro ⟨⟨hsame, -⟩, -⟩
      exact hleft (hsame ▸ u64_lt _)

/-- The entries of distinct left edges are the ranges. -/
theorem fillIds_foldl_insertNew {l : List (ℕ × ℕ)} (h : (l.map Prod.fst).Nodup) :
    fillIds ((l.map fun r => (r.1, r)).foldl OrdMap.insertNew .empty).values = fillIds l := by
  have hkeys : ((l.map fun r => (r.1, r)).map Prod.fst).Nodup := by simpa [Function.comp_def] using h
  have hfind := @OrdMap.find?_foldl_insertNew ℕ (ℕ × ℕ) _ .empty (l.map fun r => (r.1, r)) hkeys
    fun _ _ => rfl
  ext x
  rw [mem_fillIds, mem_fillIds]
  simp only [OrdMap.values, List.mem_map]
  constructor
  · rintro ⟨fill, ⟨p, hp, rfl⟩, hx⟩
    have hmem := hfind.mp (OrdMap.find?_eq_some_iff.mpr hp)
    simp only [OrdMap.find?_empty, List.mem_map, false_or, reduceCtorEq] at hmem
    obtain ⟨r, hr, heq⟩ := hmem
    exact ⟨p.2, (congrArg Prod.snd heq) ▸ hr, hx⟩
  · rintro ⟨r, hr, hx⟩
    refine ⟨r, ⟨(r.1, r), OrdMap.find?_eq_some_iff.mp (hfind.mpr (Or.inr ?_)), rfl⟩, hx⟩
    exact List.mem_map.mpr ⟨r, hr, rfl⟩

/-- An accepted signal means the pairs of its bytes exactly if its left edges, summed up without a
wrap, are words and no two of them are equal. -/
theorem parseAggregateCustodySignal_means_iff (payload : List UInt8) (data : AcsData)
    (h : parseAggregateCustodySignal payload = some data) :
    ∃ pairs, decodePairs (payload.drop 2).length (payload.drop 2) = some pairs ∧
      (Means pairs data.entries ↔
        (∀ r ∈ ranges 0 pairs, r.1 < 2 ^ 64) ∧ ((ranges 0 pairs).map Prod.fst).Nodup) := by
  obtain ⟨admin, status, bytes, rfl, hparse⟩ : ∃ admin status bytes, payload = admin :: status :: bytes ∧
      parseEntries bytes.length bytes 0 .empty = some data.entries := by
    unfold parseAggregateCustodySignal at h
    cases payload with
    | nil => cases h
    | cons admin rest =>
      dsimp only at h
      split_ifs at h
      cases rest with
      | nil => cases h
      | cons status bytes =>
        dsimp only at h
        cases hparse : parseEntries bytes.length bytes 0 .empty with
        | none =>
          rw [hparse] at h
          cases h
        | some m =>
          rw [hparse] at h
          dsimp only at h
          split_ifs at h
          cases h
          exact ⟨admin, status, bytes, rfl, hparse⟩
  obtain ⟨pairs, hpairs, hpasses, hmap⟩ := parseEntries_eq le_rfl hparse
  refine ⟨pairs, hpairs, ?_⟩
  have hwrap := wordRanges_eq_iff hpasses
  have hsize : data.entries.size = pairs.length ↔ ((wordRanges 0 pairs).map Prod.fst).Nodup := by
    have hiff := OrdMap.size_foldl_insertNew_iff (.empty : OrdMap ℕ (ℕ × ℕ))
      ((wordRanges 0 pairs).map fun r => (r.1, r))
    rw [← hmap, List.length_map, length_wordRanges, List.map_map] at hiff
    simpa [OrdMap.empty, OrdMap.size, Function.comp_def, OrdMap.find?, OrdMap.lookup] using hiff
  constructor
  · rintro ⟨hleft, -, hentries, -⟩
    rw [hsize, hleft] at hentries
    exact ⟨hwrap.mp hleft, hentries⟩
  · rintro ⟨hwords, hnodup⟩
    have hleft := hwrap.mpr hwords
    rw [hleft] at hsize hpasses hmap
    constructor
    · exact hleft
    · intro r hr
      exact (hpasses r hr).rightEdge
    · exact hsize.mpr hnodup
    · rw [hmap, fillIds_foldl_insertNew hnodup]

/-- The ids 5 to 7 and 9, as the bytes of a signal. -/
def plainSignal : List UInt8 := [0x40, 0x80, 5, 3, 2, 1]

theorem parseAggregateCustodySignal_means_plain :
    ∃ data, parseAggregateCustodySignal plainSignal = some data ∧
      ∃ pairs, decodePairs (plainSignal.drop 2).length (plainSignal.drop 2) = some pairs ∧
        (Means pairs data.entries ↔
          (∀ r ∈ ranges 0 pairs, r.1 < 2 ^ 64) ∧ ((ranges 0 pairs).map Prod.fst).Nodup) := by
  cases h : parseAggregateCustodySignal plainSignal with
  | none => exact absurd h (by decide +kernel)
  | some data => exact ⟨data, rfl, parseAggregateCustodySignal_means_iff plainSignal data h⟩

/-- The second pair begins where the empty first range does, and its ids are lost; and a difference
of 2^64 - 2 takes the left edge from 5 back to 3. -/
theorem parseAggregateCustodySignal_not_means :
    (parseAggregateCustodySignal [0x40, 0x80, 5, 0, 1, 3]).map (fun data => data.entries.values) =
        some [(5, 0)] ∧
      decodePairs 4 [5, 0, 1, 3] = some [(5, 0), (1, 3)] ∧
      fillIds [(5, 0)] ≠ fillIds (ranges 0 [(5, 0), (1, 3)]) ∧
    (parseAggregateCustodySignal ([0x40, 0x80, 5, 1] ++
        ([0x81, 0xff, 0xff, 0xff, 0xff, 0xff, 0xff, 0xff, 0xff, 0x7e] ++ [1]))).map
          (fun data => data.entries.values) = some [(3, 1), (5, 1)] ∧
      decodePairs 13 ([5, 1] ++ ([0x81, 0xff, 0xff, 0xff, 0xff, 0xff, 0xff, 0xff, 0xff, 0x7e] ++ [1])) =
        some [(5, 1), (2 ^ 64 - 2, 1)] ∧
      wordRanges 0 [(5, 1), (2 ^ 64 - 2, 1)] ≠ ranges 0 [(5, 1), (2 ^ 64 - 2, 1)] := by
  refine ⟨?_, ?_, ?_, ?_, ?_, ?_⟩ <;> decide +kernel

end Dtnme.Bundling
