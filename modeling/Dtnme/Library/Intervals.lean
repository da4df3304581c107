import Mathlib

/-! # Covering a range by intervals

Intervals are given by offset and length. A sweep over intervals that are sorted by offset
keeps the end of the covered part and stops at the first hole; it gets to the end of the
range exactly if the intervals cover it.
-/

namespace Dtnme.Library

/-- Some interval holds `i`. -/
def Covered (s : List (ℕ × ℕ)) (i : ℕ) : Prop := ∃ p ∈ s, p.1 ≤ i ∧ i < p.1 + p.2

/-- Every point from `lo` up to `hi` is in an interval. -/
def Covers (s : List (ℕ × ℕ)) (lo hi : ℕ) : Prop := ∀ i, lo ≤ i → i < hi → Covered s i

instance (s : List (ℕ × ℕ)) (i : ℕ) : Decidable (Covered s i) :=
  inferInstanceAs (Decidable (∃ p ∈ s, _))

instance (s : List (ℕ × ℕ)) (lo hi : ℕ) : Decidable (Covers s lo hi) :=
  decidable_of_iff (∀ i ∈ List.range hi, lo ≤ i → Covered s i) <| by
    simp only [Covers, List.mem_range]
    exact ⟨fun h i hlo hhi => h i hhi hlo, fun h i hhi hlo => h i hlo hhi⟩

@[simp] theorem covered_cons {p : ℕ × ℕ} {s : List (ℕ × ℕ)} {i : ℕ} :
    Covered (p :: s) i ↔ (p.1 ≤ i ∧ i < p.1 + p.2) ∨ Covered s i := by
  simp [Covered]

theorem Covered.perm {s t : List (ℕ × ℕ)} (h : s.Perm t) {i : ℕ} : Covered s i ↔ Covered t i := by
  simp only [Covered, h.mem_iff]

theorem Covers.perm {s t : List (ℕ × ℕ)} (h : s.Perm t) {lo hi : ℕ} :
    Covers s lo hi ↔ Covers t lo hi := by
  simp only [Covers, Covered.perm h]

/-- The end of the part that is covered without a hole. -/
def reach : ℕ → List (ℕ × ℕ) → Option ℕ
  | done, [] => some done
  | done, p :: s => if done < p.1 then none else reach (max done (p.1 + p.2)) s

/-- Nothing before the first offset is covered. -/
theorem not_covered_of_sorted {p : ℕ × ℕ} {s : List (ℕ × ℕ)}
    (hs : (p :: s).Pairwise (fun a b => a.1 ≤ b.1)) {i : ℕ} (hi : i < p.1) :
    ¬ Covered (p :: s) i := by
  rintro ⟨q, hq, hle, -⟩
  have hpq : p.1 ≤ q.1 := by
    rcases List.mem_cons.mp hq with rfl | hq
    · exact le_rfl
    · exact List.rel_of_pairwise_cons hs hq
  omega

theorem reach_eq_some_iff {s : List (ℕ × ℕ)} {done hi : ℕ}
    (hs : s.Pairwise (fun a b => a.1 ≤ b.1)) (hle : ∀ p ∈ s, p.1 + p.2 ≤ hi) (hd : done ≤ hi) :
    reach done s = some hi ↔ Covers s done hi := by
  induction s generalizing done with
  | nil =>
    simp only [reach, Option.some.injEq]
    constructor
    · rintro rfl i hlo hhi
      omega
    · intro hc
      by_contra hne
      obtain ⟨q, hq, -⟩ := hc done le_rfl (by omega)
      simp at hq
  | cons p s ih =>
    have hp := hle p List.mem_cons_self
    unfold reach
    split_ifs with hhole
    · refine iff_of_false (by simp) fun hc => ?_
      exact not_covered_of_sorted hs hhole (hc done le_rfl (by omega))
    · rw [ih (List.Pairwise.of_cons hs) (fun q hq => hle q (List.mem_cons_of_mem p hq)) (by omega)]
      constructor
      · intro hc i hlo hhi
        rw [covered_cons]
        by_cases hin : i < p.1 + p.2
        · exact Or.inl ⟨by omega, hin⟩
        · exact Or.inr (hc i (by omega) hhi)
      · intro hc i hlo hhi
        exact (covered_cons.mp (hc i (by omega) hhi)).resolve_left fun h => by omega

end Dtnme.Library
