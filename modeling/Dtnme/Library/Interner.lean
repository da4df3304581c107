import Mathlib

/-! # Interning

A table gives equal values the same index and different values different ones, over any list of
requests.
-/

namespace Dtnme.Library

/-- The values that have an index, in the order in which they got it. -/
structure Interner (α : Type*) where
  items : List α
  nodup : items.Nodup

namespace Interner
variable {α : Type*} [DecidableEq α]

def empty : Interner α := ⟨[], List.nodup_nil⟩

/-- The index of a value, a new one if it has none. -/
def intern (p : Interner α) (a : α) : Interner α × ℕ :=
  if h : a ∈ p.items then (p, p.items.idxOf a)
  else (⟨p.items ++ [a], by simpa [List.nodup_append] using ⟨p.nodup, fun b hb hba => h (hba ▸ hb)⟩⟩, p.items.length)

/-- The indices that a list of requests is given. -/
def internAll (p : Interner α) : List α → List ℕ
  | [] => []
  | a :: l => (p.intern a).2 :: (p.intern a).1.internAll l

theorem intern_getElem? (p : Interner α) (a : α) :
    (p.intern a).1.items[(p.intern a).2]? = some a := by
  unfold intern
  split_ifs with h
  · exact List.getElem?_idxOf h
  · simp

theorem intern_prefix (p : Interner α) (a : α) : p.items <+: (p.intern a).1.items := by
  unfold intern
  split_ifs
  · exact List.prefix_refl _
  · exact List.prefix_append _ _

/-- An index that a value was given is its index in the table from then on. -/
theorem internAll_getElem? (p : Interner α) (l : List α) :
    ∃ q : Interner α, p.items <+: q.items ∧
      ∀ i : ℕ, (p.internAll l)[i]?.bind (fun x => q.items[x]?) = l[i]? := by
  induction l generalizing p with
  | nil => exact ⟨p, List.prefix_refl _, fun i => by simp [internAll]⟩
  | cons a l ih =>
    obtain ⟨q, hq, hl⟩ := ih (p.intern a).1
    refine ⟨q, (p.intern_prefix a).trans hq, fun i => ?_⟩
    cases i with
    | zero =>
      obtain ⟨rest, hrest⟩ := hq
      have hlt := (List.getElem?_eq_some_iff.mp (p.intern_getElem? a)).1
      simpa [internAll, ← hrest, List.getElem?_append_left hlt] using p.intern_getElem? a
    | succ i => simpa [internAll] using hl i

/-- Two requests are given the same index exactly if they are for the same value. -/
theorem internAll_eq_iff (p : Interner α) {l : List α} {i j : ℕ} {a b : α} (hi : l[i]? = some a)
    (hj : l[j]? = some b) : (p.internAll l)[i]? = (p.internAll l)[j]? ↔ a = b := by
  obtain ⟨q, -, hq⟩ := p.internAll_getElem? l
  have hx := hq i
  have hy := hq j
  rw [hi, Option.bind_eq_some_iff] at hx
  rw [hj, Option.bind_eq_some_iff] at hy
  obtain ⟨x, hx, hxa⟩ := hx
  obtain ⟨y, hy, hyb⟩ := hy
  rw [hx, hy, Option.some.injEq]
  constructor
  · rintro rfl
    rw [hxa] at hyb
    exact Option.some.inj hyb
  · rintro rfl
    rw [← List.getElem?_inj (List.getElem?_eq_some_iff.mp hxa).1 q.nodup]
    exact hxa.trans hyb.symm

end Interner

end Dtnme.Library
