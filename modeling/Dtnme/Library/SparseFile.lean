import Mathlib

/-! # Sparse files

A file as a partial function from offsets to bytes. Writing a list at an offset
replaces its interval and nothing else; two writes whose intervals meet end to end
are one write of the joined list.
-/

namespace Dtnme.Library

variable {α : Type*}

/-- The file after a write of `l` at `offset`. -/
def writeAt (f : ℕ → Option α) (offset : ℕ) (l : List α) : ℕ → Option α := fun x =>
  if offset ≤ x ∧ x < offset + l.length then l[x - offset]? else f x

/-- The file holds the list at the offset. -/
def HoldsAt (f : ℕ → Option α) (offset : ℕ) (l : List α) : Prop :=
  ∀ i, i < l.length → f (offset + i) = l[i]?

variable {f : ℕ → Option α} {offset : ℕ}

@[simp]
theorem writeAt_nil (f : ℕ → Option α) (offset : ℕ) : writeAt f offset [] = f := by
  funext x
  simp only [writeAt, List.length_nil]
  rw [if_neg (by omega)]

theorem writeAt_of_outside {l : List α} {x : ℕ} (h : x < offset ∨ offset + l.length ≤ x) :
    writeAt f offset l x = f x := by
  simp only [writeAt]
  rw [if_neg (by omega)]

theorem writeAt_holds (f : ℕ → Option α) (offset : ℕ) (l : List α) :
    HoldsAt (writeAt f offset l) offset l := by
  intro i hi
  simp only [writeAt]
  rw [if_pos (by omega), Nat.add_sub_cancel_left]

/-- A write that follows another one end to end. -/
theorem writeAt_append (f : ℕ → Option α) (offset : ℕ) (a b : List α) :
    writeAt f offset (a ++ b) = writeAt (writeAt f offset a) (offset + a.length) b := by
  funext x
  simp only [writeAt, List.length_append]
  by_cases hb : offset + a.length ≤ x
  · rw [if_neg (by omega : ¬ (offset ≤ x ∧ x < offset + a.length)),
      List.getElem?_append_right (by omega), Nat.sub_sub]
    congr 1
    simp only [eq_iff_iff]
    omega
  · rw [if_neg (by omega : ¬ (offset + a.length ≤ x ∧ _))]
    by_cases ha : offset ≤ x
    · rw [if_pos (by omega), if_pos (by omega), List.getElem?_append_left (by omega)]
    · rw [if_neg (by omega), if_neg (by omega)]

/-- A write elsewhere leaves what the file holds. -/
theorem HoldsAt.writeAt {l m : List α} {other : ℕ} (h : HoldsAt f offset l)
    (hapart : offset + l.length ≤ other ∨ other + m.length ≤ offset) :
    HoldsAt (Library.writeAt f other m) offset l := by
  intro i hi
  rw [writeAt_of_outside (by omega), h i hi]

end Dtnme.Library
