import Mathlib

/-! # Slices of a byte string

The part of a list that starts at an offset and has a given length, and writing
such a part in place.
-/

namespace Dtnme.Library
variable {α : Type*}

/-- `len` elements from position `off` on. -/
def slice (l : List α) (off len : ℕ) : List α := (l.drop off).take len

@[simp] theorem slice_zero (l : List α) (off : ℕ) : slice l off 0 = [] := by simp [slice]

@[simp] theorem slice_all (l : List α) : slice l 0 l.length = l := by simp [slice]

theorem slice_eq_take (l : List α) (len : ℕ) : slice l 0 len = l.take len := by simp [slice]

theorem length_slice (l : List α) (off len : ℕ) :
    (slice l off len).length = min len (l.length - off) := by simp [slice]

theorem length_slice_of_le {l : List α} {off len : ℕ} (h : off + len ≤ l.length) :
    (slice l off len).length = len := by
  rw [length_slice]
  omega

/-- A slice ends with the list. -/
theorem slice_min (l : List α) (off len : ℕ) :
    slice l off (min len (l.length - off)) = slice l off len := by
  unfold slice
  rw [← List.length_drop, ← List.take_eq_take_min]

/-- Adjacent slices join. -/
theorem slice_append_slice (l : List α) (off a b : ℕ) :
    slice l off a ++ slice l (off + a) b = slice l off (a + b) := by
  unfold slice
  rw [List.take_add, List.drop_drop]

theorem slice_append_left {l r : List α} {off len : ℕ} (h : off + len ≤ l.length) :
    slice (l ++ r) off len = slice l off len := by
  unfold slice
  rw [List.drop_append_of_le_length (by omega), List.take_append_of_le_length]
  rw [List.length_drop]
  omega

theorem slice_append_right {l r : List α} {off len : ℕ} (h : l.length ≤ off) :
    slice (l ++ r) off len = slice r (off - l.length) len := by
  unfold slice
  rw [List.drop_append, List.drop_eq_nil_of_le h, List.nil_append]

/-- A slice that reaches over the end of the first part. -/
theorem slice_append_over {l r : List α} {off len : ℕ} (h : off ≤ l.length)
    (hl : l.length ≤ off + len) :
    slice (l ++ r) off len = slice l off (l.length - off) ++ r.take (off + len - l.length) := by
  have hs : len = (l.length - off) + (off + len - l.length) := by omega
  have he : off + (l.length - off) = l.length := by omega
  rw [hs, ← slice_append_slice, slice_append_left (by omega), he, slice_append_right le_rfl,
    Nat.sub_self, slice_eq_take]
  congr 2
  omega

/-- A slice that has room for one element more than the list gives. -/
theorem slice_append_singleton {l : List α} {a : α} {off len : ℕ} (h : off ≤ l.length)
    (hl : l.length < off + len) : slice (l ++ [a]) off len = slice l off len ++ [a] := by
  rw [slice_append_over h hl.le, ← slice_min l off len, show min len (l.length - off) = l.length - off by omega,
    List.take_of_length_le]
  simp only [List.length_singleton]
  omega

theorem slice_slice {l : List α} {a n b m : ℕ} (h : b + m ≤ n) :
    slice (slice l a n) b m = slice l (a + b) m := by
  unfold slice
  rw [List.drop_take, List.take_take, List.drop_drop, Nat.min_eq_left (by omega)]

theorem take_slice {l : List α} {off len n : ℕ} (h : n ≤ len) :
    (slice l off len).take n = slice l off n := by
  rw [← slice_eq_take, slice_slice (by omega), Nat.add_zero]

theorem drop_slice (l : List α) (off len n : ℕ) :
    (slice l off len).drop n = slice l (off + n) (len - n) := by
  unfold slice
  rw [List.drop_take, List.drop_drop]

/-- `new` written over `l` from position `off` on. -/
def overwrite (l : List α) (off : ℕ) (new : List α) : List α :=
  l.take off ++ new ++ l.drop (off + new.length)

theorem length_overwrite {l new : List α} {off : ℕ} (h : off + new.length ≤ l.length) :
    (overwrite l off new).length = l.length := by
  simp [overwrite]
  omega

theorem slice_overwrite {l new : List α} {off : ℕ} (h : off ≤ l.length) :
    slice (overwrite l off new) off new.length = new := by
  have hl : (l.take off).length = off := by simpa using h
  unfold overwrite
  rw [List.append_assoc, slice_append_right (by omega), hl, Nat.sub_self, slice_append_left (by omega),
    slice_all]

theorem getElem?_slice {l : List α} {off len i : ℕ} (h : i < len) :
    (slice l off len)[i]? = l[off + i]? := by
  unfold slice
  rw [List.getElem?_take_of_lt h, List.getElem?_drop]

theorem getElem?_overwrite_inside {l new : List α} {off i : ℕ} (h : off + new.length ≤ l.length)
    (hlo : off ≤ i) (hhi : i < off + new.length) : (overwrite l off new)[i]? = new[i - off]? := by
  have hl : (l.take off).length = off := by
    rw [List.length_take]
    omega
  unfold overwrite
  rw [List.append_assoc, List.getElem?_append_right (by omega), hl, List.getElem?_append_left (by omega)]

theorem getElem?_overwrite_outside {l new : List α} {off i : ℕ} (h : off + new.length ≤ l.length)
    (ho : i < off ∨ off + new.length ≤ i) : (overwrite l off new)[i]? = l[i]? := by
  have hl : (l.take off).length = off := by
    rw [List.length_take]
    omega
  unfold overwrite
  rcases ho with hlt | hge
  · rw [List.append_assoc, List.getElem?_append_left (by omega), List.getElem?_take_of_lt hlt]
  · rw [List.getElem?_append_right (by rw [List.length_append]; omega), List.length_append, hl,
      List.getElem?_drop]
    congr 1
    omega

end Dtnme.Library
