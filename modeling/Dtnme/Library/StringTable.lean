import Mathlib

/-! # Tables of strings

Strings of bytes one after another, each ended by a zero byte, and what is read at an address.
-/

namespace Dtnme.Library

/-- The string at an address, up to the first zero byte. -/
def cstr (mem : List UInt8) (off : ℕ) : List UInt8 := (mem.drop off).takeWhile (· ≠ 0)

def table (l : List (List UInt8)) : List UInt8 := l.flatMap (· ++ [0])

@[simp] theorem table_nil : table [] = [] := rfl

@[simp] theorem table_cons (s : List UInt8) (l : List (List UInt8)) :
    table (s :: l) = s ++ 0 :: table l := by
  simp [table]

@[simp] theorem table_append (l m : List (List UInt8)) : table (l ++ m) = table l ++ table m := by
  simp [table]

theorem takeWhile_string {s : List UInt8} (hs : (0 : UInt8) ∉ s) (rest : List UInt8) :
    (s ++ 0 :: rest).takeWhile (· ≠ 0) = s := by
  induction s with
  | nil => simp
  | cons c s ih =>
    have hc : c ≠ 0 := fun h => hs (by simp [h])
    simp only [List.cons_append, List.takeWhile_cons, decide_eq_true hc, if_true]
    rw [ih (fun h => hs (List.mem_cons_of_mem c h))]

/-- A string that ends within the first part. -/
theorem cstr_append_of_mem {a : List UInt8} {i : ℕ} (h : (0 : UInt8) ∈ a.drop i) (b : List UInt8) :
    cstr (a ++ b) i = cstr a i := by
  have hi : i ≤ a.length := by
    by_contra hno
    rw [List.drop_of_length_le (by omega)] at h
    cases h
  obtain ⟨s, t, hst, hs⟩ := List.eq_append_cons_of_mem h
  rw [cstr, cstr, List.drop_append_of_le_length hi, hst, List.append_assoc, List.cons_append,
    takeWhile_string hs, takeWhile_string hs]

/-- A string that goes on behind the first part. -/
theorem cstr_append_of_notMem {a : List UInt8} {i : ℕ} (h : (0 : UInt8) ∉ a.drop i)
    (hi : i ≤ a.length) (b : List UInt8) : cstr (a ++ b) i = a.drop i ++ cstr b 0 := by
  rw [cstr, cstr, List.drop_append_of_le_length hi, List.drop_zero]
  refine List.takeWhile_append_of_pos fun c hc => ?_
  simp only [ne_eq, decide_not, Bool.not_eq_eq_eq_not, Bool.not_true, decide_eq_false_iff_not]
  rintro rfl
  exact h hc

/-- The string behind others. -/
theorem cstr_table {l m : List (List UInt8)} {s : List UInt8} (hs : (0 : UInt8) ∉ s) :
    cstr (table (l ++ s :: m)) (table l).length = s := by
  rw [cstr, table_append, List.drop_left, table_cons, takeWhile_string hs]

/-- A string that is not empty starts before the last byte of the table. -/
theorem length_table_lt {l m : List (List UInt8)} {s : List UInt8} (hs : s ≠ []) :
    (table l).length < (table (l ++ s :: m)).length - 1 := by
  have hpos : 0 < s.length := List.length_pos_of_ne_nil hs
  rw [table_append, table_cons]
  simp only [List.length_append, List.length_cons]
  omega

theorem getLast_table {l : List (List UInt8)} (hl : l ≠ []) : (table l).getLast? = some 0 := by
  obtain ⟨m, s, rfl⟩ := List.eq_nil_or_concat l |>.resolve_left hl
  simp

end Dtnme.Library
