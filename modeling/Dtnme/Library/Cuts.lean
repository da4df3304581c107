import Mathlib

/-! # Cutting a list into pieces

A list cut into pieces of one length, of which the last may be shorter but not empty.
There is one such cut. A layout puts the pieces one behind the other and marks the last.
-/

namespace Dtnme.Library

variable {α : Type*} {n : ℕ} {l : List α} {parts : List (List α)}

/-- Pieces of length `n`, the last one of length 1 to `n`. -/
inductive Cuts (n : ℕ) : List α → List (List α) → Prop
  | last {l : List α} : l ≠ [] → l.length ≤ n → Cuts n l [l]
  | cons {a l : List α} {parts : List (List α)} :
    a.length = n → Cuts n l parts → Cuts n (a ++ l) (a :: parts)

namespace Cuts

theorem ne_nil (h : Cuts n l parts) : l ≠ [] := by
  induction h with
  | last hl _ => exact hl
  | cons _ _ ih => simp [ih]

theorem flatten (h : Cuts n l parts) : parts.flatten = l := by
  induction h with
  | last => simp
  | cons _ _ ih => simp [ih]

/-- Every piece has between 1 and `n` elements. -/
theorem length_mem (h : Cuts n l parts) (hn : 0 < n) :
    ∀ p ∈ parts, 0 < p.length ∧ p.length ≤ n := by
  induction h with
  | last hl hle => simpa using ⟨List.length_pos_iff.mpr hl, hle⟩
  | cons ha _ ih =>
    simp only [List.mem_cons, forall_eq_or_imp]
    exact ⟨⟨by omega, ha.le⟩, ih⟩

theorem length_pos (h : Cuts n l parts) : 0 < l.length := List.length_pos_iff.mpr h.ne_nil

/-- The cut is determined by the list and the length. -/
theorem unique {l' : List α} {parts' : List (List α)} (h : Cuts n l parts)
    (h' : Cuts n l' parts') (heq : l = l') : parts = parts' := by
  induction h generalizing l' parts' with
  | last hl hle =>
    subst heq
    cases h' with
    | last => rfl
    | cons ha hrest =>
      have := hrest.length_pos
      simp only [List.length_append] at hle
      omega
  | cons ha hrest ih =>
    cases h' with
    | last hl hle =>
      have := hrest.length_pos
      rw [← heq, List.length_append] at hle
      omega
    | cons hb hrest' =>
      obtain ⟨rfl, htail⟩ := List.append_inj heq (ha.trans hb.symm)
      rw [ih hrest' htail]

/-- Full pieces in front of a cut. -/
theorem append {front : List (List α)} (hfront : ∀ p ∈ front, p.length = n)
    (h : Cuts n l parts) : Cuts n (front.flatten ++ l) (front ++ parts) := by
  induction front with
  | nil => simpa using h
  | cons p front ih =>
    simp only [List.flatten_cons, List.append_assoc, List.cons_append]
    exact .cons (hfront p List.mem_cons_self)
      (ih fun q hq => hfront q (List.mem_cons_of_mem _ hq))

end Cuts

/-! ## Layouts -/

/-- A piece with its offset, and whether it is the last one. -/
structure Piece (α : Type*) where
  offset : ℕ
  data : List α
  last : Bool
  deriving DecidableEq

/-- The pieces one behind the other, with more to come. -/
def openLayout : ℕ → List (List α) → List (Piece α)
  | _, [] => []
  | offset, p :: parts => ⟨offset, p, false⟩ :: openLayout (offset + p.length) parts

/-- The pieces one behind the other, the last one marked. -/
def layout : ℕ → List (List α) → List (Piece α)
  | _, [] => []
  | offset, p :: parts => ⟨offset, p, parts.isEmpty⟩ :: layout (offset + p.length) parts

theorem openLayout_append (offset : ℕ) (parts : List (List α)) (p : List α) :
    openLayout offset (parts ++ [p]) =
      openLayout offset parts ++ [⟨offset + parts.flatten.length, p, false⟩] := by
  induction parts generalizing offset with
  | nil => simp [openLayout]
  | cons q parts ih => simp [openLayout, ih, Nat.add_assoc]

/-- Closing an open layout with a last piece. -/
theorem layout_append (offset : ℕ) (parts : List (List α)) (p : List α) :
    layout offset (parts ++ [p]) =
      openLayout offset parts ++ [⟨offset + parts.flatten.length, p, true⟩] := by
  induction parts generalizing offset with
  | nil => simp [layout, openLayout]
  | cons q parts ih => simp [layout, openLayout, ih, Nat.add_assoc]

theorem layout_map_data (offset : ℕ) (parts : List (List α)) :
    (layout offset parts).map Piece.data = parts := by
  induction parts generalizing offset with
  | nil => rfl
  | cons p parts ih => simp [layout, ih]

/-- Each piece starts where the pieces before it end, and the last one alone is marked. -/
theorem layout_getElem? {offset : ℕ} {parts : List (List α)} {i : ℕ} {p : Piece α}
    (h : (layout offset parts)[i]? = some p) :
    p.offset = offset + ((parts.take i).map List.length).sum ∧ parts[i]? = some p.data ∧
      (p.last = true ↔ i + 1 = parts.length) := by
  induction parts generalizing offset i with
  | nil => simp [layout] at h
  | cons q parts ih =>
    cases i with
    | zero =>
      simp only [layout, List.getElem?_cons_zero, Option.some.injEq] at h
      subst h
      simp [List.isEmpty_iff]
    | succ i =>
      simp only [layout, List.getElem?_cons_succ] at h
      obtain ⟨hoff, hdata, hlast⟩ := ih h
      simp [hoff, hdata, hlast, Nat.add_assoc]

end Dtnme.Library
