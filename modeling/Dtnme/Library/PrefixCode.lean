import Mathlib

/-! # Prefix codes

Words none of which begins another can be written one after the other and read back in one way
only, also when something else follows them.
-/

namespace Dtnme.Library

variable {α β : Type*} {encode : α → List β}

/-- No word is empty, and a word is known from any bytes that begin with it. -/
structure PrefixCode (encode : α → List β) : Prop where
  ne_nil : ∀ a, encode a ≠ []
  unique : ∀ a b s t, encode a ++ s = encode b ++ t → a = b ∧ s = t

namespace PrefixCode

/-- A reader that finds every word at the front makes a prefix code. -/
theorem of_read {read : List β → Option (α × List β)} (hne : ∀ a, encode a ≠ [])
    (hread : ∀ a s, read (encode a ++ s) = some (a, s)) : PrefixCode encode where
  ne_nil := hne
  unique a b s t h := by
    have hs := hread a s
    rw [h, hread b t] at hs
    simpa [eq_comm] using hs

/-- Words that begin a sequence of words are its first words. -/
theorem flatMap_append (h : PrefixCode encode) {xs ys : List α} {s : List β}
    (heq : ys.flatMap encode = xs.flatMap encode ++ s) :
    ∃ zs, ys = xs ++ zs ∧ s = zs.flatMap encode := by
  induction xs generalizing ys with
  | nil => exact ⟨ys, rfl, by simpa using heq.symm⟩
  | cons x xs ih =>
    cases ys with
    | nil => simp [h.ne_nil x] at heq
    | cons y ys =>
      simp only [List.flatMap_cons, List.append_assoc] at heq
      obtain ⟨rfl, htail⟩ := h.unique _ _ _ _ heq
      obtain ⟨zs, rfl, hs⟩ := ih htail
      exact ⟨zs, rfl, hs⟩

/-- A sequence of words is read back in one way. -/
theorem flatMap_inj (h : PrefixCode encode) {xs ys : List α}
    (heq : ys.flatMap encode = xs.flatMap encode) : ys = xs := by
  obtain ⟨zs, rfl, hs⟩ := h.flatMap_append (s := []) (by simpa using heq)
  cases zs with
  | nil => simp
  | cons z zs => simp [h.ne_nil z] at hs

end PrefixCode

end Dtnme.Library
