import Mathlib

/-! # Chains of successors

The elements that a partial successor function leads to from a first one. In a finite set a chain ends
if and only if no element comes twice.
-/

namespace Dtnme.Library

variable {α : Type*} (next : α → Option α)

/-- The n-th element behind `a`, as long as there is one. -/
def chain (a : α) : ℕ → Option α
  | 0 => some a
  | n + 1 => (chain a n).bind next

/-- No element comes twice. -/
def NoRepeat (a : α) : Prop := ∀ m n, m < n → ∀ b, chain next a m = some b → chain next a n ≠ some b

namespace chain

variable {next} {a b : α} {m n : ℕ}

@[simp] theorem zero : chain next a 0 = some a := rfl

theorem succ (n : ℕ) : chain next a (n + 1) = (chain next a n).bind next := rfl

theorem add (h : chain next a m = some b) (n : ℕ) : chain next a (m + n) = chain next b n := by
  induction n with
  | zero => exact h
  | succ n ih => rw [← Nat.add_assoc, succ, ih, succ]

/-- The chain from the second element on. -/
theorem of_next (h : next a = some b) (n : ℕ) : chain next a (n + 1) = chain next b n := by
  rw [Nat.add_comm]
  exact add (by rw [succ, zero, Option.bind_some, h]) n

theorem none_add (h : chain next a m = none) (n : ℕ) : chain next a (m + n) = none := by
  induction n with
  | zero => exact h
  | succ n ih => rw [← Nat.add_assoc, succ, ih, Option.bind_none]

theorem isSome_of_le (h : (chain next a n).isSome) (hmn : m ≤ n) : (chain next a m).isSome := by
  by_contra hnone
  rw [Option.not_isSome_iff_eq_none] at hnone
  obtain ⟨k, rfl⟩ := Nat.exists_eq_add_of_le hmn
  rw [none_add hnone] at h
  simp at h

/-- Behind an element that comes again there is no end. -/
theorem isSome_of_repeat (hmn : m < n) (hm : chain next a m = some b) (hn : chain next a n = some b)
    (k : ℕ) : (chain next a k).isSome := by
  obtain ⟨p, rfl⟩ := Nat.exists_eq_add_of_lt hmn
  have hloop : chain next b (p + 1) = some b := by rw [← add hm, ← hn, Nat.add_assoc]
  have hround : ∀ i, chain next b (i * (p + 1)) = some b := by
    intro i
    induction i with
    | zero => rw [Nat.zero_mul, zero]
    | succ i ih => rw [Nat.succ_mul, add ih, hloop]
  have hlate : (chain next a (m + k * (p + 1))).isSome := by
    rw [add hm, hround]
    rfl
  apply isSome_of_le hlate
  nlinarith

/-- A chain within finitely many elements in which none comes twice has an end. -/
theorem exists_none {s : Set α} (hs : s.Finite) (hmem : ∀ n, ∀ b ∈ chain next a n, b ∈ s)
    (h : NoRepeat next a) : ∃ n, chain next a n = none := by
  by_contra hall
  push Not at hall
  have hsome : ∀ n, ∃ b, chain next a n = some b := fun n => Option.ne_none_iff_exists'.mp (hall n)
  choose f hf using hsome
  have hmaps : Set.MapsTo f Set.univ s := fun n _ => hmem n (f n) (hf n)
  obtain ⟨m, -, n, -, hne, heq⟩ := Set.infinite_univ.exists_ne_map_eq_of_mapsTo hmaps hs
  rcases Nat.lt_or_gt_of_ne hne with hlt | hgt
  · exact h m n hlt (f m) (hf m) (heq ▸ hf n)
  · exact h n m hgt (f n) (hf n) (heq ▸ hf m)

/-- Where an element comes twice every place of the chain is taken. -/
theorem isSome_of_not_noRepeat (h : ¬ NoRepeat next a) (k : ℕ) : (chain next a k).isSome := by
  unfold NoRepeat at h
  push Not at h
  obtain ⟨m, n, hmn, b, hm, hn⟩ := h
  exact isSome_of_repeat hmn hm hn k

theorem noRepeat_of_none (h : chain next a n = none) : NoRepeat next a := by
  by_contra hrepeat
  have hsome := isSome_of_not_noRepeat hrepeat n
  rw [h] at hsome
  simp at hsome

/-- The last element of a chain that ends. -/
theorem exists_last (h : ∃ n, chain next a n = none) :
    ∃ n b, chain next a n = some b ∧ next b = none := by
  obtain ⟨n, hn⟩ := h
  induction n with
  | zero => simp at hn
  | succ n ih =>
    cases hlast : chain next a n with
    | none => exact ih hlast
    | some b =>
      rw [succ, hlast, Option.bind_some] at hn
      exact ⟨n, b, hlast, hn⟩

theorem last_unique {b' : α} (hm : chain next a m = some b) (hb : next b = none)
    (hn : chain next a n = some b') (hb' : next b' = none) : m = n ∧ b = b' := by
  have hstop : ∀ {i j : ℕ} {c d : α}, chain next a i = some c → next c = none →
      chain next a j = some d → j ≤ i := fun {i j c d} hi hc hj => by
    by_contra hlt
    have hsome := isSome_of_le (m := i + 1) (by rw [hj]; rfl) (Nat.lt_of_not_le hlt)
    rw [succ, hi, Option.bind_some, hc] at hsome
    simp at hsome
  obtain rfl := Nat.le_antisymm (hstop hn hb' hm) (hstop hm hb hn)
  exact ⟨rfl, Option.some.inj (hm.symm.trans hn)⟩

end chain

end Dtnme.Library
