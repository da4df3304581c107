import Mathlib

/-! # Tallies of amounts under keys

Items record an amount, and items have keys. The tally of a key counts the items of that key with an
amount, and adds their amounts up. It follows the amounts one item at a time.
-/

namespace Dtnme.Library

/-- A number of items and their amounts together. -/
structure Tally where
  count : ℕ := 0
  total : ℕ := 0
  deriving DecidableEq, Repr

namespace Tally

def plus (t : Tally) (n : ℕ) : Tally := ⟨t.count + 1, t.total + n⟩

/-- Limits, of which zero is none. -/
def Allows (limit t : Tally) : Prop :=
  (limit.count = 0 ∨ t.count ≤ limit.count) ∧ (limit.total = 0 ∨ t.total ≤ limit.total)

instance (limit t : Tally) : Decidable (limit.Allows t) :=
  inferInstanceAs (Decidable (_ ∧ _))

theorem Allows.mono {limit t t' : Tally} (h : limit.Allows t') (hcount : t.count ≤ t'.count)
    (htotal : t.total ≤ t'.total) : limit.Allows t :=
  ⟨h.1.imp_right hcount.trans, h.2.imp_right htotal.trans⟩

end Tally

section
variable {ι κ : Type*} [DecidableEq κ] (key : ι → κ)

/-- The tally of a key over a finite set of items. -/
def tally (amount : ι → ℕ) (H : Finset ι) (k : κ) : Tally :=
  ⟨(H.filter (fun i => key i = k ∧ amount i ≠ 0)).card, ∑ i ∈ H with key i = k, amount i⟩

section
variable {key} {amount : ι → ℕ} {H : Finset ι}

theorem tally_congr {amount' : ι → ℕ} {k : κ} (h : ∀ i ∈ H, key i = k → amount i = amount' i) :
    tally key amount H k = tally key amount' H k := by
  simp only [tally, Tally.mk.injEq]
  constructor
  · congr 1
    apply Finset.filter_congr
    intro i hi
    apply and_congr_right
    intro hk
    rw [h i hi hk]
  · apply Finset.sum_congr rfl
    intro i hi
    rw [Finset.mem_filter] at hi
    exact h i hi.1 hi.2

theorem tally_zero (k : κ) (h : ∀ i ∈ H, amount i = 0) : tally key amount H k = {} := by
  have hzero : tally key amount H k = tally key (fun _ => 0) H k :=
    tally_congr fun i hi _ => h i hi
  rw [hzero]
  simp [tally]

end

variable {H : Finset ι} {amount : ι → ℕ}

/-- Amounts are at least one each. -/
theorem tally_count_le (amount : ι → ℕ) (H : Finset ι) (k : κ) : (tally key amount H k).count ≤ (tally key amount H k).total := by
  change _ ≤ ∑ i ∈ H with key i = k, amount i
  simp only [tally]
  rw [Finset.card_filter, Finset.sum_filter]
  apply Finset.sum_le_sum
  intro i _
  split_ifs with h hk
  · exact Nat.one_le_iff_ne_zero.mpr h.2
  · exact absurd h.1 hk
  all_goals exact Nat.zero_le _

variable (H) in
theorem tally_total_le {bound : ι → ℕ} (h : ∀ i, amount i ≤ bound i) (k : κ) :
    (tally key amount H k).total ≤ ∑ i ∈ H with key i = k, bound i :=
  Finset.sum_le_sum fun i _ => h i

variable {key} in
theorem tally_allows_mono {amount' : ι → ℕ} {limit : Tally} {k : κ} (h : ∀ i, amount i ≤ amount' i)
    (hlimit : limit.Allows (tally key amount' H k)) : limit.Allows (tally key amount H k) := by
  apply hlimit.mono
  · apply Finset.card_le_card
    apply Finset.monotone_filter_right
    intro i _ hi
    have := h i
    exact ⟨hi.1, by omega⟩
  · exact Finset.sum_le_sum fun i _ => h i

variable [DecidableEq ι]

variable {key} in
/-- An item of another key does not matter. -/
theorem tally_update_of_ne {i : ι} {k : κ} (n : ℕ) (hk : key i ≠ k) :
    tally key (Function.update amount i n) H k = tally key amount H k := by
  apply tally_congr
  intro j _ hj
  apply Function.update_of_ne
  rintro rfl
  exact hk hj

/-- An item that had no amount gets one. -/
theorem tally_update_self {i : ι} {n : ℕ} (hi : i ∈ H) (h : amount i = 0) (hn : n ≠ 0) :
    tally key (Function.update amount i n) H (key i) = (tally key amount H (key i)).plus n := by
  have hrest : ∀ j ∈ H.erase i, Function.update amount i n j = amount j := fun j hj =>
    Function.update_of_ne (Finset.ne_of_mem_erase hj) ..
  simp only [tally, Tally.plus, Tally.mk.injEq, Finset.card_filter, Finset.sum_filter]
  rw [← Finset.add_sum_erase H _ hi, ← Finset.add_sum_erase H _ hi, ← Finset.add_sum_erase H _ hi,
    ← Finset.add_sum_erase H _ hi]
  constructor
  · rw [Finset.sum_congr rfl fun j hj => by rw [hrest j hj]]
    simp [h, hn, add_comm]
  · rw [Finset.sum_congr rfl fun j hj => by rw [hrest j hj]]
    simp [h, add_comm]

/-- An item gives its amount back. -/
theorem tally_clear {i : ι} (hi : i ∈ H) (h : amount i ≠ 0) :
    tally key amount H (key i) =
      (tally key (Function.update amount i 0) H (key i)).plus (amount i) := by
  have hagain := tally_update_self key hi (Function.update_self i 0 amount) h
  rw [← hagain, Function.update_idem, Function.update_eq_self]

end

end Dtnme.Library
