import Mathlib

/-! # Decimal numerals

A number as the ASCII digits that `%zu` and `std::to_string` write, and the value of digits.
-/

namespace Dtnme.Library

/-- The digits of a number, most significant first. -/
def decimal (n : ℕ) : List UInt8 :=
  if n = 0 then [48] else (Nat.digits 10 n).reverse.map (fun d => UInt8.ofNat (48 + d))

/-- The value of digits behind a value. -/
def ofDecimal (v : ℕ) (l : List UInt8) : ℕ := l.foldl (fun v b => v * 10 + (b.toNat - 48)) v

def isDigit (c : UInt8) : Bool := 48 ≤ c.toNat && c.toNat ≤ 57

/-- A front that satisfies a test, up to an element that does not, is what `takeWhile` takes. -/
theorem takeWhile_span {α : Type*} {p : α → Bool} {xs ys : List α} (hxs : ∀ c ∈ xs, p c = true)
    (hys : ∀ c ∈ ys.head?, p c = false) : (xs ++ ys).takeWhile p = xs := by
  rw [List.takeWhile_append_of_pos hxs]
  cases ys with
  | nil => simp
  | cons c ys => simp [hys c rfl]

theorem append_inj_of_span {α : Type*} {p : α → Bool} {xs xs' ys ys' : List α}
    (hxs : ∀ c ∈ xs, p c = true) (hys : ∀ c ∈ ys.head?, p c = false)
    (hxs' : ∀ c ∈ xs', p c = true) (hys' : ∀ c ∈ ys'.head?, p c = false)
    (h : xs ++ ys = xs' ++ ys') : xs = xs' ∧ ys = ys' := by
  have hfront : xs = xs' := by
    rw [← takeWhile_span hxs hys, h, takeWhile_span hxs' hys']
  subst hfront
  exact ⟨rfl, List.append_cancel_left h⟩

theorem isDigit_of_mem_decimal {n : ℕ} {c : UInt8} (hc : c ∈ decimal n) : isDigit c = true := by
  unfold decimal at hc
  split_ifs at hc with hn
  · rw [List.mem_singleton.mp hc]
    decide
  · obtain ⟨d, hd, rfl⟩ := List.mem_map.mp hc
    have hlt : d < 10 := Nat.digits_lt_base (by norm_num) (List.mem_reverse.mp hd)
    have htoNat : (UInt8.ofNat (48 + d)).toNat = 48 + d := by
      rw [UInt8.toNat_ofNat']
      omega
    simp only [isDigit, htoNat, Bool.and_eq_true, decide_eq_true_eq]
    omega

theorem decimal_ne_nil (n : ℕ) : decimal n ≠ [] := by
  unfold decimal
  split_ifs with hn
  · simp
  · simpa [Nat.digits_eq_nil_iff_eq_zero] using hn

theorem ofDecimal_digits (l : List ℕ) (hl : ∀ d ∈ l, d < 10) :
    ofDecimal 0 (l.reverse.map (fun d => UInt8.ofNat (48 + d))) = Nat.ofDigits 10 l := by
  rw [ofDecimal, List.foldl_map, List.foldl_reverse, Nat.ofDigits_eq_foldr]
  induction l with
  | nil => rfl
  | cons d l ih =>
    have hd : d < 10 := hl d (List.mem_cons_self ..)
    rw [List.foldr_cons, List.foldr_cons, ih (fun x hx => hl x (List.mem_cons_of_mem _ hx)),
      UInt8.toNat_ofNat']
    simp only [Nat.cast_id]
    omega

/-- The digits of a number have its value. -/
theorem ofDecimal_decimal (n : ℕ) : ofDecimal 0 (decimal n) = n := by
  unfold decimal
  split_ifs with hn
  · simp [ofDecimal, hn]
  · rw [ofDecimal_digits _ (fun d hd => Nat.digits_lt_base (by norm_num) hd), Nat.ofDigits_digits]

theorem length_decimal_le {n k : ℕ} (h : n < 10 ^ k) (hk : 0 < k) : (decimal n).length ≤ k := by
  unfold decimal
  split_ifs with hn
  · exact hk
  · simpa using (Nat.digits_length_le_iff (by norm_num) n).mpr h

theorem decimal_injective : Function.Injective decimal := by
  intro m n h
  rw [← ofDecimal_decimal m, ← ofDecimal_decimal n, h]

end Dtnme.Library
