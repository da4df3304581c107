import Mathlib

/-! # Checksums of a reflected polynomial

One bit at a time, the remainder moves down and the polynomial is added if a one drops out. This
is linear in exclusive or, so a byte or several can be taken at once from tables that hold the
shifts of each byte alone.
-/

namespace Dtnme.Library.Crc

variable {w : ℕ} {p : BitVec w}

/-- One step of the remainder. -/
def shift (p c : BitVec w) : BitVec w := if c.getLsbD 0 then (c >>> 1) ^^^ p else c >>> 1

def shifts (p : BitVec w) : ℕ → BitVec w → BitVec w
  | 0, c => c
  | n + 1, c => shifts p n (shift p c)

/-- One bit of the message. -/
def bit (p c : BitVec w) (b : Bool) : BitVec w := shift p (c ^^^ (BitVec.ofBool b).setWidth w)

/-- The bits of a byte, the lowest first. -/
def bitsOf (b : BitVec 8) : List Bool := (List.range 8).map b.getLsbD

/-- The remainder of a message, one bit at a time. -/
def remainder (p c : BitVec w) (l : List (BitVec 8)) : BitVec w :=
  (l.flatMap bitsOf).foldl (bit p) c

theorem remainder_append (c : BitVec w) (l l' : List (BitVec 8)) :
    remainder p c (l ++ l') = remainder p (remainder p c l) l' := by
  simp [remainder]

/-! ## Linearity -/

theorem shift_xor (a b : BitVec w) : shift p (a ^^^ b) = shift p a ^^^ shift p b := by
  unfold shift
  rw [BitVec.getLsbD_xor, BitVec.ushiftRight_xor_distrib]
  ext i
  cases a.getLsbD 0 <;> cases b.getLsbD 0 <;> simp <;> grind

@[simp] theorem shift_zero : shift p 0 = 0 := by
  simp [shift]

theorem shifts_xor (n : ℕ) (a b : BitVec w) :
    shifts p n (a ^^^ b) = shifts p n a ^^^ shifts p n b := by
  induction n generalizing a b with
  | zero => rfl
  | succ n ih => rw [shifts, shift_xor, ih, shifts, shifts]

theorem shifts_add (m n : ℕ) (c : BitVec w) : shifts p (m + n) c = shifts p n (shifts p m c) := by
  induction m generalizing c with
  | zero => rw [Nat.zero_add, shifts]
  | succ m ih => rw [Nat.succ_add, shifts, ih, shifts]

/-- Low zeros drop out. -/
theorem shifts_of_low {n : ℕ} {c : BitVec w} (h : ∀ i < n, c.getLsbD i = false) :
    shifts p n c = c >>> n := by
  induction n generalizing c with
  | zero => simp [shifts]
  | succ n ih =>
    have hlow : shift p c = c >>> 1 := by simp [shift, h 0 (Nat.succ_pos n)]
    rw [shifts, hlow, ih]
    · rw [Nat.add_comm n 1, BitVec.shiftRight_add]
    · intro i hi
      rw [BitVec.getLsbD_ushiftRight, Nat.add_comm]
      exact h (i + 1) (by omega)

/-! ## Bytes -/

/-- A byte as a remainder. -/
def ofByte (w : ℕ) (b : BitVec 8) : BitVec w := b.setWidth w

/-- The lowest byte and the others. -/
theorem eq_low_xor_high (c : BitVec w) : c = ofByte w (c.setWidth 8) ^^^ ((c >>> 8) <<< 8) := by
  ext i hi
  simp only [ofByte, BitVec.getElem_xor, BitVec.getElem_setWidth, BitVec.getElem_shiftLeft,
    BitVec.getLsbD_setWidth]
  by_cases h : i < 8
  · simp [h, BitVec.getLsbD_eq_getElem hi]
  · have hsum : 8 + (i - 8) = i := by omega
    simp [h, hsum, BitVec.getLsbD_eq_getElem hi]

theorem high_shiftRight (c : BitVec w) : ((c >>> 8) <<< 8) >>> 8 = c >>> 8 := by
  apply BitVec.eq_of_getLsbD_eq
  intro i _
  rw [BitVec.getLsbD_ushiftRight, BitVec.getLsbD_shiftLeft, BitVec.getLsbD_ushiftRight]
  by_cases h : 8 + i < w
  · simp [h]
  · simp [h, BitVec.getLsbD_of_ge c (8 + i) (by omega)]

/-- Eight steps: those of the lowest byte, and the others moved down. -/
theorem shifts_eight (c : BitVec w) :
    shifts p 8 c = shifts p 8 (ofByte w (c.setWidth 8)) ^^^ (c >>> 8) := by
  conv_lhs => rw [eq_low_xor_high c, shifts_xor]
  congr 1
  rw [shifts_of_low, high_shiftRight]
  intro i hi
  simp [hi]

/-! ## One byte at a time -/

/-- The bits of a message as a remainder. -/
def ofBits (w : ℕ) : List Bool → BitVec w
  | [] => 0
  | b :: l => (BitVec.ofBool b).setWidth w ^^^ (ofBits w l <<< 1)

theorem getLsbD_ofBits (l : List Bool) (i : ℕ) :
    (ofBits w l).getLsbD i = (decide (i < w) && l.getD i false) := by
  induction l generalizing i with
  | nil => simp [ofBits]
  | cons b l ih =>
    cases i with
    | zero => cases b <;> simp [ofBits]
    | succ i =>
      simp only [ofBits, BitVec.getLsbD_xor, BitVec.getLsbD_shiftLeft, ih]
      by_cases h : i + 1 < w
      · simp [h, show i < w by omega]
      · simp [h]

theorem ofBits_bitsOf (b : BitVec 8) : ofBits w (bitsOf b) = ofByte w b := by
  apply BitVec.eq_of_getLsbD_eq
  intro i hi
  rw [getLsbD_ofBits, ofByte, BitVec.getLsbD_setWidth]
  by_cases h : i < 8
  · simp [hi, bitsOf, h]
  · simp [bitsOf, h, BitVec.getLsbD_of_ge b i (by omega)]

/-- The bits of a message can be added at once if they fit. -/
theorem foldl_bit (l : List Bool) (c : BitVec w) (h : l.length ≤ w) :
    l.foldl (bit p) c = shifts p l.length (c ^^^ ofBits w l) := by
  induction l generalizing c with
  | nil => simp [ofBits, shifts]
  | cons b l ih =>
    rw [List.length_cons] at h
    have hdrop : shift p (ofBits w l <<< 1) = ofBits w l := by
      have hlow : shift p (ofBits w l <<< 1) = ofBits w l <<< 1 >>> 1 := by simp [shift]
      rw [hlow]
      apply BitVec.eq_of_getLsbD_eq
      intro i _
      simp only [BitVec.getLsbD_ushiftRight, BitVec.getLsbD_shiftLeft, getLsbD_ofBits]
      by_cases hi : 1 + i < w
      · simp [hi, show i < w by omega]
      · have hnone : l.getD i false = false := List.getD_eq_default l false (by omega)
        simp only [hi, hnone, decide_false, Bool.false_and, Bool.and_false]
    rw [List.foldl_cons, ih _ (by omega), List.length_cons, shifts, ofBits, ← BitVec.xor_assoc,
      shift_xor, hdrop]
    rfl

theorem remainder_cons (h : 8 ≤ w) (c : BitVec w) (b : BitVec 8) (l : List (BitVec 8)) :
    remainder p c (b :: l) = remainder p (shifts p 8 (c ^^^ ofByte w b)) l := by
  have hlen : (bitsOf b).length = 8 := by simp [bitsOf]
  have hbyte := foldl_bit (p := p) (bitsOf b) c (by omega)
  rw [hlen, ofBits_bitsOf] at hbyte
  rw [remainder, List.flatMap_cons, List.foldl_append, hbyte]
  rfl

theorem remainder_xor (h : 8 ≤ w) (c d : BitVec w) (l : List (BitVec 8)) :
    remainder p (c ^^^ d) l = shifts p (8 * l.length) c ^^^ remainder p d l := by
  induction l generalizing c d with
  | nil => simp [remainder, shifts]
  | cons b l ih =>
    rw [remainder_cons h, remainder_cons h, BitVec.xor_assoc, shifts_xor, ih, List.length_cons,
      Nat.mul_succ, Nat.add_comm, shifts_add]

/-! ## Tables -/

/-- The table of the remainders of a byte with `k` zero bytes behind it. -/
def table (p : BitVec w) : ℕ → BitVec 8 → BitVec w
  | 0, n => shifts p 8 (ofByte w n)
  | k + 1, n => shifts p 8 (ofByte w ((table p k n).setWidth 8)) ^^^ (table p k n >>> 8)

theorem table_eq (k : ℕ) (n : BitVec 8) : table p k n = shifts p (8 * (k + 1)) (ofByte w n) := by
  induction k with
  | zero => rfl
  | succ k ih => rw [table, ← shifts_eight, ih, ← shifts_add, Nat.mul_succ 8 (k + 1)]

/-- A byte by the first table. -/
theorem remainder_byte (h : 8 ≤ w) (c : BitVec w) (b : BitVec 8) (l : List (BitVec 8)) :
    remainder p c (b :: l) =
      remainder p (table p 0 (c.setWidth 8 ^^^ b) ^^^ (c >>> 8)) l := by
  have hlow : (c ^^^ ofByte w b).setWidth 8 = c.setWidth 8 ^^^ b := by
    ext i hi
    simp [ofByte, show i < w by omega, hi]
  have hhigh : (c ^^^ ofByte w b) >>> 8 = c >>> 8 := by
    apply BitVec.eq_of_getLsbD_eq
    intro i _
    simp [ofByte]
  rw [remainder_cons h, shifts_eight, hlow, hhigh, table]

/-- The bytes of a message and of the remainder, each by a table of its own. -/
def sliced (p : BitVec w) : List (BitVec 8) → BitVec w → BitVec w
  | [], c => c
  | b :: l, c => table p l.length (c.setWidth 8 ^^^ b) ^^^ sliced p l (c >>> 8)

theorem remainder_sliced (h : 8 ≤ w) (c : BitVec w) (l : List (BitVec 8)) :
    remainder p c l = sliced p l c := by
  induction l generalizing c with
  | nil => rfl
  | cons b l ih =>
    rw [remainder_byte h, remainder_xor h, ih, sliced, table_eq 0, table_eq l.length, ← shifts_add]
    congr 2
    omega

end Dtnme.Library.Crc
