import Dtnme.Library.Crc

/-! # The CRC-32C of a CBOR block

`crc32c_sw` takes single bytes up to a multiple of eight in memory, eight bytes at a time from
there, and single bytes at the end. It gives the checksum of the bits taken one by one.
-/

namespace Dtnme.Bundling

open Dtnme.Library

/-- `POLY`, in reversed bit order. -/
def poly : BitVec 32 := 0x82f63b78

/-- One of the eight steps of `crc32c_init_sw`. -/
def crc32cStep (crc : BitVec 32) : BitVec 32 :=
  if crc &&& 1 ≠ 0 then (crc >>> 1) ^^^ poly else crc >>> 1

/-- The first row of `crc32c_table`. -/
def crc32cByByte (n : BitVec 8) : BitVec 32 :=
  crc32cStep (crc32cStep (crc32cStep (crc32cStep (crc32cStep (crc32cStep (crc32cStep (crc32cStep
    (n.setWidth 32))))))))

/-- `crc32c_table`, as `crc32c_init_sw` fills it. -/
def crc32cTable : ℕ → BitVec 8 → BitVec 32
  | 0, n => crc32cByByte n
  | k + 1, n =>
    let crc := crc32cTable k n
    crc32cByByte ((crc &&& 0xff).setWidth 8) ^^^ (crc >>> 8)

/-- An index into a table. -/
def lowByte (crc : BitVec 64) : BitVec 8 := (crc &&& 0xff).setWidth 8

/-- The body of the loops over single bytes. -/
def crc32cByte (crc : BitVec 64) (next : UInt8) : BitVec 64 :=
  (crc32cTable 0 (lowByte (crc ^^^ next.toBitVec.setWidth 64))).setWidth 64 ^^^ (crc >>> 8)

/-- The integer that eight bytes of memory hold, the lowest byte first. -/
def littleEndian : List UInt8 → BitVec 64
  | [] => 0
  | b :: l => b.toBitVec.setWidth 64 ||| (littleEndian l <<< 8)

/-- The body of the loop over quadwords. -/
def crc32cQword (crc nextQword : BitVec 64) : BitVec 64 :=
  let crc := crc ^^^ nextQword
  (crc32cTable 7 (lowByte crc) ^^^
    crc32cTable 6 (lowByte (crc >>> 8)) ^^^
    crc32cTable 5 (lowByte (crc >>> 16)) ^^^
    crc32cTable 4 (lowByte (crc >>> 24)) ^^^
    crc32cTable 3 (lowByte (crc >>> 32)) ^^^
    crc32cTable 2 (lowByte (crc >>> 40)) ^^^
    crc32cTable 1 (lowByte (crc >>> 48)) ^^^
    crc32cTable 0 ((crc >>> 56).setWidth 8)).setWidth 64

/-- The loop up to an address that is a multiple of eight. -/
def crc32cAlign : BitVec 64 → BitVec 64 → List UInt8 → BitVec 64 × List UInt8
  | _, crc, [] => (crc, [])
  | next, crc, b :: l =>
    if next &&& 7 ≠ 0 then crc32cAlign (next + 1) (crc32cByte crc b) l else (crc, b :: l)

/-- The loop over quadwords. -/
def crc32cQwords : BitVec 64 → List UInt8 → BitVec 64 × List UInt8
  | crc, b₀ :: b₁ :: b₂ :: b₃ :: b₄ :: b₅ :: b₆ :: b₇ :: l =>
    crc32cQwords (crc32cQword crc (littleEndian [b₀, b₁, b₂, b₃, b₄, b₅, b₆, b₇])) l
  | crc, l => (crc, l)

/-- `crc32c_sw` of the bytes that lie in memory from the address `buf` on. -/
def crc32cSw (crci : BitVec 32) (buf : BitVec 64) (l : List UInt8) : BitVec 32 :=
  let (crc, l) := crc32cAlign buf ((crci ^^^ 0xffffffff).setWidth 64) l
  let (crc, l) := crc32cQwords crc l
  (l.foldl crc32cByte crc).setWidth 32 ^^^ 0xffffffff

/-- The CRC-32C, one bit at a time. -/
def crc32c (crci : BitVec 32) (l : List UInt8) : BitVec 32 :=
  Crc.remainder poly (crci ^^^ 0xffffffff) (l.map UInt8.toBitVec) ^^^ 0xffffffff

/-! ## The tables -/

theorem and_one_ne_zero (crc : BitVec 32) : crc &&& 1 ≠ 0 ↔ crc.getLsbD 0 = true := by
  have hone : crc &&& 1 = (BitVec.ofBool (crc.getLsbD 0)).setWidth 32 := by
    apply BitVec.eq_of_getLsbD_eq
    intro i hi
    cases i with
    | zero => simp [hi]
    | succ i => simp [BitVec.getLsbD_one]
  rw [hone]
  cases crc.getLsbD 0 <;> decide

theorem crc32cStep_eq (crc : BitVec 32) : crc32cStep crc = Crc.shift poly crc := by
  simp only [crc32cStep, Crc.shift, and_one_ne_zero]

/-- The mask of the lowest byte does what the narrowing does. -/
theorem setWidth_and_ones {w : ℕ} (c m : BitVec w) (h : m.setWidth 8 = 0xff) :
    (c &&& m).setWidth 8 = c.setWidth 8 := by
  rw [BitVec.setWidth_and, h]
  exact BitVec.and_allOnes

theorem lowByte_eq (crc : BitVec 64) : lowByte crc = crc.setWidth 8 :=
  setWidth_and_ones crc 0xff rfl

theorem crc32cByByte_eq (n : BitVec 8) : crc32cByByte n = Crc.shifts poly 8 (Crc.ofByte 32 n) := by
  simp only [crc32cByByte, crc32cStep_eq, Crc.shifts, Crc.ofByte]

theorem crc32cTable_eq (k : ℕ) (n : BitVec 8) : crc32cTable k n = Crc.table poly k n := by
  induction k with
  | zero => exact crc32cByByte_eq n
  | succ k ih =>
    have hlow := setWidth_and_ones (Crc.table poly k n) 0xff rfl
    simp only [crc32cTable, crc32cByByte_eq, ih, Crc.table]
    rw [hlow]

/-! ## The loops -/

/-- The remainder of single bytes. -/
def remainderOf (crc : BitVec 32) (l : List UInt8) : BitVec 32 :=
  Crc.remainder poly crc (l.map UInt8.toBitVec)

theorem remainderOf_append (crc : BitVec 32) (a b : List UInt8) :
    remainderOf crc (a ++ b) = remainderOf (remainderOf crc a) b := by
  rw [remainderOf, List.map_append, Crc.remainder_append]
  rfl

/-- One byte, with the register of 64 bits that the code keeps. -/
theorem crc32cByte_eq (crc : BitVec 32) (b : UInt8) :
    crc32cByte (crc.setWidth 64) b = (remainderOf crc [b]).setWidth 64 := by
  have hlow : (crc.setWidth 64 ^^^ b.toBitVec.setWidth 64).setWidth 8 =
      crc.setWidth 8 ^^^ b.toBitVec := by
    rw [BitVec.setWidth_xor, BitVec.setWidth_setWidth_of_le _ (by decide),
      BitVec.setWidth_setWidth_of_le _ (by decide), BitVec.setWidth_eq]
  have hhigh : crc.setWidth 64 >>> 8 = (crc >>> 8).setWidth 64 := by
    apply BitVec.eq_of_getLsbD_eq
    intro i _
    simp
  have hbyte := Crc.remainder_byte (p := poly) (by decide) crc b.toBitVec []
  rw [remainderOf, List.map_cons, List.map_nil, hbyte, crc32cByte, lowByte_eq, crc32cTable_eq,
    hlow, hhigh, ← BitVec.setWidth_xor]
  rfl

theorem foldl_crc32cByte (crc : BitVec 32) (l : List UInt8) :
    l.foldl crc32cByte (crc.setWidth 64) = (remainderOf crc l).setWidth 64 := by
  induction l generalizing crc with
  | nil => rfl
  | cons b l ih =>
    rw [List.foldl_cons, crc32cByte_eq, ih, ← List.singleton_append, remainderOf_append]
    rfl

theorem crc32cAlign_eq (next : BitVec 64) (crc : BitVec 32) (l : List UInt8) :
    ∃ a b, l = a ++ b ∧
      crc32cAlign next (crc.setWidth 64) l = ((remainderOf crc a).setWidth 64, b) := by
  induction l generalizing next crc with
  | nil => exact ⟨[], [], rfl, rfl⟩
  | cons b l ih =>
    rw [crc32cAlign]
    split
    · obtain ⟨a, c, rfl, hloop⟩ := ih (next + 1) (remainderOf crc [b])
      refine ⟨b :: a, c, rfl, ?_⟩
      rw [crc32cByte_eq, hloop, ← remainderOf_append]
      rfl
    · exact ⟨[], b :: l, rfl, rfl⟩

/-! ## Eight bytes at a time -/

theorem littleEndian_high (l : List UInt8) (i : ℕ) (h : 8 * l.length ≤ i) :
    (littleEndian l).getLsbD i = false := by
  induction l generalizing i with
  | nil => simp [littleEndian]
  | cons b l ih =>
    rw [List.length_cons] at h
    simp [littleEndian, ih (i - 8) (by omega), BitVec.getLsbD_of_ge b.toBitVec i (by omega)]

theorem lowByte_xor_littleEndian (crc : BitVec 32) (b : UInt8) (l : List UInt8) :
    lowByte (crc.setWidth 64 ^^^ littleEndian (b :: l)) = crc.setWidth 8 ^^^ b.toBitVec := by
  rw [lowByte_eq]
  apply BitVec.eq_of_getLsbD_eq
  intro i hi
  simp [littleEndian, hi]

theorem shiftRight_xor_littleEndian (crc : BitVec 32) (b : UInt8) {l : List UInt8}
    (h : l.length < 8) : (crc.setWidth 64 ^^^ littleEndian (b :: l)) >>> 8 =
      (crc >>> 8).setWidth 64 ^^^ littleEndian l := by
  apply BitVec.eq_of_getLsbD_eq
  intro i _
  by_cases hi : 8 + i < 64
  · simp [littleEndian, hi, show i < 64 by omega]
  · simp [littleEndian, hi, littleEndian_high l i (by omega),
      BitVec.getLsbD_of_ge crc (8 + i) (by omega)]

theorem crc32cQword_eq (crc : BitVec 32) (b₀ b₁ b₂ b₃ b₄ b₅ b₆ b₇ : UInt8) :
    crc32cQword (crc.setWidth 64) (littleEndian [b₀, b₁, b₂, b₃, b₄, b₅, b₆, b₇]) =
      (remainderOf crc [b₀, b₁, b₂, b₃, b₄, b₅, b₆, b₇]).setWidth 64 := by
  have hnext (crc : BitVec 64) (n : ℕ) : crc >>> (n + 8) = crc >>> n >>> 8 :=
    BitVec.shiftRight_add crc n 8
  have hgone : crc >>> 8 >>> 8 >>> 8 >>> 8 >>> 8 >>> 8 >>> 8 >>> 8 = 0#32 := by
    apply BitVec.eq_of_getLsbD_eq
    intro i _
    simp [BitVec.getLsbD_of_ge crc (64 + i) (by omega)]
  rw [remainderOf, Crc.remainder_sliced (by decide)]
  simp only [crc32cQword, ← lowByte_eq, hnext _ 48, hnext _ 40, hnext _ 32, hnext _ 24, hnext _ 16,
    hnext _ 8, crc32cTable_eq]
  simp only [shiftRight_xor_littleEndian, lowByte_xor_littleEndian, List.length_cons,
    List.length_nil, Nat.reduceAdd, Nat.reduceLT, List.map_cons, List.map_nil, Crc.sliced, hgone,
    BitVec.xor_assoc, BitVec.xor_zero]

theorem crc32cQwords_eq (crc : BitVec 32) (l : List UInt8) :
    ∃ a b, l = a ++ b ∧
      crc32cQwords (crc.setWidth 64) l = ((remainderOf crc a).setWidth 64, b) := by
  generalize hcrc : crc.setWidth 64 = crc64
  induction crc64, l using crc32cQwords.induct generalizing crc with
  | case1 crc64 b₀ b₁ b₂ b₃ b₄ b₅ b₆ b₇ l ih =>
    subst hcrc
    obtain ⟨a, c, rfl, hloop⟩ := ih _ (crc32cQword_eq crc b₀ b₁ b₂ b₃ b₄ b₅ b₆ b₇).symm
    refine ⟨[b₀, b₁, b₂, b₃, b₄, b₅, b₆, b₇] ++ a, c, rfl, ?_⟩
    rw [crc32cQwords, hloop, ← remainderOf_append]
  | case2 crc64 l hshort =>
    refine ⟨[], l, rfl, ?_⟩
    rw [crc32cQwords, ← hcrc]
    · rfl
    · exact hshort

theorem crc32cSw_eq (crci : BitVec 32) (buf : BitVec 64) (l : List UInt8) :
    crc32cSw crci buf l = crc32c crci l := by
  obtain ⟨a, b, rfl, halign⟩ := crc32cAlign_eq buf (crci ^^^ 0xffffffff) l
  obtain ⟨c, d, rfl, hqwords⟩ := crc32cQwords_eq (remainderOf (crci ^^^ 0xffffffff) a) b
  rw [crc32cSw, halign]
  dsimp only
  rw [hqwords]
  dsimp only
  rw [foldl_crc32cByte, ← remainderOf_append, ← remainderOf_append,
    BitVec.setWidth_setWidth_of_le _ (by decide), BitVec.setWidth_eq]
  rfl

theorem crc32c_append (crci : BitVec 32) (a b : List UInt8) :
    crc32c (crc32c crci a) b = crc32c crci (a ++ b) := by
  have hback (crc : BitVec 32) : crc ^^^ 0xffffffff ^^^ 0xffffffff = crc := by
    rw [BitVec.xor_assoc, BitVec.xor_self, BitVec.xor_zero]
  simp only [crc32c, hback, List.map_append, Crc.remainder_append]

/-- Wherever the bytes lie in memory, the tables give the checksum of their bits taken one by one, and
the checksum goes on from one string of bytes to the next. -/
theorem crc32cSw_bitwise :
    (∀ (crci : BitVec 32) (buf : BitVec 64) (l : List UInt8),
      crc32cSw crci buf l = crc32c crci l) ∧
    ∀ (c : BitVec 32) (bufA bufB buf : BitVec 64) (a b : List UInt8),
      crc32cSw (crc32cSw c bufA a) bufB b = crc32cSw c buf (a ++ b) := by
  constructor
  · exact crc32cSw_eq
  · intro c bufA bufB buf a b
    rw [crc32cSw_eq, crc32cSw_eq, crc32cSw_eq, crc32c_append]

end Dtnme.Bundling
