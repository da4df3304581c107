import Dtnme.Library.Cbor
import Dtnme.Library.Word

/-! # Writing the head of a CBOR item

`encode_header_and_size` chooses among five lengths and writes the number byte by byte. The
mask of a byte is made by a shift of a 32-bit constant: for the upper half of a 64-bit number
the shift is longer than the type, and whatever mask a machine makes of it, it has 32 bits.
-/

namespace Dtnme.Bundling
open Library

/-- `uint64_encoding_len`. -/
def uint64EncodingLen (val : ℕ) : ℕ :=
  if val < 24 then 1
  else if val ≤ 2 ^ 8 - 1 then 2
  else if val ≤ 2 ^ 16 - 1 then 3
  else if val ≤ 2 ^ 32 - 1 then 5
  else 9

/-- The types of `cbor.h` that are used. -/
inductive CborType
  | integer
  | byteString
  | array
  deriving DecidableEq, Repr

def CborType.byte : CborType → ℕ
  | .integer => 0x00
  | .byteString => 0x40
  | .array => 0x80

def CborType.major : CborType → ℕ
  | .integer => 0
  | .byteString => 2
  | .array => 4

section
variable (overshift : ℕ → UInt32)

/-- `0xffU << bits_to_shift`, with the value of a shift that is longer than the type left open. -/
def byteMask (bitsToShift : ℕ) : ℕ :=
  if bitsToShift < 32 then (0xff <<< bitsToShift) % 2 ^ 32 else (overshift bitsToShift).toNat

def sizeByte (uval bitsToShift : ℕ) : UInt8 :=
  UInt8.ofNat ((uval &&& byteMask overshift bitsToShift) >>> bitsToShift)

/-- The loop over the bytes of the number. -/
def putSizeBytes (uval : ℕ) : ℕ → ℕ → List UInt8 → List UInt8
  | 0, _, buf => buf
  | remaining + 1, offset, buf =>
    putSizeBytes uval remaining (offset + 1) (buf.set offset (sizeByte overshift uval (8 * remaining)))

/-- The first byte: the type, and the number or its length class. -/
def majorTypeByte (cborType : CborType) (uval : ℕ) : UInt8 :=
  if uval < 24 then UInt8.ofNat (cborType.byte ||| (uval &&& 0xff))
  else if uval ≤ 2 ^ 8 - 1 then UInt8.ofNat (cborType.byte + 24)
  else if uval ≤ 2 ^ 16 - 1 then UInt8.ofNat (cborType.byte + 25)
  else if uval ≤ 2 ^ 32 - 1 then UInt8.ofNat (cborType.byte + 26)
  else UInt8.ofNat (cborType.byte + 27)

/-- The value returned, `encoded_len` and the buffer afterwards. -/
structure HeaderResult where
  needBytes : ℤ
  encodedLen : ℤ
  buf : Option (List UInt8)
  deriving DecidableEq

/-- `encode_header_and_size`; a null buffer is `none`. -/
def encodeHeaderAndSize (buf : Option (List UInt8)) (inUse : ℕ) (cborType : CborType) (uval : ℕ)
    (encodedLen : ℤ) : HeaderResult :=
  let remaining := uint64EncodingLen uval
  let needBytes := i64 (remaining + inUse)
  match buf with
  | none => ⟨needBytes, encodedLen, none⟩
  | some bytes =>
    if i64 (u64Sub bytes.length inUse) < remaining then ⟨-1, encodedLen, some bytes⟩
    else ⟨0, needBytes, some (putSizeBytes overshift uval (remaining - 1) (inUse + 1)
      (bytes.set inUse (majorTypeByte cborType uval)))⟩

end

/-! ## The bytes written -/

variable {overshift : ℕ → UInt32}

/-- A byte of the lower half of the number, or zero. -/
theorem sizeByte_eq (uval r : ℕ) :
    sizeByte overshift uval (8 * r) = UInt8.ofNat (uval % 2 ^ 32 / 256 ^ r) := by
  have hpow : 2 ^ (8 * r) = 256 ^ r := by norm_num [pow_mul]
  rw [sizeByte, byteMask]
  split_ifs with hr
  · have hmask : (0xff <<< (8 * r)) % 2 ^ 32 = 0xff <<< (8 * r) := by
      have hr4 : r < 4 := by omega
      interval_cases r <;> rfl
    have hmod : uval % 2 ^ 32 / 256 ^ r % 256 = uval / 256 ^ r % 256 := by
      have hr4 : r < 4 := by omega
      interval_cases r <;> omega
    rw [hmask, Nat.shiftRight_and_distrib, Nat.shiftLeft_shiftRight,
      show (0xff : ℕ) = 2 ^ 8 - 1 by norm_num, Nat.and_two_pow_sub_one_eq_mod,
      Nat.shiftRight_eq_div_pow, hpow, ← UInt8.toNat_inj, UInt8.toNat_ofNat', UInt8.toNat_ofNat',
      Nat.mod_mod]
    exact hmod.symm
  · -- a mask of 32 bits has nothing left behind the shift
    have hsmall : uval &&& (overshift (8 * r)).toNat < 256 ^ r := by
      have hle := Nat.and_le_right (n := uval) (m := (overshift (8 * r)).toNat)
      have hword := (overshift (8 * r)).toNat_lt
      have hbig : 2 ^ 32 ≤ 256 ^ r := by
        rw [← hpow]
        exact Nat.pow_le_pow_right (by norm_num) (by omega)
      omega
    have hzero : uval % 2 ^ 32 / 256 ^ r = 0 := by
      apply Nat.div_eq_of_lt
      have hlt := Nat.mod_lt uval (show 0 < 2 ^ 32 by norm_num)
      have hbig : 2 ^ 32 ≤ 256 ^ r := by
        rw [← hpow]
        exact Nat.pow_le_pow_right (by norm_num) (by omega)
      omega
    rw [Nat.shiftRight_eq_div_pow, hpow, Nat.div_eq_of_lt hsmall, hzero]

/-- The loop writes the bytes in order and nothing else. -/
theorem putSizeBytes_eq (overshift : ℕ → UInt32) (uval n : ℕ) {offset : ℕ} {buf : List UInt8} (hroom : offset + n ≤ buf.length) :
    putSizeBytes overshift uval n offset buf =
      buf.take offset ++ (Cbor.bigEndian n (uval % 2 ^ 32) ++ buf.drop (offset + n)) := by
  induction n generalizing offset buf with
  | zero => simp [putSizeBytes, Cbor.bigEndian]
  | succ n ih =>
    rw [putSizeBytes, ih (by rw [List.length_set]; omega), sizeByte_eq, Cbor.bigEndian,
      List.take_succ_eq_append_getElem (by rw [List.length_set]; omega), List.getElem_set_self,
      List.take_set_of_le (Nat.le_refl offset), List.drop_set_of_lt (by omega), List.append_assoc,
      List.singleton_append, List.cons_append, Nat.add_assoc, Nat.add_comm 1 n]

/-- What is written for a number: its lower half in the length of the whole. -/
def headerBytes (cborType : CborType) (uval : ℕ) : List UInt8 :=
  majorTypeByte cborType uval :: Cbor.bigEndian (uint64EncodingLen uval - 1) (uval % 2 ^ 32)

theorem uint64EncodingLen_eq (val : ℕ) : uint64EncodingLen val = Cbor.follows val + 1 := by
  unfold uint64EncodingLen Cbor.follows
  split_ifs <;> omega

theorem length_headerBytes (cborType : CborType) (uval : ℕ) :
    (headerBytes cborType uval).length = uint64EncodingLen uval := by
  rw [headerBytes, List.length_cons, Cbor.length_bigEndian, uint64EncodingLen_eq]
  rfl

theorem majorTypeByte_eq (cborType : CborType) (uval : ℕ) :
    majorTypeByte cborType uval = UInt8.ofNat (cborType.major * 32 + Cbor.information uval) := by
  unfold majorTypeByte Cbor.information
  split_ifs with h₁ h₂ h₃ h₄ h₅ h₆ h₇
  · cases cborType <;> interval_cases uval <;> rfl
  all_goals first | omega | cases cborType <;> rfl

/-- Up to 32 bits the bytes are the shortest head of the number. -/
theorem headerBytes_of_lt (cborType : CborType) {uval : ℕ} (h : uval < 2 ^ 32) :
    headerBytes cborType uval = Cbor.head cborType.major uval := by
  rw [headerBytes, Cbor.head, majorTypeByte_eq, uint64EncodingLen_eq, Nat.mod_eq_of_lt h]
  rfl

/-- A reader of the bytes gets the lower half of the number. -/
theorem readHead_headerBytes (cborType : CborType) (uval : ℕ) (rest : List UInt8) :
    Cbor.readHead (headerBytes cborType uval ++ rest) =
      .done (cborType.major, uval % 2 ^ 32) rest := by
  have hmajor : cborType.major < 8 := by cases cborType <;> decide
  by_cases h : uval < 2 ^ 32
  · rw [headerBytes_of_lt cborType h, Cbor.readHead_head hmajor (by omega), Nat.mod_eq_of_lt h]
  · have hinfo : Cbor.information uval = 27 := by
      unfold Cbor.information
      split_ifs <;> omega
    have hlen : uint64EncodingLen uval - 1 = 8 := by
      unfold uint64EncodingLen
      split_ifs <;> omega
    have hb : (UInt8.ofNat (cborType.major * 32 + 27)).toNat = cborType.major * 32 + 27 := by
      rw [UInt8.toNat_ofNat']
      omega
    have hcount := Cbor.length_bigEndian 8 (uval % 2 ^ 32)
    have hlt := Nat.mod_lt uval (show 0 < 2 ^ 32 by norm_num)
    rw [headerBytes, majorTypeByte_eq, hinfo, hlen, List.cons_append, Cbor.readHead]
    simp only [hb]
    rw [show (cborType.major * 32 + 27) % 32 = 27 by omega,
      show (cborType.major * 32 + 27) / 32 = cborType.major by omega,
      show Cbor.announced 27 = some 8 from rfl]
    simp only
    rw [if_neg (by rw [List.length_append, hcount]; omega), List.drop_left' hcount,
      List.take_left' hcount, Cbor.ofBigEndian_bigEndian, if_neg (by decide),
      Nat.mod_eq_of_lt (show uval % 2 ^ 32 < 256 ^ 8 by omega)]

/-! ## The contract -/

/-- What is asked of a call: the number of bytes needed if there is no buffer, the refusal if there
is no room, and otherwise bytes that read back, at their place and nowhere else. -/
def WritesHeader (buf : Option (List UInt8)) (inUse : ℕ) (cborType : CborType) (uval : ℕ)
    (result : HeaderResult) : Prop :=
  match buf with
  | none => result.needBytes = inUse + uint64EncodingLen uval ∧ result.buf = none
  | some bytes =>
    if inUse + uint64EncodingLen uval ≤ bytes.length then
      result.needBytes = 0 ∧ result.encodedLen = inUse + uint64EncodingLen uval ∧
        ∃ out, out.length = uint64EncodingLen uval ∧
          Cbor.readHead out = .done (cborType.major, uval) [] ∧
          result.buf = some (bytes.take inUse ++ (out ++ bytes.drop (inUse + uint64EncodingLen uval)))
    else result.needBytes = -1 ∧ result.buf = some bytes

theorem uint64EncodingLen_le (uval : ℕ) : 1 ≤ uint64EncodingLen uval ∧ uint64EncodingLen uval ≤ 9 := by
  unfold uint64EncodingLen
  split_ifs <;> omega

/-- A call with room writes the header bytes behind the bytes in use. -/
theorem encodeHeaderAndSize_of_room {bytes : List UInt8} {inUse uval : ℕ} {cborType : CborType}
    {encodedLen : ℤ} (hbuf : bytes.length < 2 ^ 63)
    (hroom : inUse + uint64EncodingLen uval ≤ bytes.length) :
    encodeHeaderAndSize overshift (some bytes) inUse cborType uval encodedLen =
      ⟨0, inUse + uint64EncodingLen uval, some (bytes.take inUse ++
        (headerBytes cborType uval ++ bytes.drop (inUse + uint64EncodingLen uval)))⟩ := by
  obtain ⟨hpos, -⟩ := uint64EncodingLen_le uval
  have hput := putSizeBytes_eq overshift uval (uint64EncodingLen uval - 1)
    (show inUse + 1 + (uint64EncodingLen uval - 1) ≤
      (bytes.set inUse (majorTypeByte cborType uval)).length by rw [List.length_set]; omega)
  rw [encodeHeaderAndSize, i64_u64Sub hbuf (by omega), if_neg (by omega), i64_of_lt (by omega), hput,
    List.take_succ_eq_append_getElem (by rw [List.length_set]; omega), List.getElem_set_self,
    List.take_set_of_le (Nat.le_refl inUse), List.drop_set_of_lt (by omega), List.append_assoc,
    List.singleton_append, headerBytes, List.cons_append,
    show inUse + 1 + (uint64EncodingLen uval - 1) = inUse + uint64EncodingLen uval by omega]
  congr 1
  push_cast
  ring

/-- The contract holds exactly for numbers of 32 bits, or where nothing is written. -/
theorem encodeHeaderAndSize_writes_iff (overshift : ℕ → UInt32) (buf : Option (List UInt8))
    (inUse : ℕ) (cborType : CborType) (uval : ℕ) (encodedLen : ℤ)
    (hbuf : ∀ bytes ∈ buf, bytes.length < 2 ^ 63) (hin : inUse + 9 < 2 ^ 63) :
    WritesHeader buf inUse cborType uval
        (encodeHeaderAndSize overshift buf inUse cborType uval encodedLen) ↔
      uval < 2 ^ 32 ∨ ∀ bytes ∈ buf, bytes.length < inUse + uint64EncodingLen uval := by
  obtain ⟨hpos, hnine⟩ := uint64EncodingLen_le uval
  cases buf with
  | none =>
    refine iff_of_true ⟨?_, rfl⟩ (Or.inr (by simp))
    rw [encodeHeaderAndSize, i64_of_lt (by omega)]
    push_cast
    ring
  | some bytes =>
    have hlen := hbuf bytes rfl
    by_cases hroom : inUse + uint64EncodingLen uval ≤ bytes.length
    · rw [encodeHeaderAndSize_of_room hlen hroom, WritesHeader, if_pos hroom]
      constructor
      · rintro ⟨-, -, out, hout, hread, heq⟩
        left
        simp only [Option.some.injEq, List.append_cancel_left_eq] at heq
        obtain ⟨rfl, -⟩ := List.append_inj heq (by rw [length_headerBytes, hout])
        have hback := readHead_headerBytes cborType uval []
        rw [List.append_nil, hread] at hback
        simp only [Outcome.done.injEq, Prod.mk.injEq, true_and, and_true] at hback
        rw [hback]
        exact Nat.mod_lt _ (by norm_num)
      · rintro (hsmall | hno)
        · refine ⟨rfl, rfl, headerBytes cborType uval, length_headerBytes _ _, ?_, rfl⟩
          have hback := readHead_headerBytes cborType uval []
          rwa [List.append_nil, Nat.mod_eq_of_lt hsmall] at hback
        · exact absurd (hno bytes rfl) (by omega)
    · refine iff_of_true ?_ (Or.inr (by simp; omega))
      rw [WritesHeader, if_neg hroom, encodeHeaderAndSize, i64_u64Sub hlen (by omega),
        if_pos (by omega)]
      exact ⟨rfl, rfl⟩

/-- Shifts modulo the width of the type. -/
def maskedShift (n : ℕ) : UInt32 := UInt32.ofNat (0xff <<< (n % 32))

theorem encodeHeaderAndSize_writes_small :
    WritesHeader (some [1, 2, 3, 4, 5]) 1 .array 300
      (encodeHeaderAndSize maskedShift (some [1, 2, 3, 4, 5]) 1 .array 300 0) :=
  (encodeHeaderAndSize_writes_iff maskedShift (some [1, 2, 3, 4, 5]) 1 .array 300 0
    (by simp) (by norm_num)).mpr (Or.inl (by norm_num))

/-- The number 2^32 is written as zero. -/
theorem encodeHeaderAndSize_drops :
    ¬ WritesHeader (some (List.replicate 9 0)) 0 .integer (2 ^ 32)
      (encodeHeaderAndSize maskedShift (some (List.replicate 9 0)) 0 .integer (2 ^ 32) 0) := by
  rw [encodeHeaderAndSize_of_room (by simp) (by decide)]
  rintro ⟨-, -, out, hout, hread, heq⟩
  have heq' : some (headerBytes .integer (2 ^ 32)) = some (out ++ []) := heq
  cases out with
  | nil => cases hout
  | cons b rest =>
    simp only [List.append_nil, Option.some.injEq] at heq'
    rw [← heq'] at hread
    revert hread
    decide +kernel

end Dtnme.Bundling
