import Dtnme.Bundling.Sdnv

/-! # What an SDNV spells

The value of a byte string without a bound, and the decoder against it. The decoder shifts in words
and looks for an overflow afterwards: more than ten bytes, or ten that do not begin with a single bit.
-/

namespace Dtnme.Bundling
open Library

/-- The number that a byte string spells, seven bits a byte. -/
def sdnvValue (l : List UInt8) : ℕ := l.foldl (fun val byte => val * 128 + byte.toNat % 128) 0

/-- One whole SDNV: the high bit is set on all bytes but the last. -/
structure CompleteSdnv (l : List UInt8) : Prop where
  split : ∃ high last, l = high ++ [last] ∧ (∀ b ∈ high, 128 ≤ b.toNat) ∧ last.toNat < 128

/-- The bytes that the overflow test lets through. -/
def InRange (l : List UInt8) : Prop :=
  l.length < maxLength ∨ (l.length = maxLength ∧ l.head? = some 0x81)

instance (l : List UInt8) : Decidable (InRange l) := by
  unfold InRange
  infer_instance

theorem u64_step (w b : ℕ) : u64 (u64 w * 128 + b) = u64 (w * 128 + b) := by
  unfold u64
  omega

/-- The shifted words are the value modulo the word size. -/
theorem foldl_accumulate (l : List UInt8) (w : ℕ) :
    l.foldl accumulate (u64 w) = u64 (l.foldl (fun val byte => val * 128 + byte.toNat % 128) w) := by
  induction l generalizing w with
  | nil => rfl
  | cons b l ih =>
    rw [List.foldl_cons, List.foldl_cons, accumulate, u64_step]
    exact ih _

theorem foldl_accumulate_zero (l : List UInt8) : l.foldl accumulate 0 = u64 (sdnvValue l) := by
  have h := foldl_accumulate l 0
  rwa [u64_of_lt (by norm_num)] at h

theorem foldl_lt (l : List UInt8) (w : ℕ) :
    l.foldl (fun val byte => val * 128 + byte.toNat % 128) w < (w + 1) * 128 ^ l.length := by
  induction l generalizing w with
  | nil => simp
  | cons b l ih =>
    rw [List.foldl_cons, List.length_cons]
    have hgroup : w * 128 + b.toNat % 128 + 1 ≤ (w + 1) * 128 := by omega
    calc l.foldl (fun val byte => val * 128 + byte.toNat % 128) (w * 128 + b.toNat % 128)
        < (w * 128 + b.toNat % 128 + 1) * 128 ^ l.length := ih _
      _ ≤ (w + 1) * 128 * 128 ^ l.length := Nat.mul_le_mul_right _ hgroup
      _ = (w + 1) * 128 ^ (l.length + 1) := by ring

theorem sdnvValue_lt (l : List UInt8) : sdnvValue l < 128 ^ l.length := by
  simpa [sdnvValue] using foldl_lt l 0

/-- What passes the overflow test has not overflowed. -/
theorem InRange.value_lt {l : List UInt8} (h : InRange l) : sdnvValue l < 2 ^ 64 := by
  rcases h with hshort | ⟨hten, hfirst⟩
  · have hpow : 128 ^ l.length ≤ 128 ^ 9 :=
      Nat.pow_le_pow_right (by norm_num) (Nat.le_of_lt_succ hshort)
    exact lt_of_lt_of_le (sdnvValue_lt l) (hpow.trans (by norm_num))
  · obtain ⟨t, rfl⟩ : ∃ t, l = 0x81 :: t := by
      cases l with
      | nil => simp at hfirst
      | cons b t => exact ⟨t, by simpa using hfirst⟩
    have hnine : t.length = 9 := by simpa [maxLength] using hten
    have hrest := foldl_lt t 1
    rw [hnine] at hrest
    exact lt_of_lt_of_le hrest (by norm_num)

/-! ## The loop -/

theorem decodeLoop_short {mem : ℕ → UInt8} {l : List UInt8} (hhigh : ∀ b ∈ l, 128 ≤ b.toNat)
    {bp len : ℕ} (hl : Holds mem bp l) (hlen : len ≤ l.length) (count val : ℕ) :
    (decodeLoop mem len bp count val).result = none := by
  induction len generalizing l bp count val with
  | zero => rfl
  | succ len ih =>
    cases l with
    | nil => simp at hlen
    | cons b l =>
      obtain ⟨hb, hl⟩ := hl
      have hnot : ¬ b.toNat < 128 := not_lt.mpr (hhigh b List.mem_cons_self)
      simp only [decodeLoop, peek, Logged.result_bind, Logged.result_note, Option.bind_some,
        Logged.result_pure, hb, if_neg hnot]
      exact ih (fun c hc => hhigh c (List.mem_cons_of_mem _ hc)) hl (by simpa using hlen) _ _

theorem decodeLoop_complete {mem : ℕ → UInt8} {l : List UInt8} (h : CompleteSdnv l) {bp : ℕ}
    (hl : Holds mem bp l) (len : ℕ) :
    (decodeLoop mem len bp 0 0).result =
      if l.length ≤ len then some (u64 (sdnvValue l), l.length) else none := by
  obtain ⟨high, last, rfl, hhigh, hlast⟩ := h.split
  obtain ⟨hhighmem, hlastmem, -⟩ := holds_append.mp hl
  have hlength : (high ++ [last]).length = high.length + 1 := by simp
  split_ifs with hle
  · have hsplit : len = high.length + (len - high.length - 1 + 1) := by omega
    rw [← foldl_accumulate_zero, List.foldl_append, hsplit, decodeLoop_high hhigh hhighmem, decodeLoop]
    simp only [peek, Logged.result_bind, Logged.result_note, Option.bind_some, Logged.result_pure,
      hlastmem, if_pos hlast, Nat.zero_add, hlength]
    rfl
  · exact decodeLoop_short hhigh hhighmem (by omega) 0 0

/-- A loop that comes to an end has read a whole SDNV. -/
theorem decodeLoop_reads {mem : ℕ → UInt8} {len bp count val v n : ℕ}
    (h : (decodeLoop mem len bp count val).result = some (v, n)) :
    ∃ l, CompleteSdnv l ∧ Holds mem bp l ∧ count + l.length = n := by
  induction len generalizing bp count val with
  | zero => simp [decodeLoop] at h
  | succ len ih =>
    simp only [decodeLoop, peek, Logged.result_bind, Logged.result_note, Option.bind_some,
      Logged.result_pure] at h
    split_ifs at h with hlast
    · cases h
      exact ⟨[mem bp], ⟨[], mem bp, rfl, by simp, hlast⟩, ⟨rfl, trivial⟩, rfl⟩
    · obtain ⟨l, ⟨high, last, rfl, hhigh, hend⟩, hl, hn⟩ := ih h
      refine ⟨mem bp :: (high ++ [last]), ⟨mem bp :: high, last, rfl, ?_, hend⟩, ⟨rfl, hl⟩, ?_⟩
      · simpa using ⟨not_lt.mp hlast, hhigh⟩
      · rw [List.length_cons]
        omega

/-! ## The decoder -/

theorem CompleteSdnv.head {mem : ℕ → UInt8} {l : List UInt8} (h : CompleteSdnv l) {bp : ℕ}
    (hl : Holds mem bp l) : l.head? = some (mem bp) := by
  obtain ⟨high, last, rfl, -, -⟩ := h.split
  cases high with
  | nil => exact congrArg some hl.1.symm
  | cons b high => exact congrArg some hl.1.symm

/-- The decoder takes exactly the whole SDNVs within its bytes that it can represent. -/
theorem decode_complete {mem : ℕ → UInt8} {l : List UInt8} (h : CompleteSdnv l) {bp : ℕ}
    (hl : Holds mem bp l) (len : ℕ) :
    (decode mem bp len).result =
      if l.length ≤ len ∧ InRange l then some (sdnvValue l, l.length) else none := by
  have hrange : InRange l ↔
      ¬ (maxLength < l.length ∨ (l.length = maxLength ∧ mem bp ≠ 0x81)) := by
    rw [InRange, h.head hl, Option.some.injEq, not_or, not_lt, not_and, not_not]
    constructor
    · rintro (hlt | ⟨heq, hfirst⟩)
      · exact ⟨hlt.le, fun heq => absurd heq hlt.ne⟩
      · exact ⟨heq.le, fun _ => hfirst⟩
    · rintro ⟨hle, hfirst⟩
      rcases hle.lt_or_eq with hlt | heq
      · exact .inl hlt
      · exact .inr ⟨heq, hfirst heq⟩
  simp only [decode, Logged.result_bind, Logged.result_note, Option.bind_some,
    decodeLoop_complete h hl len]
  by_cases hle : l.length ≤ len
  · simp only [if_pos hle, Option.bind_some]
    by_cases hin : InRange l
    · rw [if_neg (hrange.mp hin), if_pos ⟨hle, hin⟩, u64_of_lt hin.value_lt]
      rfl
    · rw [if_pos (not_not.mp (mt hrange.mpr hin)), if_neg (fun hboth => hin hboth.2)]
      rfl
  · simp [hle]

theorem decode_reads {mem : ℕ → UInt8} {bp len v n : ℕ}
    (h : (decode mem bp len).result = some (v, n)) :
    ∃ l, CompleteSdnv l ∧ Holds mem bp l ∧ l.length = n ∧ n ≤ len ∧ v = sdnvValue l ∧ v < 2 ^ 64 := by
  have hloop := h
  simp only [decode, Logged.result_bind, Logged.result_note, Option.bind_some] at hloop
  obtain ⟨⟨v', n'⟩, hread, -⟩ := Option.bind_eq_some_iff.mp hloop
  obtain ⟨l, hl, hmem, -⟩ := decodeLoop_reads hread
  rw [decode_complete hl hmem len] at h
  split_ifs at h with hin
  cases h
  exact ⟨l, hl, hmem, rfl, hin.1, rfl, hin.2.value_lt⟩

/-- Encoding fails only for want of room and is undone by decoding, whatever bytes follow. What is
decoded is a whole SDNV with its value, and every other one is refused. -/
theorem sdnv_exact :
    (∀ val < 2 ^ 64, ∀ len,
      (encode val len = none ↔ len < encodingLen val) ∧
      ∀ bytes ∈ encode val len, bytes.length = encodingLen val ∧
        ∀ mem bp room, Holds mem bp bytes → encodingLen val ≤ room →
          (decode mem bp room).result = some (val, encodingLen val)) ∧
    (∀ mem bp len v n, (decode mem bp len).result = some (v, n) →
      ∃ l, CompleteSdnv l ∧ Holds mem bp l ∧ l.length = n ∧ n ≤ len ∧ v = sdnvValue l ∧ v < 2 ^ 64) ∧
    (∀ mem bp len l, CompleteSdnv l → Holds mem bp l → 2 ^ 64 ≤ sdnvValue l ∨ len < l.length →
      (decode mem bp len).result = none) ∧
    (∀ mem bp len v n, (decode32 mem bp len).result = some (v, n) →
      ∃ l, CompleteSdnv l ∧ Holds mem bp l ∧ l.length = n ∧ n ≤ len ∧ v = sdnvValue l ∧ v < 2 ^ 32) := by
  refine ⟨fun val h64 len => ⟨?_, fun bytes hbytes => ?_⟩, fun mem bp len v n => decode_reads,
    fun mem bp len l hl hmem hbad => ?_, fun mem bp len v n h => ?_⟩
  · simp [encode]
  · unfold encode at hbytes
    split_ifs at hbytes
    · cases hbytes
    · cases hbytes
      exact ⟨length_encodeLoop h64, fun mem bp room => decode_encode h64⟩
  · rw [decode_complete hl hmem len, if_neg]
    rintro ⟨hle, hin⟩
    have hlt := hin.value_lt
    omega
  · obtain ⟨hdecode, hsmall⟩ := decode32_eq_some.mp h
    obtain ⟨l, hl, hmem, hn, hle, hv, -⟩ := decode_reads hdecode
    exact ⟨l, hl, hmem, hn, hle, hv, hsmall⟩

-- the largest value takes ten bytes; one more bit is refused
example : (decode (memOf [0x81, 0xff, 0xff, 0xff, 0xff, 0xff, 0xff, 0xff, 0xff, 0x7f] 0) 0 10).result =
      some (2 ^ 64 - 1, 10) ∧
    (decode (memOf [0x82, 0x80, 0x80, 0x80, 0x80, 0x80, 0x80, 0x80, 0x80, 0] 0) 0 10).result = none := by
  decide +kernel

end Dtnme.Bundling
