import Dtnme.Library.Logged
import Dtnme.Library.Word

/-! # Self-describing numeric values

Seven bits a byte, the most significant group first, and the high bit on all bytes but
the last. A decoder reads memory at an address and is told how many bytes remain; it logs
the call and each byte that it reads.
-/

namespace Dtnme.Bundling
open Library

/-- What a reader of a buffer does. -/
inductive Event
  | read (i : ℕ)
  | sdnv (start len : ℕ)
  | payload (start len : ℕ)
  | claims (declared decoded : ℕ)
  | extension (declared skipped : ℕ)
  deriving DecidableEq, Repr

/-- `MAX_LENGTH`. -/
def maxLength : ℕ := 10

/-- The loop that counts the bytes of an encoding. -/
def valLen : ℕ → ℕ → ℕ
  | 0, _ => 0
  | fuel + 1, tmp => if tmp / 128 = 0 then 1 else valLen fuel (tmp / 128) + 1

def encodingLen (val : ℕ) : ℕ := valLen maxLength val

/-- The loop that fills in the value bytes, backwards. -/
def encodeLoop : ℕ → ℕ → ℕ → List UInt8 → List UInt8
  | 0, _, _, out => out
  | fuel + 1, highBit, val, out =>
    let out := UInt8.ofNat (highBit + val % 128) :: out
    if val / 128 = 0 then out else encodeLoop fuel 128 (val / 128) out

/-- `SDNV::encode` into a buffer with `len` bytes of room. -/
def encode (val len : ℕ) : Option (List UInt8) :=
  if len < encodingLen val then none else some (encodeLoop maxLength 0 val [])

/-- One byte of memory. -/
def peek (mem : ℕ → UInt8) (i : ℕ) : Logged Event UInt8 := do
  Logged.note (.read i)
  pure (mem i)

@[simp] theorem result_peek (mem : ℕ → UInt8) (i : ℕ) : (peek mem i).result = some (mem i) := rfl

/-- The loop of `SDNV::decode`: value and number of bytes. -/
def decodeLoop (mem : ℕ → UInt8) : ℕ → ℕ → ℕ → ℕ → Logged Event (ℕ × ℕ)
  | 0, _, _, _ => Logged.fail
  | len + 1, bp, count, val => do
    let byte ← peek mem bp
    let val := u64 (val * 128 + byte.toNat % 128)
    if byte.toNat < 128 then pure (val, count + 1) else decodeLoop mem len (bp + 1) (count + 1) val

def decode (mem : ℕ → UInt8) (bp len : ℕ) : Logged Event (ℕ × ℕ) := do
  Logged.note (.sdnv bp len)
  let (val, count) ← decodeLoop mem len bp 0 0
  if maxLength < count ∨ (count = maxLength ∧ mem bp ≠ 0x81) then Logged.fail
  else pure (val, count)

/-- The variant for 32-bit values. -/
def decode32 (mem : ℕ → UInt8) (bp len : ℕ) : Logged Event (ℕ × ℕ) := do
  let (val, count) ← decode mem bp len
  if 0xffffffff < val then Logged.fail else pure (val, count)

/-! ## Length of an encoding -/

theorem valLen_le_iff {fuel val n : ℕ} (hval : val < 128 ^ fuel) (hn : 1 ≤ n) :
    valLen fuel val ≤ n ↔ val < 128 ^ n := by
  induction fuel generalizing val n with
  | zero =>
    have hzero : val = 0 := by simpa using hval
    simp [valLen, hzero]
  | succ fuel ih =>
    simp only [valLen]
    split_ifs with h
    · have hsmall : val < 128 := by omega
      have hpow : 128 ^ 1 ≤ 128 ^ n := Nat.pow_le_pow_right (by norm_num) hn
      exact ⟨fun _ => lt_of_lt_of_le hsmall hpow, fun _ => hn⟩
    · have hdiv : val / 128 < 128 ^ fuel := by
        rw [Nat.div_lt_iff_lt_mul (by norm_num), ← pow_succ]
        exact hval
      cases n with
      | zero => omega
      | succ n =>
        cases n with
        | zero =>
          have hpos : ¬ valLen fuel (val / 128) ≤ 0 := by
            cases fuel with
            | zero => simp at hdiv; omega
            | succ fuel => simp only [valLen]; split_ifs <;> omega
          constructor
          · intro hle
            omega
          · intro hlt
            omega
        | succ n =>
          rw [Nat.add_le_add_iff_right, ih hdiv (Nat.succ_le_succ (Nat.zero_le n)),
            Nat.div_lt_iff_lt_mul (by norm_num), ← pow_succ]

theorem lt_pow_maxLength {val : ℕ} (hval : val < 2 ^ 64) : val < 128 ^ maxLength :=
  lt_of_lt_of_le hval (by norm_num [maxLength])

theorem encodingLen_le_iff {val n : ℕ} (hval : val < 2 ^ 64) (hn : 1 ≤ n) :
    encodingLen val ≤ n ↔ val < 128 ^ n := valLen_le_iff (lt_pow_maxLength hval) hn

theorem encodingLen_pos (val : ℕ) : 1 ≤ encodingLen val := by
  simp only [encodingLen, maxLength, valLen]
  split_ifs <;> omega

theorem encodingLen_le_max {val : ℕ} (hval : val < 2 ^ 64) : encodingLen val ≤ maxLength :=
  (encodingLen_le_iff hval (by norm_num [maxLength])).mpr (lt_pow_maxLength hval)

theorem lt_pow_encodingLen {val : ℕ} (hval : val < 2 ^ 64) : val < 128 ^ encodingLen val :=
  (encodingLen_le_iff hval (encodingLen_pos val)).mp le_rfl

theorem encodingLen_mono {a b : ℕ} (hb : b < 2 ^ 64) (hab : a ≤ b) :
    encodingLen a ≤ encodingLen b :=
  (encodingLen_le_iff (lt_of_le_of_lt hab hb) (encodingLen_pos b)).mpr
    (lt_of_le_of_lt hab (lt_pow_encodingLen hb))

/-- A sum needs at most one byte more than its parts. -/
theorem encodingLen_add_le {a b : ℕ} (h : a + b + 1 < 2 ^ 64) :
    encodingLen (a + b + 1) ≤ encodingLen a + encodingLen b + 1 := by
  refine (encodingLen_le_iff h (by omega)).mpr ?_
  have ha := lt_pow_encodingLen (show a < 2 ^ 64 by omega)
  have hb := lt_pow_encodingLen (show b < 2 ^ 64 by omega)
  have ha' : 128 ^ encodingLen a ≤ 128 ^ (encodingLen a + encodingLen b) :=
    Nat.pow_le_pow_right (by norm_num) (by omega)
  have hb' : 128 ^ encodingLen b ≤ 128 ^ (encodingLen a + encodingLen b) :=
    Nat.pow_le_pow_right (by norm_num) (by omega)
  rw [pow_succ]
  omega

theorem encodingLen_of_lt {val : ℕ} (h : val < 128) : encodingLen val = 1 := by
  have hle := (encodingLen_le_iff (show val < 2 ^ 64 by omega) le_rfl).mpr (by simpa using h)
  have hpos := encodingLen_pos val
  omega

theorem encodingLen_succ_le {a : ℕ} (h : a + 1 < 2 ^ 64) :
    encodingLen (a + 1) ≤ encodingLen a + 1 := by
  refine (encodingLen_le_iff h (by omega)).mpr ?_
  have ha := lt_pow_encodingLen (show a < 2 ^ 64 by omega)
  rw [pow_succ]
  omega

/-! ## Round trip -/

/-- Memory holds the bytes from an address on. -/
def Holds (mem : ℕ → UInt8) : ℕ → List UInt8 → Prop
  | _, [] => True
  | start, byte :: rest => mem start = byte ∧ Holds mem (start + 1) rest

theorem holds_append {mem : ℕ → UInt8} {start : ℕ} {l r : List UInt8} :
    Holds mem start (l ++ r) ↔ Holds mem start l ∧ Holds mem (start + l.length) r := by
  induction l generalizing start with
  | nil => simp [Holds]
  | cons b l ih =>
    simp only [List.cons_append, Holds, List.length_cons, ih, and_assoc]
    rw [Nat.add_assoc, Nat.add_comm 1]

/-- The bytes of a list as memory, with one byte value everywhere beyond its end. -/
def memOf (l : List UInt8) (fill : UInt8) (i : ℕ) : UInt8 := l.getD i fill

theorem memOf_of_le {l : List UInt8} {fill : UInt8} {i : ℕ} (h : l.length ≤ i) :
    memOf l fill i = fill := List.getD_eq_default _ _ h

theorem holds_memOf (l : List UInt8) (fill : UInt8) : Holds (memOf l fill) 0 l := by
  have hgen : ∀ (past rest : List UInt8), Holds (memOf (past ++ rest) fill) past.length rest := by
    intro past rest
    induction rest generalizing past with
    | nil => trivial
    | cons b rest ih =>
      refine ⟨by simp [memOf], ?_⟩
      have := ih (past ++ [b])
      simpa using this
  exact hgen [] l

/-- One byte shifted into the value. -/
def accumulate (val : ℕ) (byte : UInt8) : ℕ := u64 (val * 128 + byte.toNat % 128)

/-- The decoder goes through bytes with a high bit. -/
theorem decodeLoop_high {mem : ℕ → UInt8} {l : List UInt8} (hhigh : ∀ b ∈ l, 128 ≤ b.toNat)
    {bp : ℕ} (hl : Holds mem bp l) (len count val : ℕ) :
    (decodeLoop mem (l.length + len) bp count val).result =
      (decodeLoop mem len (bp + l.length) (count + l.length) (l.foldl accumulate val)).result := by
  induction l generalizing bp count val with
  | nil => simp
  | cons b l ih =>
    obtain ⟨hb, hl⟩ := hl
    have hnot : ¬ b.toNat < 128 := not_lt.mpr (hhigh b List.mem_cons_self)
    rw [List.length_cons, Nat.add_right_comm, decodeLoop]
    simp only [peek, Logged.result_bind, Logged.result_note, Option.bind_some, Logged.result_pure,
      hb, if_neg hnot]
    rw [ih (fun c hc => hhigh c (List.mem_cons_of_mem _ hc)) hl]
    congr 2 <;> omega

theorem toNat_high {v : ℕ} : (UInt8.ofNat (128 + v % 128)).toNat = 128 + v % 128 := by
  simp only [UInt8.toNat_ofNat']
  omega

/-- A list of bytes with a high bit that spells a value from its most significant group on. -/
def Spells (l : List UInt8) (val : ℕ) : Prop :=
  (∀ b ∈ l, 128 ≤ b.toNat) ∧ l.foldl accumulate 0 = val ∧
    ∃ b t, l = b :: t ∧ b.toNat = 128 + val / 128 ^ t.length

theorem spells_one {val : ℕ} (hsmall : val / 128 = 0) :
    Spells [UInt8.ofNat (128 + val % 128)] val := by
  have hb := toNat_high (v := val)
  refine ⟨fun b hmem => ?_, ?_, _, [], rfl, ?_⟩
  · rw [List.mem_singleton.mp hmem, hb]
    omega
  · simp only [List.foldl_cons, List.foldl_nil, accumulate, hb]
    rw [u64_of_lt (by omega)]
    omega
  · rw [hb, List.length_nil, pow_zero, Nat.div_one]
    omega

theorem Spells.snoc {l : List UInt8} {val : ℕ} (h64 : val < 2 ^ 64) (h : Spells l (val / 128)) :
    Spells (l ++ [UInt8.ofNat (128 + val % 128)]) val := by
  obtain ⟨hhigh, hfold, b, t, rfl, hb⟩ := h
  have hlast := toNat_high (v := val)
  refine ⟨fun c hc => ?_, ?_, b, t ++ [UInt8.ofNat (128 + val % 128)], by simp, ?_⟩
  · rcases List.mem_append.mp hc with hc | hc
    · exact hhigh c hc
    · rw [List.mem_singleton.mp hc, hlast]
      omega
  · rw [List.foldl_append, hfold]
    simp only [List.foldl_cons, List.foldl_nil, accumulate, hlast]
    rw [u64_of_lt (by omega)]
    omega
  · rw [hb, List.length_append, List.length_singleton, Nat.pow_succ', Nat.div_div_eq_div_mul]

theorem encodeLoop_high (fuel : ℕ) {val : ℕ} (hval : val < 128 ^ (fuel + 1)) (h64 : val < 2 ^ 64)
    (out : List UInt8) :
    ∃ l, encodeLoop (fuel + 1) 128 val out = l ++ out ∧ l.length = valLen (fuel + 1) val ∧
      Spells l val := by
  induction fuel generalizing val out with
  | zero =>
    have hsmall : val / 128 = 0 := by
      rw [Nat.div_eq_zero_iff]
      right
      simpa using hval
    exact ⟨_, by simp [encodeLoop], by simp [valLen, hsmall], spells_one hsmall⟩
  | succ fuel ih =>
    by_cases hsmall : val / 128 = 0
    · exact ⟨_, by simp [encodeLoop, hsmall], by simp [valLen, hsmall], spells_one hsmall⟩
    · have hdiv : val / 128 < 128 ^ (fuel + 1) := by
        rw [Nat.div_lt_iff_lt_mul (by norm_num), ← pow_succ]
        exact hval
      obtain ⟨l, hl, hlen, hspell⟩ :=
        ih hdiv (by omega) (UInt8.ofNat (128 + val % 128) :: out)
      refine ⟨l ++ [UInt8.ofNat (128 + val % 128)], ?_, ?_, hspell.snoc h64⟩
      · rw [encodeLoop]
        simp only [if_neg hsmall]
        rw [hl]
        simp
      · rw [List.length_append, hlen]
        conv_rhs => rw [valLen]
        simp [hsmall]

/-- Bytes of a value: as many as its encoding has, ending the first time the high bit is clear. -/
theorem encode_bytes {val : ℕ} (h64 : val < 2 ^ 64) :
    ∃ l last, encodeLoop maxLength 0 val [] = l ++ [last] ∧ l.length + 1 = encodingLen val ∧
      (∀ b ∈ l, 128 ≤ b.toNat) ∧ last.toNat < 128 ∧
      accumulate (l.foldl accumulate 0) last = val ∧
      (l.length + 1 = maxLength → ∃ t, l = 0x81 :: t) := by
  have hlast : (UInt8.ofNat (0 + val % 128)).toNat = val % 128 := by
    simp only [UInt8.toNat_ofNat', Nat.zero_add]
    omega
  by_cases hsmall : val / 128 = 0
  · refine ⟨[], UInt8.ofNat (0 + val % 128), ?_, ?_, by simp, ?_, ?_, ?_⟩
    · simp [maxLength, encodeLoop, hsmall]
    · simp [encodingLen, maxLength, valLen, hsmall]
    · rw [hlast]
      omega
    · simp only [List.foldl_nil, accumulate, hlast]
      rw [u64_of_lt (by omega)]
      omega
    · simp [maxLength]
  · have hdiv : val / 128 < 128 ^ 9 := by
      rw [Nat.div_lt_iff_lt_mul (by norm_num)]
      exact lt_of_lt_of_le h64 (by norm_num)
    obtain ⟨l, hl, hlen, hhigh, hfold, b, t, rfl, hb⟩ :=
      encodeLoop_high 8 hdiv (by omega) [UInt8.ofNat (0 + val % 128)]
    have hcount : encodingLen val = (b :: t).length + 1 := by
      rw [hlen, encodingLen, maxLength]
      conv_lhs => rw [valLen]
      simp [hsmall]
    refine ⟨b :: t, UInt8.ofNat (0 + val % 128), ?_, hcount.symm, hhigh, ?_, ?_, ?_⟩
    · rw [maxLength, encodeLoop]
      simp only [if_neg hsmall]
      exact hl
    · rw [hlast]
      omega
    · rw [hfold]
      simp only [accumulate, hlast]
      rw [u64_of_lt (by omega)]
      omega
    · intro hten
      have ht : t.length = 8 := by
        simp only [List.length_cons, maxLength] at hten
        omega
      refine ⟨t, ?_⟩
      have hlong : ¬ val < 128 ^ 9 := by
        rw [← encodingLen_le_iff h64 (by norm_num), hcount]
        simp [ht]
      have hone : b.toNat = 129 := by
        rw [hb, ht, Nat.div_div_eq_div_mul]
        omega
      congr 1
      exact UInt8.toNat.inj hone

theorem length_encodeLoop {val : ℕ} (h64 : val < 2 ^ 64) :
    (encodeLoop maxLength 0 val []).length = encodingLen val := by
  obtain ⟨l, last, hbytes, hcount, -⟩ := encode_bytes h64
  rw [hbytes, List.length_append, List.length_singleton, hcount]

/-- Decoding what was encoded gives the value back, with the number of its bytes. -/
theorem decode_encode {mem : ℕ → UInt8} {val bp len : ℕ} (h64 : val < 2 ^ 64)
    (hmem : Holds mem bp (encodeLoop maxLength 0 val [])) (hlen : encodingLen val ≤ len) :
    (decode mem bp len).result = some (val, encodingLen val) := by
  obtain ⟨l, last, hbytes, hcount, hhigh, hlast, hval, hten⟩ := encode_bytes h64
  rw [hbytes, holds_append] at hmem
  obtain ⟨hl, hlastmem, -⟩ := hmem
  have hfirst : ¬ (maxLength < l.length + 1 ∨ (l.length + 1 = maxLength ∧ mem bp ≠ 0x81)) := by
    rintro (h | ⟨h, hne⟩)
    · have := encodingLen_le_max h64
      omega
    · obtain ⟨t, rfl⟩ := hten h
      exact hne hl.1
  have hsplit : len = l.length + (len - l.length - 1 + 1) := by omega
  have hloop : (decodeLoop mem len bp 0 0).result = some (val, l.length + 1) := by
    rw [hsplit, decodeLoop_high hhigh hl, decodeLoop]
    simp only [peek, Logged.result_bind, Logged.result_note, Option.bind_some, Logged.result_pure,
      hlastmem, if_pos hlast, Nat.zero_add]
    exact congrArg (fun v => some (v, l.length + 1)) hval
  rw [hcount] at hloop hfirst
  simp only [decode, Logged.result_bind, Logged.result_note, Option.bind_some, hloop, if_neg hfirst,
    Logged.result_pure]

theorem decodeLoop_bound {mem : ℕ → UInt8} {len bp count val v n : ℕ}
    (h : (decodeLoop mem len bp count val).result = some (v, n)) :
    count + 1 ≤ n ∧ n ≤ count + len ∧ v < 2 ^ 64 ∧
      (val < 128 ^ count → v < 128 ^ n) := by
  induction len generalizing bp count val with
  | zero => simp [decodeLoop] at h
  | succ len ih =>
    rw [decodeLoop] at h
    simp only [peek, Logged.result_bind, Logged.result_note, Option.bind_some,
      Logged.result_pure] at h
    have hshift : val < 128 ^ count →
        u64 (val * 128 + (mem bp).toNat % 128) < 128 ^ (count + 1) := by
      intro hval
      refine lt_of_le_of_lt (b := val * 128 + (mem bp).toNat % 128) ?_ ?_
      · unfold u64
        exact Nat.mod_le _ _
      · rw [pow_succ]
        omega
    split_ifs at h with hlast
    · simp only [Logged.result_pure, Option.some.injEq, Prod.mk.injEq] at h
      obtain ⟨rfl, rfl⟩ := h
      exact ⟨le_rfl, by omega, u64_lt _, hshift⟩
    · obtain ⟨h₁, h₂, h₃, h₄⟩ := ih h
      exact ⟨by omega, by omega, h₃, fun hval => h₄ (hshift hval)⟩

/-- A decoded value needs no more bytes than were read for it. -/
theorem decode_bound {mem : ℕ → UInt8} {bp len v n : ℕ}
    (h : (decode mem bp len).result = some (v, n)) :
    n ≤ len ∧ v < 2 ^ 64 ∧ encodingLen v ≤ n := by
  simp only [decode, Logged.result_bind, Logged.result_note, Option.bind_some] at h
  obtain ⟨⟨v', n'⟩, hloop, h⟩ := Option.bind_eq_some_iff.mp h
  split_ifs at h
  · cases h
  · simp only [Logged.result_pure, Option.some.injEq, Prod.mk.injEq] at h
    obtain ⟨rfl, rfl⟩ := h
    obtain ⟨h₁, h₂, h₃, h₄⟩ := decodeLoop_bound hloop
    exact ⟨by omega, h₃, (encodingLen_le_iff h₃ (by omega)).mpr (h₄ (by simp))⟩

theorem decodeLoop_last {mem : ℕ → UInt8} {len bp count val v n : ℕ}
    (h : (decodeLoop mem len bp count val).result = some (v, n)) :
    (mem (bp + (n - (count + 1)))).toNat < 128 := by
  induction len generalizing bp count val with
  | zero => simp [decodeLoop] at h
  | succ len ih =>
    rw [decodeLoop] at h
    simp only [peek, Logged.result_bind, Logged.result_note, Option.bind_some,
      Logged.result_pure] at h
    split_ifs at h with hlast
    · cases h
      rw [Nat.sub_self]
      exact hlast
    · have hle := (decodeLoop_bound h).1
      have hrest := ih h
      rw [show bp + 1 + (n - (count + 1 + 1)) = bp + (n - (count + 1)) by omega] at hrest
      exact hrest

/-- A decoded value ends with a byte whose high bit is clear. -/
theorem decode_last {mem : ℕ → UInt8} {bp len v n : ℕ}
    (h : (decode mem bp len).result = some (v, n)) : (mem (bp + (n - 1))).toNat < 128 := by
  simp only [decode, Logged.result_bind, Logged.result_note, Option.bind_some] at h
  obtain ⟨⟨v', n'⟩, hloop, h⟩ := Option.bind_eq_some_iff.mp h
  split_ifs at h
  · cases h
  · cases h
    exact decodeLoop_last hloop

theorem decode32_eq_some {mem : ℕ → UInt8} {bp len v n : ℕ} :
    (decode32 mem bp len).result = some (v, n) ↔
      (decode mem bp len).result = some (v, n) ∧ v < 2 ^ 32 := by
  simp only [decode32, Logged.result_bind, Option.bind_eq_some_iff]
  constructor
  · rintro ⟨⟨v', n'⟩, hd, h⟩
    split_ifs at h with hbig
    · cases h
    · simp only [Logged.result_pure, Option.some.injEq, Prod.mk.injEq] at h
      obtain ⟨rfl, rfl⟩ := h
      exact ⟨hd, by omega⟩
  · rintro ⟨hd, hsmall⟩
    refine ⟨(v, n), hd, ?_⟩
    rw [if_neg (by omega)]
    rfl

end Dtnme.Bundling
