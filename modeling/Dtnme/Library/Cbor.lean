import Dtnme.Library.Parser

/-! # Heads of CBOR items

An item begins with a byte that holds the major type and five bits of additional information.
Below 24 these are the number itself; from 24 to 27 they say that it follows in 1, 2, 4 or 8
bytes, most significant first. The shortest head of a number is the one to write; a reader
takes any.
-/

namespace Dtnme.Library.Cbor

/-- The low `n` bytes of a number, most significant first. -/
def bigEndian : ℕ → ℕ → List UInt8
  | 0, _ => []
  | n + 1, v => UInt8.ofNat (v / 256 ^ n) :: bigEndian n v

/-- The number that bytes spell, most significant first. -/
def ofBigEndian (l : List UInt8) : ℕ := l.foldl (fun v b => v * 256 + b.toNat) 0

/-- How many bytes of a number follow the first byte of its shortest head. -/
def follows (v : ℕ) : ℕ :=
  if v < 24 then 0 else if v < 2 ^ 8 then 1 else if v < 2 ^ 16 then 2 else if v < 2 ^ 32 then 4 else 8

/-- The additional information of the shortest head. -/
def information (v : ℕ) : ℕ :=
  if v < 24 then v else if v < 2 ^ 8 then 24 else if v < 2 ^ 16 then 25 else
    if v < 2 ^ 32 then 26 else 27

/-- The shortest head of an item. -/
def head (major v : ℕ) : List UInt8 :=
  UInt8.ofNat (major * 32 + information v) :: bigEndian (follows v) v

/-- How many bytes an additional information announces. -/
def announced (info : ℕ) : Option ℕ :=
  if info < 24 then some 0 else if info < 28 then some (2 ^ (info - 24)) else none

/-- Read a head: major type and number. -/
def readHead : Parser UInt8 (ℕ × ℕ) := fun bytes =>
  match bytes with
  | [] => .more
  | b :: rest =>
    match announced (b.toNat % 32) with
    | none => .bad
    | some n =>
      if rest.length < n then .more
      else .done (b.toNat / 32, if n = 0 then b.toNat % 32 else ofBigEndian (rest.take n)) (rest.drop n)

theorem length_bigEndian (n v : ℕ) : (bigEndian n v).length = n := by
  induction n with
  | zero => rfl
  | succ n ih => rw [bigEndian, List.length_cons, ih]

theorem length_head (major v : ℕ) : (head major v).length = follows v + 1 := by
  rw [head, List.length_cons, length_bigEndian]

theorem ofBigEndian_foldl (l : List UInt8) (acc : ℕ) :
    l.foldl (fun v b => v * 256 + b.toNat) acc = acc * 256 ^ l.length + ofBigEndian l := by
  induction l generalizing acc with
  | nil => simp [ofBigEndian]
  | cons b l ih =>
    rw [ofBigEndian, List.foldl_cons, List.foldl_cons, ih, ih, List.length_cons, pow_succ]
    ring

theorem ofBigEndian_cons (b : UInt8) (l : List UInt8) :
    ofBigEndian (b :: l) = b.toNat * 256 ^ l.length + ofBigEndian l := by
  rw [ofBigEndian, List.foldl_cons, ofBigEndian_foldl, Nat.zero_mul, Nat.zero_add]

/-- Reading the low bytes of a number gives their value. -/
theorem ofBigEndian_bigEndian (n v : ℕ) : ofBigEndian (bigEndian n v) = v % 256 ^ n := by
  induction n with
  | zero => simp [bigEndian, ofBigEndian, Nat.mod_one]
  | succ n ih =>
    have hsplit : v % 256 ^ (n + 1) = v % 256 ^ n + 256 ^ n * (v / 256 ^ n % 256) := by
      rw [pow_succ, Nat.mod_mul]
    rw [bigEndian, ofBigEndian_cons, length_bigEndian, ih, UInt8.toNat_ofNat', hsplit, Nat.mul_comm,
      Nat.add_comm]

theorem announced_information (v : ℕ) : announced (information v) = some (follows v) := by
  unfold announced information follows
  split_ifs <;> simp_all

theorem information_lt (v : ℕ) : information v < 32 := by
  unfold information
  split_ifs <;> omega

theorem lt_of_follows {v : ℕ} (hv : v < 2 ^ 64) (hn : follows v ≠ 0) : v < 256 ^ follows v := by
  unfold follows at hn ⊢
  split_ifs at hn ⊢ <;> omega

theorem information_of_follows {v : ℕ} (hn : follows v = 0) : information v = v := by
  unfold follows at hn
  unfold information
  split_ifs at hn ⊢
  rfl

/-- A written head is read back. -/
theorem readHead_head {major v : ℕ} (hmajor : major < 8) (hv : v < 2 ^ 64) (rest : List UInt8) :
    readHead (head major v ++ rest) = .done (major, v) rest := by
  have hinfo := information_lt v
  have hb : (UInt8.ofNat (major * 32 + information v)).toNat = major * 32 + information v := by
    rw [UInt8.toNat_ofNat']
    omega
  have hlen := length_bigEndian (follows v) v
  rw [head, List.cons_append, readHead]
  simp only [hb]
  rw [show (major * 32 + information v) % 32 = information v by omega,
    show (major * 32 + information v) / 32 = major by omega, announced_information]
  simp only
  rw [if_neg (by rw [List.length_append, hlen]; omega), List.drop_left' hlen, List.take_left' hlen,
    ofBigEndian_bigEndian]
  split_ifs with hn
  · rw [information_of_follows hn]
  · rw [Nat.mod_eq_of_lt (lt_of_follows hv hn)]

/-- A head is read from its own bytes. -/
theorem readHead_eq_done {bytes tail : List UInt8} {mv : ℕ × ℕ} (h : readHead bytes = .done mv tail) :
    ∃ n, 1 ≤ n ∧ n ≤ bytes.length ∧ tail = bytes.drop n ∧
      ∀ later, readHead (bytes.take n ++ later) = .done mv later := by
  cases bytes with
  | nil => simp [readHead] at h
  | cons b rest =>
    rw [readHead] at h
    rcases hn : announced (b.toNat % 32) with _ | n
    · simp [hn] at h
    · simp only [hn] at h
      by_cases hlen : rest.length < n
      · simp [if_pos hlen] at h
      rw [if_neg hlen] at h
      obtain ⟨rfl, rfl⟩ := Outcome.done.inj h
      refine ⟨n + 1, by omega, ?_, rfl, ?_⟩
      · rw [List.length_cons]
        omega
      · intro later
        have htake : (rest.take n).length = n := by
          rw [List.length_take]
          omega
        rw [List.take_succ_cons, List.cons_append, readHead]
        simp only [hn]
        rw [if_neg (by rw [List.length_append]; omega), List.take_left' htake, List.drop_left' htake]

theorem readHead_major {b : UInt8} {rest tail : List UInt8} {major v : ℕ}
    (h : readHead (b :: rest) = .done (major, v) tail) : major = b.toNat / 32 := by
  rw [readHead] at h
  rcases hn : announced (b.toNat % 32) with _ | n
  · simp [hn] at h
  · simp only [hn] at h
    by_cases hlen : rest.length < n
    · simp [if_pos hlen] at h
    rw [if_neg hlen] at h
    exact (Prod.mk.inj (Outcome.done.inj h).1).1.symm

theorem readHead_append_bad {bytes : List UInt8} (h : readHead bytes = .bad) (later : List UInt8) :
    readHead (bytes ++ later) = .bad := by
  cases bytes with
  | nil => simp [readHead] at h
  | cons b rest =>
    rw [readHead] at h
    rw [List.cons_append, readHead]
    rcases hn : announced (b.toNat % 32) with _ | n
    · rfl
    · simp only [hn] at h
      split_ifs at h

/-! ## Shortest form -/

/-- Bytes in which every head is the shortest. The items of an array or a map stand behind its
head; strings are passed over; what has no known length stands between two markers. -/
inductive ShortForm : List UInt8 → Prop
  | nil : ShortForm []
  | marker {b rest} (hb : b.toNat % 32 = 31) (h : ShortForm rest) : ShortForm (b :: rest)
  | item {major v rest} (hmajor : major < 8) (hitem : major ≠ 2 ∧ major ≠ 3) (hv : v < 2 ^ 64)
      (h : ShortForm rest) : ShortForm (head major v ++ rest)
  | string {major s rest} (hmajor : major = 2 ∨ major = 3) (hs : s.length < 2 ^ 64)
      (h : ShortForm rest) : ShortForm (head major s.length ++ (s ++ rest))

theorem information_lt_28 (v : ℕ) : information v < 28 := by
  unfold information
  split_ifs <;> omega

theorem toNat_first_head {major v : ℕ} (hmajor : major < 8) :
    (UInt8.ofNat (major * 32 + information v)).toNat = major * 32 + information v := by
  have hinfo := information_lt_28 v
  rw [UInt8.toNat_ofNat']
  omega

/-- Behind a marker. -/
theorem ShortForm.of_marker {b : UInt8} {rest : List UInt8} (h : ShortForm (b :: rest))
    (hb : b.toNat % 32 = 31) : ShortForm rest := by
  have hfirst : ∀ {major v : ℕ} {tail : List UInt8}, major < 8 →
      head major v ++ tail = b :: rest → False := by
    intro major v tail hmajor heq
    rw [head, List.cons_append] at heq
    have hb' := (List.cons.inj heq).1
    rw [← hb', toNat_first_head hmajor] at hb
    have hinfo := information_lt_28 v
    omega
  generalize hl : b :: rest = l at h
  cases h with
  | nil => simp at hl
  | marker _ h' =>
    obtain ⟨rfl, rfl⟩ := List.cons.inj hl
    exact h'
  | item hmajor _ _ _ => exact (hfirst hmajor hl.symm).elim
  | string hmajor _ _ => exact (hfirst (by omega) hl.symm).elim

/-- Behind a head that was read, which is the shortest. -/
theorem ShortForm.of_head {bytes tail : List UInt8} {major v : ℕ} (h : ShortForm bytes)
    (hread : readHead bytes = .done (major, v) tail) :
    bytes.length = tail.length + follows v + 1 ∧
      ((major = 2 ∨ major = 3) → v ≤ tail.length → ShortForm (tail.drop v)) ∧
      (major ≠ 2 ∧ major ≠ 3 → ShortForm tail) := by
  cases h with
  | nil => simp [readHead] at hread
  | @marker b rest hb _ =>
    rw [readHead, hb] at hread
    simp [announced] at hread
  | @item major' v' rest hmajor hitem hv h' =>
    rw [readHead_head hmajor hv] at hread
    obtain ⟨heq, rfl⟩ := Outcome.done.inj hread
    obtain ⟨rfl, rfl⟩ := Prod.mk.inj heq
    refine ⟨?_, fun hs => absurd hs (by omega), fun _ => h'⟩
    rw [List.length_append, length_head]
    omega
  | @string major' s rest hmajor hs h' =>
    rw [readHead_head (by omega) hs] at hread
    obtain ⟨heq, rfl⟩ := Outcome.done.inj hread
    obtain ⟨rfl, rfl⟩ := Prod.mk.inj heq
    refine ⟨?_, fun _ _ => ?_, fun hne => absurd hmajor (by omega)⟩
    · rw [List.length_append, length_head]
      omega
    · rw [List.drop_left' rfl]
      exact h'

end Dtnme.Library.Cbor
