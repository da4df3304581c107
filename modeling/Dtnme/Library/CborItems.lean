import Dtnme.Library.Cbor

/-! # Well-formed CBOR

Heads of any form, and the items they begin. An item may be written in several ways; a sequence of
items is told from the bytes behind it by their number only.
-/

namespace Dtnme.Library.Cbor

/-- A head of an item, of any form. -/
def IsHead (major v : ℕ) (h : List UInt8) : Prop := readHead h = .done (major, v) []

instance (major v : ℕ) (h : List UInt8) : Decidable (IsHead major v h) := by
  unfold IsHead
  infer_instance

namespace IsHead
variable {major v : ℕ} {h : List UInt8}

theorem of_head (hmajor : major < 8) (hv : v < 2 ^ 64) : IsHead major v (head major v) := by
  simpa [IsHead] using readHead_head hmajor hv []

theorem append (hh : IsHead major v h) (rest : List UInt8) :
    readHead (h ++ rest) = .done (major, v) rest := by
  obtain ⟨n, -, -, htail, hlocal⟩ := readHead_eq_done hh
  have hall : h.take n = h := List.take_of_length_le (List.drop_eq_nil_iff.mp htail.symm)
  simpa [hall] using hlocal rest

theorem length_pos (hh : IsHead major v h) : 0 < h.length := by
  cases h with
  | nil => simp [IsHead, readHead] at hh
  | cons b h => simp

end IsHead

/-- A head that is read stands in front of what is left. -/
theorem exists_isHead {bytes tail : List UInt8} {major v : ℕ}
    (h : readHead bytes = .done (major, v) tail) :
    ∃ hd, IsHead major v hd ∧ bytes = hd ++ tail := by
  obtain ⟨n, -, -, rfl, hlocal⟩ := readHead_eq_done h
  exact ⟨bytes.take n, by simpa [IsHead] using hlocal [], (List.take_append_drop n bytes).symm⟩

theorem ofBigEndian_lt (l : List UInt8) : ofBigEndian l < 256 ^ l.length := by
  induction l with
  | nil => simp [ofBigEndian]
  | cons b l ih =>
    rw [ofBigEndian_cons, List.length_cons, pow_succ']
    have hb := b.toNat_lt
    calc b.toNat * 256 ^ l.length + ofBigEndian l
        < b.toNat * 256 ^ l.length + 256 ^ l.length := by omega
      _ = (b.toNat + 1) * 256 ^ l.length := by ring
      _ ≤ 256 * 256 ^ l.length := Nat.mul_le_mul_right _ (by omega)

/-- Bytes of one length are told apart by the number they spell. -/
theorem ofBigEndian_inj {l r : List UInt8} (hlen : l.length = r.length)
    (h : ofBigEndian l = ofBigEndian r) : l = r := by
  induction l generalizing r with
  | nil => exact (List.length_eq_zero_iff.mp hlen.symm).symm
  | cons b l ih =>
    cases r with
    | nil => cases hlen
    | cons c r =>
      rw [List.length_cons, List.length_cons, Nat.add_right_cancel_iff] at hlen
      rw [ofBigEndian_cons, ofBigEndian_cons, hlen] at h
      have hl := ofBigEndian_lt l
      have hr := ofBigEndian_lt r
      rw [hlen] at hl
      have hb : b.toNat = c.toNat := by
        have hdiv := congrArg (· / 256 ^ r.length) h
        simpa only [Nat.add_comm _ (ofBigEndian _), Nat.add_mul_div_right _ _ (Nat.pos_of_ne_zero
          (pow_ne_zero r.length (by norm_num : (256 : ℕ) ≠ 0))), Nat.div_eq_of_lt hl,
          Nat.div_eq_of_lt hr, Nat.zero_add] using hdiv
      rw [hb, Nat.add_left_cancel_iff] at h
      rw [UInt8.toNat_inj.mp hb, ih hlen h]

theorem bigEndian_ofBigEndian (l : List UInt8) : bigEndian l.length (ofBigEndian l) = l := by
  apply ofBigEndian_inj (length_bigEndian ..)
  rw [ofBigEndian_bigEndian, Nat.mod_eq_of_lt (ofBigEndian_lt l)]

/-- The first byte of a head says how many follow. -/
theorem IsHead.split {major v : ℕ} {h : List UInt8} (hh : IsHead major v h) :
    ∃ b rest, h = b :: rest ∧ major = b.toNat / 32 ∧ announced (b.toNat % 32) = some rest.length ∧
      v = if rest.length = 0 then b.toNat % 32 else ofBigEndian rest := by
  cases h with
  | nil => simp [IsHead, readHead] at hh
  | cons b rest =>
    rw [IsHead, readHead] at hh
    rcases hn : announced (b.toNat % 32) with _ | n
    · simp [hn] at hh
    · simp only [hn] at hh
      by_cases hlen : rest.length < n
      · simp [if_pos hlen] at hh
      · rw [if_neg hlen] at hh
        obtain ⟨hpair, hdrop⟩ := Outcome.done.inj hh
        have hle : rest.length = n := le_antisymm (List.drop_eq_nil_iff.mp hdrop) (not_lt.mp hlen)
        rw [List.take_of_length_le hle.le] at hpair
        obtain ⟨hmajor, hv⟩ := Prod.mk.inj hpair
        exact ⟨b, rest, rfl, hmajor.symm, by rw [hn, hle], by rw [← hv, hle]⟩

theorem IsHead.major_lt {major v : ℕ} {h : List UInt8} (hh : IsHead major v h) : major < 8 := by
  obtain ⟨b, rest, -, rfl, -⟩ := hh.split
  have hb := b.toNat_lt
  omega

theorem announced_le {info n : ℕ} (h : announced info = some n) : n ≤ 8 := by
  unfold announced at h
  split_ifs at h with hsmall hlarge
  · cases h
    omega
  · cases h
    have hle : 2 ^ (info - 24) ≤ 2 ^ 3 := Nat.pow_le_pow_right (by norm_num) (by omega)
    omega

theorem IsHead.value_lt {major v : ℕ} {h : List UInt8} (hh : IsHead major v h) : v < 2 ^ 64 := by
  obtain ⟨b, rest, -, -, hn, rfl⟩ := hh.split
  have hle := announced_le hn
  split_ifs
  · have hb := b.toNat_lt
    omega
  · have hpow : 256 ^ rest.length ≤ 256 ^ 8 := Nat.pow_le_pow_right (by norm_num) hle
    exact lt_of_lt_of_le (ofBigEndian_lt rest) (hpow.trans (by norm_num))

/-- The head that `head` writes is the shortest. -/
theorem IsHead.follows_lt {major v : ℕ} {h : List UInt8} (hh : IsHead major v h) :
    follows v < h.length := by
  obtain ⟨b, rest, rfl, -, hn, hv⟩ := hh.split
  rw [List.length_cons]
  have hvalue : v < 256 ^ rest.length ∨ v < 24 := by
    by_cases hrest : rest.length = 0
    · right
      rw [hv, if_pos hrest]
      rw [hrest] at hn
      unfold announced at hn
      split_ifs at hn with hsmall
      · exact hsmall
      · simp at hn
    · left
      rw [hv, if_neg hrest]
      exact ofBigEndian_lt rest
  have hcases : rest.length = 0 ∨ rest.length = 1 ∨ rest.length = 2 ∨ rest.length = 4 ∨
      rest.length = 8 := by
    unfold announced at hn
    split_ifs at hn with hsmall hlarge
    · simp at hn
      omega
    · obtain ⟨k, hk, hk4⟩ : ∃ k, b.toNat % 32 - 24 = k ∧ k < 4 := ⟨_, rfl, by omega⟩
      rw [hk] at hn
      interval_cases k <;> simp at hn <;> omega
  have hv64 := hh.value_lt
  unfold follows
  rcases hcases with hl | hl | hl | hl | hl <;> rw [hl] at hvalue ⊢ <;> split_ifs <;> omega

/-! ## Items -/

/-- The chunks of a string without a known length, and its characters. -/
inductive Chunks (major : ℕ) : List UInt8 → List UInt8 → Prop
  | nil : Chunks major [] []
  | cons {h c s bytes} (hh : IsHead major c.length h) (hrest : Chunks major s bytes) :
      Chunks major (c ++ s) (h ++ (c ++ bytes))

/-- A simple value is not written in a longer form than it needs. -/
def SimpleForm (v : ℕ) (h : List UInt8) : Prop := h.length = 2 → 32 ≤ v

/-- So many well-formed items one after another. -/
inductive Items : ℕ → List UInt8 → Prop
  | nil : Items 0 []
  | number {major v n h rest} (hh : IsHead major v h) (hmajor : major = 0 ∨ major = 1)
      (hrest : Items n rest) : Items (n + 1) (h ++ rest)
  | simple {v n h rest} (hh : IsHead 7 v h) (hform : SimpleForm v h) (hrest : Items n rest) :
      Items (n + 1) (h ++ rest)
  | string {major n h s rest} (hh : IsHead major s.length h) (hmajor : major = 2 ∨ major = 3)
      (hrest : Items n rest) : Items (n + 1) (h ++ (s ++ rest))
  | chunks {major n s bytes rest} (hchunks : Chunks major s bytes) (hmajor : major = 2 ∨ major = 3)
      (hrest : Items n rest) : Items (n + 1) (UInt8.ofNat (major * 32 + 31) :: (bytes ++ 0xff :: rest))
  | array {v n h body rest} (hh : IsHead 4 v h) (hbody : Items v body) (hrest : Items n rest) :
      Items (n + 1) (h ++ (body ++ rest))
  | map {v n h body rest} (hh : IsHead 5 v h) (hbody : Items (2 * v) body) (hrest : Items n rest) :
      Items (n + 1) (h ++ (body ++ rest))
  | openArray {v n body rest} (hbody : Items v body) (hrest : Items n rest) :
      Items (n + 1) (0x9f :: (body ++ 0xff :: rest))
  | openMap {v n body rest} (hbody : Items (2 * v) body) (hrest : Items n rest) :
      Items (n + 1) (0xbf :: (body ++ 0xff :: rest))
  | tag {v n h item rest} (hh : IsHead 6 v h) (hitem : Items 1 item) (hrest : Items n rest) :
      Items (n + 1) (h ++ (item ++ rest))

theorem Items.eq_nil {l : List UInt8} (h : Items 0 l) : l = [] := by
  cases h
  rfl

theorem Items.append {m n : ℕ} {l r : List UInt8} (hl : Items m l) (hr : Items n r) :
    Items (m + n) (l ++ r) := by
  induction hl with
  | nil => simpa using hr
  | number hh hmajor _ ih =>
    rw [Nat.add_right_comm, List.append_assoc]
    exact .number hh hmajor ih
  | simple hh hform _ ih =>
    rw [Nat.add_right_comm, List.append_assoc]
    exact .simple hh hform ih
  | string hh hmajor _ ih =>
    rw [Nat.add_right_comm, List.append_assoc, List.append_assoc]
    exact .string hh hmajor ih
  | chunks hchunks hmajor _ ih =>
    rw [Nat.add_right_comm, List.cons_append, List.append_assoc, List.cons_append]
    exact .chunks hchunks hmajor ih
  | array hh hbody _ _ ih =>
    rw [Nat.add_right_comm, List.append_assoc, List.append_assoc]
    exact .array hh hbody ih
  | map hh hbody _ _ ih =>
    rw [Nat.add_right_comm, List.append_assoc, List.append_assoc]
    exact .map hh hbody ih
  | openArray hbody _ _ ih =>
    rw [Nat.add_right_comm, List.cons_append, List.append_assoc, List.cons_append]
    exact .openArray hbody ih
  | openMap hbody _ _ ih =>
    rw [Nat.add_right_comm, List.cons_append, List.append_assoc, List.cons_append]
    exact .openMap hbody ih
  | tag hh hitem _ _ ih =>
    rw [Nat.add_right_comm, List.append_assoc, List.append_assoc]
    exact .tag hh hitem ih

/-- The first of several items, and the others. -/
theorem Items.cons_inv {n : ℕ} {bytes : List UInt8} (h : Items (n + 1) bytes) :
    ∃ item rest, bytes = item ++ rest ∧ Items 1 item ∧ Items n rest := by
  cases h with
  | @number _ _ _ hd rest hh hmajor hrest =>
    exact ⟨hd, rest, rfl, by simpa using Items.number hh hmajor .nil, hrest⟩
  | @simple _ _ hd rest hh hform hrest =>
    exact ⟨hd, rest, rfl, by simpa using Items.simple hh hform .nil, hrest⟩
  | @string _ _ hd s rest hh hmajor hrest =>
    exact ⟨hd ++ s, rest, by simp, by simpa using Items.string hh hmajor .nil, hrest⟩
  | @chunks major _ s b rest hchunks hmajor hrest =>
    exact ⟨UInt8.ofNat (major * 32 + 31) :: (b ++ [0xff]), rest, by simp,
      by simpa using Items.chunks hchunks hmajor .nil, hrest⟩
  | @array _ _ hd body rest hh hbody hrest =>
    exact ⟨hd ++ body, rest, by simp, by simpa using Items.array hh hbody .nil, hrest⟩
  | @map _ _ hd body rest hh hbody hrest =>
    exact ⟨hd ++ body, rest, by simp, by simpa using Items.map hh hbody .nil, hrest⟩
  | @openArray _ _ body rest hbody hrest =>
    exact ⟨0x9f :: (body ++ [0xff]), rest, by simp, by simpa using Items.openArray hbody .nil, hrest⟩
  | @openMap _ _ body rest hbody hrest =>
    exact ⟨0xbf :: (body ++ [0xff]), rest, by simp, by simpa using Items.openMap hbody .nil, hrest⟩
  | @tag _ _ hd item rest hh hitem hrest =>
    exact ⟨hd ++ item, rest, by simp, by simpa using Items.tag hh hitem .nil, hrest⟩

/-- An item begins with a head, or with the marker of a string, an array or a map of no known
length. -/
theorem Items.first {n : ℕ} {bytes : List UInt8} (h : Items (n + 1) bytes) :
    (∃ major v hd rest, bytes = hd ++ rest ∧ IsHead major v hd ∧ (major = 7 → SimpleForm v hd)) ∨
      ∃ major rest, bytes = UInt8.ofNat (major * 32 + 31) :: rest ∧ 2 ≤ major ∧ major ≤ 5 := by
  cases h with
  | number hh hmajor _ => exact .inl ⟨_, _, _, _, rfl, hh, by omega⟩
  | simple hh hform _ => exact .inl ⟨_, _, _, _, rfl, hh, fun _ => hform⟩
  | string hh hmajor _ => exact .inl ⟨_, _, _, _, rfl, hh, by omega⟩
  | chunks _ hmajor _ => exact .inr ⟨_, _, rfl, by omega, by omega⟩
  | array hh _ _ => exact .inl ⟨_, _, _, _, rfl, hh, by omega⟩
  | map hh _ _ => exact .inl ⟨_, _, _, _, rfl, hh, by omega⟩
  | openArray _ _ => exact .inr ⟨4, _, rfl, by omega, by omega⟩
  | openMap _ _ => exact .inr ⟨5, _, rfl, by omega, by omega⟩
  | tag hh _ _ => exact .inl ⟨_, _, _, _, rfl, hh, by omega⟩

theorem Items.exists_cons {n : ℕ} {bytes : List UInt8} (h : Items (n + 1) bytes) :
    ∃ b tail, bytes = b :: tail := by
  rcases h.first with ⟨_, _, hd, rest, rfl, hh, -⟩ | ⟨_, rest, rfl, -⟩
  · obtain ⟨b, tail, rfl, -⟩ := hh.split
    exact ⟨b, tail ++ rest, rfl⟩
  · exact ⟨_, rest, rfl⟩

end Dtnme.Library.Cbor
