import Dtnme.Ltp.Bounds
import Dtnme.Bundling.Bp6Block

/-! # Records of bytes and SDNVs

A builder of a record counts its length first and then writes it field by field into a buffer of that
length. A parser goes through the bytes with an address and the number of bytes that remain.
-/

namespace Dtnme.Bundling.SdnvRecord
open Library

/-! ## Writing -/

/-- The bytes written so far and the room that is left. -/
structure Scratch where
  out : List UInt8 := []
  len : ℕ

/-- A byte is written without a look at the room. -/
def putByte (b : UInt8) (s : Scratch) : Except Fault Scratch :=
  if s.len = 0 then .error .undefined else .ok { out := s.out ++ [b], len := s.len - 1 }

def putSdnv (val : ℕ) (s : Scratch) : Except Fault Scratch :=
  match encode val s.len with
  | none => .error .assertFailed
  | some bytes => .ok { out := s.out ++ bytes, len := s.len - bytes.length }

/-- `set_timestamp`. -/
def putTimestamp (tv : ℕ × ℕ) (s : Scratch) : Except Fault Scratch := do
  let s ← putSdnv tv.1 s
  putSdnv tv.2 s

/-- The text that ends the record has to fill it. -/
def putText (t : List UInt8) (s : Scratch) : Except Fault (List UInt8) :=
  if s.len = t.length then .ok (s.out ++ t) else .error .assertFailed

/-- `ts_encoding_len`. -/
def tsEncodingLen (tv : ℕ × ℕ) : ℕ := encodingLen tv.1 + encodingLen tv.2

def timestamp (tv : ℕ × ℕ) : List UInt8 := sdnv tv.1 ++ sdnv tv.2

/-- Where there is room for some bytes, the step writes these. -/
def Writes (f : Scratch → Except Fault Scratch) (bytes : List UInt8) : Prop :=
  ∀ s, bytes.length ≤ s.len → f s = .ok { out := s.out ++ bytes, len := s.len - bytes.length }

theorem Writes.none : Writes .ok [] := fun s _ => by simp

theorem Writes.bind {f g : Scratch → Except Fault Scratch} {bytes rest : List UInt8}
    (hf : Writes f bytes) (hg : Writes g rest) : Writes (fun s => f s >>= g) (bytes ++ rest) := by
  intro s hs
  rw [List.length_append] at hs
  change f s >>= g = _
  rw [hf s (by omega)]
  change g { out := s.out ++ bytes, len := s.len - bytes.length } = _
  rw [hg _ (by simp only; omega)]
  simp [Nat.sub_sub]

theorem writes_putByte (b : UInt8) : Writes (putByte b) [b] := by
  intro s hs
  rw [putByte, if_neg (by simp at hs; omega)]
  rfl

theorem writes_putSdnv {val : ℕ} (h : val < 2 ^ 64) : Writes (putSdnv val) (sdnv val) := by
  intro s hs
  rw [length_sdnv h] at hs
  have henc : encode val s.len = some (sdnv val) := by rw [encode, if_neg (by omega)]; rfl
  rw [putSdnv, henc]

theorem writes_putTimestamp {tv : ℕ × ℕ} (h₁ : tv.1 < 2 ^ 64) (h₂ : tv.2 < 2 ^ 64) :
    Writes (putTimestamp tv) (timestamp tv) := (writes_putSdnv h₁).bind (writes_putSdnv h₂)

theorem length_timestamp {tv : ℕ × ℕ} (h₁ : tv.1 < 2 ^ 64) (h₂ : tv.2 < 2 ^ 64) :
    (timestamp tv).length = tsEncodingLen tv := by
  rw [timestamp, List.length_append, length_sdnv h₁, length_sdnv h₂]
  rfl

/-- A record whose counted length is that of its fields. -/
theorem Writes.putText {f : Scratch → Except Fault Scratch} {bytes : List UInt8}
    (hf : Writes f bytes) {t : List UInt8} {len : ℕ} (hlen : len = (bytes ++ t).length) :
    (f { len := len } >>= putText t) = .ok (bytes ++ t) := by
  rw [List.length_append] at hlen
  rw [hf { len := len } (by simp only; omega)]
  change SdnvRecord.putText t { out := [] ++ bytes, len := len - bytes.length } = _
  rw [SdnvRecord.putText, if_pos (by simp only; omega)]
  simp

/-! ## Reading -/

/-- An address and the number of bytes from there on. -/
abbrev Cursor := ℕ × ℕ

section
variable (mem : ℕ → UInt8)

def takeByte (c : Cursor) : Logged Event (UInt8 × Cursor) :=
  if c.2 < 1 then Logged.fail
  else do
    let b ← peek mem c.1
    pure (b, c.1 + 1, c.2 - 1)

def takeSdnv (c : Cursor) : Logged Event (ℕ × Cursor) := do
  let (v, n) ← decode mem c.1 c.2
  pure (v, c.1 + n, c.2 - n)

/-- `get_timestamp`. -/
def takeTimestamp (c : Cursor) : Logged Event ((ℕ × ℕ) × Cursor) := do
  let (secs, c) ← takeSdnv mem c
  let (seqno, c) ← takeSdnv mem c
  pure ((secs, seqno), c)

/-- The rest, which has to have the length that stands before it. -/
def takeText (c : Cursor) : Logged Event (List UInt8) := do
  let (eidLen, c) ← takeSdnv mem c
  if c.2 ≠ eidLen then Logged.fail
  else do
    Logged.note (.payload c.1 c.2)
    pure ((List.range c.2).map fun i => mem (c.1 + i))

end

variable {mem : ℕ → UInt8}

/-- The cursor stands at bytes that end where it ends. -/
def Reads (mem : ℕ → UInt8) (c : Cursor) (l : List UInt8) : Prop := Holds mem c.1 l ∧ c.2 = l.length

theorem takeByte_reads {c : Cursor} {b : UInt8} {rest : List UInt8} (h : Reads mem c (b :: rest)) :
    ∃ c', (takeByte mem c).result = some (b, c') ∧ Reads mem c' rest := by
  obtain ⟨⟨hb, hrest⟩, hlen⟩ := h
  refine ⟨(c.1 + 1, c.2 - 1), ?_, hrest, by simp [hlen]⟩
  rw [takeByte, if_neg (by simp [hlen])]
  simp [hb]

theorem takeSdnv_reads {c : Cursor} {val : ℕ} {rest : List UInt8} (hval : val < 2 ^ 64)
    (h : Reads mem c (sdnv val ++ rest)) :
    ∃ c', (takeSdnv mem c).result = some (val, c') ∧ Reads mem c' rest := by
  obtain ⟨hmem, hlen⟩ := h
  rw [holds_append, length_sdnv hval] at hmem
  rw [List.length_append, length_sdnv hval] at hlen
  refine ⟨(c.1 + encodingLen val, c.2 - encodingLen val), ?_, hmem.2, by simp only; omega⟩
  have hle : encodingLen val ≤ c.2 := by omega
  have hdecode := decode_encode hval hmem.1 hle
  simp [takeSdnv, hdecode]

theorem takeTimestamp_reads {c : Cursor} {tv : ℕ × ℕ} {rest : List UInt8} (h₁ : tv.1 < 2 ^ 64)
    (h₂ : tv.2 < 2 ^ 64) (h : Reads mem c (timestamp tv ++ rest)) :
    ∃ c', (takeTimestamp mem c).result = some (tv, c') ∧ Reads mem c' rest := by
  rw [timestamp, List.append_assoc] at h
  obtain ⟨c₁, hsecs, h⟩ := takeSdnv_reads h₁ h
  obtain ⟨c₂, hseqno, h⟩ := takeSdnv_reads h₂ h
  exact ⟨c₂, by simp [takeTimestamp, hsecs, hseqno], h⟩

theorem map_range_of_holds {l : List UInt8} {bp : ℕ} (h : Holds mem bp l) :
    (List.range l.length).map (fun i => mem (bp + i)) = l := by
  induction l generalizing bp with
  | nil => rfl
  | cons b l ih =>
    have hrest := ih h.2
    simp only [List.length_cons, List.range_succ_eq_map, List.map_cons, List.map_map, Nat.add_zero,
      h.1]
    congr 1
    rw [← hrest]
    simp [Function.comp_def, Nat.add_assoc, Nat.add_comm 1]

theorem takeText_reads {c : Cursor} {t : List UInt8} (ht : t.length < 2 ^ 64)
    (h : Reads mem c (sdnv t.length ++ t)) : (takeText mem c).result = some t := by
  obtain ⟨c', hlen, hmem, hc⟩ := takeSdnv_reads ht h
  simp [takeText, hlen, hc, map_range_of_holds hmem]

/-- A value takes at least one byte. -/
theorem takeSdnv_lt {c c' : Cursor} {v : ℕ} (h : (takeSdnv mem c).result = some (v, c')) :
    c'.2 < c.2 := by
  rw [takeSdnv, Logged.result_bind_eq_some] at h
  obtain ⟨⟨w, n⟩, hdecode, hc⟩ := h
  obtain ⟨hle, -, henc⟩ := decode_bound hdecode
  have hpos := encodingLen_pos w
  cases hc
  simp only
  omega

theorem takeText_lt {c : Cursor} {t : List UInt8} (h : (takeText mem c).result = some t) :
    t.length < c.2 := by
  rw [takeText, Logged.result_bind_eq_some] at h
  obtain ⟨⟨v, c'⟩, hlen, hrest⟩ := h
  have hlt := takeSdnv_lt hlen
  simp only at hrest
  split_ifs at hrest with hc
  · cases hrest
  · rw [Logged.result_bind_eq_some] at hrest
    obtain ⟨_, -, hpure⟩ := hrest
    cases hpure
    simpa using hlt

/-! ## Bounds -/

/-- The cursor ends where the record does. -/
def Spans (length : ℕ) (c : Cursor) : Prop := c.1 + c.2 = length

theorem wp_takeByte {length : ℕ} {c : Cursor} {q : UInt8 × Cursor → Prop} (h : Spans length c)
    (hq : ∀ b c', Spans length c' → q (b, c')) : (takeByte mem c).Wp (Ltp.Safe length) q := by
  unfold Spans at h
  rw [takeByte]
  split_ifs with hempty
  · exact Logged.wp_fail
  · rw [Logged.wp_bind]
    refine ⟨Ltp.all_peek.mpr (by omega), fun b _ => (Logged.wp_pure _).mpr (hq b _ ?_)⟩
    unfold Spans
    simp only
    omega

theorem all_decode_safe {length : ℕ} {c : Cursor} (h : Spans length c) :
    (decode mem c.1 c.2).All (Ltp.Safe length) := by
  rw [decode, Logged.all_bind, Logged.all_note]
  refine ⟨h, fun _ _ => ?_⟩
  rw [Logged.all_bind]
  refine ⟨Ltp.all_decodeLoop (le_of_eq h), fun r _ => ?_⟩
  simp only
  split_ifs
  · exact Logged.all_fail
  · exact Logged.all_pure _

theorem wp_takeSdnv {length : ℕ} {c : Cursor} {q : ℕ × Cursor → Prop} (h : Spans length c)
    (hq : ∀ v c', Spans length c' → q (v, c')) : (takeSdnv mem c).Wp (Ltp.Safe length) q := by
  rw [takeSdnv, Logged.wp_bind]
  refine ⟨all_decode_safe h, fun r hr => (Logged.wp_pure _).mpr (hq r.1 _ ?_)⟩
  have hle := (decode_bound (v := r.1) (n := r.2) hr).1
  unfold Spans at h ⊢
  simp only
  omega

theorem wp_takeTimestamp {length : ℕ} {c : Cursor} {q : (ℕ × ℕ) × Cursor → Prop}
    (h : Spans length c) (hq : ∀ tv c', Spans length c' → q (tv, c')) :
    (takeTimestamp mem c).Wp (Ltp.Safe length) q := by
  rw [takeTimestamp, Logged.wp_bind]
  refine wp_takeSdnv h fun secs c₁ h₁ => ?_
  rw [Logged.wp_bind]
  exact wp_takeSdnv h₁ fun seqno c₂ h₂ => (Logged.wp_pure _).mpr (hq _ c₂ h₂)

theorem wp_takeText {length : ℕ} {c : Cursor} (h : Spans length c) :
    (takeText mem c).Wp (Ltp.Safe length) (fun _ => True) := by
  rw [takeText, Logged.wp_bind]
  refine wp_takeSdnv h fun v c' h' => ?_
  simp only
  split_ifs
  · exact Logged.wp_fail
  · rw [Logged.wp_bind, Logged.wp_note]
    exact ⟨le_of_eq h', (Logged.wp_pure _).mpr trivial⟩

end Dtnme.Bundling.SdnvRecord
