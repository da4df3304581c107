import Dtnme.Bundling.Bp7Primary
import Dtnme.Bundling.CanonicalBlock

/-! # The buffer after a CRC was checked

The value of a CRC is zeroed and put back as if its head were one byte. A longer head, which CBOR
allows, is overwritten with the value, and the value's end is left out of the checksum.
-/

namespace Dtnme.Bundling
open Library TinyCbor

/-- A buffer with a CRC behind a front. -/
structure CrcAt (Front : ℕ → List UInt8 → Prop) (buf front h v : List UInt8) : Prop where
  spelled : ∃ crcType rest, Front crcType front ∧ CrcString crcType h v ∧ buf = front ++ (h ++ (v ++ rest))

/-- The buffer is as it was, and what was zeroed on the way is the value of the CRC. -/
structure Unaltered (Front : ℕ → List UInt8 → Prop) (buf : List UInt8) (patches : List Patch) : Prop where
  restored : patches.foldl Patch.write buf = buf
  zeroed : ∀ p n, .zero p n ∈ patches → ∃ front h v, CrcAt Front buf front h v ∧
    p = front.length + h.length ∧ n = v.length

/-- A CRC behind a front has a head of one byte. -/
def ShortCrcHead (Front : ℕ → List UInt8 → Prop) (buf : List UInt8) : Prop :=
  ∀ front h v, CrcAt Front buf front h v → h.length = 1

theorem overwrite_overwrite {l a b : List UInt8} {off : ℕ} (hlen : a.length = b.length)
    (hoff : off + b.length ≤ l.length) : overwrite (overwrite l off a) off b = overwrite l off b := by
  apply List.ext_getElem?
  intro i
  have hover : (overwrite l off a).length = l.length := length_overwrite (hlen ▸ hoff)
  by_cases hi : i < off ∨ off + b.length ≤ i
  · rw [getElem?_overwrite_outside (hover.symm ▸ hoff) hi, getElem?_overwrite_outside hoff hi,
      getElem?_overwrite_outside (hlen ▸ hoff) (hlen ▸ hi)]
  · push Not at hi
    rw [getElem?_overwrite_inside (hover.symm ▸ hoff) hi.1 hi.2, getElem?_overwrite_inside hoff hi.1 hi.2]

theorem overwrite_same (front v rest : List UInt8) :
    overwrite (front ++ (v ++ rest)) front.length v = front ++ (v ++ rest) := by
  unfold overwrite
  rw [List.take_left' rfl, ← List.drop_drop, List.drop_left' rfl, List.drop_left' rfl, List.append_assoc]

/-- With a head of one byte the value comes back to its place. -/
theorem foldl_crcPatches {front h v rest : List UInt8} (hone : h.length = 1) :
    (crcPatches front.length v).foldl Patch.write (front ++ (h ++ (v ++ rest))) =
      front ++ (h ++ (v ++ rest)) := by
  have hfront : front.length + 1 = (front ++ h).length := by rw [List.length_append, hone]
  simp only [crcPatches, List.foldl_cons, List.foldl_nil, Patch.write]
  rw [overwrite_overwrite (by simp) (by simp; omega), hfront, ← List.append_assoc, overwrite_same]

/-- The head at a place of the buffer. -/
theorem head_unique {front front' h h' r r' : List UInt8} {major v v' : ℕ}
    (hlen : front.length = front'.length) (hh : Cbor.IsHead major v h) (hh' : Cbor.IsHead major v' h')
    (heq : front ++ (h ++ r) = front' ++ (h' ++ r')) : h.length = h'.length := by
  obtain ⟨-, htail⟩ := List.append_inj heq hlen
  have hread := hh.append r
  rw [htail, hh'.append r'] at hread
  obtain ⟨-, rfl⟩ := Library.Outcome.done.inj hread
  rw [List.append_cancel_right htail]

/-- A decoder that patches exactly the CRC behind a front leaves the buffer unaltered exactly if the
CRC's head is one byte. -/
theorem unaltered_iff {Front : ℕ → List UInt8 → Prop} {buf : List UInt8} {patches : List Patch}
    (hpatched : ∀ front h v, CrcAt Front buf front h v → patches = crcPatches front.length v)
    (hnone : patches = [] ∨ ∃ front h v, CrcAt Front buf front h v) :
    Unaltered Front buf patches ↔ ShortCrcHead Front buf := by
  constructor
  · intro hun front h v hat
    have hpatches := hpatched front h v hat
    obtain ⟨front', h', v', hat', hp, -⟩ :=
      hun.zeroed (front.length + 1) v.length (by rw [hpatches]; exact List.mem_cons_self)
    have hpatches' := hpatched front' h' v' hat'
    rw [hpatches] at hpatches'
    have hfront : front.length = front'.length := by
      have hzero := (List.cons.inj hpatches').1
      simp only [Patch.zero.injEq, Nat.add_right_cancel_iff] at hzero
      exact hzero.1
    obtain ⟨crcType, rest, -, hcrc, hbuf⟩ := hat.spelled
    obtain ⟨crcType', rest', -, hcrc', hbuf'⟩ := hat'.spelled
    rw [head_unique hfront hcrc.head hcrc'.head (hbuf.symm.trans hbuf')]
    omega
  · intro hshort
    rcases hnone with rfl | ⟨front, h, v, hat⟩
    · exact ⟨rfl, fun p n hmem => by simp at hmem⟩
    · have hone := hshort front h v hat
      rw [hpatched front h v hat]
      constructor
      · obtain ⟨crcType, rest, -, -, rfl⟩ := hat.spelled
        exact foldl_crcPatches hone
      · intro p n hmem
        simp only [crcPatches, List.mem_cons, Patch.zero.injEq, reduceCtorEq, List.not_mem_nil, or_false]
          at hmem
        exact ⟨front, h, v, hat, by rw [hone, hmem.1], hmem.2⟩

/-- Both decoders leave every buffer unaltered but those with a CRC whose head is longer than one
byte. -/
theorem decode_unaltered_iff (buf : List UInt8) :
    (Unaltered CanonicalFront buf (recorded BlockWrite.record decodeCanonicalBlock buf) ↔
      ShortCrcHead CanonicalFront buf) ∧
    (Unaltered Bp7.PrimaryFront buf (recorded Bp7.PrimaryWrite.record Bp7.decodeCbor buf) ↔
      ShortCrcHead Bp7.PrimaryFront buf) := by
  constructor
  · apply unaltered_iff
    · rintro front h v ⟨crcType, rest, hfront, hcrc, hbuf⟩
      exact recorded_canonical hfront hcrc hbuf
    · rcases recorded_canonical_inv buf with hnone | ⟨crcType, front, h, v, rest, hfront, hcrc, hbuf⟩
      · exact .inl hnone
      · exact .inr ⟨front, h, v, crcType, rest, hfront, hcrc, hbuf⟩
  · apply unaltered_iff
    · rintro front h v ⟨crcType, rest, hfront, hcrc, hbuf⟩
      exact Bp7.recorded_primary hfront hcrc hbuf
    · rcases Bp7.recorded_primary_inv buf with hnone | ⟨crcType, front, h, v, rest, hfront, hcrc, hbuf⟩
      · exact .inl hnone
      · exact .inr ⟨front, h, v, crcType, rest, hfront, hcrc, hbuf⟩

/-- The head `58 02` of a CRC of two bytes is overwritten. -/
theorem decode_alters : ¬ Unaltered CanonicalFront
    [0x86, 1, 1, 0, 1, 0x41, 0x61, 0x58, 2, 0xab, 0xcd]
    (recorded BlockWrite.record decodeCanonicalBlock
      [0x86, 1, 1, 0, 1, 0x41, 0x61, 0x58, 2, 0xab, 0xcd]) := by
  intro h
  exact absurd h.restored (by decide +kernel)

end Dtnme.Bundling
