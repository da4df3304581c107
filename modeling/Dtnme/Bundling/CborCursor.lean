import Dtnme.Library.CborItems
import Dtnme.Bundling.TinyCbor

/-! # The cursor at well-formed items

What the operations of the parser come to where the buffer goes on with a head of any form, and the
head that stands there when one of them succeeds.
-/

namespace Dtnme.Bundling.TinyCbor
open Library Decoder

/-- The cursor at a head. -/
def headAt (ptr remaining major v : ℕ) (h : List UInt8) : CborValue :=
  ⟨ptr, remaining, .ofMajor major, false, v, h.length - 1⟩

/-- The cursor at an item of no known length. -/
def openAt (ptr remaining major : ℕ) : CborValue := ⟨ptr, remaining, .ofMajor major, true, 0, 0⟩

theorem drop_add_of_append {α : Type*} {buf l r : List α} {p : ℕ} (h : buf.drop p = l ++ r) :
    buf.drop (p + l.length) = r := by
  rw [← List.drop_drop, h, List.drop_left' rfl]

theorem length_of_drop {α : Type*} {buf l : List α} {p : ℕ} (h : buf.drop p = l) (hl : l ≠ []) :
    buf.length = p + l.length := by
  have hlen := congrArg List.length h
  rw [List.length_drop] at hlen
  have hpos := List.length_pos_iff.mpr hl
  omega

section
variable {ω : Type} {major v : ℕ} {h rest buf : List UInt8} {ptr remaining : ℕ}

@[simp] theorem headAt_ptr : (headAt ptr remaining major v h).ptr = ptr := rfl

@[simp] theorem headAt_remaining : (headAt ptr remaining major v h).remaining = remaining := rfl

@[simp] theorem headAt_type : (headAt ptr remaining major v h).type = .ofMajor major := rfl

@[simp] theorem headAt_value : (headAt ptr remaining major v h).value = v := rfl

@[simp] theorem headAt_unknownLength : (headAt ptr remaining major v h).unknownLength = false := rfl

@[simp] theorem openAt_type : (openAt ptr remaining major).type = .ofMajor major := rfl

@[simp] theorem openAt_unknownLength : (openAt ptr remaining major).unknownLength = true := rfl

theorem headAt_behind (hh : Cbor.IsHead major v h) :
    (headAt ptr remaining major v h).behind = ptr + h.length := by
  have hpos := hh.length_pos
  change ptr + (h.length - 1) + 1 = ptr + h.length
  omega

theorem ofMajor_isFixedType (hmajor : major < 8) :
    (CborType.ofMajor major).isFixedType = decide (major < 2 ∨ 5 < major) := by
  interval_cases major <;> rfl

/-- A head is parsed, unless it is a simple value in a form that is too long. -/
theorem preparseBytes_head (hh : Cbor.IsHead major v h) (hform : major = 7 → Cbor.SimpleForm v h)
    (ptr remaining : ℕ) (rest : List UInt8) :
    preparseBytes ptr remaining (h ++ rest) = .done (headAt ptr remaining major v h) := by
  have hread := hh.append rest
  have hlt := hh.major_lt
  obtain ⟨b, tail, rfl, rfl, hn, hv⟩ := hh.split
  have hinfo : b.toNat % 32 ≠ 31 := by
    rintro heq
    rw [heq] at hn
    simp [Cbor.announced] at hn
  have hsimple : ¬ (CborType.ofMajor (b.toNat / 32) = .simple ∧ b.toNat % 32 = 24 ∧ v < 32) := by
    rintro ⟨htype, hlong, hsmall⟩
    have hseven : b.toNat / 32 = 7 := by
      generalize b.toNat / 32 = m at htype hlt
      interval_cases m <;> simp_all [CborType.ofMajor]
    have hlen : tail.length = 1 := by
      rw [hlong] at hn
      simpa [Cbor.announced] using hn.symm
    have hle := hform hseven (by simp [hlen])
    omega
  rw [List.cons_append] at hread ⊢
  rw [preparseBytes]
  simp only [if_neg (fun hopen : b.toNat % 32 = 31 ∧ _ => hinfo hopen.1), hread, if_neg hsimple]
  congr 2
  simp

theorem preparseBytes_marker (hlo : 2 ≤ major) (hhi : major ≤ 5) (ptr remaining : ℕ)
    (rest : List UInt8) :
    preparseBytes ptr remaining (UInt8.ofNat (major * 32 + 31) :: rest) =
      .done (openAt ptr remaining major) := by
  have hb : (UInt8.ofNat (major * 32 + 31)).toNat = major * 32 + 31 := by
    rw [UInt8.toNat_ofNat']
    omega
  have hmod : (major * 32 + 31) % 32 = 31 := by omega
  have hdiv : (major * 32 + 31) / 32 = major := by omega
  rw [preparseBytes]
  simp only [hb, hmod, hdiv, true_and]
  rw [if_pos]
  · rfl
  · rw [ofMajor_isFixedType (by omega)]
    simp
    omega

/-- Where items go on, the parser finds a head. -/
theorem preparseBytes_items {n : ℕ} {bytes : List UInt8} (hitems : Cbor.Items (n + 1) bytes)
    (ptr remaining : ℕ) (rest : List UInt8) :
    ∃ cv, preparseBytes ptr remaining (bytes ++ rest) = .done cv ∧ cv.ptr = ptr := by
  rcases hitems.first with ⟨major, v, h, tail, rfl, hh, hform⟩ | ⟨major, tail, rfl, hlo, hhi⟩
  · rw [List.append_assoc]
    exact ⟨_, preparseBytes_head hh hform ptr remaining _, rfl⟩
  · exact ⟨_, preparseBytes_marker hlo hhi ptr remaining _, rfl⟩

/-! ## Moving on -/

theorem preparseValue_head (hh : Cbor.IsHead major v h) (hform : major = 7 → Cbor.SimpleForm v h)
    (hbuf : buf.drop ptr = h ++ rest) :
    preparseValue (ω := ω) ptr remaining buf = ([], .done (headAt ptr remaining major v h)) := by
  rw [preparseValue, hbuf, preparseBytes_head hh hform]

/-- Within an array of known length. -/
theorem preparseNextValueNodecrement_eq (hr : remaining < uint32Max) :
    preparseNextValueNodecrement (ω := ω) ptr remaining = preparseValue ptr remaining := by
  funext buf
  exact if_neg (fun hbreak => absurd hbreak.1 (by omega))

theorem preparseNextValue_last {it : CborValue} (htype : it.type ≠ .tag) (hr : it.remaining = 1)
    (ptr : ℕ) : preparseNextValue (ω := ω) it ptr = pure (.atEnd ptr) := by
  unfold preparseNextValue
  rw [if_neg, hr, if_pos rfl]
  rintro (hit | hit)
  · exact htype hit
  · rw [hr] at hit
    simp [uint32Max] at hit

theorem preparseNextValue_more {it : CborValue} (htype : it.type ≠ .tag) (hlo : 2 ≤ it.remaining)
    (hhi : it.remaining < uint32Max) (ptr : ℕ) :
    preparseNextValue (ω := ω) it ptr = preparseValue ptr (it.remaining - 1) := by
  unfold preparseNextValue
  rw [if_neg, if_neg (by omega), preparseNextValueNodecrement_eq (by omega)]
  rintro (hit | hit)
  · exact htype hit
  · omega

/-- The cursor goes on behind an item, with the item's value. -/
def pairNext {α : Type} (it : CborValue) (ptr : ℕ) (a : α) : Decode ω (α × CborValue) := do
  let next ← preparseNextValue it ptr
  pure (a, next)

/-! ## Fields -/

theorem dataAvailable_of_drop {b : UInt8} {it : CborValue} (hbuf : buf.drop it.ptr = b :: rest) :
    dataAvailableToParse (ω := ω) it 1 buf = ([], .done ()) := by
  have hlen := length_of_drop hbuf (by simp)
  rw [List.length_cons] at hlen
  exact if_pos (by omega)

theorem bind_of_done {α β : Type} {d : Decode ω α} {f : α → Decode ω β} {a : α}
    (hd : d buf = ([], .done a)) : (d >>= f) buf = f a buf := by
  rw [bind_done hd]
  rfl

theorem dataAvailable_head {it : CborValue} (hh : Cbor.IsHead major v h)
    (hbuf : buf.drop it.ptr = h ++ rest) :
    dataAvailableToParse (ω := ω) it 1 buf = ([], .done ()) := by
  obtain ⟨b, tail, rfl, -⟩ := hh.split
  exact dataAvailable_of_drop hbuf

theorem decodeUint_head (hh : Cbor.IsHead 0 v h) (hbuf : buf.drop ptr = h ++ rest) :
    decodeUint (ω := ω) (headAt ptr remaining 0 v h) buf =
      pairNext (headAt ptr remaining 0 v h) (ptr + h.length) v buf := by
  unfold decodeUint
  rw [bind_of_done (dataAvailable_head hh hbuf),
    if_pos (show (headAt ptr remaining 0 v h).type = .integer from rfl)]
  unfold advanceFixed
  rw [if_neg (by simp [CborType.ofMajor, CborType.isFixedType]), headAt_behind hh]
  rfl

theorem decodeUint_other {it : CborValue} {b : UInt8} (htype : it.type ≠ .integer)
    (hbuf : buf.drop it.ptr = b :: rest) : decodeUint (ω := ω) it buf = ([], .stop .fail) := by
  unfold decodeUint
  rw [bind_of_done (dataAvailable_of_drop hbuf), if_neg htype]
  rfl

theorem validateCborFixedArrayLength_array (remaining lo hi : ℕ) (hh : Cbor.IsHead 4 v h)
    (hbuf : buf.drop ptr = h ++ rest) :
    validateCborFixedArrayLength (ω := ω) (headAt ptr remaining 4 v h) lo hi buf =
      if v < lo ∨ hi < v then ([], .stop .fail) else ([], .done v) := by
  unfold validateCborFixedArrayLength
  rw [bind_of_done (dataAvailable_head hh hbuf), if_neg (by simp [CborType.ofMajor]), headAt_value]
  split_ifs <;> rfl

theorem validateCborFixedArrayLength_other {it : CborValue} {b : UInt8} {lo hi : ℕ}
    (htype : it.type ≠ .array ∨ it.unknownLength = true) (hbuf : buf.drop it.ptr = b :: rest) :
    validateCborFixedArrayLength (ω := ω) it lo hi buf = ([], .stop .fail) := by
  unfold validateCborFixedArrayLength
  rw [bind_of_done (dataAvailable_of_drop hbuf), if_pos htype]
  rfl

theorem enterContainer_array (hh : Cbor.IsHead 4 v h) (hlo : 1 ≤ v) (hhi : v < uint32Max) :
    enterContainer (ω := ω) (headAt ptr remaining 4 v h) = preparseValue (ptr + h.length) v := by
  set it := headAt ptr remaining 4 v h
  have htype : it.type ≠ .map := by simp [it, CborType.ofMajor]
  have hvalue : it.value = v := rfl
  have hbehind : it.behind = ptr + h.length := headAt_behind hh
  unfold enterContainer
  rw [if_neg (by simp [it, CborType.ofMajor, CborType.isContainer]), if_neg (by simp [it]),
    if_neg (by omega), if_neg (fun hmap => htype hmap.1), if_neg (by omega), if_neg htype, hbehind,
    hvalue, preparseNextValueNodecrement_eq hhi]

theorem leaveContainer_atEnd {it : CborValue} (htype : it.type.isContainer = true) (ptr : ℕ) :
    leaveContainer (ω := ω) it (.atEnd ptr) = preparseNextValue it ptr := by
  unfold leaveContainer
  rw [if_pos ⟨htype, rfl⟩]
  rfl

/-- Leaving an array before its end is asserted against. -/
theorem leaveContainer_early {it recursed : CborValue} (htype : recursed.type ≠ .invalid) :
    leaveContainer (ω := ω) it recursed = fail .abort := by
  unfold leaveContainer
  rw [if_neg (fun h => htype h.2)]

theorem stringAt_head {s : List UInt8} (hh : Cbor.IsHead major s.length h)
    (hbuf : buf.drop ptr = h ++ (s ++ rest)) :
    stringAt (ω := ω) (headAt ptr remaining major s.length h) buf =
      ([], .done (s, ptr + h.length + s.length)) := by
  have hdrop := drop_add_of_append hbuf
  have hlen := congrArg List.length hdrop
  rw [List.length_drop, List.length_append] at hlen
  have hpos := hh.length_pos
  have hne : h ++ (s ++ rest) ≠ [] := by
    rw [← List.length_pos_iff, List.length_append]
    omega
  have hall := length_of_drop hbuf hne
  rw [List.length_append, List.length_append] at hall
  unfold stringAt
  rw [if_neg (by simp), headAt_behind hh, headAt_value, if_pos (by omega), slice, hdrop,
    List.take_left' rfl]

theorem dupString_head {s : List UInt8} (hh : Cbor.IsHead major s.length h)
    (hbuf : buf.drop ptr = h ++ (s ++ rest)) :
    dupString (ω := ω) (headAt ptr remaining major s.length h) buf =
      pairNext (headAt ptr remaining major s.length h) (ptr + (h.length + s.length)) s buf := by
  unfold dupString
  rw [bind_of_done (stringAt_head hh hbuf), Nat.add_assoc]
  rfl

theorem stringChunks_spell {s bytes : List UInt8} (hc : Cbor.Chunks major s bytes)
    (hmajor : major = 2 ∨ major = 3) (rest : List UInt8) :
    stringChunks (.ofMajor major) (bytes ++ 0xff :: rest) = .done s rest := by
  induction hc with
  | nil => rw [List.nil_append, stringChunks, if_pos (show (0xff : UInt8) = breakByte from rfl)]
  | @cons h c s bytes hh _ ih =>
    have hread := hh.append (c ++ (bytes ++ 0xff :: rest))
    obtain ⟨b, tail, rfl, hm, hn, -⟩ := hh.split
    have hb : b ≠ breakByte := by
      rintro rfl
      revert hm
      rcases hmajor with rfl | rfl <;> decide
    rw [List.append_assoc, List.append_assoc, List.cons_append] at *
    rw [stringChunks, if_neg hb, if_pos (by rw [← hm])]
    split
    · next heq =>
      rw [hread] at heq
      cases heq
    · next heq =>
      rw [hread] at heq
      cases heq
    · next heq =>
      rw [hread] at heq
      cases heq
      rw [if_neg (by rw [List.length_append]; omega), List.drop_left' rfl, ih, List.take_left' rfl]

theorem dupString_chunks {s bytes : List UInt8} (hc : Cbor.Chunks major s bytes)
    (hmajor : major = 2 ∨ major = 3)
    (hbuf : buf.drop ptr = UInt8.ofNat (major * 32 + 31) :: (bytes ++ 0xff :: rest)) :
    dupString (ω := ω) (openAt ptr remaining major) buf =
      pairNext (openAt ptr remaining major) (ptr + (bytes.length + 2)) s buf := by
  have hdrop : buf.drop (openAt ptr remaining major).behind = bytes ++ 0xff :: rest := by
    change buf.drop (ptr + 1) = _
    rw [← List.drop_drop, hbuf]
    rfl
  have hlen := length_of_drop hbuf (by simp)
  rw [List.length_cons, List.length_append, List.length_cons] at hlen
  have hstring : stringAt (ω := ω) (openAt ptr remaining major) buf =
      ([], .done (s, ptr + (bytes.length + 2))) := by
    have hend : buf.length - rest.length = ptr + (bytes.length + 2) := by omega
    simp only [stringAt, openAt_unknownLength, if_true, openAt_type, hdrop,
      stringChunks_spell hc hmajor, hend]
  unfold dupString
  rw [bind_of_done hstring]
  rfl

end

end Dtnme.Bundling.TinyCbor
