import Dtnme.Bundling.Crc32c
import Dtnme.Bundling.CborFields

/-! # The CRC of a block

The last element of a block's array. To compute the checksum of what it received, a node writes zeros
over the value in the buffer, from the second byte of the element on, and puts the value back there.
-/

namespace Dtnme.Bundling
open Library TinyCbor Decoder

/-- What is written to the buffer. -/
inductive Patch
  | zero (ptr len : ℕ)
  | restore (ptr : ℕ) (bytes : List UInt8)
  deriving DecidableEq, Repr

def Patch.write (mem : List UInt8) : Patch → List UInt8
  | .zero ptr len => overwrite mem ptr (List.replicate len 0)
  | .restore ptr bytes => overwrite mem ptr bytes

/-- One of the eight steps for a byte. -/
def crc16Step (crc : BitVec 16) : BitVec 16 :=
  if crc &&& 1 ≠ 0 then (crc >>> 1) ^^^ 0x8408 else crc >>> 1

def crc16 (data : List UInt8) : BitVec 16 :=
  ~~~ data.foldl (fun crc b => crc16Step^[8] (crc ^^^ b.toBitVec.setWidth 16)) (~~~ 0)

/-- The bytes of the value. -/
def crcSize : ℕ → ℕ
  | 1 => 2
  | 2 => 4
  | _ => 0

def calcCrc (crcType : ℕ) (block : List UInt8) : ℕ :=
  if crcType = 1 then (crc16 block).toNat else (crc32cSw 0 0 block).toNat

section
variable {ω : Type}

def decodeByteString (it : CborValue) : Decode ω (List UInt8 × CborValue) := do
  dataAvailableToParse it 1
  if it.type = .byteString then dupString it else fail .fail

/-- The checksum of the block up to the value's end, while zeros stand for the value; the head of the
value is taken to be one byte. -/
def crcOfBlock (crcType ptr len : ℕ) : Decode ω ℕ := fun buf =>
  ([], .done (calcCrc crcType ((Patch.write buf (.zero (ptr + 1) (crcSize crcType))).take (ptr + len + 1))))

/-- `decode_crc_and_validate`, for a block at the beginning of the buffer. -/
def decodeCrcAndValidate (patch : Patch → ω) (crcType : ℕ) (it : CborValue) :
    Decode ω (Bool × CborValue) := do
  dataAvailableToParse it 1
  if it.type ≠ .byteString ∨ it.unknownLength then fail .fail
  else if crcType = 1 ∧ it.value ≠ 2 ∨ crcType = 2 ∧ it.value ≠ 4 then fail .fail
  else do
    let (crcString, next) ← decodeByteString it
    if crcType = 1 ∨ crcType = 2 then do
      let crc := Cbor.ofBigEndian crcString
      assign (patch (.zero (it.ptr + 1) (crcSize crcType)))
      let calcValue ← crcOfBlock crcType it.ptr crcString.length
      assign (patch (.restore (it.ptr + 1) (Cbor.bigEndian (crcSize crcType) crc)))
      pure (decide (calcValue = crc), next)
    else fail .fail

/-- The last element, if there is one. -/
def decodeCrcField (checked validated : Bool → ω) (patch : Patch → ω) (crcType : ℕ) (it : CborValue) :
    Decode ω CborValue :=
  if crcType = 0 then pure it
  else do
    assign (checked true)
    let (valid, next) ← decodeCrcAndValidate patch crcType it
    assign (validated valid)
    pure next

end

/-! ## What is recorded on the way -/

section
variable {ω γ : Type} {record : ω → Option γ} {buf : List UInt8}

/-- What is recorded of the assignments of a decoder. -/
def recorded {α : Type} (record : ω → Option γ) (d : Decode ω α) (buf : List UInt8) : List γ :=
  (d buf).1.filterMap record

/-- Nothing is recorded. -/
def Quiet {α : Type} (record : ω → Option γ) (d : Decode ω α) : Prop :=
  ∀ buf, recorded record d buf = []

theorem Quiet.of_silent {α : Type} {d : Decode ω α} (h : Silent d) : Quiet record d := by
  intro buf
  rw [recorded, h.log_eq]
  rfl

theorem quiet_pure {α : Type} (a : α) : Quiet record (pure a : Decode ω α) := fun _ => rfl

theorem quiet_fail {α : Type} (e : Failure) : Quiet record (fail e : Decode ω α) := fun _ => rfl

theorem quiet_assign {w : ω} (h : record w = none) : Quiet record (assign w : Decode ω Unit) := by
  intro buf
  simp [recorded, h]

/-- Behind a part of which nothing is recorded. -/
theorem Quiet.bind_cases {α β : Type} {d : Decode ω α} (hd : Quiet record d) (f : α → Decode ω β)
    (buf : List UInt8) : recorded record (d >>= f) buf = [] ∨ ∃ log a, d buf = (log, .done a) ∧
      recorded record (d >>= f) buf = recorded record (f a) buf := by
  have hnone := hd buf
  unfold recorded at *
  rcases hbuf : d buf with ⟨log, a | _ | e⟩
  · rw [hbuf] at hnone
    right
    refine ⟨log, a, rfl, ?_⟩
    rw [bind_done hbuf, List.filterMap_append, hnone, List.nil_append]
  · rw [hbuf] at hnone
    rw [bind_more hbuf]
    exact .inl hnone
  · rw [hbuf] at hnone
    rw [bind_stop hbuf]
    exact .inl hnone

theorem Quiet.bind {α β : Type} {d : Decode ω α} {f : α → Decode ω β} (hd : Quiet record d)
    (hf : ∀ a, Quiet record (f a)) : Quiet record (d >>= f) := by
  intro buf
  rcases hd.bind_cases f buf with hnone | ⟨log, a, -, heq⟩
  · exact hnone
  · rw [heq]
    exact hf a buf

theorem Quiet.ite {α : Type} {c : Prop} [Decidable c] {d e : Decode ω α} (hd : Quiet record d)
    (he : Quiet record e) : Quiet record (if c then d else e) := by
  split_ifs
  · exact hd
  · exact he

theorem Quiet.bind_done {α β : Type} {d : Decode ω α} {f : α → Decode ω β} {log : List ω} {a : α}
    (hd : Quiet record d) (h : d buf = (log, .done a)) :
    recorded record (d >>= f) buf = recorded record (f a) buf := by
  have hnone := hd buf
  unfold recorded at *
  rw [h] at hnone
  rw [Decoder.bind_done h, List.filterMap_append, hnone, List.nil_append]

theorem recorded_done {α β : Type} {d : Decode ω α} {f : α → Decode ω β} {a : α}
    (h : d buf = ([], .done a)) : recorded record (d >>= f) buf = recorded record (f a) buf := by
  unfold recorded
  rw [bind_of_done h]

theorem recorded_assign {β : Type} {w : ω} {f : Unit → Decode ω β} (h : record w = none) :
    recorded record (assign w >>= f) buf = recorded record (f ()) buf :=
  (quiet_assign h).bind_done rfl

theorem recorded_assign_some {β : Type} {w : ω} {z : γ} {f : Unit → Decode ω β} (h : record w = some z) :
    recorded record (assign w >>= f) buf = z :: recorded record (f ()) buf := by
  unfold recorded
  rw [Decoder.bind_done (assign_apply w buf), List.filterMap_append]
  simp [h]

/-- In front of a part of which nothing is recorded. -/
theorem recorded_bind_quiet {α β : Type} {d : Decode ω α} {f : α → Decode ω β}
    (hf : ∀ a, Quiet record (f a)) : recorded record (d >>= f) buf = recorded record d buf := by
  rcases hbuf : d buf with ⟨log, a | _ | e⟩
  · have hnone := hf a buf
    unfold recorded at *
    rw [Decoder.bind_done hbuf, List.filterMap_append, hnone, hbuf, List.append_nil]
  · rw [recorded, bind_more hbuf, recorded, hbuf]
  · rw [recorded, bind_stop hbuf, recorded, hbuf]

end

/-! ## The value's place -/

/-- The head and the value of a CRC. -/
structure CrcString (crcType : ℕ) (h v : List UInt8) : Prop where
  type : crcType = 1 ∨ crcType = 2
  head : Cbor.IsHead 2 v.length h
  size : v.length = crcSize crcType

/-- Zeros from the second byte of the string on, and the value there. -/
def crcPatches (ptr : ℕ) (v : List UInt8) : List Patch :=
  [.zero (ptr + 1) v.length, .restore (ptr + 1) v]

section
variable {ω : Type} {record : ω → Option Patch} {patch : Patch → ω} {buf : List UInt8}

theorem silent_decodeByteString (it : CborValue) : Silent (decodeByteString (ω := ω) it) := by
  unfold decodeByteString
  exact (silent_dataAvailableToParse it 1).bind fun _ => .ite (silent_dupString it) (silent_fail _)

/-- The value of a string of the right length. -/
theorem CrcString.checks {crcType : ℕ} {h v : List UInt8} (hcrc : CrcString crcType h v) :
    ¬ (crcType = 1 ∧ v.length ≠ 2 ∨ crcType = 2 ∧ v.length ≠ 4) := by
  have hsize := hcrc.size
  rcases hcrc.type with rfl | rfl <;> simp_all [crcSize]

/-- Where a CRC follows, its writes are made. -/
theorem recorded_crc {crcType p r : ℕ} {h v rest : List UInt8} {it : CborValue}
    (hrecord : ∀ z, record (patch z) = some z) (hcrc : CrcString crcType h v)
    (hat : At buf p r (h ++ (v ++ rest)) it) {next : CborValue}
    (hnext : dupString (ω := ω) it buf = ([], .done (v, next))) :
    recorded record (decodeCrcAndValidate patch crcType it) buf = crcPatches p v := by
  have hit := hat.eq_headAt hcrc.head (by omega)
  have htype : it.type = .byteString := by rw [hit]; rfl
  have hvalue : it.value = v.length := by rw [hit]; rfl
  have hknown : it.unknownLength = false := by rw [hit]; rfl
  have havailable : dataAvailableToParse (ω := ω) it 1 buf = ([], .done ()) :=
    dataAvailable_head hcrc.head (by rw [hat.ptr_eq]; exact hat.drop_eq)
  have hstring : decodeByteString (ω := ω) it buf = ([], .done (v, next)) := by
    unfold decodeByteString
    rw [bind_of_done havailable, if_pos htype]
    exact hnext
  have hchecks := hcrc.checks
  rw [← hvalue] at hchecks
  unfold decodeCrcAndValidate
  rw [recorded_done havailable, if_neg (by simp [htype, hknown]), if_neg hchecks,
    recorded_done hstring]
  simp only
  rw [if_pos hcrc.type, recorded_assign_some (hrecord _), recorded_done rfl, recorded_assign_some (hrecord _),
    hat.ptr_eq, ← hcrc.size, Cbor.bigEndian_ofBigEndian]
  rfl

/-- What is written is written for a CRC. -/
theorem recorded_crc_inv {crcType : ℕ} {it : CborValue} (hit : Placed buf it) :
    recorded record (decodeCrcAndValidate patch crcType it) buf = [] ∨ ∃ h v next,
      CrcString crcType h v ∧ Span buf it.ptr next.ptr (h ++ v) ∧
        dupString (ω := ω) it buf = ([], .done (v, next)) := by
  unfold decodeCrcAndValidate
  rcases (Quiet.of_silent (silent_dataAvailableToParse it 1)).bind_cases _ buf with h | ⟨_, _, -, heq⟩
  · exact .inl h
  rw [heq]
  split_ifs with htype hsize hcrc
  · exact .inl rfl
  · exact .inl rfl
  · rcases (Quiet.of_silent (silent_decodeByteString it)).bind_cases _ buf with
      h | ⟨_, ⟨v, next⟩, hs, -⟩
    · exact .inl h
    · right
      obtain ⟨-, -, hs⟩ := (silent_dataAvailableToParse it 1).done_bind hs
      split_ifs at hs with hbytes
      · simp only [hbytes, ne_eq, not_true_eq_false, false_or, Bool.not_eq_true] at htype
        obtain ⟨hd, hh, hvalue, hspan, -⟩ := dupString_inv 2 hit hbytes (.inl rfl) htype hs
        have hlog := (silent_dupString it).log_eq (ω := ω) buf
        rw [hs] at hlog
        refine ⟨hd, v, next, ⟨hcrc, hh, ?_⟩, hspan, hs.trans (Prod.ext hlog rfl)⟩
        rw [← hvalue] at hsize
        rcases hcrc with rfl | rfl <;> simp_all [crcSize]
      · cases hs
  · exact .inl ((Quiet.of_silent (silent_decodeByteString it)).bind (fun _ => quiet_fail _) buf)

theorem recorded_crcField (record : ω → Option Patch) (checked validated : Bool → ω)
    (patch : Patch → ω) {crcType p : ℕ} {h v rest : List UInt8} {it : CborValue}
    (hchecked : record (checked true) = none) (hvalidated : ∀ b, record (validated b) = none)
    (hrecord : ∀ z, record (patch z) = some z) (hcrc : CrcString crcType h v)
    (hat : At buf p 1 (h ++ (v ++ rest)) it) :
    recorded record (decodeCrcField checked validated patch crcType it) buf = crcPatches p v := by
  have hit := hat.eq_headAt hcrc.head (by omega)
  have hnext : dupString (ω := ω) it buf = ([], .done (v, .atEnd (p + (h.length + v.length)))) := by
    rw [hit, dupString_head hcrc.head hat.drop_eq, pairNext_last (by simp [CborType.ofMajor]) rfl]
  have htype : crcType ≠ 0 := by
    rintro rfl
    exact absurd hcrc.type (by decide)
  unfold decodeCrcField
  rw [if_neg htype, recorded_assign hchecked, recorded_bind_quiet]
  · exact recorded_crc hrecord hcrc hat hnext
  · exact fun a => (quiet_assign (hvalidated a.1)).bind fun _ => quiet_pure _

theorem recorded_crcField_inv (record : ω → Option Patch) (checked validated : Bool → ω)
    (patch : Patch → ω) {crcType : ℕ} {it : CborValue} (hit : Placed buf it)
    (hchecked : record (checked true) = none) (hvalidated : ∀ b, record (validated b) = none) :
    recorded record (decodeCrcField checked validated patch crcType it) buf = [] ∨
      ∃ h v rest, CrcString crcType h v ∧ buf.drop it.ptr = h ++ (v ++ rest) := by
  unfold decodeCrcField
  split_ifs
  · exact .inl rfl
  · rw [recorded_assign hchecked, recorded_bind_quiet]
    · rcases recorded_crc_inv hit with h | ⟨h, v, next, hcrc, hspan, -⟩
      · exact .inl h
      · exact .inr ⟨h, v, _, hcrc, by rw [hspan.drop_eq, List.append_assoc]⟩
    · exact fun a => (quiet_assign (hvalidated a.1)).bind fun _ => quiet_pure _

end

end Dtnme.Bundling
