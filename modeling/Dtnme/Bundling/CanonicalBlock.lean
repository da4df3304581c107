import Dtnme.Bundling.BlockInfo
import Dtnme.Bundling.CrcField

/-! # Decoding a canonical block

An array of the block's type, number, flags and CRC type, its data as a byte string, and the CRC if
the type says that there is one.
-/

namespace Dtnme.Bundling
open Library TinyCbor Decoder

/-- What the decoder assigns. -/
inductive BlockWrite
  | blockNumber (n : ℕ)
  | flag (flags : ℕ)
  | crcType (n : ℕ)
  | crcValidated (valid : Bool)
  | dataOffset (n : ℕ)
  | dataLength (n : ℕ)
  | crcOffset (n : ℕ)
  | crcLength (n : ℕ)
  | crcChecked (checked : Bool)
  | patch (z : Patch)
  deriving DecidableEq, Repr

namespace BlockWrite

def apply (b : BlockInfo) : BlockWrite → BlockInfo
  | .blockNumber n => { b with blockNumber := n }
  | .flag flags => { b with blockFlags := flags }
  | .crcType n => { b with crcType := n }
  | .crcValidated valid => { b with crcValidated := valid }
  | .dataOffset n => { b with dataOffset := n }
  | .dataLength n => { b with dataLength := n }
  | .crcOffset n => { b with crcOffset := n }
  | .crcLength n => { b with crcLength := n }
  | .crcChecked checked => { b with crcChecked := checked }
  | .patch _ => b

def record : BlockWrite → Option Patch
  | .patch z => some z
  | _ => none

end BlockWrite

/-- Up to the CRC type, which is the value; the block's type is read over. -/
def decodeBlockFields (elements : CborValue) : Decode BlockWrite (ℕ × CborValue) := do
  let (_, elements) ← decodeUint elements
  let (blockNumber, elements) ← decodeUint elements
  assign (.blockNumber blockNumber)
  let (blockProcessingFlags, elements) ← decodeUint elements
  assign (.flag blockProcessingFlags)
  let (crcType, elements) ← decodeUint elements
  assign (.crcType crcType)
  pure (crcType, elements)

/-- The CRC type, and the number of elements that it asks for. -/
def checkBlockElements (blockElements crcType : ℕ) : Decode BlockWrite Unit :=
  if 2 < crcType then fail .fail
  else if crcType = 0 then do
    assign (.crcValidated true)
    if blockElements ≠ 5 then fail .fail else pure ()
  else if blockElements ≠ 6 then fail .fail else pure ()

/-- The bytes of the CRC's element, of which one is taken to be its head. -/
def crcCborLength : ℕ → ℕ
  | 1 => 3
  | 2 => 5
  | _ => 0

def decodeBlockData (crcType : ℕ) (elements : CborValue) : Decode BlockWrite CborValue := do
  dataAvailableToParse elements 1
  if elements.type ≠ .byteString ∨ elements.unknownLength then fail .fail
  else do
    let (_, next) ← decodeByteString elements
    assign (.dataOffset (next.ptr - elements.value))
    assign (.dataLength elements.value)
    assign (.crcOffset (next.ptr - 1))
    assign (.crcLength (crcCborLength crcType))
    pure next

/-- The number of bytes of the block. -/
def decodeCanonicalBlock : Decode BlockWrite ℕ := do
  let blockArray ← cborParserInit
  let blockElements ← validateCborFixedArrayLength blockArray 5 6
  let elements ← enterContainer blockArray
  let (crcType, elements) ← decodeBlockFields elements
  checkBlockElements blockElements crcType
  let elements ← decodeBlockData crcType elements
  let elements ← decodeCrcField .crcChecked .crcValidated .patch crcType elements
  let next ← leaveContainer blockArray elements
  if next.remaining ≠ 0 then fail .fail else pure next.ptr

/-! ## Up to the CRC -/

/-- The array's head and the elements in front of the CRC. -/
inductive CanonicalFront (crcType : ℕ) : List UInt8 → Prop
  | mk {a t n f c d data type number flags} (ha : Cbor.IsHead 4 6 a) (ht : Cbor.IsHead 0 type t)
      (hn : Cbor.IsHead 0 number n) (hf : Cbor.IsHead 0 flags f) (hc : Cbor.IsHead 0 crcType c)
      (hd : Cbor.IsHead 2 data.length d) :
      CanonicalFront crcType (a ++ (t ++ (n ++ (f ++ (c ++ (d ++ data))))))

section
variable {buf rest : List UInt8} {p r : ℕ} {it : CborValue}

theorem decodeByteString_at {h s : List UInt8} (hh : Cbor.IsHead 2 s.length h)
    (hat : At buf p r (h ++ (s ++ rest)) it) (hlo : 2 ≤ r) (hhi : r < uint32Max)
    (hrest : HeadFirst rest) {ω : Type} :
    ∃ next, decodeByteString (ω := ω) it buf = ([], .done (s, next)) ∧
      At buf (p + (h ++ s).length) (r - 1) rest next := by
  obtain ⟨next, hnext, hat'⟩ := dupString_at (ω := ω) hh (.inl rfl) hat hlo hhi hrest
  have htype : it.type = .byteString := by rw [hat.eq_headAt hh (by omega)]; rfl
  refine ⟨next, ?_, hat'⟩
  unfold decodeByteString
  rw [bind_of_done (dataAvailable_head hh (by rw [hat.ptr_eq]; exact hat.drop_eq)), if_pos htype]
  exact hnext

theorem decodeBlockFields_at {t n f c : List UInt8} {type number flags crcType : ℕ}
    (ht : Cbor.IsHead 0 type t) (hn : Cbor.IsHead 0 number n) (hf : Cbor.IsHead 0 flags f)
    (hc : Cbor.IsHead 0 crcType c) (hat : At buf p r (t ++ (n ++ (f ++ (c ++ rest)))) it)
    (hlo : 5 ≤ r) (hhi : r < uint32Max) (hrest : HeadFirst rest) :
    ∃ next, decodeBlockFields it buf =
        ([.blockNumber number, .flag flags, .crcType crcType], .done (crcType, next)) ∧
      At buf (p + t.length + n.length + f.length + c.length) (r - 4) rest next := by
  obtain ⟨it₁, h₁, hat₁⟩ := decodeUint_at (ω := BlockWrite) ht hat (by omega) hhi
    (headFirst_of hn (by omega) _)
  obtain ⟨it₂, h₂, hat₂⟩ := decodeUint_at (ω := BlockWrite) hn hat₁ (by omega) (by omega)
    (headFirst_of hf (by omega) _)
  obtain ⟨it₃, h₃, hat₃⟩ := decodeUint_at (ω := BlockWrite) hf hat₂ (by omega) (by omega)
    (headFirst_of hc (by omega) _)
  obtain ⟨it₄, h₄, hat₄⟩ := decodeUint_at (ω := BlockWrite) hc hat₃ (by omega) (by omega) hrest
  refine ⟨it₄, ?_, hat₄⟩
  unfold decodeBlockFields
  rw [bind_of_done h₁]
  simp only
  rw [bind_of_done h₂]
  simp only
  rw [bind_done (assign_apply _ _), bind_of_done h₃]
  simp only
  rw [bind_done (assign_apply _ _), bind_of_done h₄]
  simp only
  rw [bind_done (assign_apply _ _)]
  rfl

theorem CrcString.headFirst {crcType : ℕ} {h v : List UInt8} (hcrc : CrcString crcType h v)
    (rest : List UInt8) : HeadFirst (h ++ (v ++ rest)) := headFirst_of hcrc.head (by omega) _

theorem quiet_checkBlockElements (blockElements crcType : ℕ) :
    Quiet BlockWrite.record (checkBlockElements blockElements crcType) := by
  unfold checkBlockElements
  exact .ite (quiet_fail _) (.ite ((quiet_assign rfl).bind fun _ => .ite (quiet_fail _) (quiet_pure _))
    (.ite (quiet_fail _) (quiet_pure _)))

theorem quiet_decodeBlockFields (it : CborValue) : Quiet BlockWrite.record (decodeBlockFields it) := by
  unfold decodeBlockFields
  exact (Quiet.of_silent (silent_decodeUint it)).bind fun type =>
    (Quiet.of_silent (silent_decodeUint type.2)).bind fun number => (quiet_assign rfl).bind fun _ =>
      (Quiet.of_silent (silent_decodeUint number.2)).bind fun flags => (quiet_assign rfl).bind fun _ =>
        (Quiet.of_silent (silent_decodeUint flags.2)).bind fun crcType =>
          (quiet_assign rfl).bind fun _ => quiet_pure _

theorem quiet_decodeBlockData (crcType : ℕ) (it : CborValue) :
    Quiet BlockWrite.record (decodeBlockData crcType it) := by
  unfold decodeBlockData
  exact (Quiet.of_silent (silent_dataAvailableToParse it 1)).bind fun _ => .ite (quiet_fail _)
    ((Quiet.of_silent (silent_decodeByteString it)).bind fun data => (quiet_assign rfl).bind fun _ =>
      (quiet_assign rfl).bind fun _ => (quiet_assign rfl).bind fun _ => (quiet_assign rfl).bind fun _ =>
        quiet_pure _)

theorem decodeBlockData_at {d data : List UInt8} (crcType : ℕ) (hd : Cbor.IsHead 2 data.length d)
    (hat : At buf p r (d ++ (data ++ rest)) it) (hlo : 2 ≤ r) (hhi : r < uint32Max)
    (hrest : HeadFirst rest) :
    ∃ next, decodeBlockData crcType it buf = ([.dataOffset (next.ptr - data.length),
        .dataLength data.length, .crcOffset (next.ptr - 1), .crcLength (crcCborLength crcType)],
        .done next) ∧ At buf (p + (d ++ data).length) (r - 1) rest next := by
  obtain ⟨next, hnext, hat'⟩ := decodeByteString_at hd hat hlo hhi hrest (ω := BlockWrite)
  have hit := hat.eq_headAt hd (by omega)
  have htype : it.type = .byteString := by rw [hit]; rfl
  have hknown : it.unknownLength = false := by rw [hit]; rfl
  have hvalue : it.value = data.length := by rw [hit]; rfl
  refine ⟨next, ?_, hat'⟩
  unfold decodeBlockData
  rw [bind_of_done (dataAvailable_head hd (by rw [hat.ptr_eq]; exact hat.drop_eq)),
    if_neg (by simp [htype, hknown]), bind_of_done hnext, hvalue]
  rfl

/-- A CRC behind the front of a block is patched. -/
theorem recorded_canonical {crcType : ℕ} {front h v : List UInt8}
    (hfront : CanonicalFront crcType front) (hcrc : CrcString crcType h v)
    (hbuf : buf = front ++ (h ++ (v ++ rest))) :
    recorded BlockWrite.record decodeCanonicalBlock buf = crcPatches front.length v := by
  cases hfront with
  | @mk a t n f c d data type number flags ha ht hn hf hc hd =>
    simp only [List.append_assoc] at hbuf
    have hstart : buf.drop 0 = a ++ (t ++ (n ++ (f ++ (c ++ (d ++ (data ++ (h ++ (v ++ rest)))))))) := hbuf
    have hinit : cborParserInit (ω := BlockWrite) buf = ([], .done (headAt 0 1 4 6 a)) :=
      preparseValue_head ha (by omega) hstart
    have hlen := validateCborFixedArrayLength_array (ω := BlockWrite) 1 5 6 ha hstart
    rw [if_neg (by omega)] at hlen
    obtain ⟨it₁, henter, hat₁⟩ := enterContainer_at (ω := BlockWrite) 1 ha hstart (by omega)
      (by norm_num [uint32Max]) (headFirst_of ht (by omega) _)
    obtain ⟨it₂, hfields, hat₂⟩ := decodeBlockFields_at ht hn hf hc hat₁ (by omega)
      (by norm_num [uint32Max]) (headFirst_of hd (by omega) _)
    obtain ⟨it₃, hdata, hat₃⟩ := decodeBlockData_at crcType hd hat₂ (by omega)
      (by norm_num [uint32Max]) (hcrc.headFirst rest)
    have hcheck : checkBlockElements 6 crcType buf = ([], .done ()) := by
      unfold checkBlockElements
      rcases hcrc.type with rfl | rfl <;> rfl
    unfold decodeCanonicalBlock
    rw [recorded_done hinit, recorded_done hlen, recorded_done henter,
      (quiet_decodeBlockFields it₁).bind_done hfields]
    simp only
    rw [recorded_done hcheck, (quiet_decodeBlockData crcType it₂).bind_done hdata, recorded_bind_quiet]
    · have hpatches := recorded_crcField BlockWrite.record .crcChecked .crcValidated .patch rfl (fun _ => rfl) (fun _ => rfl) hcrc hat₃
      rw [hpatches]
      simp only [List.length_append]
      congr 1
      omega
    · exact fun next => (Quiet.of_silent (silent_leaveContainer _ next)).bind fun _ =>
        .ite (quiet_fail _) (quiet_pure _)

theorem decodeBlockFields_inv {log : List BlockWrite} {crcType : ℕ} {next : CborValue}
    (hit : Placed buf it) (h : decodeBlockFields it buf = (log, .done (crcType, next))) :
    ∃ t n f c type number flags, Cbor.IsHead 0 type t ∧ Cbor.IsHead 0 number n ∧
      Cbor.IsHead 0 flags f ∧ Cbor.IsHead 0 crcType c ∧
      Span buf it.ptr next.ptr (t ++ (n ++ (f ++ c))) ∧ Placed buf next ∧
      log = [.blockNumber number, .flag flags, .crcType crcType] := by
  obtain ⟨⟨type, it₁⟩, h₁, h⟩ := (silent_decodeUint it).done_bind h
  obtain ⟨t, ht, hspan₁, hit₁, -⟩ := decodeUint_inv hit h₁
  obtain ⟨⟨number, it₂⟩, h₂, h⟩ := (silent_decodeUint it₁).done_bind h
  obtain ⟨n, hn, hspan₂, hit₂, -⟩ := decodeUint_inv hit₁ h₂
  simp only at h
  obtain ⟨log₂, _, log₂', ha₂, hflags, rfl⟩ := bind_eq_done h
  obtain ⟨⟨flags, it₃⟩, h₃, hassign⟩ := (silent_decodeUint it₂).done_bind hflags
  obtain ⟨f, hf, hspan₃, hit₃, -⟩ := decodeUint_inv hit₂ h₃
  simp only at hassign
  obtain ⟨log₃, _, log₃', ha₃, hcrc, rfl⟩ := bind_eq_done hassign
  obtain ⟨⟨crcType', it₄⟩, h₄, hend⟩ := (silent_decodeUint it₃).done_bind hcrc
  obtain ⟨c, hc, hspan₄, hit₄, -⟩ := decodeUint_inv hit₃ h₄
  cases hend
  cases ha₂
  cases ha₃
  exact ⟨t, n, f, c, type, number, flags, ht, hn, hf, hc,
    hspan₁.append (hspan₂.append (hspan₃.append hspan₄)), hit₄, rfl⟩

theorem decodeBlockData_inv {log : List BlockWrite} {crcType : ℕ} {next : CborValue}
    (hit : Placed buf it) (h : decodeBlockData crcType it buf = (log, .done next)) :
    ∃ d data, Cbor.IsHead 2 data.length d ∧ Span buf it.ptr next.ptr (d ++ data) ∧ Placed buf next ∧
      log = [.dataOffset (next.ptr - data.length), .dataLength data.length, .crcOffset (next.ptr - 1),
        .crcLength (crcCborLength crcType)] := by
  obtain ⟨-, -, h⟩ := (silent_dataAvailableToParse it 1).done_bind h
  split_ifs at h with htype
  · cases h
  · simp only [ne_eq, not_or, not_not, Bool.not_eq_true] at htype
    obtain ⟨⟨data, it₁⟩, hs, h⟩ := (silent_decodeByteString it).done_bind h
    obtain ⟨-, -, hs⟩ := (silent_dataAvailableToParse it 1).done_bind hs
    rw [if_pos htype.1] at hs
    obtain ⟨d, hd, hvalue, hspan, -, hit₁, -⟩ := dupString_inv 2 hit htype.1 (.inl rfl) htype.2 hs
    cases h
    exact ⟨d, data, hd, hspan, hit₁, by rw [hvalue]; rfl⟩

/-- What is patched is a CRC behind the front of a block. -/
theorem recorded_canonical_inv (buf : List UInt8) :
    recorded BlockWrite.record decodeCanonicalBlock buf = [] ∨ ∃ crcType front h v rest,
      CanonicalFront crcType front ∧ CrcString crcType h v ∧ buf = front ++ (h ++ (v ++ rest)) := by
  unfold decodeCanonicalBlock
  rcases (Quiet.of_silent silent_cborParserInit).bind_cases _ buf with h | ⟨_, blockArray, hinit, heq⟩
  · exact .inl h
  rw [heq]
  obtain ⟨harray, hptr, -⟩ := cborParserInit_inv hinit
  rcases (Quiet.of_silent (silent_validate blockArray 5 6)).bind_cases _ buf with
    h | ⟨_, blockElements, hlen, heq⟩
  · exact .inl h
  rw [heq]
  obtain ⟨htype, hknown, hvalue, hlo, -⟩ := validate_inv hlen
  rcases (Quiet.of_silent (silent_enterContainer blockArray)).bind_cases _ buf with
    h | ⟨_, elements, henter, heq⟩
  · exact .inl h
  rw [heq]
  obtain ⟨helements, hptr₀, -⟩ := enterContainer_inv htype hknown (by omega) henter
  rcases (quiet_decodeBlockFields elements).bind_cases _ buf with h | ⟨_, ⟨crcType, it₁⟩, hfields, heq⟩
  · exact .inl h
  rw [heq]
  obtain ⟨t, n, f, c, type, number, flags, ht, hn, hf, hc, hspan₁, hit₁, -⟩ :=
    decodeBlockFields_inv helements hfields
  rcases (quiet_checkBlockElements blockElements crcType).bind_cases _ buf with h | ⟨_, _, hcheck, heq⟩
  · exact .inl h
  rw [heq]
  rcases (quiet_decodeBlockData crcType it₁).bind_cases _ buf with h | ⟨_, it₂, hdata, heq⟩
  · exact .inl h
  rw [heq]
  obtain ⟨d, data, hd, hspan₂, hit₂, -⟩ := decodeBlockData_inv hit₁ hdata
  rw [recorded_bind_quiet fun next => (Quiet.of_silent (silent_leaveContainer _ next)).bind fun _ =>
    .ite (quiet_fail _) (quiet_pure _)]
  rcases recorded_crcField_inv BlockWrite.record .crcChecked .crcValidated .patch hit₂ rfl (fun _ => rfl) with
    h | ⟨h, v, rest, hcrc, hrest⟩
  · exact .inl h
  · right
    obtain ⟨a, ha, hspan₀⟩ := harray.array htype hknown
    have hsix : blockElements = 6 := by
      unfold checkBlockElements at hcheck
      rcases hcrc.type with rfl | rfl <;> by_contra hne <;> simp [hne] at hcheck
    rw [hvalue, hsix] at ha
    rw [← hptr₀, hptr] at hspan₀
    have hspan := hspan₀.append (hspan₁.append hspan₂)
    refine ⟨crcType, _, h, v, rest, .mk ha ht hn hf hc hd, hcrc, ?_⟩
    have hall := hspan.drop_eq
    rw [hrest, List.drop_zero] at hall
    rw [hall]
    simp only [List.append_assoc]

/-! ## A block without a CRC -/

theorem decodeBlockData_last {d data : List UInt8} (crcType : ℕ) (hd : Cbor.IsHead 2 data.length d)
    (hat : At buf p 1 (d ++ (data ++ rest)) it) :
    decodeBlockData crcType it buf = ([.dataOffset (p + d.length), .dataLength data.length,
        .crcOffset (p + (d.length + data.length) - 1), .crcLength (crcCborLength crcType)],
        .done (.atEnd (p + (d.length + data.length)))) := by
  have hit := hat.eq_headAt hd (by omega)
  have htype : it.type = .byteString := by rw [hit]; rfl
  have hknown : it.unknownLength = false := by rw [hit]; rfl
  have hvalue : it.value = data.length := by rw [hit]; rfl
  have havailable : dataAvailableToParse (ω := BlockWrite) it 1 buf = ([], .done ()) :=
    dataAvailable_head hd (by rw [hat.ptr_eq]; exact hat.drop_eq)
  have hstring : dupString (ω := BlockWrite) it buf =
      ([], .done (data, .atEnd (p + (d.length + data.length)))) := by
    rw [hit, dupString_head hd hat.drop_eq, pairNext_last (by simp [CborType.ofMajor]) rfl]
  have hbytes : decodeByteString (ω := BlockWrite) it buf =
      ([], .done (data, .atEnd (p + (d.length + data.length)))) := by
    unfold decodeByteString
    rw [bind_of_done havailable, if_pos htype, hstring]
  have hoffset : p + (d.length + data.length) - data.length = p + d.length := by omega
  unfold decodeBlockData
  rw [bind_of_done havailable, if_neg (by simp [htype, hknown]), bind_of_done hbytes, hvalue, ← hoffset]
  rfl

/-- An array of five is decoded to its fields. -/
theorem decodeCanonicalBlock_plain {a t n f c d data : List UInt8} {type number flags : ℕ}
    (ha : Cbor.IsHead 4 5 a) (ht : Cbor.IsHead 0 type t) (hn : Cbor.IsHead 0 number n)
    (hf : Cbor.IsHead 0 flags f) (hc : Cbor.IsHead 0 0 c) (hd : Cbor.IsHead 2 data.length d)
    (hbuf : buf = a ++ (t ++ (n ++ (f ++ (c ++ (d ++ (data ++ rest))))))) :
    ∃ dataOffset, dataOffset = (a ++ (t ++ (n ++ (f ++ (c ++ d))))).length ∧ decodeCanonicalBlock buf =
      ([.blockNumber number, .flag flags, .crcType 0, .crcValidated true, .dataOffset dataOffset,
        .dataLength data.length, .crcOffset (dataOffset + data.length - 1), .crcLength 0],
        .done (dataOffset + data.length)) := by
  have hstart : buf.drop 0 = a ++ (t ++ (n ++ (f ++ (c ++ (d ++ (data ++ rest)))))) := hbuf
  have hinit : cborParserInit (ω := BlockWrite) buf = ([], .done (headAt 0 1 4 5 a)) :=
    preparseValue_head ha (by omega) hstart
  have hlen := validateCborFixedArrayLength_array (ω := BlockWrite) 1 5 6 ha hstart
  rw [if_neg (by omega)] at hlen
  obtain ⟨it₁, henter, hat₁⟩ := enterContainer_at (ω := BlockWrite) 1 ha hstart (by omega)
    (by norm_num [uint32Max]) (headFirst_of ht (by omega) _)
  obtain ⟨it₂, hfields, hat₂⟩ := decodeBlockFields_at ht hn hf hc hat₁ (by omega)
    (by norm_num [uint32Max]) (headFirst_of hd (by omega) _)
  have hdata := decodeBlockData_last 0 hd hat₂
  have hcheck : checkBlockElements 5 0 buf = ([.crcValidated true], .done ()) := rfl
  refine ⟨0 + a.length + t.length + n.length + f.length + c.length + d.length, ?_, ?_⟩
  · simp only [List.length_append]
    omega
  · unfold decodeCanonicalBlock
    rw [bind_of_done hinit, bind_of_done hlen, bind_of_done henter, bind_done hfields]
    simp only
    rw [bind_done hcheck, bind_done hdata]
    simp only [decodeCrcField, if_true]
    rw [bind_of_done (show (pure _ : Decode BlockWrite CborValue) buf = _ from rfl),
      leaveContainer_atEnd rfl, preparseNextValue_last (by simp [CborType.ofMajor]) rfl,
      bind_of_done (show (pure _ : Decode BlockWrite CborValue) buf = _ from rfl)]
    simp only [CborValue.atEnd, ne_eq, not_true_eq_false, if_false, pure_apply, List.append_nil,
      Nat.add_assoc]
    rfl

/-! ## What is read of a block -/

/-- The block's number and its flags. -/
def BlockWrite.field : BlockWrite → Option ℕ
  | .blockNumber n => some n
  | .flag flags => some flags
  | _ => none

theorem foldl_field {later : List BlockWrite} (hlater : ∀ w ∈ later, w.field = none) (b : BlockInfo) :
    (later.foldl BlockWrite.apply b).blockNumber = b.blockNumber ∧
      (later.foldl BlockWrite.apply b).blockFlags = b.blockFlags := by
  induction later generalizing b with
  | nil => exact ⟨rfl, rfl⟩
  | cons w later ih =>
    have hw := hlater w List.mem_cons_self
    obtain ⟨hnumber, hflags⟩ := ih (fun v hv => hlater v (List.mem_cons_of_mem w hv)) (w.apply b)
    rw [List.foldl_cons, hnumber, hflags]
    cases w <;> simp_all [BlockWrite.apply, BlockWrite.field]

/-- The rest of a block is about neither. -/
theorem quiet_field (blockArray : CborValue) (blockElements crcType : ℕ) (it : CborValue) :
    Quiet BlockWrite.field (do
      checkBlockElements blockElements crcType
      let elements ← decodeBlockData crcType it
      let elements ← decodeCrcField .crcChecked .crcValidated .patch crcType elements
      let next ← leaveContainer blockArray elements
      if next.remaining ≠ 0 then fail .fail else pure next.ptr) := by
  have hcheck : Quiet BlockWrite.field (checkBlockElements blockElements crcType) := by
    unfold checkBlockElements
    exact .ite (quiet_fail _) (.ite ((quiet_assign rfl).bind fun _ => .ite (quiet_fail _) (quiet_pure _))
      (.ite (quiet_fail _) (quiet_pure _)))
  have hdata : Quiet BlockWrite.field (decodeBlockData crcType it) := by
    unfold decodeBlockData
    exact (Quiet.of_silent (silent_dataAvailableToParse it 1)).bind fun _ => .ite (quiet_fail _)
      ((Quiet.of_silent (silent_decodeByteString it)).bind fun _ => (quiet_assign rfl).bind fun _ =>
        (quiet_assign rfl).bind fun _ => (quiet_assign rfl).bind fun _ =>
          (quiet_assign rfl).bind fun _ => quiet_pure _)
  have hcrc : ∀ elements, Quiet BlockWrite.field
      (decodeCrcField .crcChecked .crcValidated .patch crcType elements) := by
    intro elements
    unfold decodeCrcField decodeCrcAndValidate
    exact .ite (quiet_pure _) ((quiet_assign rfl).bind fun _ =>
      ((Quiet.of_silent (silent_dataAvailableToParse elements 1)).bind fun _ => .ite (quiet_fail _)
        (.ite (quiet_fail _) ((Quiet.of_silent (silent_decodeByteString elements)).bind fun _ =>
          .ite ((quiet_assign rfl).bind fun _ => (Quiet.of_silent ⟨fun _ => rfl⟩).bind fun _ =>
            (quiet_assign rfl).bind fun _ => quiet_pure _) (quiet_fail _)))).bind fun _ =>
        (quiet_assign rfl).bind fun _ => quiet_pure _)
  exact hcheck.bind fun _ => hdata.bind fun _ => (hcrc _).bind fun elements =>
    (Quiet.of_silent (silent_leaveContainer _ elements)).bind fun _ => .ite (quiet_fail _) (quiet_pure _)

/-- A decoded block has a number and flags of 64 bits. -/
theorem decodeCanonicalBlock_fields {len : ℕ} (h : Yields decodeCanonicalBlock buf len) (b : BlockInfo) :
    ∃ number flags n f, Cbor.IsHead 0 number n ∧ Cbor.IsHead 0 flags f ∧
      ((decodeCanonicalBlock buf).1.foldl BlockWrite.apply b).blockNumber = number ∧
      ((decodeCanonicalBlock buf).1.foldl BlockWrite.apply b).blockFlags = flags := by
  have heq := h.eq
  obtain ⟨blockArray, hinit, h₁⟩ := silent_cborParserInit.done_bind heq
  obtain ⟨harray, -, -⟩ := cborParserInit_inv hinit
  obtain ⟨blockElements, hlen, h₂⟩ := (silent_validate blockArray 5 6).done_bind h₁
  obtain ⟨htype, hknown, hvalue, hlo, -⟩ := validate_inv hlen
  obtain ⟨elements, henter, h₃⟩ := (silent_enterContainer blockArray).done_bind h₂
  obtain ⟨helements, -, -⟩ := enterContainer_inv htype hknown (by omega) henter
  obtain ⟨log, ⟨crcType, it₁⟩, later, hfields, hrest, hlog⟩ := bind_eq_done h₃
  obtain ⟨t, n, f, c, type, number, flags, -, hn, hf, -, -, -, rfl⟩ :=
    decodeBlockFields_inv helements hfields
  refine ⟨number, flags, n, f, hn, hf, ?_⟩
  have hquiet := quiet_field blockArray blockElements crcType it₁ buf
  unfold recorded at hquiet
  simp only at hrest
  rw [hrest, List.filterMap_eq_nil_iff] at hquiet
  rw [hlog, List.foldl_append]
  exact foldl_field hquiet _

end

end Dtnme.Bundling
