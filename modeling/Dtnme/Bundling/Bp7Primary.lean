import Dtnme.Bundling.CrcField

/-! # Decoding the primary block of version 7

An array of version, flags, CRC type, three endpoint ids, creation time, lifetime, the two numbers of
a fragment, and the CRC. Its length must fit the flags and the CRC type.
-/

namespace Dtnme.Bundling.Bp7
open Library Naming TinyCbor Decoder

/-- What the block says of a bundle. -/
structure PrimaryFields where
  bpVersion : ℕ := 7
  isFragment : Bool := false
  isAdmin : Bool := false
  doNotFragment : Bool := false
  reqTimeInStatusRpt : Bool := false
  appAckedRcpt : Bool := false
  receiveRcpt : Bool := false
  forwardRcpt : Bool := false
  deliveryRcpt : Bool := false
  deletionRcpt : Bool := false
  dest : Eid := makeEidNull
  source : Eid := makeEidNull
  replyto : Eid := makeEidNull
  custodian : Eid := makeEidNull
  creationTs : ℕ × ℕ := (0, 0)
  expirationMillis : ℕ := 0
  fragOffset : ℕ := 0
  origLength : ℕ := 0
  blockFlags : ℕ := 0
  crcChecked : Bool := false
  crcValidated : Bool := false

def parseBundleFlags (b : PrimaryFields) (flags : ℕ) : PrimaryFields :=
  { b with
    isFragment := flags.testBit 0
    isAdmin := flags.testBit 1
    doNotFragment := flags.testBit 2
    appAckedRcpt := flags.testBit 5
    reqTimeInStatusRpt := flags.testBit 6
    receiveRcpt := flags.testBit 14
    forwardRcpt := flags.testBit 16
    deliveryRcpt := flags.testBit 17
    deletionRcpt := flags.testBit 18 }

/-- What the decoder assigns, to the bundle and to the block. -/
inductive PrimaryWrite
  | bpVersion (n : ℕ)
  | bundleFlags (flags : ℕ)
  | blockFlag (flag : ℕ)
  | dest (eid : Eid)
  | source (eid : Eid)
  | replyto (eid : Eid)
  | custodian (eid : Eid)
  | creationTs (ts : ℕ × ℕ)
  | expirationMillis (n : ℕ)
  | fragOffset (n : ℕ)
  | origLength (n : ℕ)
  | crcChecked (checked : Bool)
  | crcValidated (valid : Bool)
  | patch (z : Patch)

namespace PrimaryWrite

def apply (b : PrimaryFields) : PrimaryWrite → PrimaryFields
  | .bpVersion n => { b with bpVersion := n }
  | .bundleFlags flags => parseBundleFlags b flags
  | .blockFlag flag => { b with blockFlags := flag }
  | .dest eid => { b with dest := eid }
  | .source eid => { b with source := eid }
  | .replyto eid => { b with replyto := eid }
  | .custodian eid => { b with custodian := eid }
  | .creationTs ts => { b with creationTs := ts }
  | .expirationMillis n => { b with expirationMillis := n }
  | .fragOffset n => { b with fragOffset := n }
  | .origLength n => { b with origLength := n }
  | .crcChecked checked => { b with crcChecked := checked }
  | .crcValidated valid => { b with crcValidated := valid }
  | .patch _ => b

def record : PrimaryWrite → Option Patch
  | .patch z => some z
  | _ => none

end PrimaryWrite

/-- The version, the flags and the CRC type. -/
def decodePrimaryHead (elements : CborValue) : Decode PrimaryWrite ((ℕ × ℕ) × CborValue) := do
  let (bpVersion, elements) ← decodeUint elements
  if bpVersion ≠ 7 then fail .fail
  else do
    assign (.bpVersion bpVersion)
    let (bundleProcessingFlags, elements) ← decodeUint elements
    assign (.bundleFlags bundleProcessingFlags)
    assign (.blockFlag 0)
    let (crcType, elements) ← decodeUint elements
    if 2 < crcType then fail .fail
    else pure ((bundleProcessingFlags, crcType), elements)

def validateBundleArraySize (blockElements : ℕ) (isFragment : Bool) (crcType : ℕ) :
    Decode PrimaryWrite Unit :=
  if isFragment then
    if crcType = 0 then if blockElements ≠ 10 then fail .fail else pure ()
    else if blockElements ≠ 11 then fail .fail else pure ()
  else
    if crcType = 0 then if blockElements ≠ 8 then fail .fail else pure ()
    else if blockElements ≠ 9 then fail .fail else pure ()

/-- An id that the bundle has room for is reset first. -/
def decodeBundleEid (write : Eid → PrimaryWrite) (elements : CborValue) :
    Decode PrimaryWrite CborValue := do
  assign (write makeEidNull)
  let (eid, elements) ← decodeEid elements
  assign (write eid)
  pure elements

/-- The three endpoint ids; there is no custodian. -/
def decodeEids (elements : CborValue) : Decode PrimaryWrite CborValue := do
  let elements ← decodeBundleEid .dest elements
  let (source, elements) ← decodeEid elements
  assign (.source source)
  let elements ← decodeBundleEid .replyto elements
  assign (.custodian makeEidNull)
  pure elements

/-- An array of milliseconds and a sequence number. -/
def decodeBundleTimestamp (elements : CborValue) : Decode PrimaryWrite ((ℕ × ℕ) × CborValue) :=
  decodeNumbersSsp Prod.mk elements

def decodeTimes (elements : CborValue) : Decode PrimaryWrite CborValue := do
  let (timestamp, elements) ← decodeBundleTimestamp elements
  assign (.creationTs timestamp)
  let (lifetime, elements) ← decodeUint elements
  assign (.expirationMillis lifetime)
  pure elements

def decodeFragmentFields (isFragment : Bool) (elements : CborValue) : Decode PrimaryWrite CborValue :=
  if isFragment then do
    let (fragmentOffset, elements) ← decodeUint elements
    assign (.fragOffset fragmentOffset)
    let (totalAduLength, elements) ← decodeUint elements
    assign (.origLength totalAduLength)
    pure elements
  else pure elements

/-- `decode_cbor`: the number of bytes of the block. -/
def decodeCbor : Decode PrimaryWrite ℕ := do
  let blockArray ← cborParserInit
  let blockElements ← validateCborFixedArrayLength blockArray 8 11
  let elements ← enterContainer blockArray
  let ((flags, crcType), elements) ← decodePrimaryHead elements
  validateBundleArraySize blockElements (flags.testBit 0) crcType
  let elements ← decodeEids elements
  let elements ← decodeTimes elements
  let elements ← decodeFragmentFields (flags.testBit 0) elements
  let elements ← decodeCrcField .crcChecked .crcValidated .patch crcType elements
  let next ← leaveContainer blockArray elements
  if next.remaining ≠ 0 then fail .fail else pure next.ptr

/-! ## Up to the CRC -/

/-- The numbers of a fragment. -/
inductive FragmentFields : Bool → List UInt8 → Prop
  | whole : FragmentFields false []
  | fragment {offset total o t} (ho : Cbor.IsHead 0 offset o) (ht : Cbor.IsHead 0 total t) :
      FragmentFields true (o ++ t)

def sizeWithCrc (isFragment : Bool) : ℕ := if isFragment then 11 else 9

/-- The version, the flags and the CRC type. -/
inductive HeadFields (crcType flags : ℕ) : List UInt8 → Prop
  | mk {v f c} (hv : Cbor.IsHead 0 7 v) (hf : Cbor.IsHead 0 flags f) (hc : Cbor.IsHead 0 crcType c) :
      HeadFields crcType flags (v ++ (f ++ c))

/-- Three endpoint ids. -/
inductive EidFields : List UInt8 → Prop
  | mk {dest source replyto d s r} (hd : EidItem dest d) (hs : EidItem source s)
      (hr : EidItem replyto r) : EidFields (d ++ (s ++ r))

/-- The creation time and the lifetime. -/
inductive TimeFields : List UInt8 → Prop
  | mk {ms seqno lifetime b x y l} (hb : Cbor.IsHead 4 2 b) (hx : Cbor.IsHead 0 ms x)
      (hy : Cbor.IsHead 0 seqno y) (hl : Cbor.IsHead 0 lifetime l) :
      TimeFields (b ++ (x ++ y) ++ l)

/-- The array's head and the elements in front of the CRC. -/
inductive PrimaryFront (crcType : ℕ) : List UInt8 → Prop
  | mk {flags a head eids times frag} (ha : Cbor.IsHead 4 (sizeWithCrc (flags.testBit 0)) a)
      (hhead : HeadFields crcType flags head) (heids : EidFields eids) (htimes : TimeFields times)
      (hfrag : FragmentFields (flags.testBit 0) frag) :
      PrimaryFront crcType (a ++ (head ++ (eids ++ (times ++ frag))))

section
variable {buf rest : List UInt8} {p r : ℕ} {it : CborValue}

theorem quiet_decodePrimaryHead (it : CborValue) :
    Quiet PrimaryWrite.record (decodePrimaryHead it) := by
  unfold decodePrimaryHead
  exact (Quiet.of_silent (silent_decodeUint it)).bind fun version => .ite (quiet_fail _)
    ((quiet_assign rfl).bind fun _ => (Quiet.of_silent (silent_decodeUint version.2)).bind fun flags =>
      (quiet_assign rfl).bind fun _ => (quiet_assign rfl).bind fun _ =>
        (Quiet.of_silent (silent_decodeUint flags.2)).bind fun _ => .ite (quiet_fail _) (quiet_pure _))

theorem silent_validateBundleArraySize (blockElements : ℕ) (isFragment : Bool) (crcType : ℕ) :
    Silent (validateBundleArraySize blockElements isFragment crcType) := by
  unfold validateBundleArraySize
  exact .ite (.ite (.ite (silent_fail _) (silent_pure _)) (.ite (silent_fail _) (silent_pure _)))
    (.ite (.ite (silent_fail _) (silent_pure _)) (.ite (silent_fail _) (silent_pure _)))

theorem quiet_decodeBundleEid {write : Eid → PrimaryWrite}
    (hwrite : ∀ eid, PrimaryWrite.record (write eid) = none) (it : CborValue) :
    Quiet PrimaryWrite.record (decodeBundleEid write it) := by
  unfold decodeBundleEid
  exact (quiet_assign (hwrite _)).bind fun _ => (Quiet.of_silent (silent_decodeEid it)).bind fun eid =>
    (quiet_assign (hwrite eid.1)).bind fun _ => quiet_pure _

theorem quiet_decodeEids (it : CborValue) : Quiet PrimaryWrite.record (decodeEids it) := by
  unfold decodeEids
  exact (quiet_decodeBundleEid (fun _ => rfl) it).bind fun dest =>
    (Quiet.of_silent (silent_decodeEid dest)).bind fun source => (quiet_assign rfl).bind fun _ =>
      (quiet_decodeBundleEid (fun _ => rfl) source.2).bind fun _ => (quiet_assign rfl).bind fun _ =>
        quiet_pure _

theorem quiet_decodeTimes (it : CborValue) : Quiet PrimaryWrite.record (decodeTimes it) := by
  unfold decodeTimes
  exact (Quiet.of_silent (silent_decodeNumbersSsp _ it)).bind fun ts => (quiet_assign rfl).bind fun _ =>
    (Quiet.of_silent (silent_decodeUint ts.2)).bind fun _ => (quiet_assign rfl).bind fun _ => quiet_pure _

theorem quiet_decodeFragmentFields (isFragment : Bool) (it : CborValue) :
    Quiet PrimaryWrite.record (decodeFragmentFields isFragment it) := by
  unfold decodeFragmentFields
  exact .ite ((Quiet.of_silent (silent_decodeUint it)).bind fun offset => (quiet_assign rfl).bind fun _ =>
    (Quiet.of_silent (silent_decodeUint offset.2)).bind fun _ => (quiet_assign rfl).bind fun _ =>
      quiet_pure _) (quiet_pure _)

/-! ## Fields that are there -/

theorem FragmentFields.headFirst {isFragment : Bool} {frag : List UInt8}
    (h : FragmentFields isFragment frag) (hrest : HeadFirst rest) : HeadFirst (frag ++ rest) := by
  cases h with
  | whole => exact hrest
  | fragment ho _ =>
    rw [List.append_assoc]
    exact headFirst_of ho (by omega) _

theorem TimeFields.headFirst {times : List UInt8} (h : TimeFields times) (rest : List UInt8) :
    HeadFirst (times ++ rest) := by
  cases h with
  | mk hb _ _ _ =>
    rw [List.append_assoc, List.append_assoc]
    exact headFirst_of hb (by omega) _

theorem EidFields.headFirst {eids : List UInt8} (h : EidFields eids) (rest : List UInt8) :
    HeadFirst (eids ++ rest) := by
  cases h with
  | mk hd _ _ =>
    rw [List.append_assoc]
    exact headFirst_eid hd _

theorem HeadFields.headFirst {crcType flags : ℕ} {head : List UInt8}
    (h : HeadFields crcType flags head) (rest : List UInt8) : HeadFirst (head ++ rest) := by
  cases h with
  | mk hv _ _ =>
    rw [List.append_assoc]
    exact headFirst_of hv (by omega) _

theorem decodePrimaryHead_at {crcType flags : ℕ} {head : List UInt8}
    (hhead : HeadFields crcType flags head) (hcrc : crcType ≤ 2)
    (hat : At buf p r (head ++ rest) it) (hlo : 4 ≤ r) (hhi : r < uint32Max) (hrest : HeadFirst rest) :
    ∃ next, Yields (decodePrimaryHead it) buf ((flags, crcType), next) ∧
      At buf (p + head.length) (r - 3) rest next := by
  cases hhead with
  | @mk v f c hv hf hc =>
    simp only [List.append_assoc] at hat
    obtain ⟨it₁, h₁, hat₁⟩ := decodeUint_at (ω := PrimaryWrite) hv hat (by omega) hhi
      (headFirst_of hf (by omega) _)
    obtain ⟨it₂, h₂, hat₂⟩ := decodeUint_at (ω := PrimaryWrite) hf hat₁ (by omega) (by omega)
      (headFirst_of hc (by omega) _)
    obtain ⟨it₃, h₃, hat₃⟩ := decodeUint_at (ω := PrimaryWrite) hc hat₂ (by omega) (by omega) hrest
    refine ⟨it₃, ?_, by simpa [Nat.add_assoc, Nat.sub_sub] using hat₃⟩
    unfold decodePrimaryHead
    refine (yields_of h₁).bind ((yields_assign _).bind ((yields_of h₂).bind ((yields_assign _).bind
      ((yields_assign _).bind ((yields_of h₃).bind ?_)))))
    simp only
    rw [if_neg (by omega)]
    exact yields_pure _

theorem decodeBundleEid_at (write : Eid → PrimaryWrite) {eid : Eid} {item : List UInt8}
    (h : EidItem eid item) (hat : At buf p r (item ++ rest) it) (hlo : 2 ≤ r) (hhi : r < uint32Max)
    (hrest : HeadFirst rest) :
    ∃ next, Yields (decodeBundleEid write it) buf next ∧
      At buf (p + item.length) (r - 1) rest next := by
  obtain ⟨next, hnext, hat'⟩ := decodeEid_at (ω := PrimaryWrite) h hat hlo hhi hrest
  refine ⟨next, ?_, hat'⟩
  unfold decodeBundleEid
  exact (yields_assign _).bind ((yields_of hnext).bind ((yields_assign _).bind (yields_pure _)))

theorem decodeEids_at {eids : List UInt8} (heids : EidFields eids)
    (hat : At buf p r (eids ++ rest) it) (hlo : 4 ≤ r) (hhi : r < uint32Max) (hrest : HeadFirst rest) :
    ∃ next, Yields (decodeEids it) buf next ∧ At buf (p + eids.length) (r - 3) rest next := by
  cases heids with
  | @mk dest source replyto d s t hd hs ht =>
    simp only [List.append_assoc] at hat
    obtain ⟨it₁, h₁, hat₁⟩ := decodeBundleEid_at .dest hd hat (by omega) hhi
      (headFirst_eid hs _)
    obtain ⟨it₂, h₂, hat₂⟩ := decodeEid_at (ω := PrimaryWrite) hs hat₁ (by omega) (by omega)
      (headFirst_eid ht _)
    obtain ⟨it₃, h₃, hat₃⟩ := decodeBundleEid_at .replyto ht hat₂ (by omega) (by omega) hrest
    refine ⟨it₃, ?_, by simpa [Nat.add_assoc, Nat.sub_sub] using hat₃⟩
    unfold decodeEids
    exact h₁.bind ((yields_of h₂).bind ((yields_assign _).bind (h₃.bind ((yields_assign _).bind
      (yields_pure _)))))

theorem decodeTimes_at {times : List UInt8} (htimes : TimeFields times)
    (hat : At buf p r (times ++ rest) it) (hlo : 3 ≤ r) (hhi : r < uint32Max) (hrest : HeadFirst rest) :
    ∃ next, Yields (decodeTimes it) buf next ∧ At buf (p + times.length) (r - 2) rest next := by
  cases htimes with
  | @mk ms seqno lifetime b x y l hb hx hy hl =>
    rw [List.append_assoc] at hat
    have hhead := hat
    rw [List.append_assoc] at hhead
    have hit := hhead.eq_headAt hb (by omega)
    have hbuf := hhead.drop_eq
    rw [List.append_assoc] at hbuf
    obtain ⟨it₁, h₁, hat₁⟩ := hat.pairNext (ω := PrimaryWrite) (by simp [hit, CborType.ofMajor])
      (by omega) hhi (headFirst_of hl (by omega) _) (ms, seqno)
    obtain ⟨it₂, h₂, hat₂⟩ := decodeUint_at (ω := PrimaryWrite) hl hat₁ (by omega) (by omega) hrest
    have hpair : Yields (decodeBundleTimestamp it) buf ((ms, seqno), it₁) := by
      refine yields_of (?_ : _ = ([], _))
      unfold decodeBundleTimestamp
      rw [hit, decodeNumbersSsp_pair Prod.mk p r hb hx hy hbuf, ← hit]
      exact h₁
    refine ⟨it₂, ?_, by simpa [Nat.add_assoc, Nat.sub_sub] using hat₂⟩
    unfold decodeTimes
    exact hpair.bind ((yields_assign _).bind ((yields_of h₂).bind ((yields_assign _).bind
      (yields_pure _))))

theorem decodeFragmentFields_at {isFragment : Bool} {frag : List UInt8}
    (hfrag : FragmentFields isFragment frag) (hat : At buf p r (frag ++ rest) it)
    (hlo : (if isFragment then 3 else 1) ≤ r) (hhi : r < uint32Max) (hrest : HeadFirst rest) :
    ∃ next, Yields (decodeFragmentFields isFragment it) buf next ∧
      At buf (p + frag.length) (r - if isFragment then 2 else 0) rest next := by
  cases hfrag with
  | whole => exact ⟨it, yields_pure _, hat⟩
  | @fragment offset total o t ho ht =>
    simp only [if_true] at hlo ⊢
    rw [List.append_assoc] at hat
    obtain ⟨it₁, h₁, hat₁⟩ := decodeUint_at (ω := PrimaryWrite) ho hat (by omega) hhi
      (headFirst_of ht (by omega) _)
    obtain ⟨it₂, h₂, hat₂⟩ := decodeUint_at (ω := PrimaryWrite) ht hat₁ (by omega) (by omega) hrest
    refine ⟨it₂, ?_, by simpa [Nat.add_assoc, Nat.sub_sub] using hat₂⟩
    unfold decodeFragmentFields
    rw [if_pos rfl]
    exact (yields_of h₁).bind ((yields_assign _).bind ((yields_of h₂).bind ((yields_assign _).bind
      (yields_pure _))))

theorem validateBundleArraySize_withCrc {isFragment : Bool} {crcType : ℕ} (hcrc : crcType ≠ 0) :
    validateBundleArraySize (sizeWithCrc isFragment) isFragment crcType buf = ([], .done ()) := by
  unfold validateBundleArraySize
  cases isFragment <;> simp [hcrc, sizeWithCrc]

/-- A CRC behind the front of a block is patched. -/
theorem recorded_primary {crcType : ℕ} {front h v : List UInt8} (hfront : PrimaryFront crcType front)
    (hcrc : CrcString crcType h v) (hbuf : buf = front ++ (h ++ (v ++ rest))) :
    recorded PrimaryWrite.record decodeCbor buf = crcPatches front.length v := by
  cases hfront with
  | @mk flags a head eids times frag ha hhead heids htimes hfrag =>
    have hstart : buf.drop 0 = a ++ (head ++ (eids ++ (times ++ (frag ++ (h ++ (v ++ rest)))))) := by
      simpa [List.append_assoc] using hbuf
    have hsize : 9 ≤ sizeWithCrc (flags.testBit 0) ∧ sizeWithCrc (flags.testBit 0) ≤ 11 := by
      unfold sizeWithCrc
      split_ifs <;> omega
    have hmax : sizeWithCrc (flags.testBit 0) < uint32Max :=
      lt_of_le_of_lt hsize.2 (by norm_num [uint32Max])
    have hle : crcType ≤ 2 := by
      rcases hcrc.type with rfl | rfl <;> omega
    have hcrcFirst : HeadFirst (h ++ (v ++ rest)) := headFirst_of hcrc.head (by omega) _
    have hfragFirst := hfrag.headFirst hcrcFirst
    have htimesFirst := htimes.headFirst (frag ++ (h ++ (v ++ rest)))
    have heidsFirst := heids.headFirst (times ++ (frag ++ (h ++ (v ++ rest))))
    have hheadFirst := hhead.headFirst (eids ++ (times ++ (frag ++ (h ++ (v ++ rest)))))
    have hinit : cborParserInit (ω := PrimaryWrite) buf = ([], .done (headAt 0 1 4 _ a)) :=
      preparseValue_head ha (by omega) hstart
    have hlen := validateCborFixedArrayLength_array (ω := PrimaryWrite) 1 8 11 ha hstart
    rw [if_neg (by omega)] at hlen
    obtain ⟨it₁, henter, hat₁⟩ := enterContainer_at (ω := PrimaryWrite) 1 ha hstart (by omega) hmax
      hheadFirst
    obtain ⟨it₂, h₂, hat₂⟩ := decodePrimaryHead_at hhead hle hat₁ (by omega) hmax heidsFirst
    obtain ⟨it₃, h₃, hat₃⟩ := decodeEids_at heids hat₂ (by omega) (by omega) htimesFirst
    obtain ⟨it₄, h₄, hat₄⟩ := decodeTimes_at htimes hat₃ (by omega) (by omega) hfragFirst
    have hcount : sizeWithCrc (flags.testBit 0) - 3 - 3 - 2 = if flags.testBit 0 then 3 else 1 := by
      unfold sizeWithCrc
      split_ifs <;> rfl
    obtain ⟨it₅, h₅, hat₅⟩ := decodeFragmentFields_at hfrag hat₄ hcount.ge (by omega) hcrcFirst
    have hlast : sizeWithCrc (flags.testBit 0) - 3 - 3 - 2 - (if flags.testBit 0 then 2 else 0) = 1 := by
      rw [hcount]
      split_ifs <;> rfl
    rw [hlast] at hat₅
    have hcrcType : crcType ≠ 0 := by
      rintro rfl
      exact absurd hcrc.type (by decide)
    have hpatches := recorded_crcField PrimaryWrite.record .crcChecked .crcValidated .patch rfl
      (fun _ => rfl) (fun _ => rfl) hcrc hat₅
    unfold decodeCbor
    rw [recorded_done hinit, recorded_done hlen, recorded_done henter,
      (quiet_decodePrimaryHead it₁).bind_done h₂.eq]
    simp only
    rw [recorded_done (validateBundleArraySize_withCrc hcrcType), (quiet_decodeEids it₂).bind_done h₃.eq,
      (quiet_decodeTimes it₃).bind_done h₄.eq,
      (quiet_decodeFragmentFields (flags.testBit 0) it₄).bind_done h₅.eq, recorded_bind_quiet]
    · rw [hpatches]
      simp only [List.length_append]
      congr 1
      omega
    · exact fun next => (Quiet.of_silent (silent_leaveContainer _ next)).bind fun _ =>
        .ite (quiet_fail _) (quiet_pure _)

/-! ## Fields that were read -/

theorem decodePrimaryHead_inv {crcType flags : ℕ} {next : CborValue} (hit : Placed buf it)
    (h : Yields (decodePrimaryHead it) buf ((flags, crcType), next)) :
    ∃ head, HeadFields crcType flags head ∧ Span buf it.ptr next.ptr head ∧ Placed buf next := by
  unfold decodePrimaryHead at h
  obtain ⟨⟨version, it₁⟩, h₁, h⟩ := h.of_bind
  obtain ⟨v, hv, hspan₁, hit₁, -⟩ := decodeUint_inv hit h₁.eq
  simp only at h
  split_ifs at h with hversion
  · cases h
  · rw [ne_eq, not_not] at hversion
    subst hversion
    obtain ⟨-, -, h⟩ := h.of_bind
    obtain ⟨⟨flags', it₂⟩, h₂, h⟩ := h.of_bind
    obtain ⟨f, hf, hspan₂, hit₂, -⟩ := decodeUint_inv hit₁ h₂.eq
    obtain ⟨-, -, h⟩ := h.of_bind
    obtain ⟨-, -, h⟩ := h.of_bind
    obtain ⟨⟨crcType', it₃⟩, h₃, h⟩ := h.of_bind
    obtain ⟨c, hc, hspan₃, hit₃, -⟩ := decodeUint_inv hit₂ h₃.eq
    simp only at h
    split_ifs at h
    · cases h
    · cases h
      exact ⟨_, .mk hv hf hc, hspan₁.append (hspan₂.append hspan₃), hit₃⟩

theorem decodeBundleEid_inv {write : Eid → PrimaryWrite} {next : CborValue} (hit : Placed buf it)
    (h : Yields (decodeBundleEid write it) buf next) :
    ∃ eid item, EidItem eid item ∧ Span buf it.ptr next.ptr item ∧ Placed buf next := by
  unfold decodeBundleEid at h
  obtain ⟨-, -, h⟩ := h.of_bind
  obtain ⟨⟨eid, it₁⟩, h₁, h⟩ := h.of_bind
  obtain ⟨item, hitem, hspan, hit₁, -⟩ := decodeEid_inv hit h₁.eq
  obtain ⟨-, -, h⟩ := h.of_bind
  cases h
  exact ⟨eid, item, hitem, hspan, hit₁⟩

theorem decodeEids_inv {next : CborValue} (hit : Placed buf it) (h : Yields (decodeEids it) buf next) :
    ∃ eids, EidFields eids ∧ Span buf it.ptr next.ptr eids ∧ Placed buf next := by
  unfold decodeEids at h
  obtain ⟨it₁, h₁, h⟩ := h.of_bind
  obtain ⟨dest, d, hd, hspan₁, hit₁⟩ := decodeBundleEid_inv hit h₁
  obtain ⟨⟨source, it₂⟩, h₂, h⟩ := h.of_bind
  obtain ⟨s, hs, hspan₂, hit₂, -⟩ := decodeEid_inv hit₁ h₂.eq
  obtain ⟨-, -, h⟩ := h.of_bind
  obtain ⟨it₃, h₃, h⟩ := h.of_bind
  obtain ⟨replyto, t, ht, hspan₃, hit₃⟩ := decodeBundleEid_inv hit₂ h₃
  obtain ⟨-, -, h⟩ := h.of_bind
  cases h
  exact ⟨_, .mk hd hs ht, hspan₁.append (hspan₂.append hspan₃), hit₃⟩

theorem decodeTimes_inv {next : CborValue} (hit : Placed buf it) (h : Yields (decodeTimes it) buf next) :
    ∃ times, TimeFields times ∧ Span buf it.ptr next.ptr times ∧ Placed buf next := by
  unfold decodeTimes at h
  obtain ⟨⟨ts, it₁⟩, h₁, h⟩ := h.of_bind
  obtain ⟨b, ms, x, seqno, y, hb, hx, hy, -, hspan₁, hit₁, -⟩ := decodeNumbersSsp_inv hit h₁.eq
  obtain ⟨-, -, h⟩ := h.of_bind
  obtain ⟨⟨lifetime, it₂⟩, h₂, h⟩ := h.of_bind
  obtain ⟨l, hl, hspan₂, hit₂, -⟩ := decodeUint_inv hit₁ h₂.eq
  obtain ⟨-, -, h⟩ := h.of_bind
  cases h
  exact ⟨_, .mk hb hx hy hl, hspan₁.append hspan₂, hit₂⟩

theorem decodeFragmentFields_inv {isFragment : Bool} {next : CborValue} (hit : Placed buf it)
    (h : Yields (decodeFragmentFields isFragment it) buf next) :
    ∃ frag, FragmentFields isFragment frag ∧ Span buf it.ptr next.ptr frag ∧ Placed buf next := by
  unfold decodeFragmentFields at h
  cases isFragment with
  | false =>
    rw [if_neg (by decide)] at h
    cases h
    exact ⟨[], .whole, .nil buf it.ptr, hit⟩
  | true =>
    rw [if_pos rfl] at h
    obtain ⟨⟨offset, it₁⟩, h₁, h⟩ := h.of_bind
    obtain ⟨o, ho, hspan₁, hit₁, -⟩ := decodeUint_inv hit h₁.eq
    obtain ⟨-, -, h⟩ := h.of_bind
    obtain ⟨⟨total, it₂⟩, h₂, h⟩ := h.of_bind
    obtain ⟨t, ht, hspan₂, hit₂, -⟩ := decodeUint_inv hit₁ h₂.eq
    obtain ⟨-, -, h⟩ := h.of_bind
    cases h
    exact ⟨_, .fragment ho ht, hspan₁.append hspan₂, hit₂⟩

theorem validateBundleArraySize_inv {blockElements crcType : ℕ} {isFragment : Bool}
    (hcrc : crcType ≠ 0) (h : Yields (validateBundleArraySize blockElements isFragment crcType) buf ()) :
    blockElements = sizeWithCrc isFragment := by
  unfold validateBundleArraySize at h
  cases isFragment with
  | false =>
    rw [if_neg (by decide), if_neg hcrc] at h
    split_ifs at h with hsize
    · cases h
    · exact not_not.mp hsize
  | true =>
    rw [if_pos rfl, if_neg hcrc] at h
    split_ifs at h with hsize
    · cases h
    · exact not_not.mp hsize

/-- What is patched is a CRC behind the front of a block. -/
theorem recorded_primary_inv (buf : List UInt8) :
    recorded PrimaryWrite.record decodeCbor buf = [] ∨ ∃ crcType front h v rest,
      PrimaryFront crcType front ∧ CrcString crcType h v ∧ buf = front ++ (h ++ (v ++ rest)) := by
  unfold decodeCbor
  rcases (Quiet.of_silent silent_cborParserInit).bind_cases _ buf with h | ⟨_, blockArray, hinit, heq⟩
  · exact .inl h
  rw [heq]
  obtain ⟨harray, hptr, -⟩ := cborParserInit_inv hinit
  rcases (Quiet.of_silent (silent_validate blockArray 8 11)).bind_cases _ buf with
    h | ⟨_, blockElements, hlen, heq⟩
  · exact .inl h
  rw [heq]
  obtain ⟨htype, hknown, hvalue, hlo, -⟩ := validate_inv hlen
  rcases (Quiet.of_silent (silent_enterContainer blockArray)).bind_cases _ buf with
    h | ⟨_, elements, henter, heq⟩
  · exact .inl h
  rw [heq]
  obtain ⟨helements, hptr₀, -⟩ := enterContainer_inv htype hknown (by omega) henter
  rcases (quiet_decodePrimaryHead elements).bind_cases _ buf with
    h | ⟨_, ⟨⟨flags, crcType⟩, it₁⟩, hhead, heq⟩
  · exact .inl h
  rw [heq]
  obtain ⟨head, hheadFields, hspan₁, hit₁⟩ := decodePrimaryHead_inv helements (yields_of hhead)
  rcases (Quiet.of_silent (silent_validateBundleArraySize blockElements (flags.testBit 0) crcType)).bind_cases
    _ buf with h | ⟨_, _, hcheck, heq⟩
  · exact .inl h
  rw [heq]
  rcases (quiet_decodeEids it₁).bind_cases _ buf with h | ⟨_, it₂, heids, heq⟩
  · exact .inl h
  rw [heq]
  obtain ⟨eids, heidFields, hspan₂, hit₂⟩ := decodeEids_inv hit₁ (yields_of heids)
  rcases (quiet_decodeTimes it₂).bind_cases _ buf with h | ⟨_, it₃, htimes, heq⟩
  · exact .inl h
  rw [heq]
  obtain ⟨times, htimeFields, hspan₃, hit₃⟩ := decodeTimes_inv hit₂ (yields_of htimes)
  rcases (quiet_decodeFragmentFields (flags.testBit 0) it₃).bind_cases _ buf with h | ⟨_, it₄, hfrag, heq⟩
  · exact .inl h
  rw [heq]
  obtain ⟨frag, hfragFields, hspan₄, hit₄⟩ := decodeFragmentFields_inv hit₃ (yields_of hfrag)
  rw [recorded_bind_quiet fun next => (Quiet.of_silent (silent_leaveContainer _ next)).bind fun _ =>
    .ite (quiet_fail _) (quiet_pure _)]
  rcases recorded_crcField_inv PrimaryWrite.record .crcChecked .crcValidated .patch hit₄ rfl
    (fun _ => rfl) with h | ⟨h, v, rest, hcrc, hrest⟩
  · exact .inl h
  · right
    have hcrcType : crcType ≠ 0 := by
      rintro rfl
      exact absurd hcrc.type (by decide)
    obtain ⟨a, ha, hspan₀⟩ := harray.array htype hknown
    rw [hvalue, validateBundleArraySize_inv hcrcType (yields_of hcheck)] at ha
    rw [← hptr₀, hptr] at hspan₀
    have hspan := hspan₀.append (hspan₁.append (hspan₂.append (hspan₃.append hspan₄)))
    refine ⟨crcType, _, h, v, rest, .mk ha hheadFields heidFields htimeFields hfragFields, hcrc, ?_⟩
    have hall := hspan.drop_eq
    rw [hrest, List.drop_zero] at hall
    exact hall

end

end Dtnme.Bundling.Bp7
