import Dtnme.Bundling.Bp6Primary
import Dtnme.Bundling.FragmentWire

/-! # The primary block of a fragment

A fragment is a new bundle into which `copy_metadata` copies the fields of the bundle one by one, and so
is the bundle that is rebuilt from fragments. The primary block is written from these fields, in both
versions, and one flag of version 7 is not among those that are copied.
-/

namespace Dtnme.Bundling
open Library Naming

/-! ## Copying a bundle -/

/-- The fields of a bundle that `copy_metadata` copies or resets, next to those of `Bundle`. -/
structure Metadata where
  isAdmin : Bool := false
  source : Eid := makeEidNull
  dest : Eid := makeEidNull
  custodian : Eid := makeEidNull
  replyto : Eid := makeEidNull
  priority : Priority := .normal
  custodyRequested : Bool := false
  localCustody : Bool := false
  bibeCustody : Bool := false
  singletonDestFlag : Bool := true
  custodyRcpt : Bool := false
  receiveRcpt : Bool := false
  forwardRcpt : Bool := false
  deliveryRcpt : Bool := false
  deletionRcpt : Bool := false
  appAckedRcpt : Bool := false
  reqTimeInStatusRpt : Bool := false
  expirationMillis : ℕ := 0
  prevBundleAgeMillis : ℕ := 0
  hasBundleAgeBlock : Bool := false
  receivedTime : ℕ × ℕ := (0, 0)
  prevhop : Eid := makeEidNull
  primaryBlockCrcType : ℕ := 2
  highestRcvdBlockNumber : ℕ := 1
  hopLimit : ℕ := 0
  hopCount : ℕ := 0
  ecosEnabled : Bool := false
  ecosFlags : ℕ := 0
  ecosOrdinal : ℕ := 0
  ecosFlowlabel : ℕ := 0
  deriving DecidableEq, Repr

/-- `copy_metadata`, into a new bundle. -/
def Metadata.copy (d : Metadata) : Metadata where
  isAdmin := d.isAdmin
  source := d.source
  dest := d.dest
  custodian := d.custodian
  replyto := d.replyto
  priority := d.priority
  custodyRequested := d.custodyRequested
  localCustody := false
  bibeCustody := false
  singletonDestFlag := d.singletonDestFlag
  custodyRcpt := d.custodyRcpt
  receiveRcpt := d.receiveRcpt
  forwardRcpt := d.forwardRcpt
  deliveryRcpt := d.deliveryRcpt
  deletionRcpt := d.deletionRcpt
  appAckedRcpt := d.appAckedRcpt
  expirationMillis := d.expirationMillis
  prevBundleAgeMillis := d.prevBundleAgeMillis
  hasBundleAgeBlock := d.hasBundleAgeBlock
  receivedTime := d.receivedTime
  prevhop := d.prevhop
  primaryBlockCrcType := d.primaryBlockCrcType
  highestRcvdBlockNumber := d.highestRcvdBlockNumber
  hopLimit := d.hopLimit
  hopCount := d.hopCount
  ecosEnabled := d.ecosEnabled
  ecosFlags := d.ecosFlags
  ecosOrdinal := d.ecosOrdinal
  ecosFlowlabel := d.ecosFlowlabel

/-- A bundle with its primary block. -/
structure FullBundle where
  bundle : Bundle
  data : Metadata
  deriving DecidableEq, Repr

/-- The endpoint ids of the node. -/
structure LocalNode where
  localEid : Eid
  localEidIpn : Eid

section
variable (parse : List UInt8 → Option Uri)

/-- `accept_custody`. -/
def acceptCustody (node : LocalNode) (d : Metadata) : Metadata :=
  if d.localCustody then d
  else if d.custodian = node.localEid ∨ d.custodian = node.localEidIpn then d
  else { d with
    custodian := if d.dest.scheme? parse = some .ipn then node.localEidIpn else node.localEid
    localCustody := true
    bibeCustody := true }

/-- What becomes of the metadata in a fragment. -/
def Metadata.forFragment (node : LocalNode) (d : Metadata) : Metadata :=
  if d.localCustody then acceptCustody parse node { d.copy with custodian := makeEidNull } else d.copy

/-- `create_fragment` for either version. -/
def createFullFragment (node : LocalNode) (b : FullBundle) (xmitBlocks : List BlockInfo)
    (maxLength offset : ℕ) (first last : Bool) : Except Fault FullBundle := do
  let request :=
    if b.bundle.bpVersion = 6 then requestBp6 b.bundle xmitBlocks maxLength
    else requestBp7 b.bundle xmitBlocks maxLength
  let bundle ← request.createFragment offset first last
  pure { bundle, data := b.data.forFragment parse node }

/-- A fragment of the bundle, or of one of its fragments. -/
inductive FragmentFrom (node : LocalNode) (b : FullBundle) : FullBundle → Prop
  | once {f : FullBundle} {xmitBlocks : List BlockInfo} {maxLength offset : ℕ} {first last : Bool}
      (made : createFullFragment parse node b xmitBlocks maxLength offset first last = .ok f) :
      FragmentFrom node b f
  | again {f g : FullBundle} {xmitBlocks : List BlockInfo} {maxLength offset : ℕ} {first last : Bool}
      (fragment : FragmentFrom node b f)
      (made : createFullFragment parse node f xmitBlocks maxLength offset first last = .ok g) :
      FragmentFrom node b g

end

/-! ## Rebuilding -/

/-- The entry of the fragment table, with the metadata of the bundle that is being rebuilt. -/
structure Rebuilding where
  state : FragmentState
  data : Metadata

structure Rebuilder where
  fragmentTable : OrdMap String Rebuilding := .empty
  posted : List FullBundle := []

/-- The metadata is that of the first fragment to arrive. -/
def Rebuilder.entryFor (m : Rebuilder) (f : FullBundle) : Rebuilding :=
  (m.fragmentTable.find? f.bundle.hashKey).getD
    { state := newState f.bundle, data := f.data.copy }

/-- `process_for_reassembly`. -/
def Rebuilder.process (m : Rebuilder) (f : FullBundle) : Except Fault Rebuilder :=
  if f.bundle.isFragment then do
    let entry := m.entryFor f
    let state ← entry.state.take f.bundle
    let completed ← state.checkCompleted
    if completed then
      .ok { fragmentTable := m.fragmentTable.erase f.bundle.hashKey
            posted := { bundle := state.bundle, data := entry.data } :: m.posted }
    else .ok { m with
      fragmentTable := m.fragmentTable.insert f.bundle.hashKey { state, data := entry.data } }
  else .error .assertFailed

/-! ## The primary block -/

/-- What a primary block says. Version 6 has a custodian and no CRC. -/
structure PrimaryImage where
  version : ℕ
  flags : ℕ
  crcType : ℕ
  eids : List Eid
  timestamp : ℕ × ℕ
  lifetime : ℕ
  fragment : Option (ℕ × ℕ)
  deriving DecidableEq, Repr

namespace FullBundle

/-- The fields that version 6 reads. -/
def fields6 (b : FullBundle) : PrimaryFields where
  isFragment := b.bundle.isFragment
  isAdmin := b.data.isAdmin
  doNotFragment := b.bundle.doNotFragment
  custodyRequested := b.data.custodyRequested
  singletonDestFlag := b.data.singletonDestFlag
  appAckedRcpt := b.data.appAckedRcpt
  priority := b.data.priority
  receiveRcpt := b.data.receiveRcpt
  custodyRcpt := b.data.custodyRcpt
  forwardRcpt := b.data.forwardRcpt
  deliveryRcpt := b.data.deliveryRcpt
  deletionRcpt := b.data.deletionRcpt
  dest := b.data.dest
  source := b.data.source
  replyto := b.data.replyto
  custodian := b.data.custodian
  creationSecs := UInt64.ofNat b.bundle.secsOrMillisecs
  seqno := UInt64.ofNat b.bundle.seqno
  expirationMillis := UInt64.ofNat b.data.expirationMillis
  fragOffset := UInt64.ofNat b.bundle.fragOffset
  origLength := UInt64.ofNat b.bundle.origLength

/-- The fields that version 7 reads. -/
def fields7 (b : FullBundle) : PrimaryData where
  isAdmin := b.data.isAdmin
  reqTimeInStatusRpt := b.data.reqTimeInStatusRpt
  appAckedRcpt := b.data.appAckedRcpt
  receiveRcpt := b.data.receiveRcpt
  forwardRcpt := b.data.forwardRcpt
  deliveryRcpt := b.data.deliveryRcpt
  deletionRcpt := b.data.deletionRcpt
  crcType := b.data.primaryBlockCrcType
  dest := b.data.dest
  source := b.data.source
  replyto := b.data.replyto
  expirationMillis := b.data.expirationMillis

def fragmentFields (b : FullBundle) : Option (ℕ × ℕ) :=
  if b.bundle.isFragment then some (b.bundle.fragOffset, b.bundle.origLength) else none

def image (parse : List UInt8 → Option Uri) (b : FullBundle) : PrimaryImage :=
  if b.bundle.bpVersion = 6 then
    { version := 6
      flags := processingFlags parse b.fields6
      crcType := 0
      eids := [b.data.dest, b.data.source, b.data.replyto, b.data.custodian]
      timestamp := (b.bundle.secsOrMillisecs, b.bundle.seqno)
      lifetime := b.data.expirationMillis
      fragment := b.fragmentFields }
  else
    { version := b.bundle.bpVersion
      flags := formatBundleFlagsBp7 b.bundle.isFragment b.bundle.doNotFragment b.fields7
      crcType := b.data.primaryBlockCrcType
      eids := [b.data.dest, b.data.source, b.data.replyto]
      timestamp := (b.bundle.secsOrMillisecs, b.bundle.seqno)
      lifetime := b.data.expirationMillis
      fragment := b.fragmentFields }

end FullBundle

/-! ## What the image determines -/

section
variable {parse : List UInt8 → Option Uri} {b b' : FullBundle}

theorem FullBundle.isFragment_of_fields (h : b.fragmentFields = b'.fragmentFields) :
    b.bundle.isFragment = b'.bundle.isFragment := by
  unfold FullBundle.fragmentFields at h
  cases hb : b.bundle.isFragment <;> cases hb' : b'.bundle.isFragment <;> simp_all

theorem FullBundle.fragment_of_fields (h : b.fragmentFields = b'.fragmentFields)
    (hb : b.bundle.isFragment = true) : b.bundle.fragOffset = b'.bundle.fragOffset ∧
      b.bundle.origLength = b'.bundle.origLength := by
  have hb' := (FullBundle.isFragment_of_fields h).symm.trans hb
  simpa [FullBundle.fragmentFields, hb, hb'] using h

/-- Bundles of version 7 with one image have one primary block. -/
theorem encodePrimary_of_image (h7 : b.bundle.bpVersion ≠ 6) (h7' : b'.bundle.bpVersion ≠ 6)
    (h : b.image parse = b'.image parse) :
    encodePrimary parse b.bundle b.fields7 = encodePrimary parse b'.bundle b'.fields7 := by
  unfold FullBundle.image at h
  rw [if_neg h7, if_neg h7'] at h
  simp only [PrimaryImage.mk.injEq, List.cons.injEq, and_true, Prod.mk.injEq] at h
  obtain ⟨hversion, hflags, hcrc, ⟨hdest, hsource, hreplyto⟩, ⟨hsecs, hseqno⟩, hlifetime, hfrag⟩ := h
  have hfields : encodeFragmentFields b.bundle = encodeFragmentFields b'.bundle := by
    unfold encodeFragmentFields
    rw [← FullBundle.isFragment_of_fields hfrag]
    split_ifs with hb
    · rw [(FullBundle.fragment_of_fields hfrag hb).1, (FullBundle.fragment_of_fields hfrag hb).2]
    · rfl
  have heids : encodeEids parse b.fields7 = encodeEids parse b'.fields7 := by
    simp only [encodeEids, FullBundle.fields7, hdest, hsource, hreplyto]
  have hcrcType : b.fields7.crcType = b'.fields7.crcType := hcrc
  have hexpiration : b.fields7.expirationMillis = b'.fields7.expirationMillis := hlifetime
  have hfront (eids : List UInt8) :
      primaryFront b.bundle b.fields7 eids = primaryFront b'.bundle b'.fields7 eids := by
    unfold primaryFront encodeBundleTimestamp
    rw [hfields, hflags, hversion, hsecs, hseqno, FullBundle.isFragment_of_fields hfrag, hcrcType,
      hexpiration]
  simp only [encodePrimary, heids, hfront, hcrcType]

/-- So have those of version 6. -/
theorem generatePrimary_of_image (memory : ℕ) (dict : List UInt8) (h6 : b.bundle.bpVersion = 6)
    (h6' : b'.bundle.bpVersion = 6) (h : b.image parse = b'.image parse) :
    generatePrimary parse memory b.fields6 dict = generatePrimary parse memory b'.fields6 dict := by
  unfold FullBundle.image at h
  rw [if_pos h6, if_pos h6'] at h
  simp only [PrimaryImage.mk.injEq, List.cons.injEq, and_true, Prod.mk.injEq, true_and] at h
  obtain ⟨hflags, ⟨hdest, hsource, hreplyto, hcustodian⟩, ⟨hsecs, hseqno⟩, hlifetime, hfrag⟩ := h
  have hvalues : b.fields6.fragValues = b'.fields6.fragValues := by
    have hsame : b.fields6.isFragment = b'.fields6.isFragment := FullBundle.isFragment_of_fields hfrag
    unfold PrimaryFields.fragValues
    rw [← hsame]
    split_ifs with hb
    · simp only [FullBundle.fields6, (FullBundle.fragment_of_fields hfrag hb).1,
        (FullBundle.fragment_of_fields hfrag hb).2]
    · rfl
  have hoffsets : eidOffsets parse b.fields6 dict = eidOffsets parse b'.fields6 dict := by
    have hdest' : b.fields6.dest = b'.fields6.dest := hdest
    have hsource' : b.fields6.source = b'.fields6.source := hsource
    have hreplyto' : b.fields6.replyto = b'.fields6.replyto := hreplyto
    have hcustodian' : b.fields6.custodian = b'.fields6.custodian := hcustodian
    have hsecs' : b.fields6.creationSecs = b'.fields6.creationSecs := congrArg UInt64.ofNat hsecs
    have hseqno' : b.fields6.seqno = b'.fields6.seqno := congrArg UInt64.ofNat hseqno
    have hlifetime' : b.fields6.expirationMillis = b'.fields6.expirationMillis :=
      congrArg UInt64.ofNat hlifetime
    unfold eidOffsets allCbheCompat PrimaryFields.expirationSecs
    rw [hflags, hdest', hsource', hreplyto', hcustodian', hsecs', hseqno', hlifetime']
  simp only [generatePrimary, getPrimaryLen, hoffsets, hvalues]

end

/-! ## Wholes and fragments -/

/-- The bundle, not as a fragment. -/
def FullBundle.whole (b : FullBundle) : FullBundle :=
  { b with bundle := { b.bundle with isFragment := false } }

/-- The images are the same but for the fragment. -/
structure PrimaryImage.DiffersInFragment (x y : PrimaryImage) : Prop where
  isFragment : y.fragment.isSome
  same : y = { x with flags := x.flags ||| 1, fragment := y.fragment }

section
variable {parse : List UInt8 → Option Uri} {node : LocalNode} {b f : FullBundle}

theorem FullBundle.whole_of_not_fragment (h : b.bundle.isFragment = false) : b.whole = b := by
  obtain ⟨bundle, data⟩ := b
  cases bundle
  simp_all [FullBundle.whole]

theorem processingFlags_fragment (b : PrimaryFields) :
    processingFlags parse { b with isFragment := true } =
      processingFlags parse { b with isFragment := false } ||| 1 := by
  have hset : bit true 0 = 1 := rfl
  have hclear : bit false 0 = 0 := rfl
  simp only [processingFlags, formatBundleFlags, formatCosFlags, formatSrrFlags]
  rw [hset, hclear, Nat.zero_or]
  ac_rfl

theorem formatBundleFlagsBp7_fragment (doNotFragment : Bool) (d : PrimaryData) :
    formatBundleFlagsBp7 true doNotFragment d = formatBundleFlagsBp7 false doNotFragment d ||| 1 := by
  have hset : flagBit true 0 = 1 := rfl
  have hclear : flagBit false 0 = 0 := rfl
  simp only [formatBundleFlagsBp7]
  rw [hset, hclear, Nat.zero_or]
  ac_rfl

/-- The flag of a fragment is the lowest one. -/
theorem FullBundle.image_fragment (parse : List UInt8 → Option Uri) (h : b.bundle.isFragment = true) : b.image parse =
    { b.whole.image parse with
      flags := (b.whole.image parse).flags ||| 1
      fragment := some (b.bundle.fragOffset, b.bundle.origLength) } := by
  have hfields : b.fragmentFields = some (b.bundle.fragOffset, b.bundle.origLength) := by
    simp [FullBundle.fragmentFields, h]
  unfold FullBundle.image
  by_cases hversion : b.bundle.bpVersion = 6
  · have hwhole : b.whole.bundle.bpVersion = 6 := hversion
    have hset : b.fields6 = { b.whole.fields6 with isFragment := true } := by
      rw [← h]
      rfl
    rw [if_pos hversion, if_pos hwhole, hfields, hset, processingFlags_fragment]
    rfl
  · have hwhole : b.whole.bundle.bpVersion ≠ 6 := hversion
    rw [if_neg hversion, if_neg hwhole, hfields, h, formatBundleFlagsBp7_fragment]
    rfl

theorem FullBundle.differs_of_whole (h : f.whole.image parse = b.whole.image parse)
    (hf : f.bundle.isFragment = true) : (b.image parse).DiffersInFragment (f.image parse) := by
  have hpart := FullBundle.image_fragment parse hf
  constructor
  · rw [hpart]
    rfl
  · cases hb : b.bundle.isFragment with
    | false =>
      rw [hpart, h, FullBundle.whole_of_not_fragment hb]
    | true =>
      rw [hpart, h, FullBundle.image_fragment parse hb]
      simp

end

/-! ## What the copy keeps -/

/-- The custodian of a bundle that is accepted into custody and has none. -/
def LocalNode.newCustodian (parse : List UInt8 → Option Uri) (node : LocalNode) (dest : Eid) : Eid :=
  if makeEidNull = node.localEid ∨ makeEidNull = node.localEidIpn then makeEidNull
  else if dest.scheme? parse = some .ipn then node.localEidIpn else node.localEid

/-- Version 7 has no request for times in reports, and in version 6 accepting custody again gives the
custodian that there is. -/
def KeepsPrimary (parse : List UInt8 → Option Uri) (node : LocalNode) (b : FullBundle) : Prop :=
  if b.bundle.bpVersion = 6 then
    b.data.localCustody = true → node.newCustodian parse b.data.dest = b.data.custodian
  else b.data.reqTimeInStatusRpt = false

section
variable {parse : List UInt8 → Option Uri} {node : LocalNode} {b f : FullBundle}

/-- A copy, with custody as it comes to be. -/
structure CopyOf (b f : FullBundle) : Prop where
  version : f.bundle.bpVersion = b.bundle.bpVersion
  timestamp : f.bundle.secsOrMillisecs = b.bundle.secsOrMillisecs ∧ f.bundle.seqno = b.bundle.seqno
  hashKey : f.bundle.hashKey = b.bundle.hashKey
  doNotFragment : f.bundle.doNotFragment = false
  data : ∃ custodian localCustody bibeCustody,
    f.data = { b.data.copy with custodian, localCustody, bibeCustody }

theorem CopyOf.whole_image (parse : List UInt8 → Option Uri) (h : CopyOf b f) (hfrag : b.bundle.doNotFragment = false)
    (h6 : b.bundle.bpVersion = 6 → f.data.custodian = b.data.custodian)
    (h7 : b.bundle.bpVersion ≠ 6 → b.data.reqTimeInStatusRpt = false) :
    f.whole.image parse = b.whole.image parse := by
  obtain ⟨custodian, localCustody, bibeCustody, hdata⟩ := h.data
  unfold FullBundle.image
  by_cases hversion : b.bundle.bpVersion = 6
  · have hcustodian := h6 hversion
    rw [hdata] at hcustodian
    simp only at hcustodian
    simp [FullBundle.whole, FullBundle.fragmentFields, FullBundle.fields6, h.version, hversion,
      h.timestamp, h.doNotFragment, hfrag, hdata, Metadata.copy, hcustodian, processingFlags,
      formatBundleFlags, formatCosFlags, formatSrrFlags]
  · simp [FullBundle.whole, FullBundle.fragmentFields, FullBundle.fields7, h.version, hversion,
      h.timestamp, h.doNotFragment, hfrag, hdata, Metadata.copy, formatBundleFlagsBp7, h7 hversion]

theorem newCustodian_eq (d : Metadata) (h : d.localCustody = true) :
    (d.forFragment parse node).custodian = node.newCustodian parse d.dest := by
  unfold Metadata.forFragment acceptCustody LocalNode.newCustodian
  rw [if_pos h]
  simp only [Metadata.copy, Bool.false_eq_true, if_false]
  split_ifs <;> simp_all

theorem forFragment_custodian (d : Metadata) (h : d.localCustody = false) :
    (d.forFragment parse node).custodian = d.custodian := by
  simp [Metadata.forFragment, h, Metadata.copy]

theorem forFragment_eq (parse : List UInt8 → Option Uri) (node : LocalNode) (d : Metadata) : ∃ custodian localCustody bibeCustody,
    d.forFragment parse node = { d.copy with custodian, localCustody, bibeCustody } ∧
      (d.localCustody = false → localCustody = false) := by
  unfold Metadata.forFragment acceptCustody
  by_cases hlocal : d.localCustody = true
  · simp only [if_pos hlocal, Metadata.copy, Bool.false_eq_true, if_false]
    split_ifs
    · exact ⟨_, _, _, rfl, by simp [hlocal]⟩
    · exact ⟨_, _, _, rfl, by simp [hlocal]⟩
    · exact ⟨_, _, _, rfl, by simp [hlocal]⟩
  · rw [if_neg hlocal]
    exact ⟨_, _, _, rfl, fun _ => rfl⟩

theorem createFullFragment_copy {xmitBlocks : List BlockInfo} {maxLength offset : ℕ}
    {first last : Bool}
    (h : createFullFragment parse node b xmitBlocks maxLength offset first last = .ok f) :
    CopyOf b f ∧ f.bundle.isFragment = true ∧ f.data = b.data.forFragment parse node := by
  unfold createFullFragment at h
  obtain ⟨bundle, hbundle, h⟩ := of_bind_ok h
  obtain rfl := Except.ok.inj h
  have hrequest : (if b.bundle.bpVersion = 6 then requestBp6 b.bundle xmitBlocks maxLength
      else requestBp7 b.bundle xmitBlocks maxLength).bundle = b.bundle := by
    split_ifs <;> rfl
  unfold FragmentRequest.createFragment at hbundle
  obtain ⟨payload, -, hbundle⟩ := of_bind_ok hbundle
  obtain rfl := Except.ok.inj hbundle
  obtain ⟨custodian, localCustody, bibeCustody, hdata, -⟩ :=
    forFragment_eq parse node b.data
  refine ⟨⟨?_, ?_, ?_, rfl, custodian, localCustody, bibeCustody, hdata⟩, rfl, rfl⟩
  all_goals
    dsimp only
    rw [hrequest]
  · rfl
  · exact ⟨rfl, rfl⟩
  · rfl

/-- A fragment that is as good as the bundle, to be fragmented further and to rebuild it from. -/
structure AsGood (parse : List UInt8 → Option Uri) (node : LocalNode) (b f : FullBundle) : Prop where
  image : f.whole.image parse = b.whole.image parse
  isFragment : f.bundle.isFragment = true
  hashKey : f.bundle.hashKey = b.bundle.hashKey
  doNotFragment : f.bundle.doNotFragment = false
  keeps : KeepsPrimary parse node f

theorem KeepsPrimary.asGood {xmitBlocks : List BlockInfo} {maxLength offset : ℕ} {first last : Bool}
    (hb : KeepsPrimary parse node b) (hfrag : b.bundle.doNotFragment = false)
    (h : createFullFragment parse node b xmitBlocks maxLength offset first last = .ok f) :
    AsGood parse node b f := by
  obtain ⟨hcopy, hisFragment, hdata⟩ := createFullFragment_copy h
  obtain ⟨custodian, localCustody, bibeCustody, heq, hlocal⟩ :=
    forFragment_eq parse node b.data
  unfold KeepsPrimary at hb
  have h6 : b.bundle.bpVersion = 6 → f.data.custodian = b.data.custodian := by
    intro hversion
    rw [if_pos hversion] at hb
    rw [hdata]
    cases hc : b.data.localCustody with
    | false => exact forFragment_custodian b.data hc
    | true => rw [newCustodian_eq b.data hc, hb hc]
  refine ⟨hcopy.whole_image parse hfrag h6 fun h7 => by simpa [h7] using hb, hisFragment, hcopy.hashKey,
    hcopy.doNotFragment, ?_⟩
  unfold KeepsPrimary
  rw [hcopy.version]
  split_ifs with hversion
  · intro hf
    rw [if_pos hversion] at hb
    rw [h6 hversion]
    have hdest : f.data.dest = b.data.dest := by rw [hdata, heq]; rfl
    rw [hdest]
    apply hb
    by_contra hno
    rw [hdata, heq] at hf
    simp [hlocal (by simpa using hno)] at hf
  · rw [hdata, heq]
    rfl

theorem FragmentFrom.asGood (hb : KeepsPrimary parse node b) (hfrag : b.bundle.doNotFragment = false)
    (h : FragmentFrom parse node b f) : AsGood parse node b f := by
  induction h with
  | once made => exact hb.asGood hfrag made
  | again _ made ih =>
    have hg := ih.keeps.asGood ih.doNotFragment made
    exact ⟨hg.image.trans ih.image, hg.isFragment, hg.hashKey.trans ih.hashKey, hg.doNotFragment,
      hg.keeps⟩

end

/-! ## Rebuilding keeps the copy -/

section
variable {parse : List UInt8 → Option Uri} {node : LocalNode} {b : FullBundle}

/-- What is rebuilt under the key of the bundle says what the bundle says. -/
def Rebuilds (parse : List UInt8 → Option Uri) (b : FullBundle) (bundle : Bundle) (data : Metadata) :
    Prop :=
  bundle.isFragment = false ∧ FullBundle.image parse ⟨bundle, data⟩ = b.whole.image parse

/-- Every entry is under the key of its bundle, and those for the bundle rebuild it. -/
structure RebuildsIn (parse : List UInt8 → Option Uri) (b : FullBundle) (m : Rebuilder) : Prop where
  key : ∀ k e, m.fragmentTable.find? k = some e → e.state.bundle.hashKey = k
  table : ∀ e, m.fragmentTable.find? b.bundle.hashKey = some e → Rebuilds parse b e.state.bundle e.data
  posted : ∀ r ∈ m.posted, r.bundle.hashKey = b.bundle.hashKey → Rebuilds parse b r.bundle r.data

theorem take_bundle {s t : FragmentState} {f : Bundle} (h : s.take f = .ok t) :
    ∃ payload recvBlocks, t.bundle = { s.bundle with payload, recvBlocks } := by
  unfold FragmentState.take at h
  obtain ⟨payload, -, h⟩ := of_bind_ok h
  obtain rfl := Except.ok.inj h
  exact ⟨payload, _, rfl⟩

theorem Rebuilds.of_take {s t : FragmentState} {f : Bundle} {d : Metadata}
    (hs : Rebuilds parse b s.bundle d) (h : s.take f = .ok t) : Rebuilds parse b t.bundle d := by
  obtain ⟨payload, recvBlocks, ht⟩ := take_bundle h
  obtain ⟨hwhole, himage⟩ := hs
  rw [ht]
  exact ⟨hwhole, himage⟩

theorem hashKey_of_take {s t : FragmentState} {f : Bundle} (h : s.take f = .ok t) :
    t.bundle.hashKey = s.bundle.hashKey := by
  obtain ⟨payload, recvBlocks, ht⟩ := take_bundle h
  rw [ht]
  rfl

/-- The copy that a new entry starts with. -/
theorem AsGood.rebuilds {f : FullBundle} (hf : AsGood parse node b f) :
    Rebuilds parse b (newState f.bundle).bundle f.data.copy := by
  have hcopy : CopyOf f ⟨(newState f.bundle).bundle, f.data.copy⟩ :=
    ⟨rfl, ⟨rfl, rfl⟩, rfl, hf.doNotFragment, f.data.custodian, false, false, rfl⟩
  have himage := hcopy.whole_image parse hf.doNotFragment (fun _ => rfl) fun h7 => by
    have hkeeps := hf.keeps
    unfold KeepsPrimary at hkeeps
    simpa [h7] using hkeeps
  refine ⟨rfl, ?_⟩
  rw [FullBundle.whole_of_not_fragment rfl] at himage
  exact himage.trans hf.image

theorem RebuildsIn.process {m m' : Rebuilder} {f : FullBundle} (hm : RebuildsIn parse b m)
    (hf : f.bundle.hashKey = b.bundle.hashKey → AsGood parse node b f) (h : m.process f = .ok m') :
    RebuildsIn parse b m' := by
  unfold Rebuilder.process at h
  split_ifs at h
  obtain ⟨state, hstate, h⟩ := of_bind_ok h
  obtain ⟨completed, -, h⟩ := of_bind_ok h
  have hkey : state.bundle.hashKey = f.bundle.hashKey := by
    rw [hashKey_of_take hstate]
    unfold Rebuilder.entryFor
    cases he : m.fragmentTable.find? f.bundle.hashKey with
    | none => rfl
    | some e => exact hm.key _ e he
  have hentry : f.bundle.hashKey = b.bundle.hashKey →
      Rebuilds parse b state.bundle (m.entryFor f).data := by
    intro hsame
    apply Rebuilds.of_take _ hstate
    unfold Rebuilder.entryFor
    cases he : m.fragmentTable.find? f.bundle.hashKey with
    | none => exact (hf hsame).rebuilds
    | some e => exact hm.table e (hsame ▸ he)
  split_ifs at h
  · obtain rfl := Except.ok.inj h
    refine ⟨fun k e he => ?_, fun e he => ?_, fun r hr hsame => ?_⟩
    · rw [OrdMap.find?_erase] at he
      split_ifs at he
      exact hm.key k e he
    · rw [OrdMap.find?_erase] at he
      split_ifs at he
      exact hm.table e he
    · rcases List.mem_cons.mp hr with rfl | hr
      · exact hentry (hkey.symm.trans hsame)
      · exact hm.posted r hr hsame
  · obtain rfl := Except.ok.inj h
    refine ⟨fun k e he => ?_, fun e he => ?_, hm.posted⟩
    · rw [OrdMap.find?_insert] at he
      split_ifs at he with hk
      · obtain rfl := Option.some.inj he
        rw [hk]
        exact hkey
      · exact hm.key k e he
    · rw [OrdMap.find?_insert] at he
      split_ifs at he with hk
      · obtain rfl := Option.some.inj he
        exact hentry hk.symm
      · exact hm.table e he

theorem rebuildsIn_run {l : List FullBundle} {m : Rebuilder}
    (hl : ∀ f ∈ l, f.bundle.hashKey = b.bundle.hashKey → AsGood parse node b f)
    (h : run Rebuilder.process {} l = .ok m) : RebuildsIn parse b m := by
  apply run_ok_invariant (fun m _ => RebuildsIn parse b m) _ _ h
  · intro m past f m' hpast hm hstep
    have hmem : f ∈ l := hpast.subset (by simp)
    exact hm.process (hl f hmem) hstep
  · exact ⟨by simp, by simp, by simp⟩

end

/-! ## The primary block of fragments and of what is rebuilt from them -/

/-- Fragments have the primary block of the bundle but for the fragment, and a bundle that is rebuilt from
fragments has that of the whole, also among the fragments of other bundles. -/
def PrimaryKept (parse : List UInt8 → Option Uri) (node : LocalNode) (b : FullBundle) : Prop :=
  (∀ f, FragmentFrom parse node b f → (b.image parse).DiffersInFragment (f.image parse)) ∧
    ∀ l m, (∀ f ∈ l, f.bundle.hashKey = b.bundle.hashKey → FragmentFrom parse node b f) →
      run Rebuilder.process {} l = .ok m → ∀ r ∈ m.posted, r.bundle.hashKey = b.bundle.hashKey →
        r.image parse = b.whole.image parse

section
variable {parse : List UInt8 → Option Uri} {node : LocalNode} {b : FullBundle}

theorem testBit_flagBit (set : Bool) (i j : ℕ) :
    (flagBit set i).testBit j = (set && decide (i = j)) := testBit_bit set i j

theorem reqTime_of_flags (isFragment doNotFragment : Bool) (d : PrimaryData) :
    (formatBundleFlagsBp7 isFragment doNotFragment d).testBit 6 = d.reqTimeInStatusRpt := by
  simp [formatBundleFlagsBp7, Nat.testBit_or, testBit_flagBit]

theorem clampLength_start_le (r : FragmentRequest) {length : ℕ} (h : length < 2 ^ 64) :
    r.clampLength 0 length true ≤ r.bundle.payload.length := by
  have hrest : u64Sub r.bundle.payload.length 0 ≤ r.bundle.payload.length := by
    unfold u64Sub u64
    omega
  unfold FragmentRequest.clampLength
  rw [Nat.zero_add, u64_of_lt h]
  dsimp only
  split_ifs <;> omega

/-- The first fragment can always be made. -/
theorem createFragment_start (r : FragmentRequest) (last : Bool) :
    ∃ f, r.createFragment 0 true last = .ok f := by
  have hlength : (r.subtrahends 0 true last).foldl u64Sub r.maxLength < 2 ^ 64 := by
    unfold FragmentRequest.subtrahends
    rw [List.foldl_append, List.foldl_cons, List.foldl_nil]
    generalize List.foldl u64Sub r.maxLength _ = n
    unfold u64Sub
    exact u64_lt _
  have hle := clampLength_start_le r hlength
  have hinit (length : ℕ) (h : length ≤ r.bundle.payload.length) :
      FragmentRequest.initPayload r.bundle.payload 0 length =
        .ok (slice r.bundle.payload 0 length) := by
    have hwrap : u64 (0 + length) ≤ r.bundle.payload.length := by
      unfold u64
      omega
    rw [FragmentRequest.initPayload, if_pos hwrap, if_pos (by omega)]
  unfold FragmentRequest.createFragment
  dsimp only
  rw [hinit _ hle, ok_bind]
  exact ⟨_, rfl⟩

theorem exists_fragment (parse : List UInt8 → Option Uri) (node : LocalNode) (b : FullBundle) :
    ∃ f, createFullFragment parse node b [] 0 0 true true = .ok f := by
  obtain ⟨f, hf⟩ := createFragment_start
    (if b.bundle.bpVersion = 6 then requestBp6 b.bundle [] 0 else requestBp7 b.bundle [] 0) true
  unfold createFullFragment
  dsimp only
  rw [hf]
  exact ⟨_, rfl⟩

theorem PrimaryKept.keepsPrimary (h : PrimaryKept parse node b) : KeepsPrimary parse node b := by
  obtain ⟨f, hf⟩ := exists_fragment parse node b
  obtain ⟨hcopy, -, hdata⟩ := createFullFragment_copy hf
  have hsame := (h.1 f (.once hf)).same
  unfold KeepsPrimary
  unfold FullBundle.image at hsame
  split_ifs with hversion
  · intro hlocal
    rw [if_pos hversion, if_pos (hcopy.version.trans hversion)] at hsame
    simp only [PrimaryImage.mk.injEq, List.cons.injEq, and_true] at hsame
    obtain ⟨-, -, -, ⟨-, -, -, hcustodian⟩, -⟩ := hsame
    rw [← newCustodian_eq b.data hlocal, ← hdata]
    exact hcustodian
  · rw [if_neg hversion, if_neg (by rwa [hcopy.version])] at hsame
    simp only [PrimaryImage.mk.injEq] at hsame
    have hbit := congrArg (Nat.testBit · 6) hsame.2.1
    have hone : Nat.testBit 1 6 = false := rfl
    obtain ⟨custodian, localCustody, bibeCustody, heq⟩ := hcopy.data
    simpa [reqTime_of_flags, Nat.testBit_or, FullBundle.fields7, heq, Metadata.copy, hone] using
      hbit.symm

theorem KeepsPrimary.primaryKept (hb : KeepsPrimary parse node b)
    (hfrag : b.bundle.doNotFragment = false) : PrimaryKept parse node b := by
  constructor
  · intro f hf
    have hkeeps := hf.asGood hb hfrag
    exact FullBundle.differs_of_whole hkeeps.image hkeeps.isFragment
  · intro l m hl hrun r hr hkey
    have hin := rebuildsIn_run (fun f hf hsame => (hl f hf hsame).asGood hb hfrag) hrun
    exact (hin.posted r hr hkey).2

/-- A bundle that may be fragmented keeps its primary block if and only if version 7 does not ask for times
in reports and version 6 gets its custodian back. -/
theorem primary_kept_iff (hfrag : b.bundle.doNotFragment = false) :
    PrimaryKept parse node b ↔ KeepsPrimary parse node b :=
  ⟨PrimaryKept.keepsPrimary, fun hb => hb.primaryKept hfrag⟩

/-- A node with both ids gives them back where it took custody of the bundle. -/
theorem keepsPrimary_of_accepted (hversion : b.bundle.bpVersion = 6)
    (hnode : makeEidNull ≠ node.localEid ∧ makeEidNull ≠ node.localEidIpn)
    (haccepted : b.data.localCustody = true → b.data.custodian =
      if b.data.dest.scheme? parse = some .ipn then node.localEidIpn else node.localEid) :
    KeepsPrimary parse node b := by
  unfold KeepsPrimary LocalNode.newCustodian
  rw [if_pos hversion]
  intro hlocal
  rw [if_neg (by simp [hnode.1, hnode.2]), haccepted hlocal]

end

section Example

def nodeTwo : LocalNode where
  localEid := makeEidIpn 2 0
  localEidIpn := makeEidIpn 2 0

/-- A bundle of version 7 that may ask for times in reports. -/
def reportingBundle (reqTimeInStatusRpt : Bool) : FullBundle where
  bundle := { payload := [1, 2, 3, 4] }
  data := { source := makeEidIpn 1 1, dest := makeEidIpn 3 1, deliveryRcpt := true, reqTimeInStatusRpt }

theorem primary_kept_iff_plain : PrimaryKept splitUri nodeTwo (reportingBundle false) :=
  (primary_kept_iff rfl).mpr (by simp [KeepsPrimary, reportingBundle])

/-- The request for times is not in any fragment. -/
theorem request_for_times_lost : ¬ ∀ (parse : List UInt8 → Option Uri) (node : LocalNode)
    (b : FullBundle), b.bundle.doNotFragment = false → PrimaryKept parse node b := by
  intro h
  have hkeeps := (h splitUri nodeTwo (reportingBundle true) rfl).keepsPrimary
  simp [KeepsPrimary, reportingBundle] at hkeeps

end Example

end Dtnme.Bundling
