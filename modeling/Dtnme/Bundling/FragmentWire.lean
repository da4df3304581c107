import Dtnme.Bundling.Bp7Flags
import Dtnme.Bundling.Bp7Primary
import Dtnme.Bundling.ReassemblyBlocks

/-! # The length of a fragment on the wire

The room for the payload of a fragment is what is left of the length when the blocks of the link, an
estimate for two numbers of the primary block and twelve bytes are taken off. On the wire the primary
block has the offset and the total length, and the payload block has its header.
-/

namespace Dtnme.Bundling
open Library Naming Bp7 TinyCbor

/-! ## The primary block -/

/-- What the primary block says of a bundle besides its creation time and its place in a payload. -/
structure PrimaryData where
  isAdmin : Bool := false
  reqTimeInStatusRpt : Bool := false
  appAckedRcpt : Bool := false
  receiveRcpt : Bool := false
  forwardRcpt : Bool := false
  deliveryRcpt : Bool := false
  deletionRcpt : Bool := false
  crcType : ℕ := 0
  dest : Eid := makeEidNull
  source : Eid := makeEidNull
  replyto : Eid := makeEidNull
  expirationMillis : ℕ := 0
  deriving DecidableEq, Repr

/-- `copy_metadata`, which leaves out one of the flags. -/
def PrimaryData.copyMetadata (d : PrimaryData) : PrimaryData := { d with reqTimeInStatusRpt := false }

/-- A flag of the primary block. -/
def flagBit (set : Bool) (n : ℕ) : ℕ := if set then 1 <<< n else 0

/-- `format_bundle_flags`. -/
def formatBundleFlagsBp7 (isFragment doNotFragment : Bool) (d : PrimaryData) : ℕ :=
  flagBit isFragment 0 ||| flagBit d.isAdmin 1 ||| flagBit doNotFragment 2 |||
    flagBit d.reqTimeInStatusRpt 6 ||| flagBit d.appAckedRcpt 5 ||| flagBit d.receiveRcpt 14 |||
    flagBit d.forwardRcpt 16 ||| flagBit d.deliveryRcpt 17 ||| flagBit d.deletionRcpt 18

section
variable (parse : List UInt8 → Option Uri)

/-- `encode_eid_ipn` and `encode_eid_imc`. -/
def encodeEidNumbers (e : Eid) (schemeCode : ℕ) : Option (List UInt8) :=
  if e.valid parse then
    some (Cbor.head 4 2 ++ (Cbor.head 0 schemeCode ++
      (Cbor.head 4 2 ++ (Cbor.head 0 (e.nodeNum parse) ++ Cbor.head 0 (e.serviceNum parse)))))
  else none

/-- `encode_eid_dtn`. -/
def encodeEidDtn (e : Eid) : List UInt8 :=
  let ssp := ((parse e.key).map Uri.ssp).getD []
  Cbor.head 4 2 ++ (Cbor.head 0 schemaTypeDtn ++ (Cbor.head 3 ssp.length ++ ssp))

def encodeEid (e : Eid) : Option (List UInt8) :=
  if e.isNull parse then some (Cbor.head 4 2 ++ (Cbor.head 0 schemaTypeDtn ++ Cbor.head 0 0))
  else
    match e.scheme? parse with
    | some .ipn => encodeEidNumbers parse e schemaTypeIpn
    | some .imc => encodeEidNumbers parse e schemaTypeImc
    | some .dtn => some (encodeEidDtn parse e)
    | _ => none

def encodeEids (d : PrimaryData) : Option (List UInt8) := do
  let dest ← encodeEid parse d.dest
  let source ← encodeEid parse d.source
  let replyto ← encodeEid parse d.replyto
  some (dest ++ (source ++ replyto))

/-- `encode_bundle_timestamp`. -/
def encodeBundleTimestamp (b : Bundle) : List UInt8 :=
  Cbor.head 4 2 ++ (Cbor.head 0 b.secsOrMillisecs ++ Cbor.head 0 b.seqno)

def encodeFragmentFields (b : Bundle) : List UInt8 :=
  if b.isFragment then Cbor.head 0 b.fragOffset ++ Cbor.head 0 b.origLength else []

/-- The block without its CRC. -/
def primaryFront (b : Bundle) (d : PrimaryData) (eids : List UInt8) : List UInt8 :=
  let arraySize := 8 + (if b.isFragment then 2 else 0) + if 0 < d.crcType then 1 else 0
  Cbor.head 4 arraySize ++ (Cbor.head 0 b.bpVersion ++
    (Cbor.head 0 (formatBundleFlagsBp7 b.isFragment b.doNotFragment d) ++ (Cbor.head 0 d.crcType ++
      (eids ++ (encodeBundleTimestamp b ++ (Cbor.head 0 d.expirationMillis ++
        encodeFragmentFields b))))))

/-- `BP7_PrimaryBlockProcessor::encode_cbor`. -/
def encodePrimary (b : Bundle) (d : PrimaryData) : Option (List UInt8) := do
  let eids ← encodeEids parse d
  let front := primaryFront b d eids
  some (front ++ encodeCrc d.crcType front)

end

/-! ## The header of the payload block -/

/-- `encode_payload_len`. -/
def encodePayloadLen (payloadLen : ℕ) : List UInt8 :=
  if payloadLen < 24 then [UInt8.ofNat (0x40 + payloadLen)]
  else if payloadLen ≤ 2 ^ 8 - 1 then UInt8.ofNat (0x40 + 24) :: Cbor.bigEndian 1 payloadLen
  else if payloadLen ≤ 2 ^ 16 - 1 then UInt8.ofNat (0x40 + 25) :: Cbor.bigEndian 2 payloadLen
  else if payloadLen ≤ 2 ^ 32 - 1 then UInt8.ofNat (0x40 + 26) :: Cbor.bigEndian 4 payloadLen
  else UInt8.ofNat (0x40 + 27) :: Cbor.bigEndian 8 payloadLen

/-- `generate` of the payload block: the number is 1 and there is no CRC. -/
def generatePayloadHeader (x : XmitBlock) (payloadLen : ℕ) : List UInt8 :=
  let blockFlags := if x.source = none then 0 else x.blockFlags
  Cbor.head 4 5 ++ (Cbor.head 0 Bp7.Processor.payload.blockType ++ (Cbor.head 0 1 ++
    (Cbor.head 0 blockFlags ++ (Cbor.head 0 0 ++ encodePayloadLen payloadLen))))

/-- A fragment as it is sent, with its extension blocks. -/
def fragmentWire (primary : List UInt8) (ext : List (List UInt8)) (x : XmitBlock)
    (payload : List UInt8) : List UInt8 :=
  0x9f :: (primary ++ (ext.flatten ++ (generatePayloadHeader x payload.length ++
    (payload ++ [0xff]))))

/-- The blocks between the primary block and the payload block. -/
def extensionBlocks (blocks : List BlockInfo) : List BlockInfo :=
  blocks.filter fun b => b.type ≠ .primary ∧ b.type ≠ .payload

/-- The primary block of the list is generated from the bundle. -/
def GeneratedFor (parse : List UInt8 → Option Uri) (bundle : Bundle) (d : PrimaryData)
    (xmitBlocks : List BlockInfo) : Prop :=
  ∃ p rest, xmitBlocks = p :: rest ∧ p.type = .primary ∧
    encodePrimary parse bundle d = some p.contents ∧ ∀ b ∈ rest, b.type ≠ .primary

/-! ## Lengths -/

theorem encodePayloadLen_eq (payloadLen : ℕ) : encodePayloadLen payloadLen = Cbor.head 2 payloadLen := by
  unfold encodePayloadLen Cbor.head Cbor.information Cbor.follows
  split_ifs <;> first | omega | rfl

theorem follows_mono {a b : ℕ} (h : a ≤ b) : Cbor.follows a ≤ Cbor.follows b := by
  unfold Cbor.follows
  split_ifs <;> omega

/-- Cleared flags and the flag of a fragment do not make the number of the flags longer. -/
theorem follows_formatBundleFlagsBp7 (isFragment doNotFragment : Bool) (d : PrimaryData) :
    Cbor.follows (formatBundleFlagsBp7 true false d.copyMetadata) ≤
      Cbor.follows (formatBundleFlagsBp7 isFragment doNotFragment d) := by
  have hall : ∀ frag noFrag admin req ack receive forward delivery deletion,
      Cbor.follows (formatBundleFlagsBp7 true false ⟨admin, false, ack, receive, forward, delivery,
        deletion, 0, ⟨[]⟩, ⟨[]⟩, ⟨[]⟩, 0⟩) ≤
      Cbor.follows (formatBundleFlagsBp7 frag noFrag ⟨admin, req, ack, receive, forward, delivery,
        deletion, 0, ⟨[]⟩, ⟨[]⟩, ⟨[]⟩, 0⟩) := by decide +kernel
  exact hall isFragment doNotFragment d.isAdmin d.reqTimeInStatusRpt d.appAckedRcpt d.receiveRcpt
    d.forwardRcpt d.deliveryRcpt d.deletionRcpt

theorem length_encodeCrc (crcType : ℕ) (block block' : List UInt8) :
    (encodeCrc crcType block).length = (encodeCrc crcType block').length := by
  unfold encodeCrc
  split_ifs
  · rfl
  · simp only [List.length_append, Cbor.length_bigEndian]

/-- The bytes of the two numbers of a fragment. -/
def fragmentFieldsLen (b : Bundle) : ℕ := (encodeFragmentFields b).length

theorem length_primaryFront (b : Bundle) (d : PrimaryData) (eids : List UInt8) :
    (primaryFront b d eids).length = 4 + Cbor.follows b.bpVersion +
      Cbor.follows (formatBundleFlagsBp7 b.isFragment b.doNotFragment d) + Cbor.follows d.crcType +
        eids.length + (encodeBundleTimestamp b).length + (Cbor.follows d.expirationMillis + 1) +
          fragmentFieldsLen b := by
  have harray : Cbor.follows (8 + (if b.isFragment then 2 else 0) +
      if 0 < d.crcType then 1 else 0) = 0 := by
    split_ifs <;> rfl
  simp only [primaryFront, List.length_append, Cbor.length_head, harray, fragmentFieldsLen]
  omega

/-- The primary block of a fragment grows by its two numbers at most. -/
theorem encodePrimary_fragment {parse : List UInt8 → Option Uri} {b f : Bundle} {d : PrimaryData}
    {primary : List UInt8} (h : encodePrimary parse b d = some primary)
    (hversion : f.bpVersion = b.bpVersion) (hsecs : f.secsOrMillisecs = b.secsOrMillisecs)
    (hseqno : f.seqno = b.seqno) (hfragment : f.isFragment = true)
    (hallowed : f.doNotFragment = false) :
    ∃ primary', encodePrimary parse f d.copyMetadata = some primary' ∧
      primary'.length + fragmentFieldsLen b ≤ primary.length + fragmentFieldsLen f := by
  rw [encodePrimary, Option.bind_eq_bind, Option.bind_eq_some_iff] at h
  obtain ⟨eids, heids, hbytes⟩ := h
  cases hbytes
  have heids' : encodeEids parse d.copyMetadata = some eids := heids
  refine ⟨_, by rw [encodePrimary, heids']; rfl, ?_⟩
  have hcrc := length_encodeCrc d.crcType (primaryFront f d.copyMetadata eids)
    (primaryFront b d eids)
  have hflags := follows_formatBundleFlagsBp7 b.isFragment b.doNotFragment d
  have htimestamp : encodeBundleTimestamp f = encodeBundleTimestamp b := by
    rw [encodeBundleTimestamp, encodeBundleTimestamp, hsecs, hseqno]
  have hcrcType : d.copyMetadata.crcType = d.crcType := rfl
  have hexpiration : d.copyMetadata.expirationMillis = d.expirationMillis := rfl
  rw [List.length_append, List.length_append, length_primaryFront, length_primaryFront, hfragment,
    hallowed, hversion, htimestamp, hcrcType, hexpiration, hcrc]
  omega

/-- Ten bytes are enough for the header of a payload below four gigabytes. -/
theorem length_generatePayloadHeader {x : XmitBlock} (hx : x.blockFlags = 0) {payloadLen : ℕ}
    (hlen : payloadLen < 2 ^ 32) : (generatePayloadHeader x payloadLen).length ≤ 10 := by
  have hflags : (if x.source = none then 0 else x.blockFlags) = 0 := by
    rw [hx, ite_self]
  have hfollows : Cbor.follows payloadLen ≤ 4 := follows_mono (Nat.le_sub_one_of_lt hlen)
  simp only [generatePayloadHeader, hflags, encodePayloadLen_eq, List.length_append, Cbor.length_head]
  have h₀ : Cbor.follows 0 = 0 := rfl
  have h₁ : Cbor.follows 1 = 0 := rfl
  have h₅ : Cbor.follows 5 = 0 := rfl
  have htype : Cbor.follows Bp7.Processor.payload.blockType = 0 := rfl
  omega

/-! ## The budget of a fragment -/

namespace FragmentRequest
variable {r : FragmentRequest}

/-- Where each iteration leaves room for a byte, every fragment of the loop is that of an iteration. -/
theorem fragmentLoop_cuts (hz : r.Sized) (hroom : ∀ s, r.OnTrack s →
    r.reserved s.offset s.first (r.lastAt s) < r.maxLength) {fuel : ℕ} {s : CutState} {cuts : List Cut}
    (ht : r.OnTrack s) (h : r.fragmentLoop fuel s = .ok cuts) :
    ∀ c ∈ cuts, ∃ s', r.OnTrack s' ∧ c = r.cutAt s' := by
  induction fuel generalizing s cuts with
  | zero => cases h
  | succ fuel ih =>
    have hle := (hroom s ht).le
    have hover : s.offset + (r.maxLength - r.reserved s.offset s.first (r.lastAt s)) < 2 ^ 64 := by
      by_contra hover
      obtain ⟨f, hcreate, -⟩ := fragmentLoop_head h
      rw [createFragment_wraps hz ht hle (Nat.not_lt.mp hover)] at hcreate
      cases hcreate
    unfold fragmentLoop at h
    simp only [cutStep_eq hz ht hle hover, bind, Except.bind] at h
    split_ifs at h with hdone
    · cases h
      simpa using ⟨s, ht, rfl⟩
    · cases hrest : r.fragmentLoop fuel (r.next s) with
      | error e =>
        rw [hrest] at h
        cases h
      | ok rest =>
        rw [hrest] at h
        cases h
        intro c hc
        rcases List.mem_cons.mp hc with rfl | hc
        · exact ⟨s, ht, rfl⟩
        · exact ih (ht.next hdone) hrest c hc

/-- A fragment has no more payload than there is room for. -/
theorem cutLen_add_reserved_le {s : CutState} (ht : r.OnTrack s)
    (hroom : r.reserved s.offset s.first (r.lastAt s) < r.maxLength) :
    r.cutLen s + r.reserved s.offset s.first (r.lastAt s) ≤ r.maxLength := by
  have hsum := ht.sum_eq
  have hpos := ht.todo_pos
  unfold cutLen
  dsimp only
  split_ifs <;> omega

end FragmentRequest

/-- The lengths that are taken off are those of the primary block and of the extension blocks. -/
theorem sum_blockLens_selected {p : BlockInfo} {rest : List BlockInfo} (hp : p.type = .primary)
    (hrest : ∀ b ∈ rest, b.type ≠ .primary) (first last : Bool) :
    (blockLens (selectBlocks first last false (p :: rest))).sum = p.contents.length +
      ((extensionBlocks (selectBlocks first last false (p :: rest))).map
        (fun b => b.contents.length)).sum := by
  have hselected : selectBlocks first last false (p :: rest) =
      p :: selectBlocks first last false rest := by
    rw [selectBlocks, if_pos (by simp [inFragment, hp]), hp]
    rfl
  have hnone : ∀ b ∈ selectBlocks first last false rest, b.type ≠ .primary := fun b hb =>
    hrest b ((selectBlocks_sublist first last false rest).subset hb)
  have hsame : extensionBlocks (selectBlocks first last false rest) =
      (selectBlocks first last false rest).filter (fun b => b.type ≠ .payload) := by
    apply List.filter_congr
    intro b hb
    simp [hnone b hb]
  have hp' : p.type ≠ .payload := by simp [hp]
  have hcons : extensionBlocks (p :: selectBlocks first last false rest) =
      extensionBlocks (selectBlocks first last false rest) := by
    rw [extensionBlocks, List.filter_cons_of_neg (by simp [hp])]
    rfl
  rw [hselected, hcons, hsame, blockLens, List.filter_cons_of_pos (by simpa using hp'), List.map_cons,
    List.sum_cons]

/-- What is taken off for the two numbers is enough for how they grow. -/
theorem fragmentFieldsLen_le {bundle f : Bundle} {offset : ℕ}
    (hsize : bundle.payload.length < 2 ^ 64) (hoffset : offset ≤ bundle.payload.length)
    (hplace : bundle.isFragment = true →
      bundle.fragOffset + bundle.payload.length ≤ bundle.origLength ∧ bundle.origLength < 2 ^ 64)
    (hfragment : f.isFragment = true) (hlength : f.origLength = bundle.wholeLength)
    (hfrag : f.fragOffset = u64 (bundle.ownOffset + offset)) :
    fragmentFieldsLen f ≤ fragmentFieldsLen bundle + fieldsBp7 bundle := by
  unfold fragmentFieldsLen encodeFragmentFields fieldsBp7
  rw [if_pos hfragment, hlength, hfrag, Bundle.wholeLength, Bundle.ownOffset, uint64EncodingLen_eq,
    uint64EncodingLen_eq]
  cases hb : bundle.isFragment with
  | false =>
    have hmono := follows_mono hoffset
    simp only [Bool.false_eq_true, if_false, zero_add, List.length_append, Cbor.length_head,
      List.length_nil, u64_of_lt (lt_of_le_of_lt hoffset hsize)]
    omega
  | true =>
    obtain ⟨hle, horig⟩ := hplace hb
    have hmono := follows_mono (show bundle.fragOffset + offset ≤ bundle.origLength by omega)
    simp only [if_true, List.length_append, Cbor.length_head,
      u64_of_lt (show bundle.fragOffset + offset < 2 ^ 64 by omega)]
    omega

/-- Every fragment of a bundle whose own place is inside the total length fits the link, with
extension blocks as long as in the list and a payload block that was prepared for any link. -/
theorem proactivelyFragmentBp7_fits {parse : List UInt8 → Option Uri} {m m' : FragmentManager}
    {bundle : Bundle} {d : PrimaryData} {xmitBlocks : List BlockInfo} {maxLength fuel : ℕ}
    {cuts : List Cut} (hsize : bundle.payload.length < 2 ^ 64) (hmax : maxLength < 2 ^ 32)
    (hplace : bundle.isFragment = true →
      bundle.fragOffset + bundle.payload.length ≤ bundle.origLength ∧ bundle.origLength < 2 ^ 64)
    (hxmit : GeneratedFor parse bundle d xmitBlocks)
    (h : proactivelyFragmentBp7 m bundle xmitBlocks maxLength fuel = .ok (some cuts, m')) :
    ∀ c ∈ cuts, ∃ primary, encodePrimary parse c.fragment d.copyMetadata = some primary ∧
      ∀ ext : List (List UInt8), ext.map List.length =
          (extensionBlocks (selectBlocks c.first c.last false xmitBlocks)).map
            (fun b => b.contents.length) →
        ∀ out xmit x, prepareBlocks out = .ok (some xmit) → x ∈ xmit →
          (fragmentWire primary ext x c.fragment.payload).length ≤ maxLength := by
  unfold proactivelyFragmentBp7 at h
  split_ifs at h with hshort hbig
  · cases h
  · cases h
  push Not at hbig
  obtain ⟨l, hl, hloop⟩ := FragmentManager.fragment_some h
  cases hl
  have hz : (requestBp7 bundle xmitBlocks maxLength).Sized :=
    ⟨hsize, lt_trans hmax (by norm_num)⟩
  have hroom : ∀ s, (requestBp7 bundle xmitBlocks maxLength).OnTrack s →
      (requestBp7 bundle xmitBlocks maxLength).reserved s.offset s.first
        ((requestBp7 bundle xmitBlocks maxLength).lastAt s) < maxLength :=
    fun s ht => requestBp7_reserved hbig.1 hbig.2 ht
  have hstart : (requestBp7 bundle xmitBlocks maxLength).OnTrack
      (requestBp7 bundle xmitBlocks maxLength).start :=
    FragmentRequest.start_onTrack (by change 0 < bundle.payload.length; omega)
  intro c hc
  obtain ⟨s, ht, rfl⟩ := FragmentRequest.fragmentLoop_cuts hz hroom hstart hloop c hc
  obtain ⟨p, rest, rfl, hp, hprimary, hrest⟩ := hxmit
  obtain ⟨primary, hencoded, hgrowth⟩ := encodePrimary_fragment (f :=
    (requestBp7 bundle (p :: rest) maxLength).fragmentAt s) hprimary rfl rfl rfl rfl rfl
  have hsum : s.offset + s.todo = bundle.payload.length := ht.sum_eq
  have hfields := fragmentFieldsLen_le hsize (show s.offset ≤ bundle.payload.length by omega) hplace
    (show ((requestBp7 bundle (p :: rest) maxLength).fragmentAt s).isFragment = true from rfl) rfl rfl
  refine ⟨primary, hencoded, fun ext hext out xmit x hout hx => ?_⟩
  have hbudget := FragmentRequest.cutLen_add_reserved_le ht (hroom s ht)
  have hreserved := (requestBp7 bundle (p :: rest) maxLength).reserved_eq s.offset s.first
    ((requestBp7 bundle (p :: rest) maxLength).lastAt s)
  have hblocks := sum_blockLens_selected hp hrest s.first
    ((requestBp7 bundle (p :: rest) maxLength).lastAt s)
  have hlen := FragmentRequest.length_fragmentAt ht
  change _ + _ ≤ maxLength at hbudget
  have hshortLen : ((requestBp7 bundle (p :: rest) maxLength).fragmentAt s).payload.length <
      2 ^ 32 := by
    rw [hlen]
    omega
  have hheader := length_generatePayloadHeader (prepareBlocks_fresh hout x hx).flags hshortLen
  change _ = (blockLens (selectBlocks s.first _ false (p :: rest))).sum + (fieldsBp7 bundle + 0) + 12
    at hreserved
  have hextLen : ext.flatten.length = ((extensionBlocks (selectBlocks s.first
      ((requestBp7 bundle (p :: rest) maxLength).lastAt s) false (p :: rest))).map
        (fun b => b.contents.length)).sum := by
    rw [List.length_flatten]
    exact congrArg List.sum hext
  change (fragmentWire primary ext x
    ((requestBp7 bundle (p :: rest) maxLength).fragmentAt s).payload).length ≤ maxLength
  simp only [fragmentWire, List.length_cons, List.length_append, List.length_nil]
  omega

/-- The list of a link for a bundle without extension blocks. -/
def bareBlocks (primary : List UInt8) : List BlockInfo :=
  [{ type := .primary, contents := primary }, { type := .payload }]

theorem generatedFor_bareBlocks {bundle : Bundle} {primary : List UInt8}
    (h : encodePrimary splitUri bundle {} = some primary) :
    GeneratedFor splitUri bundle {} (bareBlocks primary) :=
  ⟨_, _, rfl, rfl, h, by simp⟩

def widePrimary : List UInt8 := [136, 7, 0, 0, 130, 1, 0, 130, 1, 0, 130, 1, 0, 130, 0, 0, 0]

theorem proactivelyFragmentBp7_fits_halves :
    ∃ cuts m', proactivelyFragmentBp7 {} wideBundle (bareBlocks widePrimary) 150 3 =
        .ok (some cuts, m') ∧
      ∀ c ∈ cuts, ∃ primary, encodePrimary splitUri c.fragment {} = some primary ∧
        ∀ out xmit x, prepareBlocks out = .ok (some xmit) → x ∈ xmit →
          (fragmentWire primary [] x c.fragment.payload).length ≤ 150 := by
  have hsome : ((proactivelyFragmentBp7 {} wideBundle (bareBlocks widePrimary) 150 3).toOption.bind
      Prod.fst).isSome = true := by decide +kernel
  obtain ⟨cuts, hcuts⟩ := Option.isSome_iff_exists.mp hsome
  rw [Option.bind_eq_some_iff] at hcuts
  obtain ⟨⟨_, m'⟩, hrun, hcuts⟩ := hcuts
  cases hcuts
  have h : proactivelyFragmentBp7 {} wideBundle (bareBlocks widePrimary) 150 3 =
      .ok (some cuts, m') := by
    cases hexcept : proactivelyFragmentBp7 {} wideBundle (bareBlocks widePrimary) 150 3 with
    | error e =>
      rw [hexcept] at hrun
      cases hrun
    | ok r =>
      rw [hexcept] at hrun
      cases hrun
      rfl
  refine ⟨cuts, m', h, fun c hc => ?_⟩
  obtain ⟨primary, hprimary, hfits⟩ := proactivelyFragmentBp7_fits (by decide +kernel) (by norm_num)
    (fun hfragment => absurd hfragment (by decide)) (generatedFor_bareBlocks (by decide +kernel)) h c hc
  refine ⟨primary, hprimary, hfits [] ?_⟩
  have hnone : ∀ first last : Bool,
      extensionBlocks (selectBlocks first last false (bareBlocks widePrimary)) = [] := by decide +kernel
  rw [hnone]
  rfl

/-- A fragment far behind the end of the payload that it says it belongs to. -/
def strayBundle : Bundle :=
  { isFragment := true, fragOffset := 2 ^ 32 - 1, origLength := 5, payload := List.replicate 600 0 }

def strayPrimary : List UInt8 :=
  [138, 7, 1, 0, 130, 1, 0, 130, 1, 0, 130, 1, 0, 130, 0, 0, 0, 26, 255, 255, 255, 255, 5]

/-- Its offset grows by four bytes where one was reserved. -/
theorem proactivelyFragmentBp7_exceeds :
    GeneratedFor splitUri strayBundle {} (bareBlocks strayPrimary) ∧
    ((proactivelyFragmentBp7
          { fragmentTable := OrdMap.empty.insert strayBundle.hashKey { bundle := strayBundle } }
          strayBundle (bareBlocks strayPrimary) 292 3).toOption.bind Prod.fst).map
        (List.map fun c => (encodePrimary splitUri c.fragment {}).map fun primary =>
          (fragmentWire primary [] { owner := .payload, source := none } c.fragment.payload).length) =
      some [some 289, some 293, some 124] :=
  ⟨generatedFor_bareBlocks (by decide +kernel), by decide +kernel⟩

end Dtnme.Bundling
