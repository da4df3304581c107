import Dtnme.Bundling.Bp6Block

/-! # The primary block of version 6

The four endpoint ids of a bundle are written as pairs of numbers if all of them have numbers or are
the null endpoint, and otherwise as offsets into the dictionary, which then follows. A dictionary
without bytes tells a reader that the pairs are numbers.
-/

namespace Dtnme.Bundling
open Library Naming

inductive Priority
  | bulk
  | normal
  | expedited
  | reserved
  deriving DecidableEq, Repr

def Priority.code : Priority → ℕ
  | .bulk => 0
  | .normal => 1
  | .expedited => 2
  | .reserved => 3

def Priority.ofCode (n : ℕ) : Priority :=
  if n = 0 then .bulk else if n = 1 then .normal else if n = 2 then .expedited else .reserved

/-- What the primary block says of a bundle, as `Bundle::init` leaves it. -/
structure PrimaryFields where
  isFragment : Bool := false
  isAdmin : Bool := false
  doNotFragment : Bool := false
  custodyRequested : Bool := false
  singletonDestFlag : Bool := true
  appAckedRcpt : Bool := false
  priority : Priority := .normal
  receiveRcpt : Bool := false
  custodyRcpt : Bool := false
  forwardRcpt : Bool := false
  deliveryRcpt : Bool := false
  deletionRcpt : Bool := false
  dest : Eid := makeEidNull
  source : Eid := makeEidNull
  replyto : Eid := makeEidNull
  custodian : Eid := makeEidNull
  creationSecs : UInt64 := 0
  seqno : UInt64 := 0
  expirationMillis : UInt64 := 0
  fragOffset : UInt64 := 0
  origLength : UInt64 := 0
  deriving DecidableEq, Repr

def PrimaryFields.expirationSecs (b : PrimaryFields) : UInt64 := b.expirationMillis / 1000

/-! ## Flags -/

def bit (b : Bool) (i : ℕ) : ℕ := if b then 1 <<< i else 0

section
variable (parse : List UInt8 → Option Uri)

def formatBundleFlags (b : PrimaryFields) : ℕ :=
  bit b.isFragment 0 ||| bit b.isAdmin 1 ||| bit b.doNotFragment 2 ||| bit b.custodyRequested 3 |||
    bit (b.dest.isSingleton parse) 4 ||| bit b.appAckedRcpt 5

def formatCosFlags (b : PrimaryFields) : ℕ := (b.priority.code &&& 3) <<< 7

def formatSrrFlags (b : PrimaryFields) : ℕ :=
  bit b.receiveRcpt 14 ||| bit b.custodyRcpt 15 ||| bit b.forwardRcpt 16 ||| bit b.deliveryRcpt 17 |||
    bit b.deletionRcpt 18

def processingFlags (b : PrimaryFields) : ℕ :=
  formatBundleFlags parse b ||| formatCosFlags b ||| formatSrrFlags b

end

def parseBundleFlags (b : PrimaryFields) (flags : ℕ) : PrimaryFields :=
  { b with
    isFragment := flags.testBit 0
    isAdmin := flags.testBit 1
    doNotFragment := flags.testBit 2
    custodyRequested := flags.testBit 3
    singletonDestFlag := flags.testBit 4
    appAckedRcpt := flags.testBit 5 }

def parseCosFlags (b : PrimaryFields) (flags : ℕ) : PrimaryFields :=
  { b with priority := Priority.ofCode ((flags >>> 7) &&& 3) }

/-- Reports are asked for, never taken back. -/
def parseSrrFlags (b : PrimaryFields) (flags : ℕ) : PrimaryFields :=
  { b with
    receiveRcpt := b.receiveRcpt || flags.testBit 14
    custodyRcpt := b.custodyRcpt || flags.testBit 15
    forwardRcpt := b.forwardRcpt || flags.testBit 16
    deliveryRcpt := b.deliveryRcpt || flags.testBit 17
    deletionRcpt := b.deletionRcpt || flags.testBit 18 }

def parseFlags (b : PrimaryFields) (flags : ℕ) : PrimaryFields :=
  parseSrrFlags (parseCosFlags (parseBundleFlags b flags) flags) flags

/-! ## Writing -/

structure PrimaryBlock where
  processingFlags : ℕ
  blockLength : ℕ
  dest : ℕ × ℕ
  source : ℕ × ℕ
  replyto : ℕ × ℕ
  custodian : ℕ × ℕ
  creationTime : ℕ
  creationSequence : ℕ
  lifetime : ℕ
  dictionaryLength : ℕ
  deriving DecidableEq, Repr

/-- The values between the length and the dictionary. -/
def PrimaryBlock.values (p : PrimaryBlock) : List ℕ :=
  [p.dest.1, p.dest.2, p.source.1, p.source.2, p.replyto.1, p.replyto.2, p.custodian.1, p.custodian.2,
    p.creationTime, p.creationSequence, p.lifetime, p.dictionaryLength]

def PrimaryFields.fragValues (b : PrimaryFields) : List ℕ :=
  if b.isFragment then [b.fragOffset.toNat, b.origLength.toNat] else []

def encodingLens (vals : List ℕ) : ℕ := (vals.map encodingLen).sum

section
variable (parse : List UInt8 → Option Uri)

def allCbheCompat (b : PrimaryFields) : Bool :=
  b.custodian.isCbheCompat parse && b.dest.isCbheCompat parse && b.source.isCbheCompat parse &&
    b.replyto.isCbheCompat parse

/-- The dictionary that `prepare` starts. -/
def prepare (b : PrimaryFields) : Except Fault (List UInt8) :=
  if allCbheCompat parse b then .ok []
  else do
    let dict ← Dictionary.addEid parse [] b.dest
    let dict ← Dictionary.addEid parse dict b.source
    let dict ← Dictionary.addEid parse dict b.replyto
    Dictionary.addEid parse dict b.custodian

def eidPair (e : Eid) : ℕ × ℕ := (e.nodeNum parse, e.serviceNum parse)

/-- The pairs of the four ids, and the length of the dictionary. -/
def eidOffsets (b : PrimaryFields) (dict : List UInt8) : Except Fault PrimaryBlock :=
  let primary : PrimaryBlock :=
    { processingFlags := processingFlags parse b
      blockLength := 0
      dest := eidPair parse b.dest
      source := eidPair parse b.source
      replyto := eidPair parse b.replyto
      custodian := eidPair parse b.custodian
      creationTime := b.creationSecs.toNat
      creationSequence := b.seqno.toNat
      lifetime := b.expirationSecs.toNat
      dictionaryLength := 0 }
  if allCbheCompat parse b then .ok primary
  else do
    let dest ← Dictionary.getOffsets parse dict b.dest
    let source ← Dictionary.getOffsets parse dict b.source
    let replyto ← Dictionary.getOffsets parse dict b.replyto
    let custodian ← Dictionary.getOffsets parse dict b.custodian
    pure { primary with
      dest := dest
      source := source
      replyto := replyto
      custodian := custodian
      dictionaryLength := dict.length }

def getPrimaryLen (b : PrimaryFields) (dict : List UInt8) : Except Fault (ℕ × PrimaryBlock) := do
  let primary ← eidOffsets parse b dict
  let blockLength := encodingLens primary.values + primary.dictionaryLength + encodingLens b.fragValues
  let primaryLen := 1 + encodingLen primary.processingFlags + encodingLen blockLength + blockLength
  pure (primaryLen, { primary with blockLength := blockLength })

/-- `PBP_WRITE_SDNV` on the bytes written and the room left. -/
def writeSdnv (w : List UInt8 × ℕ) (val : ℕ) : Except Fault (List UInt8 × ℕ) :=
  match encode val w.2 with
  | some bytes => .ok (w.1 ++ bytes, w.2 - bytes.length)
  | none => .error .assertFailed

def writeSdnvs : List ℕ → List UInt8 × ℕ → Except Fault (List UInt8 × ℕ)
  | [], w => .ok w
  | val :: vals, w => do
    let w ← writeSdnv w val
    writeSdnvs vals w

def writeDict (primary : PrimaryBlock) (dict : List UInt8) (w : List UInt8 × ℕ) :
    Except Fault (List UInt8 × ℕ) :=
  if 0 < primary.dictionaryLength then
    if dict.length ≤ w.2 then .ok (w.1 ++ dict, w.2 - dict.length) else .error .undefined
  else .ok w

/-- The contents of the block. -/
def generatePrimary (memory : ℕ) (b : PrimaryFields) (dict : List UInt8) :
    Except Fault (List UInt8) := do
  let (primaryLen, primary) ← getPrimaryLen parse b dict
  let _ ← ({ owner := .primary } : RecvBlock).reserve memory primaryLen
  let w ← writeSdnvs [primary.processingFlags, primary.blockLength] ([6], primaryLen - 1)
  let w ← writeSdnvs primary.values w
  let w ← writeDict primary dict w
  let w ← writeSdnvs b.fragValues w
  require (w.2 = 0)
  pure w.1

end

/-! ## Reading -/

/-- `PBP_READ_SDNV` some times. -/
def readSdnvs : ℕ → List UInt8 → Option (List ℕ × List UInt8)
  | 0, l => some ([], l)
  | n + 1, l =>
    (readSdnv l).bind fun (v, k) => (readSdnvs n (l.drop k)).map fun (vs, l) => (v :: vs, l)

/-- The ids by the dictionary, which is kept. -/
def extractEids (b : PrimaryFields) (dict : List UInt8) (dest source replyto custodian : ℕ × ℕ) :
    PrimaryFields :=
  { b with
    source := Dictionary.extractEid dict source.1 source.2
    dest := Dictionary.extractEid dict dest.1 dest.2
    replyto := Dictionary.extractEid dict replyto.1 replyto.2
    custodian := Dictionary.extractEid dict custodian.1 custodian.2 }

def makeEids (b : PrimaryFields) (dest source replyto custodian : ℕ × ℕ) : PrimaryFields :=
  { b with
    dest := if b.singletonDestFlag then makeEidIpn dest.1 dest.2 else makeEidImc dest.1 dest.2
    source := makeEidIpn source.1 source.2
    replyto := makeEidIpn replyto.1 replyto.2
    custodian := makeEidIpn custodian.1 custodian.2 }

def parseFragment (b : PrimaryFields) (buf : List UInt8) : Option PrimaryFields :=
  if b.isFragment then
    match readSdnvs 2 buf with
    | some ([fragOffset, origLength], _) =>
      some { b with fragOffset := UInt64.ofNat fragOffset, origLength := UInt64.ofNat origLength }
    | _ => none
  else some b

/-- The part behind the length; none for a protocol error. The bundle and its dictionary. -/
def parseBody (recvDict : List UInt8) (b : PrimaryFields) (buf : List UInt8) :
    Except Fault (Option (PrimaryFields × List UInt8)) :=
  match readSdnvs 12 buf with
  | some ([ds, dp, ss, sp, rs, rp, cs, cp, time, sequence, lifetime, dictLen], buf) =>
    let b := { b with
      creationSecs := UInt64.ofNat time
      seqno := UInt64.ofNat sequence
      expirationMillis := UInt64.ofNat lifetime * 1000 }
    if buf.length < dictLen then .ok none
    else if dictLen ≠ 0 then
      if (buf.take dictLen).getLast? ≠ some 0 then .ok none
      else do
        -- `set_dict` expects that there was no dictionary
        require (recvDict = [])
        let dict := buf.take dictLen
        let b := extractEids b dict (ds, dp) (ss, sp) (rs, rp) (cs, cp)
        pure ((parseFragment b (buf.drop dictLen)).map fun b => (b, dict))
    else
      let b := makeEids b (ds, dp) (ss, sp) (rs, rp) (cs, cp)
      .ok ((parseFragment b buf).map fun b => (b, recvDict))
  | _ => .ok none

def parsePrimary (recvDict : List UInt8) (b : PrimaryFields) (block : RecvBlock) :
    Except Fault (Option (PrimaryFields × List UInt8)) :=
  match block.contents with
  | [] => .error .undefined
  | version :: buf =>
    if version ≠ 6 then .ok none
    else
      match readSdnvs 2 buf with
      | some ([flags, _], buf) => do
        require (buf.length = block.dataLength)
        parseBody recvDict (parseFlags b flags) buf
      | _ => .ok none

/-- `BP6_PrimaryBlockProcessor::consume`: the bytes used, none for a protocol error, the block, the
bundle and its dictionary. -/
def consumePrimary (memory : ℕ) (dict : List UInt8) (b : PrimaryFields) (block : RecvBlock)
    (data : List UInt8) : Except Fault (Option ℕ × RecvBlock × PrimaryFields × List UInt8) := do
  require (block.complete = false)
  let (cc, block) ← consumeBlock memory dict block data
  match cc with
  | none => pure (none, block, b, dict)
  | some cc =>
    if block.complete = false then do
      require ((cc : ℤ) = i32 data.length)
      pure (some cc, block, b, dict)
    else do
      require (block.fullLength = block.contents.length)
      let r ← parsePrimary dict b block
      match r with
      | none => pure (none, block, b, dict)
      | some (b, dict) => pure (some cc, block, b, dict)

/-! ## Flags are read back -/

theorem testBit_bit (b : Bool) (i j : ℕ) : (bit b i).testBit j = (b && decide (i = j)) := by
  cases b with
  | false => simp [bit]
  | true => simp [bit, Nat.one_shiftLeft, Nat.testBit_two_pow]

theorem code_and_three (p : Priority) : p.code &&& 3 = p.code := by
  cases p <;> rfl

theorem ofCode_code (p : Priority) : Priority.ofCode p.code = p := by
  cases p <;> rfl

theorem code_testBit {p : Priority} {i : ℕ} (h : 2 ≤ i) : p.code.testBit i = false := by
  refine Nat.testBit_lt_two_pow (lt_of_lt_of_le ?_ (Nat.pow_le_pow_right (by norm_num) h))
  cases p <;> decide

section
variable {parse : List UInt8 → Option Uri}

theorem testBit_processingFlags (b : PrimaryFields) (i : ℕ) :
    (processingFlags parse b).testBit i =
      ((b.isFragment && decide (0 = i)) || (b.isAdmin && decide (1 = i)) ||
        (b.doNotFragment && decide (2 = i)) || (b.custodyRequested && decide (3 = i)) ||
        (b.dest.isSingleton parse && decide (4 = i)) || (b.appAckedRcpt && decide (5 = i)) ||
        (decide (7 ≤ i) && b.priority.code.testBit (i - 7)) ||
        ((b.receiveRcpt && decide (14 = i)) || (b.custodyRcpt && decide (15 = i)) ||
          (b.forwardRcpt && decide (16 = i)) || (b.deliveryRcpt && decide (17 = i)) ||
          (b.deletionRcpt && decide (18 = i)))) := by
  simp only [processingFlags, formatBundleFlags, formatCosFlags, formatSrrFlags, Nat.testBit_or,
    testBit_bit, Nat.testBit_shiftLeft, code_and_three, ge_iff_le]

/-- No references to endpoint ids. -/
theorem processingFlags_six (b : PrimaryFields) : (processingFlags parse b).testBit 6 = false := by
  rw [testBit_processingFlags]
  simp

theorem processingFlags_priority (b : PrimaryFields) :
    (processingFlags parse b) >>> 7 &&& 3 = b.priority.code := by
  refine Nat.eq_of_testBit_eq (fun i => ?_)
  rw [Nat.testBit_and, Nat.testBit_shiftRight, testBit_processingFlags]
  match i with
  | 0 => simp
  | 1 =>
    have hthree : (3 : ℕ).testBit 1 = true := rfl
    simp [hthree]
  | i + 2 =>
    have hthree : (3 : ℕ).testBit (i + 2) = false := code_testBit (p := .reserved) (by omega)
    rw [hthree, Bool.and_false, code_testBit (by omega)]

theorem processingFlags_lt (b : PrimaryFields) : processingFlags parse b < 2 ^ 64 := by
  refine Nat.lt_pow_two_of_testBit _ (fun i hi => ?_)
  rw [testBit_processingFlags, code_testBit (by omega)]
  simp
  omega

/-- The fields that flags carry. -/
structure SameFlags (b c : PrimaryFields) : Prop where
  isFragment : c.isFragment = b.isFragment
  isAdmin : c.isAdmin = b.isAdmin
  doNotFragment : c.doNotFragment = b.doNotFragment
  custodyRequested : c.custodyRequested = b.custodyRequested
  appAckedRcpt : c.appAckedRcpt = b.appAckedRcpt
  priority : c.priority = b.priority
  receiveRcpt : c.receiveRcpt = b.receiveRcpt
  custodyRcpt : c.custodyRcpt = b.custodyRcpt
  forwardRcpt : c.forwardRcpt = b.forwardRcpt
  deliveryRcpt : c.deliveryRcpt = b.deliveryRcpt
  deletionRcpt : c.deletionRcpt = b.deletionRcpt

theorem parseFlags_processingFlags (b : PrimaryFields) :
    SameFlags b (parseFlags {} (processingFlags parse b)) ∧
      (parseFlags {} (processingFlags parse b)).singletonDestFlag = b.dest.isSingleton parse := by
  have hcode : ∀ i, 2 ≤ i → b.priority.code.testBit i = false := fun i hi => code_testBit hi
  refine ⟨⟨?_, ?_, ?_, ?_, ?_, ?_, ?_, ?_, ?_, ?_, ?_⟩, ?_⟩ <;>
    simp [parseFlags, parseBundleFlags, parseCosFlags, parseSrrFlags, -Nat.testBit_zero,
      testBit_processingFlags, processingFlags_priority, ofCode_code, hcode]

end

/-! ## Values are read back -/

def sdnvs (vals : List ℕ) : List UInt8 := vals.flatMap sdnv

/-- Numbers of 64 bits. -/
def Words (vals : List ℕ) : Prop := ∀ v ∈ vals, v < 2 ^ 64

theorem words_pair {v w : ℕ} (hv : v < 2 ^ 64) (hw : w < 2 ^ 64) : Words [v, w] := by
  simp only [Words, List.mem_cons, List.not_mem_nil, or_false, forall_eq_or_imp, forall_eq]
  exact ⟨hv, hw⟩

theorem length_sdnvs {vals : List ℕ} (h : Words vals) : (sdnvs vals).length = encodingLens vals := by
  induction vals with
  | nil => rfl
  | cons v vals ih =>
    have hrest := ih (fun w hw => h w (List.mem_cons_of_mem v hw))
    simp only [sdnvs, encodingLens, List.flatMap_cons, List.length_append, List.map_cons,
      List.sum_cons, length_sdnv (h v List.mem_cons_self)] at hrest ⊢
    omega

theorem encodingLens_le {vals : List ℕ} (h : Words vals) : encodingLens vals ≤ 10 * vals.length := by
  induction vals with
  | nil => simp [encodingLens]
  | cons v vals ih =>
    have hrest := ih (fun w hw => h w (List.mem_cons_of_mem v hw))
    have hv := encodingLen_le_max (h v List.mem_cons_self)
    simp only [encodingLens, List.map_cons, List.sum_cons, List.length_cons, maxLength] at hrest hv ⊢
    omega

theorem writeSdnvs_eq {vals : List ℕ} (h : Words vals) : ∀ (out : List UInt8) {room : ℕ},
    encodingLens vals ≤ room →
      writeSdnvs vals (out, room) = .ok (out ++ sdnvs vals, room - encodingLens vals) := by
  induction vals with
  | nil => intro out room _; simp [writeSdnvs, sdnvs, encodingLens]
  | cons v vals ih =>
    intro out room hroom
    have hv := h v List.mem_cons_self
    have hlen := length_sdnv hv
    have hsum : encodingLens (v :: vals) = encodingLen v + encodingLens vals := by
      simp [encodingLens]
    rw [hsum] at hroom ⊢
    have hone : writeSdnv (out, room) v = .ok (out ++ sdnv v, room - encodingLen v) := by
      rw [writeSdnv, encode, if_neg (by dsimp only; omega)]
      change Except.ok (out ++ sdnv v, room - (sdnv v).length) = _
      rw [hlen]
    rw [writeSdnvs]
    simp only [hone, bind, Except.bind]
    rw [ih (fun w hw => h w (List.mem_cons_of_mem v hw)) _ (by omega), Nat.sub_sub]
    simp [sdnvs]

theorem readSdnvs_sdnvs {vals : List ℕ} (h : Words vals) (rest : List UInt8) :
    readSdnvs vals.length (sdnvs vals ++ rest) = some (vals, rest) := by
  induction vals with
  | nil => rfl
  | cons v vals ih =>
    have hv := h v List.mem_cons_self
    have hsplit : sdnvs (v :: vals) ++ rest = sdnv v ++ (sdnvs vals ++ rest) := by simp [sdnvs]
    have hdrop : (sdnv v ++ (sdnvs vals ++ rest)).drop (encodingLen v) = sdnvs vals ++ rest := by
      rw [← length_sdnv hv, List.drop_left]
    rw [hsplit, List.length_cons, readSdnvs, readSdnv_sdnv hv, Option.bind_some]
    dsimp only
    rw [hdrop, ih (fun w hw => h w (List.mem_cons_of_mem v hw))]
    rfl

/-! ## The bytes of a primary block -/

/-- Everything behind the length of the block. -/
def bodyBytes (values : List ℕ) (dict : List UInt8) (frag : List ℕ) : List UInt8 :=
  sdnvs values ++ (dict ++ sdnvs frag)

def blockBytes (flags : ℕ) (l : List UInt8) : List UInt8 :=
  6 :: (sdnvs [flags, l.length] ++ l)

theorem length_blockBytes {flags : ℕ} {l : List UInt8} (hflags : flags < 2 ^ 64)
    (hl : l.length < 2 ^ 64) :
    (blockBytes flags l).length = 1 + encodingLen flags + encodingLen l.length + l.length := by
  have hwords : Words [flags, l.length] := by
    intro v hv
    simp only [List.mem_cons, List.not_mem_nil, or_false] at hv
    rcases hv with rfl | rfl
    · exact hflags
    · exact hl
  rw [blockBytes, List.length_cons, List.length_append, length_sdnvs hwords]
  simp only [encodingLens, List.map_cons, List.map_nil, List.sum_cons, List.sum_nil]
  omega

section
variable {parse : List UInt8 → Option Uri}

theorem fragValues_words (b : PrimaryFields) : Words b.fragValues := by
  intro v hv
  unfold PrimaryFields.fragValues at hv
  split_ifs at hv
  · simp only [List.mem_cons, List.not_mem_nil, or_false] at hv
    rcases hv with rfl | rfl
    · exact b.fragOffset.toNat_lt
    · exact b.origLength.toNat_lt
  · simp at hv

theorem length_bodyBytes {values : List ℕ} (hvalues : Words values) (dict : List UInt8)
    (b : PrimaryFields) : (bodyBytes values dict b.fragValues).length =
      encodingLens values + dict.length + encodingLens b.fragValues := by
  rw [bodyBytes, List.length_append, List.length_append, length_sdnvs hvalues,
    length_sdnvs (fragValues_words b)]
  omega

/-- The block is generated, and its length is the one that was computed. -/
theorem generatePrimary_eq (memory : ℕ) {b : PrimaryFields} {dict : List UInt8}
    {primary : PrimaryBlock} (hoff : eidOffsets parse b dict = .ok primary)
    (hflags : primary.processingFlags < 2 ^ 64) (hvalues : Words primary.values)
    (hdict : primary.dictionaryLength = dict.length)
    (hfit : (bodyBytes primary.values dict b.fragValues).length < 2 ^ 64)
    (hmem : (blockBytes primary.processingFlags (bodyBytes primary.values dict b.fragValues)).length ≤
      memory) :
    generatePrimary parse memory b dict =
      .ok (blockBytes primary.processingFlags (bodyBytes primary.values dict b.fragValues)) ∧
    (getPrimaryLen parse b dict).map Prod.fst =
      .ok (blockBytes primary.processingFlags (bodyBytes primary.values dict b.fragValues)).length := by
  have hbody := length_bodyBytes hvalues dict b
  have hlen := length_blockBytes hflags hfit
  set l := bodyBytes primary.values dict b.fragValues with hl
  have hget : getPrimaryLen parse b dict = .ok ((blockBytes primary.processingFlags l).length,
      { primary with blockLength := l.length }) := by
    rw [getPrimaryLen, hoff]
    simp only [bind, Except.bind, pure, Except.pure]
    rw [hdict, ← hbody, hlen]
  refine ⟨?_, by rw [hget]; rfl⟩
  have hreserve : ∃ block, ({ owner := .primary } : RecvBlock).reserve memory
      (blockBytes primary.processingFlags l).length = .ok block := by
    have hpos : (blockBytes primary.processingFlags l).length ≠ 0 := by omega
    rw [RecvBlock.reserve, if_neg hpos]
    split_ifs
    · exact ⟨_, rfl⟩
    · exact ⟨_, rfl⟩
  obtain ⟨block, hreserve⟩ := hreserve
  have hwords := words_pair hflags hfit
  have htwo : encodingLens [primary.processingFlags, l.length] =
      encodingLen primary.processingFlags + encodingLen l.length := by simp [encodingLens]
  have hhead := writeSdnvs_eq hwords [6]
    (show _ ≤ (blockBytes primary.processingFlags l).length - 1 by omega)
  have hmid := writeSdnvs_eq hvalues ([6] ++ sdnvs [primary.processingFlags, l.length])
    (show _ ≤ (blockBytes primary.processingFlags l).length - 1 -
      encodingLens [primary.processingFlags, l.length] by omega)
  have htail := writeSdnvs_eq (fragValues_words b)
    ([6] ++ sdnvs [primary.processingFlags, l.length] ++ sdnvs primary.values ++ dict)
    (show _ ≤ (blockBytes primary.processingFlags l).length - 1 -
      encodingLens [primary.processingFlags, l.length] - encodingLens primary.values - dict.length
      by omega)
  have hwrite : ∀ (out : List UInt8) (room : ℕ), dict.length ≤ room →
      writeDict { primary with blockLength := l.length } dict (out, room) =
        .ok (out ++ dict, room - dict.length) := by
    intro out room hroom
    unfold writeDict
    dsimp only
    rw [hdict]
    by_cases hd : 0 < dict.length
    · rw [if_pos hd, if_pos hroom]
    · rw [if_neg hd, List.length_eq_zero_iff.mp (Nat.eq_zero_of_not_pos hd)]
      simp
  rw [generatePrimary, hget]
  simp only [bind, Except.bind, hreserve, hhead]
  have hvals : ({ primary with blockLength := l.length } : PrimaryBlock).values = primary.values := rfl
  rw [hvals, hmid]
  dsimp only
  rw [hwrite _ _ (by omega)]
  dsimp only
  rw [htail]
  dsimp only
  have hdone : (blockBytes primary.processingFlags l).length - 1 -
      encodingLens [primary.processingFlags, l.length] - encodingLens primary.values - dict.length -
      encodingLens b.fragValues = 0 := by omega
  rw [hdone, require, if_pos rfl]
  simp [pure, Except.pure, blockBytes, hl, bodyBytes]

end

/-! ## Reading the block back -/

theorem preamble_blockBytes (dict : List UInt8) {flags : ℕ} {l : List UInt8}
    (hflags : flags < 2 ^ 64) (hsix : flags.testBit 6 = false) (hl : l.length < 2 ^ 64) :
    preamble dict (blockBytes flags l) =
      some { flags := flags
             eidList := []
             blockLen := l.length
             offset := 1 + encodingLen flags + encodingLen l.length } := by
  have hdrop : (blockBytes flags l).drop 1 = sdnv flags ++ (sdnv l.length ++ l) := by
    simp [blockBytes, sdnvs]
  have hdrop' : (blockBytes flags l).drop (1 + encodingLen flags) = sdnv l.length ++ l := by
    rw [← List.drop_drop, hdrop, ← length_sdnv hflags, List.drop_left]
  rw [preamble, hdrop, readSdnv_sdnv hflags, Option.bind_some]
  simp only [eidRefs, hsix, Bool.false_eq_true, if_false, Option.bind_some]
  rw [hdrop', readSdnv_sdnv hl, Option.bind_some]

/-- The fields after the values were read. -/
def readTimes (b : PrimaryFields) (primary : PrimaryBlock) : PrimaryFields :=
  { b with
    creationSecs := UInt64.ofNat primary.creationTime
    seqno := UInt64.ofNat primary.creationSequence
    expirationMillis := UInt64.ofNat primary.lifetime * 1000 }

def readEids (b : PrimaryFields) (primary : PrimaryBlock) (dict : List UInt8) : PrimaryFields :=
  if dict = [] then makeEids b primary.dest primary.source primary.replyto primary.custodian
  else extractEids b dict primary.dest primary.source primary.replyto primary.custodian

def readFragment (b c : PrimaryFields) : PrimaryFields :=
  if b.isFragment then { c with fragOffset := b.fragOffset, origLength := b.origLength } else c

theorem readFragment_dest (b c : PrimaryFields) : (readFragment b c).dest = c.dest := by
  unfold readFragment
  split_ifs <;> rfl

theorem readFragment_source (b c : PrimaryFields) : (readFragment b c).source = c.source := by
  unfold readFragment
  split_ifs <;> rfl

theorem readFragment_replyto (b c : PrimaryFields) : (readFragment b c).replyto = c.replyto := by
  unfold readFragment
  split_ifs <;> rfl

theorem readFragment_custodian (b c : PrimaryFields) : (readFragment b c).custodian = c.custodian := by
  unfold readFragment
  split_ifs <;> rfl

theorem parseFragment_eq {b c : PrimaryFields} (h : c.isFragment = b.isFragment) :
    parseFragment c (sdnvs b.fragValues) = some (readFragment b c) := by
  have hread := readSdnvs_sdnvs (fragValues_words b) []
  rw [List.append_nil] at hread
  unfold parseFragment readFragment
  rw [h]
  by_cases hf : b.isFragment = true
  · have hvals : b.fragValues = [b.fragOffset.toNat, b.origLength.toNat] := if_pos hf
    rw [hvals] at hread ⊢
    change readSdnvs 2 _ = _ at hread
    rw [if_pos hf, if_pos hf, hread]
    simp
  · rw [if_neg hf, if_neg hf]

theorem parseBody_eq {b c : PrimaryFields} (hfrag : c.isFragment = b.isFragment)
    {primary : PrimaryBlock} (hvalues : Words primary.values) {dict : List UInt8}
    (hdict : primary.dictionaryLength = dict.length) (hlast : dict ≠ [] → dict.getLast? = some 0) :
    parseBody [] c (bodyBytes primary.values dict b.fragValues) =
      .ok (some (readFragment b (readEids (readTimes c primary) primary dict), dict)) := by
  have hread := readSdnvs_sdnvs hvalues (dict ++ sdnvs b.fragValues)
  change readSdnvs 12 _ = _ at hread
  rw [parseBody, bodyBytes, hread, PrimaryBlock.values]
  dsimp only
  rw [hdict, if_neg (by simp)]
  by_cases hd : dict = []
  · subst hd
    rw [List.length_nil, if_neg (by simp), List.nil_append]
    rw [parseFragment_eq (b := b) (by exact hfrag)]
    simp [readEids, readTimes]
  · have hpos : dict.length ≠ 0 := fun h => hd (List.length_eq_zero_iff.mp h)
    rw [if_pos hpos, List.take_left, if_neg (by rw [hlast hd]; simp), require_of rfl]
    simp only [bind, Except.bind, List.drop_left]
    rw [parseFragment_eq (b := b) (by exact hfrag)]
    simp [readEids, hd, readTimes, pure, Except.pure]

theorem parsePrimary_eq {dict : List UInt8} {b : PrimaryFields} {block : RecvBlock} {flags : ℕ}
    {l : List UInt8} (hflags : flags < 2 ^ 64) (hl : l.length < 2 ^ 64)
    (hcontents : block.contents = blockBytes flags l) (hlen : l.length = block.dataLength) :
    parsePrimary dict b block = parseBody dict (parseFlags b flags) l := by
  have hread := readSdnvs_sdnvs (words_pair hflags hl) l
  change readSdnvs 2 _ = _ at hread
  rw [parsePrimary, hcontents, blockBytes]
  dsimp only
  rw [if_neg (by simp), hread]
  dsimp only
  rw [require_of hlen]
  rfl

/-- A generated block is consumed as a whole. -/
theorem consumePrimary_eq (memory : ℕ) (b : PrimaryFields) {primary : PrimaryBlock}
    {dict : List UInt8} (hflags : primary.processingFlags < 2 ^ 64)
    (hsix : primary.processingFlags.testBit 6 = false) (hvalues : Words primary.values)
    (hfrag : primary.processingFlags.testBit 0 = b.isFragment)
    (hdict : primary.dictionaryLength = dict.length) (hlast : dict ≠ [] → dict.getLast? = some 0)
    (hfit : (bodyBytes primary.values dict b.fragValues).length < 2 ^ 32)
    (hmem : (blockBytes primary.processingFlags (bodyBytes primary.values dict b.fragValues)).length ≤
      memory) :
    ∃ block, block.complete = true ∧
      consumePrimary memory [] {} { owner := .primary }
        (blockBytes primary.processingFlags (bodyBytes primary.values dict b.fragValues)) =
      .ok (some (blockBytes primary.processingFlags
          (bodyBytes primary.values dict b.fragValues)).length, block,
        readFragment b (readEids (readTimes (parseFlags {} primary.processingFlags) primary)
          primary dict), dict) := by
  have hparse := parseBody_eq (b := b) (c := parseFlags {} primary.processingFlags) hfrag hvalues
    hdict hlast
  have hpos : 0 < (bodyBytes primary.values dict b.fragValues).length := by
    have := length_bodyBytes hvalues dict b
    have hone := encodingLen_pos primary.dest.1
    have : encodingLen primary.dest.1 ≤ encodingLens primary.values := by
      simp [encodingLens, PrimaryBlock.values]
    omega
  set l := bodyBytes primary.values dict b.fragValues
  have hl : l.length < 2 ^ 64 := lt_trans hfit (by norm_num)
  have hlen := length_blockBytes hflags hl
  obtain ⟨p, hp⟩ : ∃ p : Preamble, p =
      { flags := primary.processingFlags
        eidList := []
        blockLen := l.length
        offset := 1 + encodingLen primary.processingFlags + encodingLen l.length } := ⟨_, rfl⟩
  have hpre := preamble_blockBytes [] hflags hsix hl
  rw [← hp] at hpre
  have hlength : p.blockLen = l.length := by rw [hp]
  have hoffset : p.offset = 1 + encodingLen primary.processingFlags + encodingLen l.length := by
    rw [hp]
  have hmax := encodingLen_le_max hflags
  have hmax' := encodingLen_le_max hl
  have hten : maxLength = 10 := rfl
  have hblock := consumeBlock_whole .primary hpre (by omega) (by omega) (by omega) (by omega) hmem
  refine ⟨RecvBlock.whole .primary p (blockBytes primary.processingFlags l), rfl, ?_⟩
  rw [consumePrimary, require_of rfl, hblock]
  simp only [bind, Except.bind]
  rw [if_neg (by simp [RecvBlock.whole]), require_of]
  · rw [parsePrimary_eq hflags hl rfl hlength.symm, hparse]
    rfl
  · change u64 (p.offset + p.blockLen) = (blockBytes primary.processingFlags l).length
    rw [hlen, u64_of_lt (by omega)]
    omega

/-! ## The pairs of the four endpoint ids -/

section
variable {parse : List UInt8 → Option Uri}

/-- A valid id of one of the schemes dtn, ipn and imc. -/
def KnownEid (parse : List UInt8 → Option Uri) (e : Eid) : Prop :=
  ∃ u, e.uri? parse = some u ∧ u.scheme?.isSome

structure KnownEids (parse : List UInt8 → Option Uri) (b : PrimaryFields) : Prop where
  dest : KnownEid parse b.dest
  source : KnownEid parse b.source
  replyto : KnownEid parse b.replyto
  custodian : KnownEid parse b.custodian

theorem text_facts (hU : IsUri parse) {e : Eid} {u : Uri} (h : e.uri? parse = some u)
    (hs : u.scheme?.isSome) :
    ∀ s ∈ Dictionary.texts u, (0 : UInt8) ∉ s ∧ s ≠ [] ∧ s.length ≤ 1023 := by
  obtain ⟨hp, hv⟩ := Eid.uri?_eq_some.mp h
  have hzero := hU.zero_notMem hp
  have hfits : u.fits = true := by
    unfold Uri.validate at hv
    exact (Bool.and_eq_true_iff.mp hv).1
  simp only [Uri.fits, maxPartLength, Bool.and_eq_true] at hfits
  have hscheme := of_decide_eq_true hfits.1
  have hssp := of_decide_eq_true hfits.2
  simp only [Uri.str, List.mem_append, not_or] at hzero
  intro s hmem
  simp only [Dictionary.texts, List.mem_cons, List.not_mem_nil, or_false] at hmem
  rcases hmem with rfl | rfl
  · exact ⟨hzero.1.1, hU.scheme_ne_nil hp, hscheme⟩
  · exact ⟨hzero.2, Uri.ssp_ne_nil hv hs (hU.host_eq_nil hp), hssp⟩

/-- What is written for the four ids, and what a reader makes of it. -/
structure Paired (parse : List UInt8 → Option Uri) (b : PrimaryFields) (primary : PrimaryBlock)
    (dict : List UInt8) : Prop where
  flags : primary.processingFlags = processingFlags parse b
  times : primary.creationTime = b.creationSecs.toNat ∧ primary.creationSequence = b.seqno.toNat ∧
    primary.lifetime = b.expirationSecs.toNat
  values : Words primary.values
  length : primary.dictionaryLength = dict.length
  length_le : dict.length ≤ 8192
  last : dict ≠ [] → dict.getLast? = some 0

theorem words_values {primary : PrimaryBlock}
    (hpairs : ∀ p ∈ [primary.dest, primary.source, primary.replyto, primary.custodian],
      p.1 < 2 ^ 64 ∧ p.2 < 2 ^ 64)
    (hrest : Words [primary.creationTime, primary.creationSequence, primary.lifetime,
      primary.dictionaryLength]) : Words primary.values := by
  simp only [List.mem_cons, List.not_mem_nil, or_false, forall_eq_or_imp, forall_eq] at hpairs
  intro v hv
  have hcases : v ∈ [primary.dest.1, primary.dest.2, primary.source.1, primary.source.2,
      primary.replyto.1, primary.replyto.2, primary.custodian.1, primary.custodian.2] ∨
      v ∈ [primary.creationTime, primary.creationSequence, primary.lifetime,
        primary.dictionaryLength] := by
    simpa [PrimaryBlock.values, or_assoc] using hv
  rcases hcases with h | h
  · simp only [List.mem_cons, List.not_mem_nil, or_false] at h
    rcases h with rfl | rfl | rfl | rfl | rfl | rfl | rfl | rfl
    · exact hpairs.1.1
    · exact hpairs.1.2
    · exact hpairs.2.1.1
    · exact hpairs.2.1.2
    · exact hpairs.2.2.1.1
    · exact hpairs.2.2.1.2
    · exact hpairs.2.2.2.1
    · exact hpairs.2.2.2.2
  · exact hrest v h

/-- Numbers, if all ids have them. -/
theorem paired_numbers {b : PrimaryFields} (hall : allCbheCompat parse b = true) :
    ∃ primary, prepare parse b = .ok [] ∧ eidOffsets parse b [] = .ok primary ∧
      Paired parse b primary [] ∧ primary.dest = eidPair parse b.dest ∧
      primary.source = eidPair parse b.source ∧ primary.replyto = eidPair parse b.replyto ∧
      primary.custodian = eidPair parse b.custodian := by
  refine ⟨_, if_pos hall, if_pos hall, ⟨rfl, ⟨rfl, rfl, rfl⟩, words_values ?_ ?_, rfl, by simp,
    by simp⟩, rfl, rfl, rfl, rfl⟩
  · have hpair : ∀ e : Eid, (eidPair parse e).1 < 2 ^ 64 ∧ (eidPair parse e).2 < 2 ^ 64 :=
      fun e => ⟨e.nodeNum_lt, e.serviceNum_lt⟩
    simp only [List.mem_cons, List.not_mem_nil, or_false, forall_eq_or_imp, forall_eq]
    exact ⟨hpair _, hpair _, hpair _, hpair _⟩
  · intro v hv
    simp only [List.mem_cons, List.not_mem_nil, or_false] at hv
    rcases hv with rfl | rfl | rfl | rfl
    · exact b.creationSecs.toNat_lt
    · exact b.seqno.toNat_lt
    · exact b.expirationSecs.toNat_lt
    · norm_num

/-- An id is extracted by the offsets that were written for it. -/
def Extracted (parse : List UInt8 → Option Uri) (dict : List UInt8) (e : Eid)
    (pair : ℕ × ℕ) : Prop :=
  ∃ u, e.uri? parse = some u ∧ u.scheme?.isSome ∧
    Dictionary.extractEid dict pair.1 pair.2 = makeEidScheme u.scheme u.ssp

theorem extracted_of_mem (hU : IsUri parse) {l : List (List UInt8)} (hl : Dictionary.Clean l)
    (hlen : (table l).length ≤ 8192) {e : Eid} {u : Uri} (h : e.uri? parse = some u)
    (hs : u.scheme?.isSome) (hmem : ∀ s ∈ Dictionary.texts u, s ∈ l) :
    ∃ pair, Dictionary.getOffsets parse (table l) e = .ok pair ∧
      (pair.1 < 2 ^ 64 ∧ pair.2 < 2 ^ 64) ∧ Extracted parse (table l) e pair := by
  obtain ⟨so, ss, hget, hso, hss, hext⟩ := Dictionary.extractEid_getOffsets hl h hmem
    (fun s hsm => (text_facts hU h hs s hsm).2.1)
  exact ⟨(so, ss), hget, ⟨by dsimp only; omega, by dsimp only; omega⟩, u, h, hs, hext⟩

/-- Ids added one after another. -/
def addEids (parse : List UInt8 → Option Uri) :
    List Eid → List UInt8 → Except Fault (List UInt8)
  | [], dict => pure dict
  | e :: es, dict => do
    let dict ← Dictionary.addEid parse dict e
    addEids parse es dict

theorem prepare_eq {b : PrimaryFields} (hall : allCbheCompat parse b = false) :
    prepare parse b = addEids parse [b.dest, b.source, b.replyto, b.custodian] [] := by
  rw [prepare, if_neg (by simp [hall])]
  simp [addEids]

/-- The dictionary stays small, and it has the texts of all ids that were added. -/
theorem addEids_table (hU : IsUri parse) (es : List Eid) :
    ∀ {l : List (List UInt8)}, Dictionary.Clean l → (∀ e ∈ es, KnownEid parse e) →
      ∃ l', addEids parse es (table l) = .ok (table l') ∧ Dictionary.Clean l' ∧
        (table l').length ≤ (table l).length + 2048 * es.length ∧ (∀ s ∈ l, s ∈ l') ∧
        ∀ e ∈ es, ∀ u, e.uri? parse = some u → ∀ s ∈ Dictionary.texts u, s ∈ l' := by
  induction es with
  | nil => exact fun {l} hl _ => ⟨l, rfl, hl, by simp, fun s hs => hs, by simp⟩
  | cons e es ih =>
    intro l hl hes
    obtain ⟨u, hu, hs⟩ := hes e List.mem_cons_self
    have hfacts := text_facts hU hu hs
    have hadd := Dictionary.addEid_table hl hu (hfacts _ List.mem_cons_self).1
    have hclean : Dictionary.Clean ((Dictionary.texts u).foldl Dictionary.addLast l) :=
      Dictionary.Clean.foldl_addLast (fun s hs => (hfacts s hs).1) hl
    have hlen := Dictionary.length_table_foldl (Dictionary.texts u) l
    have hsum : ((Dictionary.texts u).map (fun s => s.length + 1)).sum ≤ 2048 := by
      have h₁ := (hfacts u.scheme List.mem_cons_self).2.2
      have h₂ := (hfacts u.ssp (List.mem_cons_of_mem _ List.mem_cons_self)).2.2
      simp only [Dictionary.texts, List.map_cons, List.map_nil, List.sum_cons, List.sum_nil]
      omega
    obtain ⟨l', hok, hclean', hlen', hold, hnew⟩ := ih hclean
      (fun e' he' => hes e' (List.mem_cons_of_mem e he'))
    refine ⟨l', ?_, hclean', by rw [List.length_cons]; omega,
      fun s hs => hold s ((Dictionary.mem_foldl_addLast _).mpr (.inl hs)), ?_⟩
    · rw [addEids, hadd]
      exact hok
    · intro e' he' v hv s hs
      rcases List.mem_cons.mp he' with rfl | he'
      · obtain rfl : u = v := Option.some.inj (hu.symm.trans hv)
        exact hold s ((Dictionary.mem_foldl_addLast _).mpr (.inr hs))
      · exact hnew e' he' v hv s hs

/-- Offsets into the dictionary otherwise. -/
theorem paired_offsets (hU : IsUri parse) {b : PrimaryFields} (hb : KnownEids parse b)
    (hall : allCbheCompat parse b = false) :
    ∃ dict primary, prepare parse b = .ok dict ∧ dict ≠ [] ∧ eidOffsets parse b dict = .ok primary ∧
      Paired parse b primary dict ∧ Extracted parse dict b.dest primary.dest ∧
      Extracted parse dict b.source primary.source ∧
      Extracted parse dict b.replyto primary.replyto ∧
      Extracted parse dict b.custodian primary.custodian := by
  have hknown : ∀ e ∈ [b.dest, b.source, b.replyto, b.custodian], KnownEid parse e := by
    simp only [List.mem_cons, List.not_mem_nil, or_false, forall_eq_or_imp, forall_eq]
    exact ⟨hb.dest, hb.source, hb.replyto, hb.custodian⟩
  obtain ⟨l, hok, hclean, hlen, -, hmem⟩ := addEids_table hU _ (l := []) (fun s hs => by simp at hs)
    hknown
  simp only [table_nil, List.length_nil, List.length_cons, Nat.zero_add] at hlen hok
  rw [← prepare_eq hall] at hok
  have hpair : ∀ e ∈ [b.dest, b.source, b.replyto, b.custodian], ∃ pair,
      Dictionary.getOffsets parse (table l) e = .ok pair ∧ (pair.1 < 2 ^ 64 ∧ pair.2 < 2 ^ 64) ∧
        Extracted parse (table l) e pair := by
    intro e he
    obtain ⟨u, hu, hs⟩ := hknown e he
    exact extracted_of_mem hU hclean hlen hu hs (hmem e he u hu)
  obtain ⟨pd, gd, bd, xd⟩ := hpair b.dest (by simp)
  obtain ⟨ps, gs, bs, xs⟩ := hpair b.source (by simp)
  obtain ⟨pr, gr, br, xr⟩ := hpair b.replyto (by simp)
  obtain ⟨pc, gc, bc, xc⟩ := hpair b.custodian (by simp)
  have hne : l ≠ [] := by
    obtain ⟨u, hu, -⟩ := hb.dest
    exact List.ne_nil_of_mem (hmem b.dest (by simp) u hu _ List.mem_cons_self)
  have htable : table l ≠ [] := by
    intro hnil
    have hlast := getLast_table hne
    simp [hnil] at hlast
  set primary : PrimaryBlock :=
    { processingFlags := processingFlags parse b
      blockLength := 0
      dest := pd
      source := ps
      replyto := pr
      custodian := pc
      creationTime := b.creationSecs.toNat
      creationSequence := b.seqno.toNat
      lifetime := b.expirationSecs.toNat
      dictionaryLength := (table l).length }
  refine ⟨table l, primary, hok, htable, ?_, ⟨rfl, ⟨rfl, rfl, rfl⟩, words_values ?_ ?_, rfl, hlen,
    fun _ => getLast_table hne⟩, xd, xs, xr, xc⟩
  · rw [eidOffsets, if_neg (by simp [hall]), gd]
    simp only [bind, Except.bind, gs, gr, gc]
    rfl
  · simp only [List.mem_cons, List.not_mem_nil, or_false, forall_eq_or_imp, forall_eq]
    exact ⟨bd, bs, br, bc⟩
  · intro v hv
    simp only [List.mem_cons, List.not_mem_nil, or_false] at hv
    rcases hv with rfl | rfl | rfl | rfl
    · exact b.creationSecs.toNat_lt
    · exact b.seqno.toNat_lt
    · exact b.expirationSecs.toNat_lt
    · exact lt_of_le_of_lt hlen (by norm_num)

/-! ## The round trip -/

/-- The same URI, and the null endpoint is the pool's own. -/
structure SameEid (parse : List UInt8 → Option Uri) (e f : Eid) : Prop where
  uri : f.uri? parse = e.uri? parse
  null : e.isNull parse = true → f = makeEidNull

/-- The id is written as its two numbers, in plain decimal. -/
def Numbered (parse : List UInt8 → Option Uri) (scheme : List UInt8) (e : Eid) : Prop :=
  ∃ u, e.uri? parse = some u ∧ u.scheme = scheme ∧
    u.ssp = decimal (e.nodeNum parse) ++ text "." ++ decimal (e.serviceNum parse)

theorem Extracted.sameEid (hU : IsUri parse) {dict : List UInt8} {e : Eid} {pair : ℕ × ℕ}
    (h : Extracted parse dict e pair) :
    SameEid parse e (Dictionary.extractEid dict pair.1 pair.2) := by
  obtain ⟨u, hu, hs, hext⟩ := h
  rw [hext]
  refine ⟨(Eid.uri?_makeEidScheme hU hu hs).trans hu.symm, fun hnull => ?_⟩
  rw [Eid.isNull_eq hu] at hnull
  obtain ⟨hscheme, hssp⟩ := Uri.isNull_iff.mp hnull
  rw [hscheme, hssp]
  rfl

/-- Numbers stand for exactly the ids that are written as numbers. -/
theorem sameEid_numbers (hU : IsUri parse) {scheme : List UInt8}
    (hscheme : scheme ∈ [text "ipn", text "imc"]) {e : Eid} (he : KnownEid parse e)
    {f : Eid} (hf : f.key = scheme ++ text ":" ++
      (decimal (e.nodeNum parse) ++ text "." ++ decimal (e.serviceNum parse))) :
    SameEid parse e f ↔ Numbered parse scheme e := by
  obtain ⟨u, hu, hs⟩ := he
  constructor
  · intro h
    obtain ⟨v, hv, hvscheme, hvssp⟩ := hU.numbers scheme hscheme (e.nodeNum parse)
      (e.serviceNum parse)
    have hfu := h.uri.trans hu
    rw [← hf, (Eid.uri?_eq_some.mp hfu).1] at hv
    obtain rfl : u = v := Option.some.inj hv
    exact ⟨u, hu, hvscheme, hvssp⟩
  · rintro ⟨v, hv, hvscheme, hvssp⟩
    obtain rfl : u = v := Option.some.inj (hu.symm.trans hv)
    obtain ⟨hp, hval⟩ := Eid.uri?_eq_some.mp hu
    have hkey : f.key = u.str := by rw [hf, Uri.str, hvscheme, hvssp]
    refine ⟨?_, fun hnull => ?_⟩
    · rw [hu]
      exact Eid.uri?_eq_some.mpr ⟨by rw [hkey]; exact hU.reparse hp hval hs, hval⟩
    · rw [Eid.isNull_eq hu] at hnull
      have hdtn := (Uri.isNull_iff.mp hnull).1
      rw [hvscheme] at hdtn
      rw [hdtn] at hscheme
      exact absurd hscheme (by decide)

theorem makeEidIpn_key (n m : ℕ) :
    (makeEidIpn n m).key = text "ipn" ++ text ":" ++ (decimal n ++ text "." ++ decimal m) := by
  have h : text "ipn:" = text "ipn" ++ text ":" := by decide
  rw [makeEidIpn, h]
  simp

theorem makeEidImc_key (n m : ℕ) :
    (makeEidImc n m).key = text "imc" ++ text ":" ++ (decimal n ++ text "." ++ decimal m) := by
  have h : text "imc:" = text "imc" ++ text ":" := by decide
  rw [makeEidImc, h]
  simp

/-- Everything that the primary block carries. -/
structure Restores (parse : List UInt8 → Option Uri) (b c : PrimaryFields) : Prop where
  flags : SameFlags b c
  singleton : c.singletonDestFlag = b.dest.isSingleton parse
  creationSecs : c.creationSecs = b.creationSecs
  seqno : c.seqno = b.seqno
  expiration : c.expirationSecs = b.expirationSecs
  fragment : b.isFragment = true → c.fragOffset = b.fragOffset ∧ c.origLength = b.origLength
  dest : SameEid parse b.dest c.dest
  source : SameEid parse b.source c.source
  replyto : SameEid parse b.replyto c.replyto
  custodian : SameEid parse b.custodian c.custodian

/-- A generated primary block has the length that was computed, and a new bundle that consumes it has
what was written. -/
def PrimaryRoundTrips (parse : List UInt8 → Option Uri) (memory : ℕ) (b : PrimaryFields) : Prop :=
  ∃ dict bytes block c dict', prepare parse b = .ok dict ∧
    generatePrimary parse memory b dict = .ok bytes ∧
    (getPrimaryLen parse b dict).map Prod.fst = .ok bytes.length ∧
    consumePrimary memory [] {} { owner := .primary } bytes =
      .ok (some bytes.length, block, c, dict') ∧ block.complete = true ∧ Restores parse b c

/-- If all four ids have numbers or are null, none is null, they are written in plain decimal, and only
the destination may be of the scheme imc. -/
def Restorable (parse : List UInt8 → Option Uri) (b : PrimaryFields) : Prop :=
  allCbheCompat parse b = true →
    (Numbered parse (text "ipn") b.dest ∨ Numbered parse (text "imc") b.dest) ∧
    Numbered parse (text "ipn") b.source ∧ Numbered parse (text "ipn") b.replyto ∧
    Numbered parse (text "ipn") b.custodian

/-- What is read back: the ids alone depend on how they were written. -/
theorem roundTrips_result {memory : ℕ} (hm : 16384 ≤ memory) {b : PrimaryFields}
    {primary : PrimaryBlock} {dict : List UInt8} (hoff : eidOffsets parse b dict = .ok primary)
    (hp : Paired parse b primary dict) :
    ∃ bytes block, generatePrimary parse memory b dict = .ok bytes ∧
      (getPrimaryLen parse b dict).map Prod.fst = .ok bytes.length ∧
      consumePrimary memory [] {} { owner := .primary } bytes = .ok (some bytes.length, block,
        readFragment b (readEids (readTimes (parseFlags {} (processingFlags parse b)) primary)
          primary dict), dict) ∧ block.complete = true := by
  have hflags : primary.processingFlags < 2 ^ 64 := by
    rw [hp.flags]
    exact processingFlags_lt b
  have hbody := length_bodyBytes hp.values dict b
  have hvals := encodingLens_le hp.values
  have hfrag := encodingLens_le (fragValues_words b)
  have hfragLen : b.fragValues.length ≤ 2 := by
    unfold PrimaryFields.fragValues
    split_ifs <;> simp
  have hdict := hp.length_le
  have htwelve : primary.values.length = 12 := rfl
  have hsmall : (bodyBytes primary.values dict b.fragValues).length ≤ 8400 := by omega
  have hlen := length_blockBytes (l := bodyBytes primary.values dict b.fragValues) hflags (by omega)
  have hmax := encodingLen_le_max hflags
  have hmax' : encodingLen (bodyBytes primary.values dict b.fragValues).length ≤ maxLength :=
    encodingLen_le_max (by omega)
  have hten : maxLength = 10 := rfl
  obtain ⟨hgen, hget⟩ := generatePrimary_eq memory hoff hflags hp.values hp.length
    (by omega) (by omega)
  obtain ⟨block, hcomplete, hconsume⟩ := consumePrimary_eq memory b hflags
    (by rw [hp.flags]; exact processingFlags_six b) hp.values
    (by rw [hp.flags]; exact (parseFlags_processingFlags b).1.isFragment) hp.length hp.last (by omega)
    (by omega)
  rw [hp.flags] at hconsume hgen hget
  exact ⟨_, block, hgen, hget, hconsume, hcomplete⟩

theorem expirationSecs_restored (b : PrimaryFields) :
    (UInt64.ofNat b.expirationSecs.toNat * 1000) / 1000 = b.expirationSecs := by
  have hlt := b.expirationMillis.toNat_lt
  rw [UInt64.ofNat_toNat, PrimaryFields.expirationSecs]
  refine UInt64.toNat_inj.mp ?_
  simp only [UInt64.toNat_div, UInt64.toNat_mul, UInt64.reduceToNat]
  omega

/-- Apart from the ids everything is restored. -/
theorem restores_of_eids {b : PrimaryFields} {primary : PrimaryBlock} {dict : List UInt8}
    (hp : Paired parse b primary dict) :
    let c := readFragment b (readEids (readTimes (parseFlags {} (processingFlags parse b)) primary)
      primary dict)
    Restores parse b c ↔ SameEid parse b.dest c.dest ∧ SameEid parse b.source c.source ∧
      SameEid parse b.replyto c.replyto ∧ SameEid parse b.custodian c.custodian := by
  obtain ⟨hsame, hsingle⟩ : SameFlags b (parseFlags {} (processingFlags parse b)) ∧ _ :=
    parseFlags_processingFlags b
  obtain ⟨htime, hseq, hlife⟩ := hp.times
  refine ⟨fun h => ⟨h.dest, h.source, h.replyto, h.custodian⟩, fun h => ?_⟩
  refine ⟨?_, ?_, ?_, ?_, ?_, ?_, h.1, h.2.1, h.2.2.1, h.2.2.2⟩
  · unfold readFragment readEids
    split_ifs <;> exact ⟨hsame.1, hsame.2, hsame.3, hsame.4, hsame.5, hsame.6, hsame.7, hsame.8,
      hsame.9, hsame.10, hsame.11⟩
  · unfold readFragment readEids
    split_ifs <;> exact hsingle
  · have htime' : UInt64.ofNat primary.creationTime = b.creationSecs := by
      rw [htime, UInt64.ofNat_toNat]
    unfold readFragment readEids
    split_ifs <;> exact htime'
  · have hseq' : UInt64.ofNat primary.creationSequence = b.seqno := by
      rw [hseq, UInt64.ofNat_toNat]
    unfold readFragment readEids
    split_ifs <;> exact hseq'
  · have hlife' : UInt64.ofNat primary.lifetime * 1000 / 1000 = b.expirationSecs := by
      rw [hlife, expirationSecs_restored]
    unfold readFragment readEids
    split_ifs <;> exact hlife'
  · intro hf
    unfold readFragment
    rw [if_pos hf]
    exact ⟨rfl, rfl⟩

/-- The result is determined. -/
theorem roundTrips_iff_restores {memory : ℕ} (hm : 16384 ≤ memory) {b : PrimaryFields}
    {primary : PrimaryBlock} {dict : List UInt8} (hprep : prepare parse b = .ok dict)
    (hoff : eidOffsets parse b dict = .ok primary) (hp : Paired parse b primary dict) :
    PrimaryRoundTrips parse memory b ↔ Restores parse b (readFragment b (readEids
      (readTimes (parseFlags {} (processingFlags parse b)) primary) primary dict)) := by
  obtain ⟨bytes, block, hgen, hget, hconsume, hcomplete⟩ := roundTrips_result hm hoff hp
  constructor
  · rintro ⟨dict', bytes', block', c, dict'', hprep', hgen', -, hconsume', -, hrestores⟩
    obtain rfl : dict = dict' := Except.ok.inj (hprep.symm.trans hprep')
    obtain rfl : bytes = bytes' := Except.ok.inj (hgen.symm.trans hgen')
    have heq := Except.ok.inj (hconsume.symm.trans hconsume')
    simp only [Prod.mk.injEq] at heq
    rw [heq.2.2.1]
    exact hrestores
  · intro h
    exact ⟨dict, bytes, block, _, dict, hprep, hgen, hget, hconsume, hcomplete, h⟩

theorem Numbered.isSingleton_ipn {e : Eid} (h : Numbered parse (text "ipn") e) :
    e.isSingleton parse = true := by
  obtain ⟨u, hu, hscheme, -⟩ := h
  have hlookup : lookup (text "ipn") = some .ipn := by decide
  rw [Eid.isSingleton_eq hu, Uri.isSingleton, Uri.scheme?, hscheme, hlookup]

theorem Numbered.isSingleton_imc {e : Eid} (h : Numbered parse (text "imc") e) :
    e.isSingleton parse = false := by
  obtain ⟨u, hu, hscheme, -⟩ := h
  have hlookup : lookup (text "imc") = some .imc := by decide
  rw [Eid.isSingleton_eq hu, Uri.isSingleton, Uri.scheme?, hscheme, hlookup]

theorem sameEid_imc (hU : IsUri parse) {e : Eid} (he : KnownEid parse e) :
    SameEid parse e (makeEidImc (eidPair parse e).1 (eidPair parse e).2) ↔
      Numbered parse (text "imc") e :=
  sameEid_numbers hU (by simp) he (makeEidImc_key _ _)

theorem sameEid_ipn (hU : IsUri parse) {e : Eid} (he : KnownEid parse e) :
    SameEid parse e (makeEidIpn (eidPair parse e).1 (eidPair parse e).2) ↔
      Numbered parse (text "ipn") e :=
  sameEid_numbers hU (by simp) he (makeEidIpn_key _ _)

/-- The destination's flag says which of the two schemes it has. -/
theorem sameEid_dest (hU : IsUri parse) {e : Eid} (he : KnownEid parse e) :
    SameEid parse e (if e.isSingleton parse then makeEidIpn (eidPair parse e).1 (eidPair parse e).2
      else makeEidImc (eidPair parse e).1 (eidPair parse e).2) ↔
      Numbered parse (text "ipn") e ∨ Numbered parse (text "imc") e := by
  by_cases hsingle : e.isSingleton parse = true
  · rw [if_pos hsingle, sameEid_ipn hU he]
    refine ⟨Or.inl, fun h => h.resolve_right fun himc => ?_⟩
    simp [himc.isSingleton_imc] at hsingle
  · rw [if_neg hsingle, sameEid_imc hU he]
    exact ⟨Or.inr, fun h => h.resolve_left fun hipn => hsingle hipn.isSingleton_ipn⟩

/-- Numbers are read back as ids of the scheme ipn, or imc for a destination of many. -/
theorem roundTrips_numbers {memory : ℕ} (hU : IsUri parse) (hm : 16384 ≤ memory) {b : PrimaryFields}
    (hb : KnownEids parse b) (hall : allCbheCompat parse b = true) :
    PrimaryRoundTrips parse memory b ↔
      (Numbered parse (text "ipn") b.dest ∨ Numbered parse (text "imc") b.dest) ∧
      Numbered parse (text "ipn") b.source ∧ Numbered parse (text "ipn") b.replyto ∧
      Numbered parse (text "ipn") b.custodian := by
  obtain ⟨primary, hprep, hoff, hp, hd, hs, hr, hc⟩ := paired_numbers hall
  rw [(roundTrips_iff_restores hm hprep hoff hp).trans (restores_of_eids hp), readFragment_dest,
    readFragment_source, readFragment_replyto, readFragment_custodian, readEids, if_pos rfl]
  have hflag : (readTimes (parseFlags {} (processingFlags parse b)) primary).singletonDestFlag =
      b.dest.isSingleton parse := (parseFlags_processingFlags b).2
  simp only [makeEids, hflag, hd, hs, hr, hc]
  rw [sameEid_dest hU hb.dest, sameEid_ipn hU hb.source, sameEid_ipn hU hb.replyto,
    sameEid_ipn hU hb.custodian]

theorem roundTrips_offsets {memory : ℕ} (hU : IsUri parse) (hm : 16384 ≤ memory) {b : PrimaryFields}
    (hb : KnownEids parse b) (hall : allCbheCompat parse b = false) :
    PrimaryRoundTrips parse memory b := by
  obtain ⟨dict, primary, hprep, hne, hoff, hp, hd, hs, hr, hc⟩ := paired_offsets hU hb hall
  rw [(roundTrips_iff_restores hm hprep hoff hp).trans (restores_of_eids hp), readFragment_dest,
    readFragment_source, readFragment_replyto, readFragment_custodian, readEids, if_neg hne]
  exact ⟨hd.sameEid hU, hs.sameEid hU, hr.sameEid hU, hc.sameEid hU⟩

/-- A primary block is read back unless it is written without a dictionary and some id is not what
the numbers say. -/
theorem primary_roundTrips_iff {memory : ℕ} (hU : IsUri parse) (hm : 16384 ≤ memory)
    {b : PrimaryFields} (hb : KnownEids parse b) :
    PrimaryRoundTrips parse memory b ↔ Restorable parse b := by
  cases hall : allCbheCompat parse b with
  | true =>
    rw [roundTrips_numbers hU hm hb hall]
    exact ⟨fun h _ => h, fun h => h hall⟩
  | false =>
    refine ⟨fun _ h => ?_, fun _ => roundTrips_offsets hU hm hb hall⟩
    rw [hall] at h
    cases h

end

instance (parse : List UInt8 → Option Uri) (e : Eid) : Decidable (KnownEid parse e) :=
  decidable_of_iff ((e.uri? parse).any fun u => u.scheme?.isSome) <| by
    simp [KnownEid, Option.any_eq_true]

instance (parse : List UInt8 → Option Uri) (scheme : List UInt8) (e : Eid) :
    Decidable (Numbered parse scheme e) :=
  decidable_of_iff ((e.uri? parse).any fun u => u.scheme = scheme &&
    u.ssp = decimal (e.nodeNum parse) ++ text "." ++ decimal (e.serviceNum parse)) <| by
    simp [Numbered, Option.any_eq_true]

/-- Ids of the scheme dtn that share texts, reports to nobody. -/
def dtnFields : PrimaryFields :=
  { dest := ⟨text "dtn://sink/app"⟩
    source := ⟨text "dtn://sink/app"⟩
    isFragment := true
    creationSecs := 18446744073709551615
    origLength := 7 }

/-- Numbered ids and no custodian. -/
def ipnFields : PrimaryFields :=
  { dest := ⟨text "ipn:2.1"⟩
    source := ⟨text "ipn:1.1"⟩
    replyto := ⟨text "ipn:1.1"⟩ }

theorem dtnFields_roundTrips : PrimaryRoundTrips splitUri 16384 dtnFields :=
  (primary_roundTrips_iff isUri_splitUri le_rfl
    ⟨by decide +kernel, by decide +kernel, by decide +kernel, by decide +kernel⟩).mpr
    fun h => absurd h (by decide +kernel)

/-- A custodian that is null comes back as node 0. -/
theorem ipnFields_not_roundTrips :
    KnownEids splitUri ipnFields ∧ ¬ PrimaryRoundTrips splitUri 16384 ipnFields := by
  have hb : KnownEids splitUri ipnFields :=
    ⟨by decide +kernel, by decide +kernel, by decide +kernel, by decide +kernel⟩
  refine ⟨hb, fun h => ?_⟩
  have hcustodian := ((roundTrips_numbers isUri_splitUri le_rfl hb (by decide +kernel)).mp h).2.2.2
  exact absurd hcustodian (by decide +kernel)

end Dtnme.Bundling
