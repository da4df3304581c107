import Dtnme.Bundling.CborArrays
import Dtnme.Bundling.CborEncoder
import Dtnme.Bundling.ImcState

/-! # The multicast state block

A multicast bundle takes its state along in one of three formats: the regions and the nodes that
processed it, the same with two flags for a petition, or three flags for a briefing. Each format is
an array behind its version, and its lists are arrays of their own.
-/

namespace Dtnme.Bundling
open Library TinyCbor Decoder

/-- What the processor reads of a bundle. -/
structure ImcBundle where
  imcState : ImcState
  imcBriefing : Bool
  destNodeNum : ℕ

namespace ImcStateBlock

/-- What the processor sets in a bundle. -/
inductive ImcWrite
  | isDtnmeNode (t : Bool)
  | addRegionProcessed (region : ℕ)
  | addProcessedByNode (nodeNum : ℕ)
  | destNodeHandled (nodeNum : ℕ)
  | syncRequest (t : Bool)
  | syncReply (t : Bool)
  | isProxyPetition (t : Bool)
  | isRouterNode (t : Bool)
  deriving DecidableEq

def ImcWrite.apply (s : ImcState) : ImcWrite → ImcState
  | .isDtnmeNode t => { s with isDtnmeNode := t }
  | .addRegionProcessed region => s.addImcRegionProcessed region
  | .addProcessedByNode nodeNum => s.addImcProcessedByNode nodeNum
  | .destNodeHandled nodeNum => s.imcDestNodeHandled nodeNum
  | .syncRequest t => { s with syncRequest := t }
  | .syncReply t => { s with syncReply := t }
  | .isProxyPetition t => { s with isProxyPetition := t }
  | .isRouterNode t => { s with isRouterNode := t }

/-! ## Decoding -/

/-- The list of processed regions. -/
def decodeRegions : CborValue → Decode ImcWrite CborValue :=
  decodeArray 0 (2 ^ 64 - 1) (decodeUintsTo fun region => [.addRegionProcessed region])

/-- The list of nodes that processed the bundle. -/
def decodeNodes : CborValue → Decode ImcWrite CborValue :=
  decodeArray 0 (2 ^ 64 - 1)
    (decodeUintsTo fun nodeNum => [.addProcessedByNode nodeNum, .destNodeHandled nodeNum])

def decodeBlockDataFormat0 : CborValue → Decode ImcWrite CborValue :=
  decodeArray 2 2 fun _ format => do
    let format ← decodeRegions format
    decodeNodes format

def decodeBlockDataFormat1 : CborValue → Decode ImcWrite CborValue :=
  decodeArray 4 4 fun _ format => do
    let format ← decodeRegions format
    let format ← decodeBooleanTo (fun t => [.syncRequest t]) format
    let format ← decodeBooleanTo (fun t => [.isProxyPetition t]) format
    decodeNodes format

def decodeBlockDataFormat2 : CborValue → Decode ImcWrite CborValue :=
  decodeArray 3 3 fun _ format => do
    let format ← decodeBooleanTo (fun t => [.syncRequest t]) format
    let format ← decodeBooleanTo (fun t => [.syncReply t]) format
    decodeBooleanTo (fun t => [.isRouterNode t]) format

def decodeFormat (blockArray : CborValue) : ℕ → Decode ImcWrite CborValue
  | 0 => decodeBlockDataFormat0 blockArray
  | 1 => decodeBlockDataFormat1 blockArray
  | 2 => decodeBlockDataFormat2 blockArray
  | _ => fail .fail

/-- `decode_block_data`; the block array is not left. -/
def decodeBlockData : Decode ImcWrite Unit := do
  assign (.isDtnmeNode true)
  let block ← cborParserInit
  let _ ← validateCborFixedArrayLength block 2 2
  let blockArray ← enterContainer block
  let (formatVersion, blockArray) ← decodeUint blockArray
  let _ ← decodeFormat blockArray formatVersion
  pure ()

/-! ## Encoding -/

/-- The value returned, `encoded_len` and what is in the buffer. -/
structure Encoded where
  needBytes : ℤ
  encodedLen : ℤ
  buf : List UInt8
  deriving DecidableEq

def encodeNumbers (format : CborEncoder) (numbers : List ℕ) : Except Failure CborEncoder :=
  format.encodeArray numbers.length fun list => .ok (numbers.foldl CborEncoder.encodeUint list)

/-- What the formats have in common: the block array of the version and an array of its own. -/
def encodeFormat (formatVersion size : ℕ) (items : CborEncoder → Except Failure CborEncoder)
    (room : Option ℕ) : Except Failure Encoded := do
  let encoder ← (cborEncoderInit room).encodeArray 2 fun blockArray =>
    (blockArray.encodeUint formatVersion).encodeArray size items
  let needBytes := i64 encoder.extraBytesNeeded.toNat
  pure ⟨needBytes, if needBytes = 0 then encoder.output.length else 0, encoder.output⟩

def encodeBlockDataFormat0 (s : ImcState) : Option ℕ → Except Failure Encoded :=
  encodeFormat 0 2 fun format => do
    let format ← encodeNumbers format (ImcState.keys s.regions)
    encodeNumbers format (ImcState.keys s.processedBy)

def encodeBlockDataFormat1 (s : ImcState) : Option ℕ → Except Failure Encoded :=
  encodeFormat 1 4 fun format => do
    let format ← encodeNumbers format (ImcState.keys s.regions)
    let format := (format.encodeBoolean s.syncRequest).encodeBoolean s.isProxyPetition
    encodeNumbers format (ImcState.keys s.processedBy)

def encodeBlockDataFormat2 (s : ImcState) : Option ℕ → Except Failure Encoded :=
  encodeFormat 2 3 fun format =>
    .ok (((format.encodeBoolean s.syncRequest).encodeBoolean s.syncReply).encodeBoolean s.isRouterNode)

/-- `encode_block_data`; a null buffer has no room. -/
def encodeBlockData (b : ImcBundle) : Option ℕ → Except Failure Encoded :=
  if b.imcBriefing then encodeBlockDataFormat2 b.imcState
  else if b.destNodeNum = 0 then encodeBlockDataFormat1 b.imcState
  else encodeBlockDataFormat0 b.imcState

/-! ## The bytes of a block -/

def numbersBytes (numbers : List ℕ) : List UInt8 :=
  Cbor.head 4 numbers.length ++ numbers.flatMap (Cbor.head 0)

/-- A block of a version, with an array of `size` items. -/
def blockBytes (formatVersion size : ℕ) (items : List UInt8) : List UInt8 :=
  Cbor.head 4 2 ++ (Cbor.head 0 formatVersion ++ (Cbor.head 4 size ++ items))

def format0Bytes (s : ImcState) : List UInt8 :=
  blockBytes 0 2 (numbersBytes (ImcState.keys s.regions) ++ numbersBytes (ImcState.keys s.processedBy))

def format1Bytes (s : ImcState) : List UInt8 :=
  blockBytes 1 4 (numbersBytes (ImcState.keys s.regions) ++ (booleanBytes s.syncRequest ++
    (booleanBytes s.isProxyPetition ++ numbersBytes (ImcState.keys s.processedBy))))

def format2Bytes (s : ImcState) : List UInt8 :=
  blockBytes 2 3 (booleanBytes s.syncRequest ++ (booleanBytes s.syncReply ++
    booleanBytes s.isRouterNode))

def blockDataBytes (b : ImcBundle) : List UInt8 :=
  if b.imcBriefing then format2Bytes b.imcState
  else if b.destNodeNum = 0 then format1Bytes b.imcState
  else format0Bytes b.imcState

/-! ## What is encoded -/

/-- Without a buffer the number of bytes is returned, with enough room they are written, and with
too little of it the number of those that are missing is returned. -/
def Encodes (encode : Option ℕ → Except Failure Encoded) (data : List UInt8) : Prop :=
  encode none = .ok ⟨data.length, 0, []⟩ ∧ ∀ size, encode (some size) =
    .ok (if data.length ≤ size then ⟨0, data.length, data⟩ else ⟨(data.length - size : ℕ), 0, []⟩)

theorem encodeNumbers_eq (format : CborEncoder) {numbers : List ℕ} (h : numbers.length < 2 ^ 64 - 1) :
    encodeNumbers format numbers = .ok (format.wrote 1 (numbersBytes numbers)) :=
  format.encodeArray_wrote h fun c => by rw [c.foldl_encodeUint]

theorem i64_ofNat {n : ℕ} (h : n < 2 ^ 63) : i64 (UInt64.ofNat n).toNat = n := by
  rw [UInt64.toNat_ofNat', Nat.mod_eq_of_lt (by omega), i64_of_lt h]

theorem encodeFormat_encodes {formatVersion size : ℕ} {bytes : List UInt8}
    {items : CborEncoder → Except Failure CborEncoder} (hsize : size < 2 ^ 64 - 1)
    (hitems : ∀ c, items c = .ok (c.wrote size bytes))
    (hlen : (blockBytes formatVersion size bytes).length < 2 ^ 63) :
    Encodes (encodeFormat formatVersion size items) (blockBytes formatVersion size bytes) := by
  have hblock : ∀ e : CborEncoder, e.encodeArray 2 (fun blockArray =>
      (blockArray.encodeUint formatVersion).encodeArray size items) =
        .ok (e.wrote 1 (blockBytes formatVersion size bytes)) := by
    intro e
    apply e.encodeArray_wrote (by norm_num [CborEncoder.cborIndefiniteLength])
    intro c
    rw [CborEncoder.encodeArray_wrote _ hsize hitems, CborEncoder.encodeUint_eq,
      CborEncoder.wrote_wrote]
  have hpos : 0 < (blockBytes formatVersion size bytes).length := by
    rw [blockBytes, List.length_append, Cbor.length_head]
    omega
  generalize blockBytes formatVersion size bytes = data at *
  constructor
  · obtain ⟨hneed, hout⟩ := CborEncoder.wrote_init_none 1 data
    rw [encodeFormat, hblock]
    simp only [bind, Except.bind, hneed, hout, i64_ofNat hlen]
    rw [if_neg (by omega)]
    rfl
  · intro room
    obtain ⟨hneed, hout⟩ := CborEncoder.wrote_init_some 1 room data
    rw [encodeFormat, hblock]
    simp only [bind, Except.bind, hneed, hout, i64_ofNat (show data.length - room < 2 ^ 63 by omega)]
    by_cases hroom : data.length ≤ room
    · simp only [if_pos hroom]
      rw [if_pos (by omega), Nat.sub_eq_zero_of_le hroom]
      rfl
    · simp only [if_neg hroom]
      rw [if_neg (by omega)]
      rfl

theorem length_numbersBytes_le (numbers : List ℕ) :
    (numbersBytes numbers).length ≤ 9 + 9 * numbers.length := by
  have hhead : ∀ major v, (Cbor.head major v).length ≤ 9 := by
    intro major v
    rw [Cbor.length_head]
    unfold Cbor.follows
    split_ifs <;> omega
  have hlist : (numbers.flatMap (Cbor.head 0)).length ≤ 9 * numbers.length := by
    induction numbers with
    | nil => simp
    | cons v numbers ih =>
      rw [List.flatMap_cons, List.length_append, List.length_cons]
      have hv := hhead 0 v
      omega
  rw [numbersBytes, List.length_append]
  have hn := hhead 4 numbers.length
  omega

theorem length_blockBytes_lt {formatVersion size : ℕ} {items : List UInt8}
    (h : items.length < 2 ^ 45) : (blockBytes formatVersion size items).length < 2 ^ 63 := by
  have hfollows : ∀ v, Cbor.follows v ≤ 8 := by
    intro v
    unfold Cbor.follows
    split_ifs <;> omega
  have hv := hfollows formatVersion
  have hs := hfollows size
  have htwo := hfollows 2
  simp only [blockBytes, List.length_append, Cbor.length_head]
  omega

/-- Lists as a computer may hold them. -/
def Storable (s : ImcState) : Prop :=
  (ImcState.keys s.regions).length < 2 ^ 40 ∧ (ImcState.keys s.processedBy).length < 2 ^ 40

theorem encodeBlockDataFormat0_encodes {s : ImcState} (h : Storable s) :
    Encodes (encodeBlockDataFormat0 s) (format0Bytes s) := by
  have hregions : (ImcState.keys s.regions).length < 2 ^ 64 - 1 := h.1.trans (by norm_num)
  have hnodes : (ImcState.keys s.processedBy).length < 2 ^ 64 - 1 := h.2.trans (by norm_num)
  apply encodeFormat_encodes (by norm_num)
  · intro c
    simp only [encodeNumbers_eq _ hregions, encodeNumbers_eq _ hnodes, bind, Except.bind,
      CborEncoder.wrote_wrote]
  · have hr := length_numbersBytes_le (ImcState.keys s.regions)
    have hn := length_numbersBytes_le (ImcState.keys s.processedBy)
    obtain ⟨hrs, hns⟩ := h
    apply length_blockBytes_lt
    rw [List.length_append]
    omega

theorem encodeBlockDataFormat1_encodes {s : ImcState} (h : Storable s) :
    Encodes (encodeBlockDataFormat1 s) (format1Bytes s) := by
  have hregions : (ImcState.keys s.regions).length < 2 ^ 64 - 1 := h.1.trans (by norm_num)
  have hnodes : (ImcState.keys s.processedBy).length < 2 ^ 64 - 1 := h.2.trans (by norm_num)
  apply encodeFormat_encodes (by norm_num)
  · intro c
    simp only [encodeNumbers_eq _ hregions, encodeNumbers_eq _ hnodes, bind, Except.bind,
      CborEncoder.encodeBoolean_eq, CborEncoder.wrote_wrote, List.append_assoc]
    rfl
  · have hr := length_numbersBytes_le (ImcState.keys s.regions)
    have hn := length_numbersBytes_le (ImcState.keys s.processedBy)
    obtain ⟨hrs, hns⟩ := h
    apply length_blockBytes_lt
    simp only [List.length_append, booleanBytes_length]
    omega

theorem encodeBlockDataFormat2_encodes (s : ImcState) :
    Encodes (encodeBlockDataFormat2 s) (format2Bytes s) := by
  apply encodeFormat_encodes (by norm_num)
  · intro c
    simp only [CborEncoder.encodeBoolean_eq, CborEncoder.wrote_wrote, List.append_assoc]
    rfl
  · apply length_blockBytes_lt
    simp only [List.length_append, booleanBytes_length]
    norm_num

theorem encodeBlockData_encodes {b : ImcBundle} (h : b.imcBriefing = false → Storable b.imcState) :
    Encodes (encodeBlockData b) (blockDataBytes b) := by
  unfold encodeBlockData blockDataBytes
  by_cases hbriefing : b.imcBriefing = true
  · rw [if_pos hbriefing, if_pos hbriefing]
    exact encodeBlockDataFormat2_encodes b.imcState
  · have hs := h (by simpa using hbriefing)
    rw [if_neg hbriefing, if_neg hbriefing]
    by_cases hdest : b.destNodeNum = 0
    · rw [if_pos hdest, if_pos hdest]
      exact encodeBlockDataFormat1_encodes hs
    · rw [if_neg hdest, if_neg hdest]
      exact encodeBlockDataFormat0_encodes hs

/-! ## What is decoded -/

/-- The lists of a state hold words. -/
structure Words (s : ImcState) : Prop where
  regions_lt : ∀ region ∈ ImcState.keys s.regions, region < 2 ^ 64
  nodes_lt : ∀ nodeNum ∈ ImcState.keys s.processedBy, nodeNum < 2 ^ 64

/-- The lists of a state are not too long for the parser. -/
structure Parsable (s : ImcState) : Prop extends Words s where
  regions_short : (ImcState.keys s.regions).length < uint32Max
  nodes_short : (ImcState.keys s.processedBy).length < uint32Max

def regionWrites (regions : List ℕ) : List ImcWrite := regions.flatMap fun r => [.addRegionProcessed r]

def nodeWrites (nodes : List ℕ) : List ImcWrite :=
  nodes.flatMap fun n => [.addProcessedByNode n, .destNodeHandled n]

theorem decodeRegions_decodes {regions : List ℕ} (hshort : regions.length < uint32Max)
    (hlt : ∀ r ∈ regions, r < 2 ^ 64) :
    Decodes decodeRegions 1 (numbersBytes regions) (regionWrites regions) :=
  (decodes_uints _ hlt).array hshort (Nat.zero_le _)
    (hshort.le.trans (by norm_num [uint32Max]))

theorem decodeNodes_decodes {nodes : List ℕ} (hshort : nodes.length < uint32Max)
    (hlt : ∀ n ∈ nodes, n < 2 ^ 64) :
    Decodes decodeNodes 1 (numbersBytes nodes) (nodeWrites nodes) :=
  (decodes_uints _ hlt).array hshort (Nat.zero_le _)
    (hshort.le.trans (by norm_num [uint32Max]))

/-- The version is decoded in front of the array of the format. -/
theorem decodeBlockData_version {formatVersion size : ℕ} {items : List UInt8}
    (hversion : formatVersion < 2 ^ 64) (hitems : Cbor.Items 1 (Cbor.head 4 size ++ items)) :
    ∃ p format, Stands (blockBytes formatVersion size items) p [] 1 (Cbor.head 4 size ++ items) format ∧
      decodeBlockData (blockBytes formatVersion size items) = (do
        assign (ImcWrite.isDtnmeNode true)
        let _ ← decodeFormat format formatVersion
        pure ()) (blockBytes formatVersion size items) := by
  have hv : Cbor.IsHead 0 formatVersion (Cbor.head 0 formatVersion) := .of_head (by norm_num) hversion
  have htwo : Cbor.IsHead 4 2 (Cbor.head 4 2) := by decide
  have hbody : Cbor.Items 2 (Cbor.head 0 formatVersion ++ (Cbor.head 4 size ++ items)) :=
    .number hv (.inl rfl) hitems
  have hblock : Cbor.Items 1 (blockBytes formatVersion size items) := by
    simpa [blockBytes] using Cbor.Items.array htwo hbody .nil
  have hsmall : 2 < uint32Max := by norm_num [uint32Max]
  have hstart : ∃ block, cborParserInit (ω := ImcWrite) (blockBytes formatVersion size items) =
      ([], .done block) ∧ Stands (blockBytes formatVersion size items) 0 [] 1
        (blockBytes formatVersion size items) block :=
    preparseValue_stands hblock (by norm_num [uint32Max]) (by simp)
  obtain ⟨block, hinit, hstands⟩ := hstart
  have hat : Stands (blockBytes formatVersion size items) 0 [] (0 + 1) (Cbor.head 4 2 ++
      ((Cbor.head 0 formatVersion ++ (Cbor.head 4 size ++ items)) ++ [])) block := by
    simpa [blockBytes] using hstands
  obtain ⟨hvalid, ⟨inner, henter, hinner⟩, -⟩ :=
    hat.array (ω := ImcWrite) htwo hbody .nil hsmall (le_refl 2) (le_refl 2)
  obtain ⟨format, hformat, hlast⟩ := hinner.uint (ω := ImcWrite) hv hitems
  have hfirst : ∀ buf, (assign (.isDtnmeNode true) : Decode ImcWrite Unit) buf =
      ([.isDtnmeNode true], .done ()) := fun _ => rfl
  refine ⟨_, format, hlast, ?_⟩
  rw [decodeBlockData, bind_done (hfirst _), bind_done (hfirst _), bind_of_done hinit,
    bind_of_done hvalid, bind_of_done henter, bind_of_done hformat]

/-- A block of a version whose array is decoded. -/
theorem decodeBlockData_block {formatVersion size : ℕ} {items : List UInt8} {ws : List ImcWrite}
    (hversion : formatVersion < 2 ^ 64)
    (h : Decodes (fun it => decodeFormat it formatVersion) 1 (Cbor.head 4 size ++ items) ws) :
    decodeBlockData (blockBytes formatVersion size items) =
      (.isDtnmeNode true :: ws, .done ()) := by
  obtain ⟨p, format, hformat, heq⟩ := decodeBlockData_version hversion h.1
  obtain ⟨final, hfinal, -⟩ := h.2 _ _ _ 0 [] format (by simpa using hformat) .nil
  have hfirst : ∀ buf, (assign (.isDtnmeNode true) : Decode ImcWrite Unit) buf =
      ([.isDtnmeNode true], .done ()) := fun _ => rfl
  rw [heq, bind_done (hfirst _), bind_done hfinal]
  simp [pure, ret]

/-- What the array of a format makes the processor set. -/
def formatWrites (b : ImcBundle) : List ImcWrite :=
  if b.imcBriefing then
    [.syncRequest b.imcState.syncRequest, .syncReply b.imcState.syncReply,
      .isRouterNode b.imcState.isRouterNode]
  else if b.destNodeNum = 0 then
    regionWrites (ImcState.keys b.imcState.regions) ++ ([.syncRequest b.imcState.syncRequest] ++
      ([.isProxyPetition b.imcState.isProxyPetition] ++
        nodeWrites (ImcState.keys b.imcState.processedBy)))
  else
    regionWrites (ImcState.keys b.imcState.regions) ++
      nodeWrites (ImcState.keys b.imcState.processedBy)

theorem decodeBlockData_blockDataBytes {b : ImcBundle}
    (h : b.imcBriefing = false → Parsable b.imcState) :
    decodeBlockData (blockDataBytes b) = (.isDtnmeNode true :: formatWrites b, .done ()) := by
  have hsmall : ∀ n, n ≤ 4 → n < uint32Max := fun n hn => lt_of_le_of_lt hn (by norm_num [uint32Max])
  unfold blockDataBytes formatWrites
  by_cases hbriefing : b.imcBriefing = true
  · rw [if_pos hbriefing, if_pos hbriefing]
    apply decodeBlockData_block (by norm_num)
    exact ((decodes_boolean _ _).bind ((decodes_boolean _ _).bind (decodes_boolean _ _))).array
      (hsmall 3 (by norm_num)) (le_refl 3) (le_refl 3)
  · have hs := h (by simpa using hbriefing)
    have hregions := decodeRegions_decodes hs.regions_short hs.regions_lt
    have hnodes := decodeNodes_decodes hs.nodes_short hs.nodes_lt
    rw [if_neg hbriefing, if_neg hbriefing]
    by_cases hdest : b.destNodeNum = 0
    · rw [if_pos hdest, if_pos hdest]
      apply decodeBlockData_block (by norm_num)
      exact (hregions.bind ((decodes_boolean _ _).bind ((decodes_boolean _ _).bind hnodes))).array
        (hsmall 4 (by norm_num)) (le_refl 4) (le_refl 4)
    · rw [if_neg hdest, if_neg hdest]
      apply decodeBlockData_block (by norm_num)
      exact (hregions.bind hnodes).array (hsmall 2 (by norm_num)) (le_refl 2) (le_refl 2)

/-! ## What is restored -/

/-- The part of a state that blocks are about. -/
structure Carried where
  regions : NodeMap := .empty
  processedBy : NodeMap := .empty
  syncRequest : Bool := false
  syncReply : Bool := false
  isProxyPetition : Bool := false
  isRouterNode : Bool := false

def carried (s : ImcState) : Carried where
  regions := s.regions
  processedBy := s.processedBy
  syncRequest := s.syncRequest
  syncReply := s.syncReply
  isProxyPetition := s.isProxyPetition
  isRouterNode := s.isRouterNode

/-- The part that the format for the bundle carries. -/
def carriedBy (b : ImcBundle) : Carried :=
  if b.imcBriefing then
    { syncRequest := b.imcState.syncRequest, syncReply := b.imcState.syncReply,
      isRouterNode := b.imcState.isRouterNode }
  else if b.destNodeNum = 0 then
    { regions := b.imcState.regions, processedBy := b.imcState.processedBy,
      syncRequest := b.imcState.syncRequest, isProxyPetition := b.imcState.isProxyPetition }
  else { regions := b.imcState.regions, processedBy := b.imcState.processedBy }

/-- The states that a bundle may come to have. -/
inductive Reached : ImcState → Prop
  | fresh : Reached {}
  | step {s t op} (hs : Reached s) (hop : s.step op = .ok t) : Reached t
  | write {s} (hs : Reached s) (w : ImcWrite) : Reached (w.apply s)

theorem Reached.consistent {s : ImcState} (h : Reached s) : ImcState.Consistent s := by
  induction h with
  | fresh => exact .initial
  | @step s t op hs hop ih =>
    have hdests : ImcState.HasDests s op := by
      cases op with
      | copyAllUnhandledNodesToViaLink l =>
        change s.copyAllUnhandledNodesToViaLink l = .ok t at hop
        unfold ImcState.copyAllUnhandledNodesToViaLink at hop
        change s.destMap.isSome
        cases hmap : s.destMap with
        | none =>
          rw [hmap] at hop
          cases hop
        | some m => rfl
      | _ => trivial
    obtain ⟨t', ht', hc⟩ := ih.step hdests
    rw [hop] at ht'
    obtain rfl := Except.ok.inj ht'
    exact hc
  | @write s hs w ih =>
    cases w with
    | addRegionProcessed r => exact ih.addImcRegionProcessed r
    | addProcessedByNode n => exact ih.addImcProcessedByNode n
    | destNodeHandled n => exact ih.imcDestNodeHandled n
    | _ => exact ⟨ih.handled, ih.notHandled, ih.pos, ih.orig, ih.region, ih.processed⟩

section
variable {s : ImcState} (t : ImcState)

theorem foldl_regionWrites (regions : List ℕ) :
    (regionWrites regions).foldl ImcWrite.apply t = regions.foldl ImcState.addImcRegionProcessed t := by
  rw [regionWrites, List.foldl_flatMap]
  rfl

/-- A node of the list is handled. -/
def addNode (t : ImcState) (n : ℕ) : ImcState := (t.addImcProcessedByNode n).imcDestNodeHandled n

theorem foldl_nodeWrites (nodes : List ℕ) :
    (nodeWrites nodes).foldl ImcWrite.apply t = nodes.foldl addNode t := by
  rw [nodeWrites, List.foldl_flatMap]
  rfl

theorem carried_regions (h : ImcState.Consistent s) (ht : t.regions = .empty) :
    carried ((ImcState.keys s.regions).foldl ImcState.addImcRegionProcessed t) =
      { carried t with regions := s.regions } := by
  have hregions : ((ImcState.keys s.regions).foldl ImcState.addImcRegionProcessed t).regions =
      s.regions := by
    ext1 n
    rw [ImcState.foldl_find? (p := ImcState.regions) (g := fun _ => True) (f := fun _ => some true)
      (fun _ => rfl) ImcState.regions_addImcRegionProcessed, ht]
    simp only [ImcState.mem_keys]
    cases hn : s.regions.find? n with
    | none => simp
    | some b => simp [h.region n b hn]
  obtain ⟨m, hm⟩ := ImcState.foldl_addImcRegionProcessed_eq (ImcState.keys s.regions) t
  rw [hm] at hregions ⊢
  rw [← hregions]
  rfl

theorem processedBy_addNode (k n : ℕ) : (addNode t k).processedBy.find? n =
    if n = k ∧ 0 < k then some ((t.processedBy.find? n).getD true) else t.processedBy.find? n := by
  rw [addNode, ImcState.processedBy_of_other (ImcState.other_imcDestNodeHandled _ k),
    ImcState.processedBy_addImcProcessedByNode]

/-- What the nodes do not touch. -/
theorem carried_addNode (k : ℕ) :
    { carried (addNode t k) with processedBy := .empty } = { carried t with processedBy := .empty } := by
  obtain ⟨m, hm⟩ := t.addImcProcessedByNode_eq k
  have hother := ImcState.other_imcDestNodeHandled (t.addImcProcessedByNode k) k
  have hcarried : ∀ {x y : ImcState}, x.other = y.other → carried x = carried y :=
    fun h => (congrArg carried h : carried (ImcState.other _) = carried (ImcState.other _))
  rw [addNode, hcarried hother, hm]
  rfl

theorem carried_nodes (h : ImcState.Consistent s) (ht : t.processedBy = .empty) :
    carried ((ImcState.keys s.processedBy).foldl addNode t) =
      { carried t with processedBy := s.processedBy } := by
  have hnodes : ((ImcState.keys s.processedBy).foldl addNode t).processedBy = s.processedBy := by
    ext1 n
    rw [ImcState.foldl_find? (p := ImcState.processedBy) (g := (0 < ·))
      (f := fun o => some (o.getD true)) (fun _ => rfl) processedBy_addNode, ht]
    simp only [ImcState.mem_keys]
    cases hn : s.processedBy.find? n with
    | none => simp
    | some b =>
      obtain ⟨hpos, rfl⟩ := h.processed n b hn
      simp [hpos]
  have hframe := ImcState.foldl_frame (p := fun x => { carried x with processedBy := .empty })
    carried_addNode (ImcState.keys s.processedBy) t
  have hwhole : ∀ c : Carried, c = { ({ c with processedBy := .empty } : Carried) with
      processedBy := c.processedBy } := fun _ => rfl
  rw [hwhole (carried _), hframe]
  change ({ carried t with processedBy := ImcState.processedBy _ } : Carried) = _
  rw [hnodes]

end

theorem isDtnmeNode_foldl_addNode (nodes : List ℕ) (t : ImcState) :
    (nodes.foldl addNode t).isDtnmeNode = t.isDtnmeNode := by
  apply ImcState.foldl_frame (p := ImcState.isDtnmeNode)
  intro t k
  obtain ⟨m, hm⟩ := t.addImcProcessedByNode_eq k
  have hother := congrArg ImcState.isDtnmeNode
    (ImcState.other_imcDestNodeHandled (t.addImcProcessedByNode k) k)
  rw [hm] at hother
  rw [addNode, hm]
  exact hother

/-- A fresh bundle has what the format carries after the block, and is known to come from a node
with states. -/
def Restores (b : ImcBundle) (data : List UInt8) : Prop :=
  (decodeBlockData data).2 = .done () ∧
    carried ((decodeBlockData data).1.foldl ImcWrite.apply {}) = carriedBy b ∧
    ((decodeBlockData data).1.foldl ImcWrite.apply {}).isDtnmeNode = true

theorem restores_blockDataBytes {b : ImcBundle} (hs : ImcState.Consistent b.imcState)
    (h : b.imcBriefing = false → Parsable b.imcState) : Restores b (blockDataBytes b) := by
  rw [Restores, decodeBlockData_blockDataBytes h]
  refine ⟨rfl, ?_⟩
  unfold formatWrites carriedBy
  simp only [List.foldl_cons]
  by_cases hbriefing : b.imcBriefing = true
  · simp only [if_pos hbriefing]
    exact ⟨rfl, rfl⟩
  · simp only [if_neg hbriefing]
    set start := ImcWrite.apply {} (.isDtnmeNode true)
    have hregions : carried ((ImcState.keys b.imcState.regions).foldl
        ImcState.addImcRegionProcessed start) = { carried start with regions := b.imcState.regions } :=
      carried_regions start hs rfl
    have hnone : ((ImcState.keys b.imcState.regions).foldl
        ImcState.addImcRegionProcessed start).processedBy = .empty :=
      congrArg Carried.processedBy hregions
    have hnode : ((ImcState.keys b.imcState.regions).foldl
        ImcState.addImcRegionProcessed start).isDtnmeNode = true :=
      ImcState.foldl_frame (o := ImcState.addImcRegionProcessed) (p := ImcState.isDtnmeNode)
        (fun _ _ => rfl) _ start
    by_cases hdest : b.destNodeNum = 0
    · simp only [if_pos hdest, List.foldl_append, foldl_regionWrites, foldl_nodeWrites]
      rw [carried_nodes _ hs (by exact hnone), isDtnmeNode_foldl_addNode]
      generalize (ImcState.keys b.imcState.regions).foldl ImcState.addImcRegionProcessed start = t at *
      refine ⟨?_, hnode⟩
      change ({ carried t with
        processedBy := b.imcState.processedBy
        syncRequest := b.imcState.syncRequest
        isProxyPetition := b.imcState.isProxyPetition } : Carried) = _
      rw [hregions]
      rfl
    · simp only [if_neg hdest, List.foldl_append, foldl_regionWrites, foldl_nodeWrites]
      rw [carried_nodes _ hs hnone, isDtnmeNode_foldl_addNode, hregions]
      exact ⟨rfl, hnode⟩

/-- Encoding tells the size of the block and writes it, and decoding the block restores what its
format carries. -/
def RoundTrip (b : ImcBundle) : Prop :=
  ∃ data, Encodes (encodeBlockData b) data ∧ Restores b data

/-- A multicast state with lists that are not too long for the parser goes through its block. -/
theorem blockData_roundTrip (b : ImcBundle) (hs : Reached b.imcState)
    (hlists : b.imcBriefing = false → Parsable b.imcState) : RoundTrip b := by
  refine ⟨blockDataBytes b, encodeBlockData_encodes fun hb => ?_,
    restores_blockDataBytes hs.consistent hlists⟩
  have hbound : uint32Max < 2 ^ 40 := by norm_num [uint32Max]
  exact ⟨(hlists hb).regions_short.trans hbound, (hlists hb).nodes_short.trans hbound⟩

theorem blockData_roundTrip_petition :
    RoundTrip ⟨(({} : ImcState).addImcRegionProcessed 300).addImcProcessedByNode 5, false, 0⟩ :=
  blockData_roundTrip _
    (@Reached.step _ _ (.addProcessedByNode 5) (@Reached.step _ _ (.addRegionProcessed 300) .fresh rfl) rfl)
    fun _ => ⟨⟨by decide, by decide⟩, by decide, by decide⟩

/-! ## Lists that are too long -/

theorem numbersBytes_items {numbers : List ℕ} (hlen : numbers.length < 2 ^ 64)
    (hlt : ∀ n ∈ numbers, n < 2 ^ 64) : Cbor.Items 1 (numbersBytes numbers) := by
  have hbody := (decodes_uints (fun _ => ([] : List ImcWrite)) hlt).1
  simpa [numbersBytes] using Cbor.Items.array (.of_head (by norm_num) hlen) hbody .nil

/-- A list of regions that the parser does not enter. -/
theorem decodeRegions_fails {buf rest items : List UInt8} {p r : ℕ} {it : CborValue}
    {regions : List ℕ} (hat : Stands buf p rest (r + 1) (numbersBytes regions ++ items) it)
    (hlong : uint32Max ≤ regions.length) (hlen : regions.length < 2 ^ 64) :
    decodeRegions it buf = ([], .stop .fail) := by
  have ha : Cbor.IsHead 4 regions.length (Cbor.head 4 regions.length) := .of_head (by norm_num) hlen
  rw [numbersBytes, List.append_assoc] at hat
  have hcount := validateCborFixedArrayLength_array (ω := ImcWrite) (r + 1) 0 (2 ^ 64 - 1) ha
    (hat.drop_eq.trans (List.append_assoc _ _ _))
  rw [← hat.eq_headAt ha (by omega), if_neg (by omega)] at hcount
  rw [decodeRegions, decodeArray, bind_of_done hcount, bind_of_stop (hat.enter_fails ha hlong)]

theorem decodeBlockData_format0_fails {s : ImcState} (hwords : Words s) (hstorable : Storable s)
    (hlong : uint32Max ≤ (ImcState.keys s.regions).length) :
    (decodeBlockData (format0Bytes s)).2 = .stop .fail := by
  have hregions : (ImcState.keys s.regions).length < 2 ^ 64 := hstorable.1.trans (by norm_num)
  have hnodes : (ImcState.keys s.processedBy).length < 2 ^ 64 := hstorable.2.trans (by norm_num)
  have hbody := (numbersBytes_items hregions hwords.regions_lt).append
    (numbersBytes_items hnodes hwords.nodes_lt)
  have htwo : Cbor.IsHead 4 2 (Cbor.head 4 2) := by decide
  have hsmall : 2 < uint32Max := by norm_num [uint32Max]
  have harray : Cbor.Items 1 (Cbor.head 4 2 ++ (numbersBytes (ImcState.keys s.regions) ++
      numbersBytes (ImcState.keys s.processedBy))) := by
    simpa using Cbor.Items.array htwo hbody .nil
  obtain ⟨p, format, hformat, heq⟩ := decodeBlockData_version (show 0 < 2 ^ 64 by norm_num) harray
  obtain ⟨hvalid, ⟨inner, henter, hinner⟩, -⟩ := Stands.array (ω := ImcWrite) (by simpa using hformat)
    htwo hbody .nil hsmall (le_refl 2) (le_refl 2)
  have hlists := bind_of_stop (f := decodeNodes) (decodeRegions_fails hinner hlong hregions)
  have hfields : decodeFormat format 0 (format0Bytes s) = ([], .stop .fail) := by
    rw [decodeFormat, decodeBlockDataFormat0, decodeArray, format0Bytes, bind_of_done hvalid,
      bind_of_done henter]
    exact bind_of_stop hlists
  have hfirst : ∀ buf, (assign (.isDtnmeNode true) : Decode ImcWrite Unit) buf =
      ([.isDtnmeNode true], .done ()) := fun _ => rfl
  have hall : decodeBlockData (format0Bytes s) = _ := heq
  rw [hall, bind_done (hfirst _)]
  rw [format0Bytes] at hfields
  rw [bind_of_stop hfields]

/-- Encoding determines the block. -/
theorem Encodes.unique {encode : Option ℕ → Except Failure Encoded} {data data' : List UInt8}
    (h : Encodes encode data) (h' : Encodes encode data') : data = data' := by
  have hlen := h.1.symm.trans h'.1
  have hbuf := (h.2 data.length).symm.trans (h'.2 data.length)
  simp only [Except.ok.injEq, Encoded.mk.injEq, Nat.cast_inj, and_true] at hlen
  rw [if_pos le_rfl, if_pos hlen.ge] at hbuf
  exact congrArg Encoded.buf (Except.ok.inj hbuf)

theorem not_roundTrip_of_long {s : ImcState} {destNodeNum : ℕ} (hdest : destNodeNum ≠ 0)
    (hwords : Words s) (hstorable : Storable s)
    (hlong : uint32Max ≤ (ImcState.keys s.regions).length) : ¬ RoundTrip ⟨s, false, destNodeNum⟩ := by
  rintro ⟨data, hencodes, hdone, -⟩
  have hbytes : blockDataBytes ⟨s, false, destNodeNum⟩ = format0Bytes s := by
    rw [blockDataBytes, if_neg (by simp), if_neg hdest]
  obtain rfl := hencodes.unique (encodeBlockData_encodes fun _ => hstorable)
  rw [hbytes, decodeBlockData_format0_fails hwords hstorable hlong] at hdone
  cases hdone

/-- A state with as many regions as the parser takes no array of. -/
def manyRegions : ImcState := (List.range uint32Max).foldl ImcState.addImcRegionProcessed {}

theorem length_keys_manyRegions : (ImcState.keys manyRegions.regions).length = uint32Max ∧
    ∀ r ∈ ImcState.keys manyRegions.regions, r < uint32Max := by
  have hmem : ∀ r, r ∈ ImcState.keys manyRegions.regions ↔ r < uint32Max := by
    intro r
    rw [ImcState.mem_keys, manyRegions,
      ImcState.foldl_find? (p := ImcState.regions) (g := fun _ => True) (f := fun _ => some true)
        (fun _ => rfl) ImcState.regions_addImcRegionProcessed]
    by_cases hr : r < uint32Max <;> simp [hr, ImcState.regions]
  have hnodup : (ImcState.keys manyRegions.regions).Nodup :=
    (List.pairwise_map.mpr manyRegions.regions.sorted).imp (fun h => h.ne)
  have hperm : (ImcState.keys manyRegions.regions).Perm (List.range uint32Max) :=
    (List.perm_ext_iff_of_nodup hnodup List.nodup_range).mpr (by simpa using hmem)
  exact ⟨by simpa using hperm.length_eq, fun r hr => (hmem r).mp hr⟩

/-- The block of a state with too many regions is written and not read. -/
theorem blockData_manyRegions : ¬ ∀ b : ImcBundle, Reached b.imcState → Words b.imcState →
    RoundTrip b := by
  intro hall
  obtain ⟨hlen, hlt⟩ := length_keys_manyRegions
  have hreached : Reached manyRegions := by
    unfold manyRegions
    generalize List.range uint32Max = l
    have hfrom : ∀ s, Reached s → Reached (l.foldl ImcState.addImcRegionProcessed s) := by
      induction l with
      | nil => exact fun s hs => hs
      | cons r l ih => exact fun s hs => ih _ (.write hs (.addRegionProcessed r))
    exact hfrom _ .fresh
  have hnodes : ImcState.keys manyRegions.processedBy = [] := by
    unfold manyRegions
    generalize List.range uint32Max = l
    rw [ImcState.foldl_frame (o := ImcState.addImcRegionProcessed) (p := ImcState.processedBy)
      (fun _ _ => rfl) l {}]
    rfl
  have hwords : Words manyRegions :=
    ⟨fun r hr => (hlt r hr).trans (by norm_num [uint32Max]), by simp [hnodes]⟩
  have hstorable : Storable manyRegions :=
    ⟨by rw [hlen]; norm_num [uint32Max], by simp [hnodes]⟩
  generalize manyRegions = s at *
  exact not_roundTrip_of_long one_ne_zero hwords hstorable hlen.ge (hall ⟨s, false, 1⟩ hreached hwords)

end ImcStateBlock

end Dtnme.Bundling
