import Dtnme.Bundling.CanonicalBlock
import Dtnme.Bundling.CborUtil

/-! # The payload block of version 7

The block comes in chunks. Its header is decoded as soon as there is enough of it; the data behind it
goes to the payload of the bundle, then come the bytes of the CRC and the break that ends the bundle.
The length of the header is not the parser's but is computed from the length of the data, as if that
were written in its shortest form.
-/

namespace Dtnme.Bundling.TinyCbor
open Library Decoder

/-! ## Fields from mark to mark -/
section
variable {ω : Type} {Fine : List UInt8 → ω → Prop}

/-- A byte at the cursor's head was looked at with the head. -/
theorem dataAvailable_moves {it : CborValue} (hvalid : it.type ≠ .invalid) :
    Moves Fine (dataAvailableToParse it 1) it (fun _ => it) where
  done := by
    intro buf log u hm h
    have hext : it.ptr + 1 ≤ it.extent := by
      rw [CborValue.extent, if_neg hvalid, CborValue.behind]
      omega
    have hlog : log = [] := by
      have hsilent := (silent_dataAvailableToParse (ω := ω) it 1).log_eq buf
      rw [h] at hsilent
      exact hsilent
    refine ⟨le_rfl, hm, fun buf' hm' _ => ?_, fun hi => ⟨hi, by simp [hlog]⟩⟩
    rw [hlog]
    exact if_pos (hext.trans hm')
  stop := by
    intro buf log e later _ h
    unfold dataAvailableToParse at h
    split_ifs at h <;> simp at h
  more := by
    intro buf log later _ h
    have hsilent := (silent_dataAvailableToParse (ω := ω) it 1).log_eq buf
    rw [h] at hsilent
    obtain rfl : log = [] := hsilent
    exact List.nil_prefix

/-- No byte at the cursor, or an error. -/
theorem dataAvailable_fail_moves {α : Type} {it : CborValue} {e : Failure} {next : α → CborValue} :
    Moves Fine (dataAvailableToParse it 1 >>= fun _ => (fail e : Decode ω α)) it next where
  done := by
    intro buf log a _ h
    obtain ⟨_, _, _, _, h₂, _⟩ := bind_eq_done h
    simp at h₂
  stop := by
    intro buf log e' later _ h
    by_cases hlen : it.ptr + 1 ≤ buf.length
    · have hbuf : ∀ l : List UInt8, it.ptr + 1 ≤ l.length →
          dataAvailableToParse (ω := ω) it 1 l = ([], .done ()) := fun l hl => if_pos hl
      rw [bind_done (hbuf _ hlen)] at h
      rw [bind_done (hbuf _ (by rw [List.length_append]; omega))]
      exact h
    · have hbuf : dataAvailableToParse (ω := ω) it 1 buf = ([], .more) := if_neg hlen
      rw [bind_more hbuf] at h
      simp at h
  more := by
    intro buf log later _ h
    have hsilent := ((silent_dataAvailableToParse (ω := ω) it 1).bind fun _ =>
      silent_fail (ω := ω) (α := α) e).log_eq buf
    rw [h] at hsilent
    obtain rfl : log = [] := hsilent
    exact List.nil_prefix

theorem decodeUint_moves (it : CborValue) : Moves Fine (decodeUint it) it Prod.snd := by
  unfold decodeUint
  by_cases htype : it.type = .integer
  · simp only [if_pos htype]
    exact (dataAvailable_moves (by simp [htype])).bind fun _ =>
      (advanceFixed_moves it).bind fun _ => .ret rfl
  · simp only [if_neg htype]
    exact dataAvailable_fail_moves

theorem validate_moves (it : CborValue) (lo hi : ℕ) :
    Moves Fine (validateCborFixedArrayLength it lo hi) it (fun _ => it) := by
  unfold validateCborFixedArrayLength
  by_cases htype : it.type ≠ .array ∨ it.unknownLength
  · simp only [if_pos htype]
    exact dataAvailable_fail_moves
  · simp only [if_neg htype]
    have harray : it.type = .array := not_not.mp (not_or.mp htype).1
    refine (dataAvailable_moves (by simp [harray])).bind fun _ => ?_
    split_ifs
    · exact .fail
    · exact .ret rfl

end

end Dtnme.Bundling.TinyCbor

namespace Dtnme.Bundling.Bp7
open Library TinyCbor Decoder

/-- The bundle that a payload is received for. The simulator's location NODATA keeps no payload. -/
structure PayloadBundle where
  nodata : Bool := false
  isFragment : Bool := false
  fragLength : ℕ := 0
  payload : List UInt8 := []
  deriving DecidableEq, Repr

/-- Up to the CRC type, which is the value. The flags are ignored. -/
def decodePayloadFields (elements : CborValue) : Decode BlockWrite (ℕ × CborValue) := do
  let (blockType, elements) ← decodeUint elements
  if blockType ≠ 1 then fail .fail
  else do
    let (blockNumber, elements) ← decodeUint elements
    assign (.blockNumber blockNumber)
    let (_, elements) ← decodeUint elements
    assign (.flag 0)
    let (crcType, elements) ← decodeUint elements
    assign (.crcType crcType)
    pure (crcType, elements)

/-- The byte string of the data. -/
def payloadElement (elements : CborValue) : Decode BlockWrite CborValue := do
  dataAvailableToParse elements 1
  if elements.type ≠ .byteString ∨ elements.unknownLength then fail .fail else pure elements

/-- The cursor at the data, which is not decoded. -/
def findPayloadElement : Decode BlockWrite CborValue := do
  let blockArray ← cborParserInit
  let blockElements ← validateCborFixedArrayLength blockArray 5 6
  let elements ← enterContainer blockArray
  let (crcType, elements) ← decodePayloadFields elements
  checkBlockElements blockElements crcType
  payloadElement elements

/-- `decode_payload_header`: the length of the header, and that of the payload. -/
def decodePayloadHeader : Decode BlockWrite (ℕ × ℕ) := do
  let elements ← findPayloadElement
  pure (elements.ptr + uint64EncodingLen elements.value, elements.value)

/-! ## Consuming a chunk -/

/-- What is set when the header is complete. -/
def setHeader (block : BlockInfo) (contents : List UInt8) (hdrLen payloadLen : ℕ) : BlockInfo :=
  { block with
    contents := contents
    dataOffset := hdrLen
    dataLength := payloadLen
    crcOffset := u64 (hdrLen + payloadLen)
    crcLength := crcCborLength block.crcType
    bpv7EobOffset := u64 (hdrLen + payloadLen + crcCborLength block.crcType) }

/-- The header, decoded from the bytes that are stored and the chunk; what of it is new is copied. -/
def consumeHeader (block : BlockInfo) (buf : List UInt8) : Except Fault (Option ℕ × BlockInfo) :=
  match decodePayloadHeader (block.contents ++ buf) with
  | (_, .stop .abort) => .error .assertFailed
  | (log, .stop .fail) => .ok (none, log.foldl BlockWrite.apply block)
  | (log, .more) =>
    .ok (some buf.length, { log.foldl BlockWrite.apply block with contents := block.contents ++ buf })
  | (log, .done (hdrLen, payloadLen)) => do
    let prevConsumed := block.contents.length
    -- the length to copy is not signed
    if hdrLen < prevConsumed then .error .undefined
    else do
      let bytes ← copyOut buf 0 (hdrLen - prevConsumed)
      pure (some (hdrLen - prevConsumed),
        setHeader (log.foldl BlockWrite.apply block) (block.contents ++ bytes) hdrLen payloadLen)

/-- `write_data` behind what was received before. -/
def PayloadBundle.write (b : PayloadBundle) (bytes : List UInt8) : PayloadBundle :=
  { b with
    payload := b.payload ++ bytes
    fragLength := if b.isFragment then b.payload.length + bytes.length else b.fragLength }

def consumeData (b : PayloadBundle) (block : BlockInfo) (buf : List UInt8) :
    Except Fault (ℕ × PayloadBundle) :=
  if block.dataLength = b.payload.length then .ok (0, b)
  else do
    require (b.payload.length < block.dataLength)
    let remainder := block.dataLength - b.payload.length
    let tocopy := min remainder buf.length
    pure (tocopy, b.write (buf.take tocopy))

/-- `add_crc_cbor_bytes`. -/
def addCrcCborBytes (block : BlockInfo) (bytes : List UInt8) : BlockInfo :=
  if block.crcLength - block.crcCborBytes.length < bytes.length then block
  else { block with crcCborBytes := block.crcCborBytes ++ bytes }

def consumeCrc (block : BlockInfo) (buf : List UInt8) : ℕ × BlockInfo :=
  if block.crcCborBytes.length = block.crcLength then (0, block)
  else
    let remainder := block.crcLength - block.crcCborBytes.length
    let tocopy := min remainder buf.length
    (tocopy, addCrcCborBytes block (buf.take tocopy))

/-- The break character behind the block. -/
def consumeBreak (block : BlockInfo) (buf : List UInt8) : Except Fault (Option ℕ × BlockInfo) := do
  require (block.complete = false)
  if buf.head? ≠ some breakByte then pure (none, block)
  else pure (some 1, { block with complete := true })

/-- The bytes behind the header. -/
def consumeBody (b : PayloadBundle) (block : BlockInfo) (buf : List UInt8) :
    Except Fault (Option ℕ × BlockInfo × PayloadBundle) :=
  if buf = [] then .ok (some 0, block, b)
  else do
    let (copied, b) ← consumeData b block buf
    let buf := buf.drop copied
    if buf = [] then pure (some copied, block, b)
    else do
      let (crcCopied, block) := consumeCrc block buf
      let buf := buf.drop crcCopied
      if buf = [] then pure (some (copied + crcCopied), block, b)
      else do
        let (cc, block) ← consumeBreak block buf
        pure (cc.map (copied + crcCopied + ·), block, b)

/-- Behind the part of the chunk that went to the header. -/
def consumeRest (b : PayloadBundle) (block : BlockInfo) (consumed : ℕ) (buf : List UInt8) :
    Except Fault (Option ℕ × BlockInfo × PayloadBundle) :=
  if block.dataOffset = 0 then do
    require (buf = [])
    pure (some consumed, block, b)
  else if b.nodata then .ok (some consumed, { block with complete := true }, b)
  else do
    require (block.contents.length = block.dataOffset)
    let (cc, block, b) ← consumeBody b block buf
    pure (cc.map (consumed + ·), block, b)

/-- `BP7_PayloadBlockProcessor::consume`: the bytes used, none for an error. -/
def consumePayload (b : PayloadBundle) (block : BlockInfo) (buf : List UInt8) :
    Except Fault (Option ℕ × BlockInfo × PayloadBundle) :=
  if block.dataOffset = 0 then do
    let (cc, block) ← consumeHeader block buf
    match cc with
    | none => pure (none, block, b)
    | some cc => do
      require (b.payload.length = 0)
      consumeRest b block cc (buf.drop cc)
  else consumeRest b block 0 buf

/-- The chunks that `BundleProtocolVersion7::consume` hands to the block, and the bytes used of each. -/
def consumeChunks : PayloadBundle → BlockInfo → List (List UInt8) →
    Except Fault (List (Option ℕ) × BlockInfo × PayloadBundle)
  | b, block, [] => .ok ([], block, b)
  | b, block, chunk :: chunks => do
    let (cc, block, b) ← consumePayload b block chunk
    match cc with
    | none => pure ([none], block, b)
    | some cc =>
      if block.complete then pure ([some cc], block, b)
      else do
        require (chunk.drop cc = [])
        let (ccs, block, b) ← consumeChunks b block chunks
        pure (some cc :: ccs, block, b)

/-! ## The header from mark to mark -/

section
variable {Fine : List UInt8 → BlockWrite → Prop} (hfine : ∀ buf w, Fine buf w)
include hfine

theorem checkBlockElements_moves (blockElements crcType : ℕ) (it : CborValue) :
    Moves Fine (checkBlockElements blockElements crcType) it (fun _ => it) := by
  unfold checkBlockElements
  split_ifs
  · exact .fail
  · exact (Reads.assign fun buf _ => hfine buf _).bind fun _ => .fail
  · exact (Reads.assign fun buf _ => hfine buf _).bind fun _ => .ret rfl
  · exact .fail
  · exact .ret rfl

theorem decodePayloadFields_moves (it : CborValue) :
    Moves Fine (decodePayloadFields it) it Prod.snd := by
  unfold decodePayloadFields
  refine (decodeUint_moves it).bind fun type => ?_
  dsimp only
  split_ifs
  · exact .fail
  · exact (decodeUint_moves type.2).bind fun number =>
      (Reads.assign fun buf _ => hfine buf _).bind fun _ => (decodeUint_moves number.2).bind fun flags =>
        (Reads.assign fun buf _ => hfine buf _).bind fun _ => (decodeUint_moves flags.2).bind fun crcType =>
          (Reads.assign fun buf _ => hfine buf _).bind fun _ => .ret rfl

theorem findPayloadElement_moves : Moves Fine findPayloadElement (.atEnd 0) id := by
  unfold findPayloadElement
  refine cborParserInit_moves.bind fun blockArray => (validate_moves blockArray 5 6).bind fun len =>
    (enterContainer_moves blockArray).bind fun elements =>
      (decodePayloadFields_moves hfine elements).bind fun fields => ?_
  refine (checkBlockElements_moves hfine len fields.1 fields.2).bind fun _ => ?_
  unfold payloadElement
  by_cases htype : fields.2.type ≠ .byteString ∨ fields.2.unknownLength
  · simp only [if_pos htype]
    exact dataAvailable_fail_moves
  · simp only [if_neg htype]
    have hstring : fields.2.type = .byteString := not_not.mp (not_or.mp htype).1
    exact (dataAvailable_moves (by simp [hstring])).bind fun _ => .ret rfl

end

/-! ## A block on the wire -/

/-- The array's head and the elements in front of the data. -/
inductive PayloadFront (crcType : ℕ) : List UInt8 → Prop
  | mk {a t n f c number flags} (ha : Cbor.IsHead 4 (if crcType = 0 then 5 else 6) a)
      (ht : Cbor.IsHead 0 1 t) (hn : Cbor.IsHead 0 number n) (hf : Cbor.IsHead 0 flags f)
      (hc : Cbor.IsHead 0 crcType c) : PayloadFront crcType (a ++ (t ++ (n ++ (f ++ c))))

/-- The head and the bytes of the CRC, if there is one. -/
inductive PayloadCrc (crcType : ℕ) : List UInt8 → List UInt8 → Prop
  | none : crcType = 0 → PayloadCrc crcType [] []
  | some {h v : List UInt8} : CrcString crcType h v → PayloadCrc crcType h v

variable {crcType : ℕ} {front d data h v : List UInt8}

theorem PayloadCrc.type_le (hcrc : PayloadCrc crcType h v) : crcType ≤ 2 := by
  cases hcrc with
  | none htype => omega
  | some hcrc => rcases hcrc.type with htype | htype <;> omega

/-- The length that the code gives the CRC. -/
theorem PayloadCrc.length_eq (hcrc : PayloadCrc crcType h v) :
    h.length + v.length = crcCborLength crcType + (h.length - 1) := by
  cases hcrc with
  | none htype => simp [htype, crcCborLength]
  | some hcrc =>
    have hpos := hcrc.head.length_pos
    have hsize := hcrc.size
    rcases hcrc.type with rfl | rfl <;> simp only [crcSize, crcCborLength] at hsize ⊢ <;> omega

/-- What is assigned while a header is decoded. -/
def headerWrites (number crcType : ℕ) : List BlockWrite :=
  [.blockNumber number, .flag 0, .crcType crcType] ++
    if crcType = 0 then [.crcValidated true] else []

theorem decodePayloadFields_at {t n f c rest buf : List UInt8} {number flags p r : ℕ} {it : CborValue}
    (ht : Cbor.IsHead 0 1 t) (hn : Cbor.IsHead 0 number n) (hf : Cbor.IsHead 0 flags f)
    (hc : Cbor.IsHead 0 crcType c) (hat : At buf p r (t ++ (n ++ (f ++ (c ++ rest)))) it)
    (hlo : 5 ≤ r) (hhi : r < uint32Max) (hrest : HeadFirst rest) :
    ∃ next, decodePayloadFields it buf =
        ([.blockNumber number, .flag 0, .crcType crcType], .done (crcType, next)) ∧
      At buf (p + t.length + n.length + f.length + c.length) (r - 4) rest next := by
  obtain ⟨it₁, h₁, hat₁⟩ := decodeUint_at (ω := BlockWrite) ht hat (by omega) hhi
    (headFirst_of hn (by omega) _)
  obtain ⟨it₂, h₂, hat₂⟩ := decodeUint_at (ω := BlockWrite) hn hat₁ (by omega) (by omega)
    (headFirst_of hf (by omega) _)
  obtain ⟨it₃, h₃, hat₃⟩ := decodeUint_at (ω := BlockWrite) hf hat₂ (by omega) (by omega)
    (headFirst_of hc (by omega) _)
  obtain ⟨it₄, h₄, hat₄⟩ := decodeUint_at (ω := BlockWrite) hc hat₃ (by omega) (by omega) hrest
  refine ⟨it₄, ?_, hat₄⟩
  unfold decodePayloadFields
  rw [bind_of_done h₁]
  simp only [ne_eq, not_true_eq_false, if_false]
  rw [bind_of_done h₂]
  simp only
  rw [bind_done (assign_apply _ _), bind_of_done h₃]
  simp only
  rw [bind_done (assign_apply _ _), bind_of_done h₄]
  simp only
  rw [bind_done (assign_apply _ _)]
  rfl

theorem checkBlockElements_at (htype : crcType ≤ 2) (buf : List UInt8) :
    checkBlockElements (if crcType = 0 then 5 else 6) crcType buf =
      (if crcType = 0 then [.crcValidated true] else [], .done ()) := by
  unfold checkBlockElements
  rw [if_neg (by omega)]
  by_cases hzero : crcType = 0
  · simp only [if_pos hzero]
    rfl
  · simp only [if_neg hzero]
    rfl

/-- The data's element of a block is found. -/
theorem findPayloadElement_image (hfront : PayloadFront crcType front) (htype : crcType ≤ 2)
    {n : ℕ} (hd : Cbor.IsHead 2 n d) (rest : List UInt8) :
    ∃ number it, findPayloadElement (front ++ (d ++ rest)) = (headerWrites number crcType, .done it) ∧
      it.ptr = front.length ∧ it.value = n ∧ it.extent = front.length + d.length := by
  cases hfront with
  | @mk a t n' f c number flags ha ht hn hf hc =>
  have hstart : ((a ++ (t ++ (n' ++ (f ++ c)))) ++ (d ++ rest)).drop 0 =
      a ++ (t ++ (n' ++ (f ++ (c ++ (d ++ rest))))) := by simp
  generalize hbuf : (a ++ (t ++ (n' ++ (f ++ c)))) ++ (d ++ rest) = buf at hstart ⊢
  have hcheck := checkBlockElements_at htype buf
  have hpos : 5 ≤ (if crcType = 0 then 5 else 6) ∧ (if crcType = 0 then 5 else 6) ≤ 6 := by
    split_ifs <;> omega
  generalize (if crcType = 0 then 5 else 6) = k at ha hpos hcheck
  have hsix : 6 < uint32Max := by norm_num [uint32Max]
  have hinit : cborParserInit (ω := BlockWrite) buf = ([], .done (headAt 0 1 4 k a)) :=
    preparseValue_head ha (by omega) hstart
  have hlen := validateCborFixedArrayLength_array (ω := BlockWrite) 1 5 6 ha hstart
  rw [if_neg (by omega)] at hlen
  obtain ⟨it₁, henter, hat₁⟩ := enterContainer_at (ω := BlockWrite) 1 ha hstart (by omega) (by omega)
    (headFirst_of ht (by omega) _)
  obtain ⟨it₂, hfields, hat₂⟩ := decodePayloadFields_at ht hn hf hc hat₁ (by omega) (by omega)
    (headFirst_of hd (by omega) _)
  have hit := hat₂.eq_headAt hd (by omega)
  have hstring : payloadElement it₂ buf = ([], .done it₂) := by
    unfold payloadElement
    rw [bind_of_done (dataAvailable_head hd (by rw [hat₂.ptr_eq]; exact hat₂.drop_eq)),
      if_neg (by simp [hit, CborType.ofMajor])]
    rfl
  refine ⟨number, it₂, ?_, ?_, by rw [hit]; rfl, ?_⟩
  · unfold findPayloadElement
    rw [bind_of_done hinit, bind_of_done hlen, bind_of_done henter, bind_done hfields]
    simp only
    rw [bind_done hcheck, hstring]
    simp [headerWrites]
  · rw [hit]
    simp only [headAt_ptr, List.length_append]
    omega
  · rw [CborValue.extent, if_neg (by simp [hit, CborType.ofMajor]), hit, headAt_behind hd]
    simp only [List.length_append]
    omega

/-! ## The header of a block that is not complete -/

/-- The header is decoded from the first part of the block that holds it, and from no shorter one. -/
theorem decodePayloadHeader_prefix (hfront : PayloadFront crcType front) (htype : crcType ≤ 2)
    {n : ℕ} (hd : Cbor.IsHead 2 n d) {x later rest : List UInt8}
    (hx : x ++ later = front ++ (d ++ rest)) :
    ∃ number, (x.length < front.length + d.length → ∃ log, log ⊆ headerWrites number crcType ∧
        decodePayloadHeader x = (log, .more)) ∧
      (front.length + d.length ≤ x.length → decodePayloadHeader x =
        (headerWrites number crcType, .done (front.length + uint64EncodingLen n, n))) := by
  obtain ⟨number, it, hfind, hptr, hvalue, hext⟩ := findPayloadElement_image hfront htype hd rest
  have hmoves : Moves (fun _ _ => True) findPayloadElement (.atEnd 0) id :=
    findPayloadElement_moves fun _ _ => trivial
  have hstart : ∀ l : List UInt8, (CborValue.atEnd 0).extent ≤ l.length := fun l => Nat.zero_le _
  rw [← hx] at hfind
  refine ⟨number, fun hlt => ?_, fun hle => ?_⟩
  · have hcases : ∃ log, log <+: headerWrites number crcType ∧ findPayloadElement x = (log, .more) := by
      rcases hdecode : findPayloadElement x with ⟨log, it' | _ | e⟩
      · have hdone := hmoves.done_append later (hstart x) hdecode
        rw [hfind] at hdone
        obtain ⟨rfl, hend⟩ := Prod.mk.inj hdone
        obtain rfl := Ending.done.inj hend
        have hroom := (hmoves.done (hstart x) hdecode).2.1
        simp only [id] at hroom
        omega
      · have hprefix := hmoves.more later (hstart x) hdecode
        rw [hfind] at hprefix
        exact ⟨log, hprefix, rfl⟩
      · have hstop := hmoves.stop later (hstart x) hdecode
        rw [hfind] at hstop
        cases hstop
    obtain ⟨log, hlog, hmore⟩ := hcases
    exact ⟨log, hlog.subset, bind_more hmore⟩
  · have hlocal := (hmoves.done (hstart _) hfind).2.2.1 x (by simp only [id]; omega)
      (by rw [List.take_append_of_le_length (by simp only [id]; omega)])
    unfold decodePayloadHeader
    rw [bind_done hlocal, hptr, hvalue]
    simp

/-- Only these fields are assigned. -/
theorem foldl_headerWrites {log : List BlockWrite} {number : ℕ}
    (hlog : log ⊆ headerWrites number crcType) (block : BlockInfo) :
    ∃ blockNumber blockFlags type validated, log.foldl BlockWrite.apply block =
      { block with
        blockNumber := blockNumber
        blockFlags := blockFlags
        crcType := type
        crcValidated := validated } := by
  induction log generalizing block with
  | nil => exact ⟨_, _, _, _, rfl⟩
  | cons w log ih =>
    rw [List.cons_subset] at hlog
    obtain ⟨blockNumber, blockFlags, type, validated, hfold⟩ := ih hlog.2 (w.apply block)
    rw [List.foldl_cons, hfold]
    have hw : w = .blockNumber number ∨ w = .flag 0 ∨ w = .crcType crcType ∨ w = .crcValidated true := by
      have hmem := hlog.1
      unfold headerWrites at hmem
      split_ifs at hmem <;> simp at hmem <;> tauto
    rcases hw with rfl | rfl | rfl | rfl <;> exact ⟨_, _, _, _, rfl⟩

theorem crcType_headerWrites (crcType number : ℕ) (block : BlockInfo) :
    ((headerWrites number crcType).foldl BlockWrite.apply block).crcType = crcType := by
  unfold headerWrites
  split_ifs <;> rfl

/-! ## A block up to some byte -/

/-- What is kept of the first bytes of a block: the header, the data and the CRC as far as they came. -/
structure Upto (hdrLen n crcLen : ℕ) (x : List UInt8) (block : BlockInfo) (b : PayloadBundle) :
    Prop where
  contents_eq : block.contents = x.take hdrLen
  offset_eq : block.dataOffset = if x.length < hdrLen then 0 else hdrLen
  lengths : hdrLen ≤ x.length → block.dataLength = n ∧ block.crcLength = crcLen
  payload_eq : b.payload = (x.drop hdrLen).take n
  crc_eq : block.crcCborBytes = (x.drop (hdrLen + n)).take crcLen
  incomplete : block.complete = false
  kept : b.nodata = false

section
variable {hdrLen n crcLen : ℕ} {x : List UInt8} {block : BlockInfo} {b : PayloadBundle}

/-- More of a list that was cut off. -/
theorem take_drop_append {α : Type} {p k : ℕ} {x y : List α} (hp : p ≤ x.length) :
    ((x ++ y).drop p).take k = (x.drop p).take k ++ y.take (k - (x.length - p)) := by
  rw [List.drop_append_of_le_length hp, List.take_append, List.length_drop]

theorem Upto.receiveData (h : Upto hdrLen n crcLen x block b) (hhdr : hdrLen ≤ x.length)
    (buf : List UInt8) :
    ∃ copied b', consumeData b block buf = .ok (copied, b') ∧ copied ≤ buf.length ∧
      Upto hdrLen n crcLen (x ++ buf.take copied) block b' ∧
      (x ++ buf.take copied).length ≤ max x.length (hdrLen + n) ∧
      (buf.drop copied = [] ∨ hdrLen + n ≤ (x ++ buf.take copied).length) := by
  have hlen : b.payload.length = min n (x.length - hdrLen) := by
    rw [h.payload_eq, List.length_take, List.length_drop]
  obtain ⟨hdata, hcrc⟩ := h.lengths hhdr
  unfold consumeData
  by_cases hfull : block.dataLength = b.payload.length
  · rw [if_pos hfull]
    refine ⟨0, b, rfl, Nat.zero_le _, ?_, by simp, .inr ?_⟩
    · simpa using h
    · rw [List.take_zero, List.append_nil]
      omega
  · rw [if_neg hfull, require_of (by omega)]
    set tocopy := min (block.dataLength - b.payload.length) buf.length with htocopy
    have hpayload : b.payload.length = x.length - hdrLen := by omega
    refine ⟨tocopy, b.write (buf.take tocopy), rfl, by omega, ?_, ?_, ?_⟩
    · have hlt : ¬ (x ++ buf.take tocopy).length < hdrLen := by
        rw [List.length_append]
        omega
      constructor
      · rw [h.contents_eq, List.take_append_of_le_length hhdr]
      · rw [h.offset_eq, if_neg (by omega), if_neg hlt]
      · exact fun _ => ⟨hdata, hcrc⟩
      · rw [take_drop_append hhdr, ← h.payload_eq, List.take_take]
        change b.payload ++ buf.take tocopy = _
        congr 2
        omega
      · have hshort : ∀ l : List UInt8, l.length ≤ hdrLen + n →
            (l.drop (hdrLen + n)).take crcLen = [] := fun l hl => by
          rw [List.drop_eq_nil_of_le hl, List.take_nil]
        rw [h.crc_eq, hshort _ (by omega), hshort]
        rw [List.length_append, List.length_take]
        omega
      · exact h.incomplete
      · exact h.kept
    · rw [List.length_append, List.length_take]
      omega
    · rw [List.drop_eq_nil_iff, List.length_append, List.length_take]
      omega

theorem Upto.receiveCrc (h : Upto hdrLen n crcLen x block b) (hdata : hdrLen + n ≤ x.length)
    (buf : List UInt8) :
    ∃ copied block', consumeCrc block buf = (copied, block') ∧ copied ≤ buf.length ∧
      Upto hdrLen n crcLen (x ++ buf.take copied) block' b ∧
      (x ++ buf.take copied).length ≤ max x.length (hdrLen + n + crcLen) ∧
      (buf.drop copied = [] ∨ hdrLen + n + crcLen ≤ (x ++ buf.take copied).length) := by
  have hlen : block.crcCborBytes.length = min crcLen (x.length - (hdrLen + n)) := by
    rw [h.crc_eq, List.length_take, List.length_drop]
  obtain ⟨hdataLength, hcrc⟩ := h.lengths (by omega)
  unfold consumeCrc
  by_cases hfull : block.crcCborBytes.length = block.crcLength
  · rw [if_pos hfull]
    refine ⟨0, block, rfl, Nat.zero_le _, ?_, by simp, .inr ?_⟩
    · simpa using h
    · rw [List.take_zero, List.append_nil]
      omega
  · rw [if_neg hfull]
    set tocopy := min (block.crcLength - block.crcCborBytes.length) buf.length with htocopy
    have hadd : addCrcCborBytes block (buf.take tocopy) =
        { block with crcCborBytes := block.crcCborBytes ++ buf.take tocopy } := by
      unfold addCrcCborBytes
      rw [if_neg (by rw [List.length_take]; omega)]
    refine ⟨tocopy, _, rfl, by omega, ?_, ?_, ?_⟩
    · rw [hadd]
      have hlt : ¬ (x ++ buf.take tocopy).length < hdrLen := by
        rw [List.length_append]
        omega
      constructor
      · rw [List.take_append_of_le_length (by omega)]
        exact h.contents_eq
      · rw [if_neg hlt]
        exact h.offset_eq.trans (if_neg (by omega))
      · exact fun _ => ⟨hdataLength, hcrc⟩
      · rw [take_drop_append (by omega), ← h.payload_eq, show n - (x.length - hdrLen) = 0 by omega,
          List.take_zero, List.append_nil]
      · rw [take_drop_append hdata, ← h.crc_eq, List.take_take]
        change block.crcCborBytes ++ buf.take tocopy = _
        congr 2
        omega
      · exact h.incomplete
      · exact h.kept
    · rw [List.length_append, List.length_take]
      omega
    · rw [List.drop_eq_nil_iff, List.length_append, List.length_take]
      omega

/-- What came of a chunk: it was used up, or the block was completed by the byte at its break. -/
def Consumed (hdrLen n crcLen : ℕ) (x buf : List UInt8) (cc : ℕ) (block : BlockInfo)
    (b : PayloadBundle) : Prop :=
  cc = buf.length ∧ (x ++ buf).length ≤ hdrLen + n + crcLen ∧
      Upto hdrLen n crcLen (x ++ buf) block b ∨
    x.length + cc = hdrLen + n + crcLen + 1 ∧ cc ≤ buf.length ∧ ∃ incomplete,
      Upto hdrLen n crcLen ((x ++ buf).take (hdrLen + n + crcLen)) incomplete b ∧
      block = { incomplete with complete := true }

/-- The byte behind the block is a break, if it is there. -/
def BreakAt (total : ℕ) (bytes : List UInt8) : Prop := ∀ c ∈ bytes[total]?, c = breakByte

theorem Upto.receiveBody (h : Upto hdrLen n crcLen x block b) (hhdr : hdrLen ≤ x.length)
    (hshort : x.length ≤ hdrLen + n + crcLen) {buf : List UInt8}
    (hbreak : BreakAt (hdrLen + n + crcLen) (x ++ buf)) :
    ∃ cc block' b', consumeBody b block buf = .ok (some cc, block', b') ∧
      Consumed hdrLen n crcLen x buf cc block' b' := by
  have hused : ∀ {k : ℕ} {l : List UInt8}, k ≤ l.length → l.drop k = [] → l.take k = l ∧ k = l.length :=
    fun hk hnil => by
      rw [List.drop_eq_nil_iff] at hnil
      exact ⟨List.take_of_length_le hnil, by omega⟩
  unfold consumeBody
  by_cases hempty : buf = []
  · rw [if_pos hempty]
    subst hempty
    exact ⟨0, block, b, rfl, .inl ⟨rfl, by simpa using hshort, by simpa using h⟩⟩
  rw [if_neg hempty]
  obtain ⟨copied, b₁, hdata, hcopied, h₁, hbound₁, hrest₁⟩ := h.receiveData hhdr buf
  rw [hdata, ok_bind]
  simp only
  by_cases hempty₁ : buf.drop copied = []
  · rw [if_pos hempty₁]
    obtain ⟨htake, hlen⟩ := hused hcopied hempty₁
    rw [htake] at h₁ hbound₁
    exact ⟨copied, block, b₁, rfl, .inl ⟨hlen, by omega, h₁⟩⟩
  rw [if_neg hempty₁]
  obtain ⟨crcCopied, block₂, hcrc, hcrcCopied, h₂, hbound₂, hrest₂⟩ :=
    h₁.receiveCrc (hrest₁.resolve_left hempty₁) (buf.drop copied)
  have hbuf : x ++ buf = x ++ buf.take copied ++ (buf.drop copied).take crcCopied ++
      (buf.drop copied).drop crcCopied := by simp
  rw [hcrc]
  simp only
  by_cases hempty₂ : (buf.drop copied).drop crcCopied = []
  · rw [if_pos hempty₂]
    rw [hempty₂, List.append_nil] at hbuf
    rw [← hbuf] at h₂ hbound₂
    have hlen : copied + crcCopied = buf.length := by
      obtain ⟨-, hall⟩ := hused hcrcCopied hempty₂
      rw [List.length_drop] at hall
      omega
    exact ⟨copied + crcCopied, block₂, b₁, rfl, .inl ⟨hlen, by omega, h₂⟩⟩
  rw [if_neg hempty₂]
  -- the whole block is there, and the byte behind it is next
  have htotal : (x ++ buf.take copied ++ (buf.drop copied).take crcCopied).length =
      hdrLen + n + crcLen := by
    have hge := hrest₂.resolve_left hempty₂
    omega
  obtain ⟨c, tail, hnext⟩ := List.exists_cons_of_ne_nil hempty₂
  have hc : c = breakByte := by
    apply hbreak
    rw [hbuf, List.getElem?_append_right htotal.le, htotal, Nat.sub_self, hnext]
    rfl
  have hend : consumeBreak block₂ ((buf.drop copied).drop crcCopied) =
      .ok (some 1, { block₂ with complete := true }) := by
    unfold consumeBreak
    rw [require_of h₂.incomplete, hnext, hc]
    rfl
  rw [hend, ok_bind]
  have hroom := congrArg List.length hnext
  rw [List.length_drop, List.length_drop, List.length_cons] at hroom
  refine ⟨copied + crcCopied + 1, _, b₁, rfl, .inr ⟨?_, by omega, block₂, ?_, rfl⟩⟩
  · rw [List.length_append, List.length_append, List.length_take, List.length_take] at htotal
    omega
  · rw [hbuf, ← htotal, List.take_left' rfl]
    exact h₂

end
/-! ## Chunks of a block -/

section
variable {crcType n : ℕ} {front d x buf later rest : List UInt8} {block : BlockInfo} {b : PayloadBundle}

/-- Where the header ends for the code. -/
def headerLen (front : List UInt8) (n : ℕ) : ℕ := front.length + uint64EncodingLen n

theorem Upto.receiveHeader (hfront : PayloadFront crcType front) (htype : crcType ≤ 2)
    (hd : Cbor.IsHead 2 n d) (hshort : d.length = uint64EncodingLen n)
    (h : Upto (headerLen front n) n (crcCborLength crcType) x block b)
    (hlt : x.length < headerLen front n) (hz : (x ++ buf) ++ later = front ++ (d ++ rest)) :
    ∃ cc block', consumeHeader block buf = .ok (some cc, block') ∧ cc ≤ buf.length ∧
      Upto (headerLen front n) n (crcCborLength crcType) (x ++ buf.take cc) block' b ∧
      (x ++ buf.take cc).length ≤ headerLen front n ∧
      (buf.drop cc = [] ∨ headerLen front n ≤ (x ++ buf.take cc).length) := by
  have hlen : headerLen front n = front.length + d.length := by rw [headerLen, hshort]
  have hcontents : block.contents = x := by rw [h.contents_eq, List.take_of_length_le hlt.le]
  obtain ⟨number, hmore, hdone⟩ := decodePayloadHeader_prefix hfront htype hd hz
  have hnone : ∀ {k : ℕ} {l : List UInt8}, l.length ≤ headerLen front n →
      (l.drop (headerLen front n + k)).take (crcCborLength crcType) = [] ∧
        (l.drop (headerLen front n)).take n = [] := fun hl => by
    rw [List.drop_eq_nil_of_le (by omega), List.drop_eq_nil_of_le hl]
    simp
  have hoffset := h.offset_eq
  have hpayload := h.payload_eq
  have hcrc := h.crc_eq
  rw [if_pos hlt] at hoffset
  rw [(hnone (k := 0) hlt.le).2] at hpayload
  rw [(hnone hlt.le).1] at hcrc
  unfold consumeHeader
  rw [hcontents]
  by_cases hpart : (x ++ buf).length < front.length + d.length
  · obtain ⟨log, hlog, hdecode⟩ := hmore hpart
    obtain ⟨blockNumber, blockFlags, type, validated, hfold⟩ := foldl_headerWrites hlog block
    rw [hdecode]
    simp only [hfold]
    refine ⟨buf.length, _, rfl, le_rfl, ?_, ?_, .inl (List.drop_length)⟩
    · rw [List.take_length]
      constructor
      · exact (List.take_of_length_le (show (x ++ buf).length ≤ _ by omega)).symm
      · rw [if_pos (by omega)]
        exact hoffset
      · exact fun hge => absurd hge (by omega)
      · rw [(hnone (k := 0) (by omega)).2]
        exact hpayload
      · rw [(hnone (by omega)).1]
        exact hcrc
      · exact h.incomplete
      · exact h.kept
    · rw [List.take_length]
      omega
  · obtain ⟨blockNumber, blockFlags, type, validated, hfold⟩ :=
      foldl_headerWrites (List.Subset.refl (headerWrites number crcType)) block
    have hcrcType := crcType_headerWrites crcType number block
    rw [hfold] at hcrcType
    obtain rfl : type = crcType := hcrcType
    rw [hdone (by omega), ← headerLen]
    simp only [hfold]
    rw [if_neg (by omega)]
    rw [List.length_append] at hpart
    have htake : (x ++ buf.take (headerLen front n - x.length)).length = headerLen front n := by
      rw [List.length_append, List.length_take]
      omega
    have hcopy : copyOut buf 0 (headerLen front n - x.length) =
        .ok (buf.take (headerLen front n - x.length)) := by
      unfold copyOut
      rw [if_pos (by omega), slice, List.drop_zero]
    rw [hcopy, ok_bind]
    refine ⟨headerLen front n - x.length, _, rfl, by omega, ?_, htake.le, .inr htake.ge⟩
    constructor
    · exact (List.take_of_length_le htake.le).symm
    · exact (if_neg (by omega)).symm
    · exact fun _ => ⟨rfl, rfl⟩
    · rw [(hnone (k := 0) htake.le).2]
      exact hpayload
    · rw [(hnone htake.le).1]
      exact hcrc
    · exact h.incomplete
    · exact h.kept

theorem headerLen_pos (front : List UInt8) (n : ℕ) : 0 < headerLen front n := by
  have hpos := (uint64EncodingLen_le n).1
  unfold headerLen
  omega

/-- Behind the header the body goes on. -/
theorem Upto.receiveRest {hdrLen crcLen : ℕ} (h : Upto hdrLen n crcLen x block b) (hpos : 0 < hdrLen)
    (consumed : ℕ) (hhdr : buf = [] ∨ hdrLen ≤ x.length) (hle : x.length ≤ hdrLen + n + crcLen)
    (hbreak : BreakAt (hdrLen + n + crcLen) (x ++ buf)) :
    ∃ cc block' b', consumeRest b block consumed buf = .ok (some (consumed + cc), block', b') ∧
      Consumed hdrLen n crcLen x buf cc block' b' := by
  unfold consumeRest
  by_cases hlt : x.length < hdrLen
  · obtain rfl := hhdr.resolve_right (by omega)
    rw [if_pos (by rw [h.offset_eq, if_pos hlt])]
    exact ⟨0, block, b, rfl, .inl ⟨rfl, by simpa using hle, by simpa using h⟩⟩
  · have hoffset : block.dataOffset = hdrLen := by rw [h.offset_eq, if_neg hlt]
    have hcontents : block.contents.length = hdrLen := by
      rw [h.contents_eq, List.length_take]
      omega
    rw [if_neg (by omega), if_neg (by simp [h.kept]), require_of (hcontents.trans hoffset.symm)]
    obtain ⟨cc, block', b', hbody, hconsumed⟩ := h.receiveBody (by omega) hle hbreak
    refine ⟨cc, block', b', ?_, hconsumed⟩
    rw [ok_bind, hbody]
    rfl

/-- Bytes used before the rest of a chunk. -/
theorem Consumed.of_rest {hdrLen crcLen k cc : ℕ}
    (h : Consumed hdrLen n crcLen (x ++ buf.take k) (buf.drop k) cc block b) (hk : k ≤ buf.length) :
    Consumed hdrLen n crcLen x buf (k + cc) block b := by
  have happend : x ++ buf.take k ++ buf.drop k = x ++ buf := by simp
  have hlen : (x ++ buf.take k).length = x.length + k := by
    rw [List.length_append, List.length_take, min_eq_left hk]
  unfold Consumed at h ⊢
  rw [happend, List.length_drop, hlen] at h
  rcases h with ⟨hcc, hbound, hupto⟩ | ⟨hcc, hroom, hdone⟩
  · exact .inl ⟨by omega, hbound, hupto⟩
  · exact .inr ⟨by omega, by omega, hdone⟩

theorem consumePayload_upto (hfront : PayloadFront crcType front) (htype : crcType ≤ 2)
    (hd : Cbor.IsHead 2 n d) (hshort : d.length = uint64EncodingLen n)
    (h : Upto (headerLen front n) n (crcCborLength crcType) x block b)
    (hle : x.length ≤ headerLen front n + n + crcCborLength crcType)
    (hz : (x ++ buf) ++ later = front ++ (d ++ rest))
    (hbreak : BreakAt (headerLen front n + n + crcCborLength crcType) (x ++ buf)) :
    ∃ cc block' b', consumePayload b block buf = .ok (some cc, block', b') ∧
      Consumed (headerLen front n) n (crcCborLength crcType) x buf cc block' b' := by
  have hpos := headerLen_pos front n
  unfold consumePayload
  by_cases hlt : x.length < headerLen front n
  · obtain ⟨k, block₁, hheader, hk, h₁, hbound, hrest⟩ := h.receiveHeader hfront htype hd hshort hlt hz
    have hempty : b.payload.length = 0 := by
      rw [h.payload_eq, List.drop_eq_nil_of_le hlt.le]
      simp
    have happend : x ++ buf.take k ++ buf.drop k = x ++ buf := by simp
    rw [if_pos (by rw [h.offset_eq, if_pos hlt]), hheader, ok_bind]
    simp only
    rw [require_of hempty, ok_bind]
    obtain ⟨cc, block', b', hconsume, hconsumed⟩ :=
      h₁.receiveRest hpos k hrest (by omega) (by rwa [happend])
    exact ⟨k + cc, block', b', hconsume, hconsumed.of_rest hk⟩
  · rw [if_neg (by rw [h.offset_eq, if_neg hlt]; omega)]
    obtain ⟨cc, block', b', hconsume, hconsumed⟩ := h.receiveRest hpos 0 (.inr (by omega)) hle hbreak
    exact ⟨cc, block', b', by rw [hconsume, Nat.zero_add], hconsumed⟩

end
/-! ## The whole block -/

section
variable {crcType : ℕ} {front d data h v : List UInt8} {b : PayloadBundle}

/-- A payload block and the break that ends the bundle. -/
def payloadImage (front d data h v : List UInt8) : List UInt8 :=
  front ++ (d ++ (data ++ (h ++ (v ++ [breakByte]))))

/-- The bytes of the block and of its break are used, the payload is its data, and the CRC's element
is kept. -/
def Extracted (b : PayloadBundle) (chunks : List (List UInt8)) (data crc : List UInt8) (total : ℕ) :
    Prop :=
  ∃ (ccs : List ℕ) (block' : BlockInfo) (b' : PayloadBundle),
    consumeChunks b { type := .payload } chunks = .ok (ccs.map some, block', b') ∧ ccs.sum = total ∧ block'.complete = true ∧ b'.payload = data ∧ block'.crcCborBytes = crc

theorem consumeChunks_upto (hfront : PayloadFront crcType front) (hcrc : PayloadCrc crcType h v)
    (hd : Cbor.IsHead 2 data.length d) (hshort : d.length = uint64EncodingLen data.length)
    (hone : h.length ≤ 1) (chunks : List (List UInt8)) {x rest : List UInt8} {block : BlockInfo}
    (hupto : Upto (headerLen front data.length) data.length (crcCborLength crcType) x block b)
    (hx : x ++ chunks.flatten = payloadImage front d data h v ++ rest)
    (hle : x.length < (payloadImage front d data h v).length) :
    ∃ (ccs : List ℕ) (block' : BlockInfo) (b' : PayloadBundle),
      consumeChunks b block chunks = .ok (ccs.map some, block', b') ∧
      x.length + ccs.sum = (payloadImage front d data h v).length ∧ block'.complete = true ∧
      b'.payload = data ∧ block'.crcCborBytes = h ++ v := by
  have hcrcLen := hcrc.length_eq
  have htotal : (payloadImage front d data h v).length =
      headerLen front data.length + data.length + crcCborLength crcType + 1 := by
    simp only [payloadImage, headerLen, List.length_append, List.length_singleton]
    omega
  have himage : payloadImage front d data h v =
      (front ++ (d ++ (data ++ (h ++ v)))) ++ [breakByte] := by simp [payloadImage]
  have hlast : (payloadImage front d data h v)[headerLen front data.length + data.length +
      crcCborLength crcType]? = some breakByte := by
    rw [himage, List.length_append, List.length_singleton] at htotal
    rw [himage, List.getElem?_append_right (by omega),
      show _ - (front ++ (d ++ (data ++ (h ++ v)))).length = 0 by omega]
    rfl
  induction chunks generalizing x block b with
  | nil =>
    have hlen := congrArg List.length hx
    rw [List.flatten_nil, List.append_nil, List.length_append] at hlen
    omega
  | cons chunk chunks ih =>
    rw [List.flatten_cons, ← List.append_assoc] at hx
    have hbreak : BreakAt (headerLen front data.length + data.length + crcCborLength crcType)
        (x ++ chunk) := by
      intro c hc
      have hlt := (List.getElem?_eq_some_iff.mp hc).1
      have hwhole := congrArg (fun l => l[headerLen front data.length + data.length +
        crcCborLength crcType]?) hx
      rw [List.getElem?_append_left hlt, hc, List.getElem?_append_left (by omega), hlast] at hwhole
      exact Option.some.inj hwhole
    obtain ⟨cc, block₁, b₁, hconsume, hconsumed⟩ := consumePayload_upto hfront hcrc.type_le hd hshort
      hupto (by omega) (hx.trans (by simp only [payloadImage, List.append_assoc]; rfl)) hbreak
    rw [consumeChunks, hconsume, ok_bind]
    simp only
    rcases hconsumed with ⟨hcc, hbound, hnext⟩ | ⟨hcc, hroom, incomplete, hdone, rfl⟩
    · rw [hnext.incomplete, require_of (by rw [hcc, List.drop_length])]
      obtain ⟨ccs, block', b', hchunks, hsum, hrest⟩ := ih hnext hx (by omega)
      rw [List.length_append] at hsum
      refine ⟨cc :: ccs, block', b', ?_, by rw [List.sum_cons]; omega, hrest⟩
      simp only [ok_bind, hchunks]
      rfl
    · have hlen : (x ++ chunk).length = x.length + chunk.length := List.length_append
      have htake : (x ++ chunk).take (headerLen front data.length + data.length +
          crcCborLength crcType) = front ++ (d ++ (data ++ (h ++ v))) := by
        have hwhole := congrArg (List.take (headerLen front data.length + data.length +
          crcCborLength crcType)) hx
        rw [List.take_append_of_le_length (by omega : _ ≤ (x ++ chunk).length)] at hwhole
        rw [hwhole, himage, List.append_assoc]
        apply List.take_left'
        rw [himage, List.length_append, List.length_singleton] at htotal
        omega
      have hhdr : headerLen front data.length = (front ++ d).length := by
        rw [List.length_append, headerLen, hshort]
      rw [htake] at hdone
      refine ⟨[cc], _, b₁, rfl, by rw [List.sum_singleton]; omega, rfl, ?_, ?_⟩
      · rw [hdone.payload_eq, hhdr, ← List.append_assoc, List.drop_left, List.take_left]
      · have hcrcBytes : (h ++ v).length = crcCborLength crcType := by
          rw [List.length_append]
          omega
        rw [hdone.crc_eq, hhdr, ← List.length_append, ← List.append_assoc, ← List.append_assoc,
          List.drop_left, ← hcrcBytes, List.take_length]
end

section
variable {crcType : ℕ} {front d data h v : List UInt8} {b b' : PayloadBundle} {block block' : BlockInfo}
  {buf : List UInt8}

/-- No more bytes are used than the block still needs for the code. -/
theorem consumeBody_le {cc : ℕ} (h : consumeBody b block buf = .ok (some cc, block', b')) :
    cc ≤ block.dataLength - b.payload.length + (block.crcLength - block.crcCborBytes.length) + 1 := by
  unfold consumeBody at h
  split_ifs at h with hempty
  · obtain ⟨hcc, -⟩ := Prod.mk.inj (Except.ok.inj h)
    obtain rfl := Option.some.inj hcc
    exact Nat.zero_le _
  · obtain ⟨⟨copied, b₁⟩, hdata, h⟩ := of_bind_ok h
    have hcopied : copied ≤ block.dataLength - b.payload.length := by
      unfold consumeData at hdata
      split_ifs at hdata
      · cases hdata
        exact Nat.zero_le _
      · obtain ⟨-, -, hdata⟩ := of_bind_ok hdata
        cases hdata
        exact min_le_left _ _
    have hcrc : ∀ l : List UInt8,
        (consumeCrc block l).1 ≤ block.crcLength - block.crcCborBytes.length := by
      intro l
      unfold consumeCrc
      split_ifs
      · exact Nat.zero_le _
      · exact min_le_left _ _
    have hcrc₁ := hcrc (buf.drop copied)
    simp only at h
    split_ifs at h
    · cases h
      omega
    · cases h
      omega
    · obtain ⟨⟨end?, block₂⟩, hend, h⟩ := of_bind_ok h
      obtain ⟨hcc, -⟩ := Prod.mk.inj (Except.ok.inj h)
      cases end? with
      | none => cases hcc
      | some k =>
        have hk : k = 1 := by
          unfold consumeBreak at hend
          obtain ⟨-, -, hend⟩ := of_bind_ok hend
          split_ifs at hend
          · cases hend
          · cases hend
            rfl
        simp only [Option.map_some, Option.some.injEq] at hcc
        omega

theorem consumeRest_le {consumed cc : ℕ} (h : consumeRest b block consumed buf = .ok (some cc, block', b')) :
    cc ≤ consumed + if b.nodata then 0 else
      block.dataLength - b.payload.length + (block.crcLength - block.crcCborBytes.length) + 1 := by
  unfold consumeRest at h
  split_ifs at h with hoffset hnodata
  · obtain ⟨-, -, h⟩ := of_bind_ok h
    cases h
    omega
  · cases h
    omega
  · obtain ⟨-, -, h⟩ := of_bind_ok h
    obtain ⟨⟨k, block₁, b₁⟩, hbody, h⟩ := of_bind_ok h
    obtain ⟨hcc, -⟩ := Prod.mk.inj (Except.ok.inj h)
    cases k with
    | none => cases hcc
    | some k =>
      have hle := consumeBody_le hbody
      simp only [Option.map_some, Option.some.injEq] at hcc
      rw [if_neg hnodata]
      omega

/-- The bytes used of a whole block. -/
theorem consumePayload_le (hfront : PayloadFront crcType front) (hcrc : PayloadCrc crcType h v)
    (hd : Cbor.IsHead 2 data.length d) {cc : ℕ}
    (hconsume : consumePayload b { type := .payload } (payloadImage front d data h v) =
      .ok (some cc, block', b')) :
    cc ≤ headerLen front data.length +
      if b.nodata then 0 else data.length + crcCborLength crcType + 1 := by
  have hlen : headerLen front data.length ≤ front.length + d.length := by
    have hfollows := hd.follows_lt
    rw [headerLen, uint64EncodingLen_eq]
    omega
  have himage : payloadImage front d data h v ++ [] = payloadImage front d data h v :=
    List.append_nil _
  obtain ⟨number, -, hdone⟩ := decodePayloadHeader_prefix hfront hcrc.type_le hd himage
  have hdecode := hdone (by simp [payloadImage])
  rw [← headerLen] at hdecode
  unfold consumePayload at hconsume
  rw [if_pos rfl] at hconsume
  obtain ⟨⟨k, block₁⟩, hheader, hconsume⟩ := of_bind_ok hconsume
  have hblock : k = some (headerLen front data.length) ∧ block₁.dataLength = data.length ∧
      block₁.crcLength = crcCborLength crcType := by
    unfold consumeHeader at hheader
    simp only [List.nil_append, hdecode, List.length_nil, Nat.sub_zero, Nat.not_lt_zero, if_false] at hheader
    obtain ⟨bytes, -, hheader⟩ := of_bind_ok hheader
    cases hheader
    refine ⟨rfl, rfl, ?_⟩
    change crcCborLength _ = _
    rw [crcType_headerWrites]
  obtain ⟨rfl, hdataLength, hcrcLength⟩ := hblock
  simp only at hconsume
  obtain ⟨-, -, hrest⟩ := of_bind_ok hconsume
  have hle := consumeRest_le hrest
  split_ifs at hle ⊢ <;> omega

/-- The payload is exact for every cut of the block into chunks if and only if it is kept and the lengths
of its data and of its CRC are written in their shortest form. -/
theorem payload_extracted_iff (hfront : PayloadFront crcType front) (hcrc : PayloadCrc crcType h v)
    (hd : Cbor.IsHead 2 data.length d) (b : PayloadBundle) (hnew : b.payload = []) :
    (∀ (chunks : List (List UInt8)) (rest : List UInt8),
      chunks.flatten = payloadImage front d data h v ++ rest →
      Extracted b chunks data (h ++ v) (payloadImage front d data h v).length) ↔
    b.nodata = false ∧ d.length = uint64EncodingLen data.length ∧ h.length ≤ 1 := by
  constructor
  · intro hall
    obtain ⟨ccs, block', b', hchunks, hsum, hcomplete, -, -⟩ :=
      hall [payloadImage front d data h v] [] (by simp)
    rw [consumeChunks] at hchunks
    obtain ⟨⟨cc, block₁, b₁⟩, hconsume, hchunks⟩ := of_bind_ok hchunks
    cases cc with
    | none =>
      obtain ⟨hccs, -⟩ := Prod.mk.inj (Except.ok.inj hchunks)
      cases ccs <;> simp at hccs
    | some cc =>
      have hle := consumePayload_le hfront hcrc hd hconsume
      have hall : ccs = [cc] := by
        simp only at hchunks
        split_ifs at hchunks with hblock
        · obtain ⟨hccs, -⟩ := Prod.mk.inj (Except.ok.inj hchunks)
          have hmap : [cc].map some = ccs.map some := hccs
          exact (List.map_injective_iff.mpr (Option.some_injective ℕ) hmap).symm
        · obtain ⟨-, -, hchunks⟩ := of_bind_ok hchunks
          rw [consumeChunks, ok_bind] at hchunks
          obtain ⟨-, hrest⟩ := Prod.mk.inj (Except.ok.inj hchunks)
          obtain ⟨rfl, -⟩ := Prod.mk.inj hrest
          exact absurd hcomplete hblock
      have hcrcLen := hcrc.length_eq
      have hfollows := hd.follows_lt
      have htotal : (payloadImage front d data h v).length =
          front.length + d.length + data.length + h.length + v.length + 1 := by
        simp only [payloadImage, List.length_append, List.length_singleton]
        omega
      rw [hall, List.sum_singleton, htotal] at hsum
      have hheader : headerLen front data.length = front.length + uint64EncodingLen data.length := rfl
      have hencoding := uint64EncodingLen_eq data.length
      cases hnodata : b.nodata with
      | true =>
        rw [hnodata, if_pos rfl] at hle
        omega
      | false =>
        rw [hnodata, if_neg Bool.false_ne_true] at hle
        exact ⟨rfl, by omega, by omega⟩
  · rintro ⟨hkept, hshort, hone⟩ chunks rest hchunks
    have hpos := headerLen_pos front data.length
    have hupto : Upto (headerLen front data.length) data.length (crcCborLength crcType) []
        { type := .payload } b := by
      constructor
      · simp
      · exact (if_pos hpos).symm
      · exact fun hge => absurd hge (Nat.not_le.mpr hpos)
      · simpa using hnew
      · simp
      · rfl
      · exact hkept
    obtain ⟨ccs, block', b', hconsume, hsum, hrest⟩ := consumeChunks_upto hfront hcrc hd hshort hone
      chunks hupto hchunks (by simp [payloadImage])
    exact ⟨ccs, block', b', hconsume, by simpa using hsum, hrest⟩

/-- A block without a CRC, up to its data. -/
def plainFront : List UInt8 := [0x85, 1, 1, 0, 0]

theorem plainFront_front : PayloadFront 0 plainFront :=
  .mk (a := [0x85]) (t := [1]) (n := [1]) (f := [0]) (c := [0]) rfl rfl rfl rfl rfl

theorem payload_extracted_short : Extracted {} [[0x85, 1, 1, 0], [0, 0x43, 0x61, 0x62], [0x63, 0xff]]
    [0x61, 0x62, 0x63] [] 10 :=
  (payload_extracted_iff plainFront_front (.none rfl)
    (show Cbor.IsHead 2 [0x61, 0x62, 0x63].length [0x43] from rfl) {} rfl).mpr
    ⟨rfl, rfl, Nat.zero_le 1⟩ [[0x85, 1, 1, 0], [0, 0x43, 0x61, 0x62], [0x63, 0xff]] [] rfl

/-- The length of three bytes is written in two: its second byte is taken for the first one of the data, and
the last one of the data for the break. -/
theorem payload_shifted : PayloadFront 0 plainFront ∧ Cbor.IsHead 2 3 [0x58, 3] ∧
    (∃ block, consumeChunks {} { type := .payload } [payloadImage plainFront [0x58, 3] [0x61, 0x62, 0xff] [] []] =
      .ok ([some 10], block, { payload := [3, 0x61, 0x62] }) ∧ block.complete = true) ∧
    ¬ Extracted {} [payloadImage plainFront [0x58, 3] [0x61, 0x62, 0xff] [] []] [0x61, 0x62, 0xff] []
      (payloadImage plainFront [0x58, 3] [0x61, 0x62, 0xff] [] []).length := by
  have hconsume : ∃ block, consumeChunks {} { type := .payload }
      [payloadImage plainFront [0x58, 3] [0x61, 0x62, 0xff] [] []] =
      .ok ([some 10], block, { payload := [3, 0x61, 0x62] }) ∧ block.complete = true := ⟨_, rfl, rfl⟩
  refine ⟨plainFront_front, rfl, hconsume, ?_⟩
  rintro ⟨ccs, block', b', hchunks, -, -, hpayload, -⟩
  obtain ⟨block, hshifted, -⟩ := hconsume
  rw [hshifted] at hchunks
  obtain ⟨-, hrest⟩ := Prod.mk.inj (Except.ok.inj hchunks)
  obtain ⟨-, rfl⟩ := Prod.mk.inj hrest
  simp at hpayload

end
end Dtnme.Bundling.Bp7
