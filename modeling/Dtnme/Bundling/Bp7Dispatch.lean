import Dtnme.Bundling.Bp7Payload
import Dtnme.Bundling.Bp7Prepare
import Dtnme.Bundling.HopCount
import Dtnme.Bundling.ImcStateBlock

/-! # The processor of a block of version 7

When a block is complete the next one gets its processor from a look at its type, of which only the
lowest byte is kept. The processors of extension blocks wait for the whole block, which they decode
without a look at the type, and then set in the bundle what its data says.
-/

namespace Dtnme.Bundling.Bp7
open Library TinyCbor Decoder Naming

/-- The cursor at the type of a block. -/
def peekBlockElements : Decode Unit CborValue := do
  let blockArray ← cborParserInit
  if blockArray.type.isContainer = false then fail .fail
  else do
    let blockElements ← enterContainer blockArray
    if blockElements.type ≠ .integer then fail .fail else pure blockElements

/-- `peek_into_cbor_for_block_type`. -/
def peekIntoCborForBlockType : Decode Unit ℕ := do
  let blockElements ← peekBlockElements
  pure (blockElements.value % 256)

/-- The processor that the next block gets. -/
def newBlock (data : List UInt8) : Ending Failure Processor :=
  match (peekIntoCborForBlockType data).2 with
  | .done blockType => .done (findProcessor blockType)
  | .more => .more
  | .stop e => .stop e

/-! ## The data of extension blocks -/

/-- What extension blocks set in a bundle. -/
structure ExtendedBundle where
  prevBundleAgeMillis : ℕ := 0
  hasBundleAgeBlock : Bool := false
  hops : HopBundle := {}
  prevhop : Eid := makeEidNull
  imc : ImcState := {}
  deriving DecidableEq

/-- The age in milliseconds. -/
def decodeBundleAge : Decode ℕ Unit := do
  let cvElement ← cborParserInit
  let (ageMillis, _) ← decodeUint cvElement
  assign ageMillis

/-- `decode_eid` into the previous node, which is no node until one is known. -/
def decodePreviousNode : Decode Eid Unit := do
  let cvElement ← cborParserInit
  assign makeEidNull
  let _ ← validateCborFixedArrayLength cvElement 2 2
  let elements ← enterContainer cvElement
  let (schemaType, elements) ← decodeUint elements
  let (eid, elements) ← decodeSsp schemaType elements
  assign eid
  let _ ← leaveContainer cvElement elements
  pure ()

/-- Numbers one by one. -/
def decodeDests : ℕ → CborValue → Decode ℕ Unit
  | 0, _ => pure ()
  | k + 1, elements => do
    let (dest, elements) ← decodeUint elements
    assign dest
    decodeDests k elements

/-- The destination nodes, which stay as far as they were read. -/
def decodeImcDestinations : Decode ℕ Unit := do
  let dataArray ← cborParserInit
  let numElements ← validateCborFixedArrayLength dataArray 0 (2 ^ 64 - 1)
  let elements ← enterContainer dataArray
  decodeDests numElements elements

/-- `decode_block_data` of each processor; a failure is only logged. -/
def decodeBlockData (p : Processor) (b : ExtendedBundle) (data : List UInt8) : ExtendedBundle :=
  match p with
  | .bundleAge => (decodeBundleAge data).1.foldl
      (fun b age => { b with prevBundleAgeMillis := age, hasBundleAgeBlock := true }) b
  | .previousNode => (decodePreviousNode data).1.foldl (fun b eid => { b with prevhop := eid }) b
  | .hopCount => { b with hops := b.hops.consume data }
  | .imcDestinations => { b with
      imc := (decodeImcDestinations data).1.foldl ImcState.addImcOrigDestNode b.imc }
  | .imcState => { b with
      imc := (ImcStateBlock.decodeBlockData data).1.foldl ImcStateBlock.ImcWrite.apply b.imc }
  | .primary | .payload | .unknown => b

/-! ## Consuming a chunk of an extension block -/

/-- The received bytes after the CRC was checked in them. -/
def patched (log : List BlockWrite) (mem : List UInt8) : List UInt8 :=
  (log.filterMap BlockWrite.record).foldl Patch.write mem

/-- The `consume` that the extension blocks' processors share. -/
def consumeExtension (p : Processor) (b : ExtendedBundle) (block : BlockInfo) (buf : List UInt8) :
    Except Fault (Option ℕ × BlockInfo × ExtendedBundle) := do
  require (block.complete = false)
  let prevConsumed := block.contents.length
  let (log, ending) := decodeCanonicalBlock (block.contents ++ buf)
  -- bytes that were stored before are decoded in a copy
  let buf := if prevConsumed = 0 then patched log buf else buf
  let decoded := log.foldl BlockWrite.apply block
  match ending with
  | .stop .abort => .error .assertFailed
  | .stop .fail => pure (none, decoded, b)
  | .more => pure (some buf.length, { decoded with contents := block.contents ++ buf }, b)
  | .done blockLen =>
    if blockLen < prevConsumed then .error .undefined
    else do
      let bytes ← copyOut buf 0 (blockLen - prevConsumed)
      let contents := block.contents ++ bytes
      let data := slice contents decoded.dataOffset decoded.dataLength
      pure (some (blockLen - prevConsumed), { decoded with contents := contents, complete := true },
        decodeBlockData p b data)

/-- The chunks of a block up to its end or an error, and what became of the bundle. -/
def consumeExtensionChunks (p : Processor) : ExtendedBundle → BlockInfo → List (List UInt8) →
    Except Fault ExtendedBundle
  | b, _, [] => .ok b
  | b, block, chunk :: chunks => do
    let (cc, block, b) ← consumeExtension p b block chunk
    if cc = none ∨ block.complete = true then pure b
    else consumeExtensionChunks p b block chunks

/-! ## Which processor a block gets -/

section
variable {k t : ℕ} {a h x later rest : List UInt8}

/-- The processor for a type of 64 bits. -/
def processorOf (t : ℕ) : Processor := if t ≤ 255 then findProcessor t else .unknown

theorem peekBlockElements_eq (ha : Cbor.IsHead 4 k a) (hpos : 1 ≤ k) (hsmall : k < uint32Max)
    (hh : Cbor.IsHead 0 t h) (rest : List UInt8) :
    ∃ it, peekBlockElements (a ++ (h ++ rest)) = ([], .done it) ∧ it.value = t := by
  have hstart : (a ++ (h ++ rest)).drop 0 = a ++ (h ++ rest) := rfl
  have hinit : cborParserInit (ω := Unit) (a ++ (h ++ rest)) = ([], .done (headAt 0 1 4 k a)) :=
    preparseValue_head ha (by omega) hstart
  obtain ⟨it, henter, hat⟩ := enterContainer_at (ω := Unit) 1 ha hstart hpos hsmall
    (headFirst_of hh (by omega) rest)
  have hit := hat.eq_headAt hh (by omega)
  refine ⟨it, ?_, by rw [hit]; rfl⟩
  unfold peekBlockElements
  rw [bind_of_done hinit, if_neg (by simp [CborType.ofMajor, CborType.isContainer]),
    bind_of_done henter, if_neg (by simp [hit, CborType.ofMajor])]
  rfl

theorem peekBlockElements_moves : Moves (fun _ _ => True) peekBlockElements (.atEnd 0) id := by
  unfold peekBlockElements
  refine cborParserInit_moves.bind fun blockArray => ?_
  split_ifs
  · exact .fail
  · refine (enterContainer_moves blockArray).bind fun blockElements => ?_
    split_ifs
    · exact .fail
    · exact .ret rfl

theorem newBlock_eq (ha : Cbor.IsHead 4 k a) (hpos : 1 ≤ k) (hsmall : k < uint32Max)
    (hh : Cbor.IsHead 0 t h) (rest : List UInt8) :
    newBlock (a ++ (h ++ rest)) = .done (findProcessor (t % 256)) := by
  obtain ⟨it, hpeek, hvalue⟩ := peekBlockElements_eq ha hpos hsmall hh rest
  unfold newBlock peekIntoCborForBlockType
  rw [bind_of_done hpeek, hvalue]
  rfl

/-- From the first bytes of a block either no processor is chosen yet, or the one of the lowest byte. -/
theorem newBlock_prefix (ha : Cbor.IsHead 4 k a) (hpos : 1 ≤ k) (hsmall : k < uint32Max)
    (hh : Cbor.IsHead 0 t h) (hx : x ++ later = a ++ (h ++ rest)) :
    newBlock x = .more ∨ newBlock x = .done (findProcessor (t % 256)) := by
  have hstart : (CborValue.atEnd 0).extent ≤ x.length := Nat.zero_le _
  obtain ⟨it, hwhole, hvalue⟩ := peekBlockElements_eq ha hpos hsmall hh rest
  rw [← hx] at hwhole
  unfold newBlock peekIntoCborForBlockType
  rcases hpeek : peekBlockElements x with ⟨log, it' | _ | e⟩
  · right
    have hdone := peekBlockElements_moves.done_append later hstart hpeek
    rw [hwhole] at hdone
    cases hdone
    rw [bind_of_done hpeek, hvalue]
    rfl
  · left
    rw [bind_more hpeek]
  · have hstop := peekBlockElements_moves.stop later hstart hpeek
    rw [hwhole] at hstop
    cases hstop

/-! ## What blocks of other types change -/

/-- The bundle stays as it is whatever a block of the processor brings. -/
def Inert (p : Processor) : Prop :=
  p.IsExtension ∧ ∀ (chunks : List (List UInt8)) (b b' : ExtendedBundle) (block : BlockInfo),
    consumeExtensionChunks p b block chunks = .ok b' → b' = b

theorem consumeExtension_unknown {b b' : ExtendedBundle} {block block' : BlockInfo} {buf : List UInt8}
    {cc : Option ℕ} (hconsume : consumeExtension .unknown b block buf = .ok (cc, block', b')) : b' = b := by
  unfold consumeExtension at hconsume
  obtain ⟨-, -, hconsume⟩ := of_bind_ok hconsume
  simp only at hconsume
  split at hconsume
  · cases hconsume
  · cases hconsume
    rfl
  · cases hconsume
    rfl
  · split_ifs at hconsume
    all_goals
      obtain ⟨bytes, -, hconsume⟩ := of_bind_ok hconsume
      cases hconsume
      rfl

theorem inert_unknown : Inert .unknown := by
  refine ⟨by decide, fun chunks => ?_⟩
  induction chunks with
  | nil =>
    intro b b' block hchunks
    cases hchunks
    rfl
  | cons chunk chunks ih =>
    intro b b' block hchunks
    rw [consumeExtensionChunks] at hchunks
    obtain ⟨⟨cc, block₁, b₁⟩, hconsume, hchunks⟩ := of_bind_ok hchunks
    have hb := consumeExtension_unknown hconsume
    simp only at hchunks
    split_ifs at hchunks
    · cases hchunks
      exact hb
    · exact (ih b₁ b' block₁ hchunks).trans hb

/-- No piece of the block is given to another processor than the one of its type, and a block whose type
is no byte changes nothing. -/
def DispatchedExactly (t : ℕ) (block : List UInt8) : Prop :=
  (∀ x later, x ++ later = block → newBlock x = .more ∨ newBlock x = .done (processorOf t)) ∧
    (255 < t → ∀ x later p, x ++ later = block → newBlock x = .done p → Inert p)

/-- A block gets the processor of its type if and only if the type is a byte, or its lowest byte is the
type of no processor. -/
theorem dispatchedExactly_iff (ha : Cbor.IsHead 4 k a) (hpos : 1 ≤ k) (hsmall : k < uint32Max)
    (hh : Cbor.IsHead 0 t h) (rest : List UInt8) :
    DispatchedExactly t (a ++ (h ++ rest)) ↔ t ≤ 255 ∨ findProcessor (t % 256) = .unknown := by
  have hprocessor : t ≤ 255 ∨ findProcessor (t % 256) = .unknown ↔
      findProcessor (t % 256) = processorOf t := by
    unfold processorOf
    split_ifs with hbyte
    · rw [Nat.mod_eq_of_lt (by omega)]
      exact ⟨fun _ => rfl, fun _ => .inl hbyte⟩
    · exact ⟨fun hor => hor.resolve_left hbyte, .inr⟩
  rw [hprocessor]
  constructor
  · rintro ⟨hexact, -⟩
    have hwhole := newBlock_eq ha hpos hsmall hh rest
    rcases hexact (a ++ (h ++ rest)) [] (List.append_nil _) with hmore | hdone
    · rw [hwhole] at hmore
      cases hmore
    · rw [hwhole] at hdone
      exact Ending.done.inj hdone
  · intro heq
    refine ⟨fun x later hx => heq ▸ newBlock_prefix ha hpos hsmall hh hx, ?_⟩
    intro hlarge x later p hx hp
    rcases newBlock_prefix ha hpos hsmall hh hx with hmore | hdone
    · rw [hmore] at hp
      cases hp
    · rw [hdone, heq, processorOf, if_neg (by omega)] at hp
      obtain rfl := Ending.done.inj hp
      exact inert_unknown

/-- An age block, and one of type 264, whose lowest byte is the type of no processor. -/
theorem dispatchedExactly_age : DispatchedExactly 7 [0x85, 7, 2, 0, 0, 0x41, 5] ∧
    DispatchedExactly 264 [0x86, 0x19, 1, 8, 2, 0, 1, 0x41, 5, 0x42, 1, 2] :=
  ⟨(dispatchedExactly_iff (show Cbor.IsHead 4 5 [0x85] from rfl) (by norm_num)
      (by norm_num [uint32Max]) (show Cbor.IsHead 0 7 [7] from rfl)
      [2, 0, 0, 0x41, 5]).mpr (.inl (by norm_num)),
    (dispatchedExactly_iff (show Cbor.IsHead 4 6 [0x86] from rfl) (by norm_num)
      (by norm_num [uint32Max]) (show Cbor.IsHead 0 264 [0x19, 1, 8] from rfl)
      [2, 0, 1, 0x41, 5, 0x42, 1, 2]).mpr (.inr (by decide))⟩

/-- A block of type 263 sets the age. -/
theorem age_overwritten : ¬ DispatchedExactly 263 [0x85, 0x19, 1, 7, 2, 0, 0, 0x41, 5] ∧
    newBlock [0x85, 0x19, 1, 7, 2, 0, 0, 0x41, 5] = .done .bundleAge ∧
    consumeExtensionChunks .bundleAge {} { type := .extension 263 }
      [[0x85, 0x19, 1, 7, 2, 0, 0, 0x41, 5]] =
        .ok { prevBundleAgeMillis := 5, hasBundleAgeBlock := true } := by
  have hpeek : newBlock [0x85, 0x19, 1, 7, 2, 0, 0, 0x41, 5] = .done .bundleAge := by decide +kernel
  refine ⟨fun hexact => ?_, hpeek, by decide +kernel⟩
  rcases hexact.1 _ [] (List.append_nil _) with hmore | hdone
  · rw [hpeek] at hmore
    cases hmore
  · rw [hpeek] at hdone
    cases hdone

end
end Dtnme.Bundling.Bp7
