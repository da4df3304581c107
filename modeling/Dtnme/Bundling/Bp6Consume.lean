import Dtnme.Bundling.Bp6Primary

/-! # Receiving a bundle of version 6

Every chunk is handed to the processor of the block that is not complete yet, or of the one that its
first byte starts. A processor returns the bytes it used, or that the bundle is in error. A block that
is flagged as the last one ends the bundle.
-/

namespace Dtnme.Bundling
open Library Naming

/-- What surrounds a bundle: the size that `realloc` can give, the URI class, and the bytes that stand
in memory behind the data of the n-th block. -/
structure Host where
  memory : ℕ
  parse : List UInt8 → Option Uri
  behind : ℕ → List UInt8
  static_le : 64 ≤ memory
  memory_lt : memory < 2 ^ 64

structure Ecos where
  flags : UInt8
  ordinal : UInt8
  flowlabel : Option ℕ
  deriving DecidableEq, Repr

/-- A bundle while it is received. The payload of the simulator's location NODATA is not kept. -/
structure RecvBundle where
  nodata : Bool
  fields : PrimaryFields := {}
  dict : List UInt8 := []
  payload : List UInt8 := []
  fragLength : ℕ := 0
  prevhop : Eid := makeEidNull
  ctebValid : Bool := false
  ecos : Option Ecos := none
  imcOrigDestNodes : List ℕ := []
  imcRegionsProcessed : List ℕ := []
  blocks : List RecvBlock := []
  deriving DecidableEq, Repr

namespace RecvBlock

/-- `data()` up to `data_length()`. -/
def data (block : RecvBlock) : List UInt8 :=
  (block.contents.drop block.dataOffset).take block.dataLength

def ownerType : Processor → ℕ
  | .primary => 0x00
  | .payload => 0x01
  | .previousHop => 0x05
  | .metadata => 0x08
  | .custodyTransferEnhancement => 0x0a
  | .extendedClassOfService => 0x13
  | .imcState => 0xde
  | .unknown => 0x101

/-- `type()`, which takes blocks that start like a CBOR array for blocks of version 7. -/
def type (block : RecvBlock) : ℕ :=
  if block.owner = .primary then 0
  else
    match block.contents with
    | [] => ownerType block.owner
    | first :: rest =>
      if first = 0x85 || first = 0x86 then
        match rest with
        | [] => 0x101
        | second :: rest =>
          if second.toNat &&& 0xe0 ≠ 0 then first.toNat
          else if second.toNat < 0x18 then second.toNat
          else if second.toNat = 0x18 then (rest.head?.map UInt8.toNat).getD 0x101
          else 0x101
      else first.toNat

def blockFlags (block : RecvBlock) : Except Fault ℕ :=
  if block.type = 0 then .ok 0
  else
    match readSdnv (block.contents.drop 1) with
    | some (flags, _) => .ok flags
    | none => .error .assertFailed

def lastBlock (block : RecvBlock) : Except Fault Bool :=
  if block.contents.length < 2 then .ok false
  else block.blockFlags.map fun flags => flags.testBit 3

end RecvBlock

/-! ## What processors make of a complete block -/

/-- `strlen` and `strncmp` may read what stands behind the data. -/
def finishPreviousHop (host : Host) (index : ℕ) (b : RecvBundle) (block : RecvBlock) :
    Except Fault (Option RecvBundle) :=
  let mem := block.contents.drop block.dataOffset ++ host.behind index
  if (cstr mem 0).length = 3 then
    .ok (some { b with prevhop := makeEidScheme (cstr mem 0) (cstr mem 4) })
  else if (text "ipn:").isPrefixOf mem then
    if 4 < (cstr mem 0).length then
      .ok (some { b with prevhop := makeEidScheme (text "ipn") (cstr mem 4) })
    else .ok none
  else
    let e : Eid := ⟨block.data⟩
    if e.valid host.parse then .ok (some { b with prevhop := e }) else .ok none

/-- `parse_metadata` asserts what it is called with; its errors are kept in the metadata. -/
def finishMetadata (b : RecvBundle) (block : RecvBlock) : Except Fault (Option RecvBundle) := do
  require (block.owner = .metadata)
  require (block.type = 0x08)
  require (block.complete = true)
  require (0 < block.dataOffset)
  pure (some b)

/-- The creator behind the custody id, up to its first zero byte. Without an id the length of -1 moves
back into the preamble, and one more byte is taken. -/
def ctebCreator (block : RecvBlock) : Except Fault (List UInt8) :=
  let length := u32 block.dataLength
  match readSdnv (block.data.take length) with
  | some (_, n) => .ok (cstr ((block.data.drop n).take (length - n)) 0)
  | none =>
    let length := u32 (length + 1)
    -- the buffer has the size `block_length + 1`, in 32 bits
    if length + 1 < 2 ^ 32 then
      .ok (cstr ((block.contents.drop (block.dataOffset - 1)).take length) 0)
    else .error .undefined

def finishCteb (b : RecvBundle) (block : RecvBlock) : Except Fault (Option RecvBundle) :=
  if b.ctebValid then .ok (some b)
  else do
    let creator ← ctebCreator block
    pure (some { b with ctebValid := b.fields.custodian.key = creator })

def finishEcos (b : RecvBundle) (block : RecvBlock) : Except Fault (Option RecvBundle) :=
  let length := u32 block.dataLength
  match block.data with
  | flags :: ordinal :: rest =>
    if length < 2 then .ok none
    else if flags.toNat.testBit 2 then
      match readSdnv (rest.take (length - 2)) with
      | some (flowlabel, _) =>
        .ok (some { b with ecos := some ⟨flags, ordinal, some flowlabel⟩ })
      | none => .ok none
    else .ok (some { b with ecos := some ⟨flags, ordinal, none⟩ })
  | _ => .ok none

/-- A number of values, and the values. -/
def readCounted (l : List UInt8) : Option (List ℕ × List UInt8) :=
  (readSdnv l).bind fun (count, n) => readSdnvs count (l.drop n)

/-- Destination nodes, regions, and what is left. -/
def readImcState (l : List UInt8) : Option (List ℕ × List ℕ × List UInt8) :=
  (readCounted l).bind fun (nodes, l) => (readCounted l).map fun (regions, l) => (nodes, regions, l)

/-- What a block in error has added is dropped with the bundle. -/
def finishImcState (b : RecvBundle) (block : RecvBlock) : Except Fault (Option RecvBundle) :=
  match readImcState block.data with
  | none => .ok none
  | some (nodes, regions, rest) => do
    require (rest = [])
    pure (some { b with
      imcOrigDestNodes := b.imcOrigDestNodes ++ nodes
      imcRegionsProcessed := b.imcRegionsProcessed ++ regions })

/-! ## Processors -/

/-- A processor that waits for the whole block. `expected` is the length as the processor compares it
with the bytes that were used. -/
def consumeThen (host : Host) (expected : ℕ → ℤ)
    (finish : RecvBundle → RecvBlock → Except Fault (Option RecvBundle)) (b : RecvBundle)
    (block : RecvBlock) (data : List UInt8) :
    Except Fault (Option ℕ × RecvBlock × RecvBundle) := do
  let (cc, block) ← consumeBlock host.memory b.dict block data
  match cc with
  | none => pure (none, block, b)
  | some cc =>
    if block.complete = false then do
      require ((cc : ℤ) = expected data.length)
      pure (some cc, block, b)
    else do
      let r ← finish b block
      match r with
      | none => pure (none, block, b)
      | some b => pure (some cc, block, b)

/-- Unknown blocks are only kept. -/
def consumeUnknown (host : Host) (b : RecvBundle) (block : RecvBlock) (data : List UInt8) :
    Except Fault (Option ℕ × RecvBlock × RecvBundle) := do
  let (cc, block) ← consumeBlock host.memory b.dict block data
  pure (cc, block, b)

/-- The preamble of a payload, which must be the first one of the bundle. -/
def payloadStart (host : Host) (b : RecvBundle) (block : RecvBlock) (data : List UInt8) :
    Except Fault (Option ℕ × RecvBlock) :=
  if block.dataOffset = 0 then do
    let (cc, block) ← consumePreamble host.memory b.dict block data
    match cc with
    | none => pure (none, block)
    | some cc => do
      require (b.payload.length = 0)
      pure (some cc, block)
  else .ok (some 0, block)

/-- Payload bytes go to the payload's file. -/
def writePayload (b : RecvBundle) (bytes : List UInt8) : RecvBundle :=
  { b with
    payload := b.payload ++ bytes
    fragLength := if b.fields.isFragment then b.payload.length + bytes.length else b.fragLength }

def payloadData (b : RecvBundle) (block : RecvBlock) (data : List UInt8) :
    Except Fault (ℕ × RecvBlock × RecvBundle) :=
  if block.dataOffset = 0 then do
    require (data = [])
    pure (0, block, b)
  else if b.nodata || block.dataLength = 0 then .ok (0, { block with complete := true }, b)
  else if data = [] then .ok (0, block, b)
  else do
    require (block.contents.length = block.dataOffset)
    require (b.payload.length < block.dataLength)
    let remainder := block.dataLength - b.payload.length
    pure (min remainder data.length, { block with complete := remainder ≤ data.length },
      writePayload b (data.take remainder))

/-- `BP6_PayloadBlockProcessor::consume`. -/
def consumePayload (host : Host) (b : RecvBundle) (block : RecvBlock) (data : List UInt8) :
    Except Fault (Option ℕ × RecvBlock × RecvBundle) := do
  let (cc, block) ← payloadStart host b block data
  match cc with
  | none => pure (none, block, b)
  | some cc => do
    let (copied, block, b) ← payloadData b block (data.drop cc)
    pure (some (cc + copied), block, b)

def consumePrimaryBlock (host : Host) (b : RecvBundle) (block : RecvBlock) (data : List UInt8) :
    Except Fault (Option ℕ × RecvBlock × RecvBundle) := do
  let (cc, block, fields, dict) ← consumePrimary host.memory b.dict b.fields block data
  pure (cc, block, { b with fields := fields, dict := dict })

/-- `owner()->consume`. -/
def consumeOwner (host : Host) (index : ℕ) (b : RecvBundle) (block : RecvBlock)
    (data : List UInt8) : Except Fault (Option ℕ × RecvBlock × RecvBundle) :=
  match block.owner with
  | .primary => consumePrimaryBlock host b block data
  | .payload => consumePayload host b block data
  | .previousHop => consumeThen host Int.ofNat (finishPreviousHop host index) b block data
  | .metadata => consumeThen host Int.ofNat finishMetadata b block data
  | .custodyTransferEnhancement => consumeThen host i32 finishCteb b block data
  | .extendedClassOfService => consumeThen host Int.ofNat finishEcos b block data
  | .imcState => consumeThen host Int.ofNat finishImcState b block data
  | .unknown => consumeUnknown host b block data

/-! ## The loop -/

/-- The blocks before the current one, and the current one: the last block until it is complete, then
one of the type that the byte says. -/
def RecvBundle.current (b : RecvBundle) (type : UInt8) : List RecvBlock × RecvBlock :=
  match b.blocks.getLast? with
  | none => ([], { owner := .primary })
  | some block =>
    if block.complete then (b.blocks, { owner := findProcessor type })
    else (b.blocks.dropLast, block)

/-- One round of the loop; the block it ended with is returned beside the bundle. -/
def consumeRound (host : Host) (b : RecvBundle) (data : List UInt8) :
    Except Fault (Option ℕ × RecvBlock × RecvBundle) := do
  let (earlier, block) := b.current (data.headD 0)
  let (cc, block, b) ← consumeOwner host earlier.length b block data
  pure (cc, block, { b with blocks := earlier ++ [block] })

/-- Whether the bundle ends here; a block that is not complete has used everything. -/
def roundEnds (block : RecvBlock) (rest : List UInt8) : Except Fault Bool :=
  if block.complete then block.lastBlock
  else do
    require (rest = [])
    pure false

/-- The bytes used, none for an error, and whether the bundle is complete. -/
def consumeLoop (host : Host) : ℕ → RecvBundle → List UInt8 → ℕ →
    Except Fault (Option ℕ × Bool × RecvBundle)
  | 0, _, _, _ => .error .noReturn
  | fuel + 1, b, data, consumed =>
    if data = [] then .ok (some consumed, false, b)
    else do
      let (cc, block, b) ← consumeRound host b data
      match cc with
      | none => pure (none, false, b)
      | some cc => do
        let last ← roundEnds block (data.drop cc)
        if last then pure (some (consumed + cc), true, b)
        else consumeLoop host fuel b (data.drop cc) (consumed + cc)

/-- `BundleProtocolVersion6::consume`. Every round uses a byte. -/
def consume (host : Host) (b : RecvBundle) (data : List UInt8) :
    Except Fault (Option ℕ × Bool × RecvBundle) :=
  consumeLoop host (data.length + 1) b data 0

/-- What is returned for the chunks of a bundle, up to an error or the end of the bundle. -/
def consumeChunks (host : Host) : RecvBundle → List (List UInt8) → Except Fault (List (Option ℕ))
  | _, [] => .ok []
  | b, chunk :: chunks => do
    let (r, last, b) ← consume host b chunk
    if r.isNone || last then pure [r]
    else do
      let rs ← consumeChunks host b chunks
      pure (r :: rs)

end Dtnme.Bundling
