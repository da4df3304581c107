import Dtnme.Bundling.Sdnv
import Dtnme.Ltp.Segment

/-! # Segments on the wire

Encoding and decoding of the segment classes. The encoder appends fields to a packet and
drops a field that does not fit its buffer. The decoder reads memory from an address on,
with a length that it does not always look at, and logs what it does. A rejected segment
and a null one are both a failure here, since the callers only ask whether it is valid.
-/

namespace Dtnme.Ltp
open Library Bundling

inductive WireSegment
  | data (ds : LTPDataSegment)
  | report (rs : LTPReportSegment)
  | reportAck (seg : LTPSegment)
  | cancel (cs : LTPCancelSegment)
  | cancelAck (seg : LTPSegment)
  deriving DecidableEq

/-! ## Encoding -/

/-- `Encode_Field`: the room is the size of the C type, and a failure is only logged. -/
def encodeField (size val : ℕ) : List UInt8 := (encode val size).getD []

def encodeField64 (val : ℕ) : List UInt8 := encodeField 8 val

def encodeField32 (val : ℕ) : List UInt8 := encodeField 4 val

/-- `Create_LTP_Header`: no header and no trailer extension. -/
def createLtpHeader (controlFlags : ℕ) (seg : LTPSegment) : List UInt8 :=
  UInt8.ofNat controlFlags :: (encodeField64 seg.engineId ++ (encodeField64 seg.sessionId ++ [0]))

/-- The control flags after the color, checkpoint and end-of-block bits were set. -/
def LTPDataSegment.controlFlags (ds : LTPDataSegment) : ℕ :=
  let flags := if ds.redGreen = .green then 0x04 else 0x00
  let flags := if ds.redGreen = .red ∧ ds.isCheckpoint then flags ||| 0x01 else flags
  if ds.isEndofblock then flags ||| 0x03 else flags

/-- `Encode_LTP_DS_Header`. -/
def encodeLtpDsHeader (ds : LTPDataSegment) : List UInt8 :=
  createLtpHeader ds.controlFlags ds.toLTPSegment ++ (encodeField32 ds.clientServiceId ++
    (encodeField64 ds.offset ++ (encodeField64 ds.payloadLength ++
      if ds.redGreen = .red ∧ ds.isCheckpoint then
        encodeField64 ds.checkpointId ++ encodeField64 ds.serialNumber
      else [])))

/-- `Encode_Counters`. -/
def encodeCounters (rs : LTPReportSegment) : List UInt8 :=
  encodeField64 rs.serialNumber ++ (encodeField64 rs.checkpointId ++
    (encodeField64 rs.upperBounds ++ (encodeField64 rs.lowerBounds ++
      encodeField64 rs.claimCount)))

def encodeClaims (lowerBounds : ℕ) : List LTPReportClaim → List UInt8
  | [] => []
  | rc :: rest => encodeField64 (u64Sub rc.offset lowerBounds) ++ (encodeField64 rc.length ++
      encodeClaims lowerBounds rest)

/-- The bytes that go out for a segment. -/
def encodeSegment : WireSegment → List UInt8
  | .data ds => encodeLtpDsHeader ds ++ ds.payload
  | .report rs => createLtpHeader 0x08 rs.toLTPSegment ++ (encodeCounters rs ++
      encodeClaims rs.lowerBounds rs.claims.values)
  | .reportAck seg => createLtpHeader 0x09 seg ++ encodeField64 seg.serialNumber
  | .cancel cs => createLtpHeader (if cs.segmentType = .csBr then 0x0E else 0x0C) cs.toLTPSegment ++
      [UInt8.ofNat cs.reasonCode]
  | .cancelAck seg => createLtpHeader (if seg.segmentType = .casBr then 0x0F else 0x0D) seg

/-! ## Decoding -/

/-- `SDNV::decode` at the current byte, with the status check: value and next byte. -/
def decodeField (mem : ℕ → UInt8) (length currentByte : ℕ) : Logged Event (ℕ × ℕ) := do
  let (val, count) ← decode mem currentByte (u64Sub length currentByte)
  pure (val, currentByte + count)

def decodeField32 (mem : ℕ → UInt8) (length currentByte : ℕ) : Logged Event (ℕ × ℕ) := do
  let (val, count) ← decode32 mem currentByte (u64Sub length currentByte)
  pure (val, currentByte + count)

/-- Color, checkpoint and end-of-block flags of a control byte. -/
def flagsOf (controlFlags : ℕ) (seg : LTPSegment) : LTPSegment :=
  let excFlag := controlFlags.testBit 2
  let flag1 := controlFlags.testBit 1
  let flag0 := controlFlags.testBit 0
  if controlFlags.testBit 3 then seg
  else if !excFlag then
    { seg with redGreen := .red, isCheckpoint := flag1 || flag0, isRedEndofblock := flag1 && flag0 }
  else
    { seg with redGreen := .green, isCheckpoint := flag1, isGreenEndofblock := flag1 && flag0 }

/-- The variables of the header extension loop. -/
structure ExtState where
  currentByte : ℕ
  segLen : ℕ := 0
  headerFound : Bool := false
  deriving DecidableEq, Repr

/-- The key id that follows a cipher suite: `read_len` is `seg_len - 1` in 32 bits, so it is
positive unless `seg_len` is 1. -/
def parseCipherKey (mem : ℕ → UInt8) (length segLen current : ℕ) : Logged Event ℕ :=
  if segLen = 1 then pure current else do
    let (_cipherKeyId, next) ← decodeField32 mem length current
    pure next

/-- One pass of the extension loop. The first authentication extension sets `seg_len`; every
other extension is skipped by `seg_len`. -/
def parseExtension (mem : ℕ → UInt8) (length : ℕ) (st : ExtState) : Logged Event ExtState := do
  let tag ← peek mem st.currentByte
  let (testLen, current) ← decodeField32 mem length (st.currentByte + 1)
  if tag = 0 ∧ st.headerFound = false then do
    let _cipherSuite ← peek mem current
    let next ← parseCipherKey mem length testLen (current + 1)
    Logged.note (.extension testLen (next - current))
    pure ⟨next, testLen, true⟩
  else do
    Logged.note (.extension testLen st.segLen)
    pure { st with currentByte := current + st.segLen }

def parseExtensions (mem : ℕ → UInt8) (length : ℕ) : ℕ → ExtState → Logged Event ExtState
  | 0, st => pure st
  | n + 1, st => do
    let st ← parseExtension mem length st
    parseExtensions mem length n st

/-- The common part of a decoded segment. -/
structure Header where
  seg : LTPSegment
  currentByte : ℕ
  isValid : Bool
  deriving DecidableEq, Repr

/-- `LTPSegment::Parse_Buffer`. -/
def parseBuffer (mem : ℕ → UInt8) (length : ℕ) : Logged Event Header := do
  let first ← peek mem 0
  let (engineId, current) ← decodeField mem length 1
  let (sessionId, current) ← decodeField mem length current
  let oneByte ← peek mem current
  let st ← parseExtensions mem length (oneByte.toNat / 16) { currentByte := current + 1 }
  pure ⟨flagsOf (first.toNat % 16) { engineId, sessionId }, st.currentByte,
    decide (st.currentByte ≤ length)⟩

/-- The bytes from an address on. -/
def copyBytes (mem : ℕ → UInt8) (start len : ℕ) : List UInt8 :=
  (List.range len).map (fun i => mem (start + i))

/-- Checkpoint id and serial number, present on a red checkpoint only. -/
def parseCheckpoint (mem : ℕ → UInt8) (length : ℕ) (seg : LTPSegment) (current : ℕ) :
    Logged Event (ℕ × ℕ × ℕ) :=
  if seg.redGreen = .red ∧ seg.isCheckpoint then do
    let (checkpointId, current) ← decodeField mem length current
    let (serialNumber, current) ← decodeField mem length current
    pure (checkpointId, serialNumber, current)
  else pure (seg.checkpointId, seg.serialNumber, current)

/-- `LTPDataSegment::Parse_Buffer`. It goes on when the header parse ran past the end. -/
def parseData (mem : ℕ → UInt8) (length : ℕ) : Logged Event WireSegment := do
  let h ← parseBuffer mem length
  let (clientServiceId, current) ← decodeField32 mem length h.currentByte
  let (offset, current) ← decodeField mem length current
  let (payloadLength, current) ← decodeField mem length current
  let (checkpointId, serialNumber, current) ← parseCheckpoint mem length h.seg current
  if payloadLength = 0 then Logged.fail
  else if i32 length < i32 (current + payloadLength) then Logged.fail
  else do
    Logged.note (.payload current payloadLength)
    if h.isValid then
      pure (.data
        { h.seg with
          segmentType := .ds, clientServiceId, checkpointId, serialNumber, offset
          startByte := offset
          stopByte := u64Sub (u64 (offset + payloadLength)) 1
          payloadLength
          payload := copyBytes mem current payloadLength })
    else Logged.fail

/-- The claim loop: next byte, claim map and claimed bytes. -/
def parseClaims (mem : ℕ → UInt8) (length : ℕ) :
    ℕ → ℕ → OrdMap ℕ LTPReportClaim → ℕ → Logged Event (ℕ × OrdMap ℕ LTPReportClaim × ℕ)
  | 0, current, claims, claimedBytes => pure (current, claims, claimedBytes)
  | n + 1, current, claims, claimedBytes => do
    let (receptionOffset, current) ← decodeField mem length current
    let (receptionLength, current) ← decodeField mem length current
    parseClaims mem length n current
      (claims.insert receptionOffset ⟨receptionOffset, receptionLength⟩)
      (u64 (claimedBytes + receptionLength))

/-- `LTPReportSegment::Parse_Buffer`. The claim count is compared as a signed 32-bit word. -/
def parseReport (mem : ℕ → UInt8) (length : ℕ) : Logged Event WireSegment := do
  let h ← parseBuffer mem length
  if h.isValid = false then Logged.fail
  else do
    let (serialNumber, current) ← decodeField mem length h.currentByte
    let (checkpointId, current) ← decodeField mem length current
    let (upperBounds, current) ← decodeField mem length current
    let (lowerBounds, current) ← decodeField mem length current
    let (claimCount, current) ← decodeField mem length current
    let (current, claims, claimedBytes) ←
      parseClaims mem length (i32 claimCount).toNat current .empty 0
    if length < current then Logged.fail
    else do
      Logged.note (.claims claimCount (i32 claimCount).toNat)
      pure (.report
        { h.seg with
          segmentType := .rs, serialNumber, checkpointId, upperBounds, lowerBounds, claimCount
          claimedBytes, claims })

/-- `LTPReportAckSegment::Parse_Buffer`. -/
def parseReportAck (mem : ℕ → UInt8) (length : ℕ) : Logged Event WireSegment := do
  let h ← parseBuffer mem length
  if h.isValid = false then Logged.fail
  else do
    let (serialNumber, current) ← decodeField mem length h.currentByte
    if length < current then Logged.fail
    else pure (.reportAck { h.seg with segmentType := .ras, serialNumber })

/-- `LTPCancelSegment::Parse_Buffer`. The reason code is read before the length is checked. -/
def parseCancel (mem : ℕ → UInt8) (length : ℕ) (segmentType : SegmentType) :
    Logged Event WireSegment := do
  let h ← parseBuffer mem length
  if h.isValid = false then Logged.fail
  else do
    let reasonCode ← peek mem h.currentByte
    if length < h.currentByte + 1 then Logged.fail
    else pure (.cancel { h.seg with segmentType, reasonCode := reasonCode.toNat })

/-- `LTPCancelAckSegment::Parse_Buffer`. -/
def parseCancelAck (mem : ℕ → UInt8) (length : ℕ) (segmentType : SegmentType) :
    Logged Event WireSegment := do
  let h ← parseBuffer mem length
  if h.isValid = false then Logged.fail
  else pure (.cancelAck { h.seg with segmentType })

/-- The parser for a control byte, with the length that the constructor is given. -/
def parseFor (mem : ℕ → UInt8) (length controlFlags : ℕ) : Logged Event WireSegment :=
  if controlFlags < 8 then parseData mem length
  else if controlFlags = 0x08 then parseReport mem length
  else if controlFlags = 0x09 then parseReportAck mem length
  else if controlFlags = 0x0C then parseCancel mem length .csBs
  else if controlFlags = 0x0D then parseCancelAck mem length .casBs
  else if controlFlags = 0x0E then parseCancel mem length .csBr
  else if controlFlags = 0x0F then parseCancelAck mem length .casBr
  else Logged.fail

/-- `LTPSegment::DecodeBuffer`: the length goes through `int` on its way. -/
def decodeBuffer (mem : ℕ → UInt8) (length : ℕ) : Logged Event WireSegment := do
  let first ← peek mem 0
  parseFor mem (u64OfInt (i32 length)) (first.toNat % 16)

end Dtnme.Ltp
