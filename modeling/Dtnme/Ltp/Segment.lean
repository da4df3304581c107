import Dtnme.Library.OrdMap

/-! # LTP segments

The segment classes as records. A data segment carries its payload; a report
segment carries the claim map that was encoded or decoded with it. Fields of
the cipher suite are left out: no function here reads them.
-/

namespace Dtnme.Ltp
open Library

/-- `red_green_none_`. -/
inductive Color
  | unknown
  | red
  | green
  deriving DecidableEq, Repr

/-- The segment types, under the numbering of the source. -/
inductive SegmentType
  | unknown
  | ds
  | rs
  | ras
  | csBr
  | casBr
  | csBs
  | casBs
  deriving DecidableEq, Repr

/-- The part that every segment class shares. -/
structure LTPSegment where
  engineId : ℕ
  sessionId : ℕ
  segmentType : SegmentType := .unknown
  redGreen : Color := .unknown
  isCheckpoint : Bool := false
  isRedEndofblock : Bool := false
  isGreenEndofblock : Bool := false
  checkpointId : ℕ := 0
  serialNumber : ℕ := 0
  clientServiceId : ℕ := 0
  isDeleted : Bool := false
  retransRetries : ℕ := 0
  deriving DecidableEq, Repr

def LTPSegment.isEndofblock (seg : LTPSegment) : Bool :=
  seg.isRedEndofblock || seg.isGreenEndofblock

structure LTPDataSegment extends LTPSegment where
  offset : ℕ
  startByte : ℕ
  stopByte : ℕ
  payloadLength : ℕ
  payload : List UInt8 := []
  queuedToSend : Bool := false
  deriving DecidableEq, Repr

/-- One claim: its offset and its length. -/
structure LTPReportClaim where
  offset : ℕ
  length : ℕ
  deriving DecidableEq, Repr

structure LTPReportSegment extends LTPSegment where
  lowerBounds : ℕ
  upperBounds : ℕ
  claimCount : ℕ
  claimedBytes : ℕ
  claims : OrdMap ℕ LTPReportClaim
  deriving DecidableEq

structure LTPCancelSegment extends LTPSegment where
  reasonCode : ℕ
  deriving DecidableEq, Repr

end Dtnme.Ltp
