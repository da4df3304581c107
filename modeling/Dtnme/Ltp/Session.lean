import Dtnme.Library.Word
import Dtnme.Ltp.Segment

/-! # The LTP session

State of one session and the operations that store incoming data segments. A
call either returns or faults: an assertion fails, or a loop of the source never
ends. Sessions that spool to a file are outside this model, and every caller
leaves the overlap check of `AddSegment_incoming` on.
-/

namespace Dtnme.Ltp
open Library

/-- The ways in which a call does not return. -/
inductive Fault
  | assertFailed
  | noReturn
  deriving DecidableEq, Repr

/-- `LTP_SESSION_STATE_*`. -/
inductive SessionState
  | rs
  | cs
  | ds
  | created
  | undefined
  deriving DecidableEq, Repr

structure LTPSession where
  engineId : ℕ
  sessionId : ℕ
  redEobReceived : Bool := false
  redComplete : Bool := false
  greenComplete : Bool := false
  redProcessed : Bool := false
  greenProcessed : Bool := false
  redBytesReceived : ℕ := 0
  expectedRedBytes : ℕ := 0
  expectedGreenBytes : ℕ := 0
  totalRedSegments : ℕ := 0
  firstContiguousBytes : ℕ := 0
  checkpointId : ℕ := 0
  reportSerialNumber : ℕ := 0
  sessionState : SessionState := .created
  redSegments : OrdMap ℕ LTPDataSegment := .empty
  greenSegments : OrdMap ℕ LTPDataSegment := .empty
  checkpoints : OrdMap ℕ ℤ := .empty
  reportSegments : OrdMap ℕ LTPReportSegment := .empty
  dsOffsetToUpperbounds : OrdMap ℕ ℕ := .empty
  redContigBlocks : OrdMap ℕ ℕ := .empty
  cancelSegment : Option LTPCancelSegment := none
  bundleList : List ℕ := []
  deriving DecidableEq

/-- A session as its constructor leaves it. -/
def LTPSession.new (engineId sessionId : ℕ) : LTPSession := { engineId, sessionId }

/-! ## Contiguous blocks -/

/-- What `check_red_contig_blocks` leaves behind: its two flags, the block map and
the block that the segment ended up in. -/
structure ContigCheck where
  overlap : Bool
  duplicate : Bool
  blocks : OrdMap ℕ ℕ
  contigStart : ℕ
  contigStop : ℕ
  deriving DecidableEq

/-- Whether a segment that ends at `stop` overlaps or abuts a block that starts at `first`. -/
def reaches (stop first : ℕ) : Prop := stop = first ∨ u64 (stop + 1) = first

instance (stop first : ℕ) : Decidable (reaches stop first) :=
  inferInstanceAs (Decidable (_ ∨ _))

/-- The branch with a block above the segment and a block below it. -/
def checkBetween (blocks : OrdMap ℕ ℕ) (start stop p q b c : ℕ) : Except Fault ContigCheck :=
  if ¬ p < start then .error .assertFailed
  else if stop ≤ q then .ok ⟨true, true, blocks, start, stop⟩
  else if start ≤ q then
    if q < stop then
      if reaches stop b then .ok ⟨true, false, (blocks.insert p c).erase b, p, c⟩
      else .ok ⟨true, false, blocks.insert p stop, p, stop⟩
    else .ok ⟨true, true, blocks, p, q⟩
  else if u64 (q + 1) = start then
    if reaches stop b then .ok ⟨decide (stop = b), false, (blocks.insert p c).erase b, p, c⟩
    else .ok ⟨false, false, blocks.insert p stop, p, stop⟩
  else
    if reaches stop b then
      .ok ⟨decide (stop = b), false, (blocks.insert start c).erase b, start, c⟩
    else .ok ⟨false, false, blocks.insert start stop, start, stop⟩

/-- The branch with a block above the segment and none below it. -/
def checkBelowAll (blocks : OrdMap ℕ ℕ) (start stop b c : ℕ) : ContigCheck :=
  if b ≤ stop then
    if stop < c then ⟨true, false, (blocks.insert start c).erase b, start, c⟩
    else ⟨true, false, (blocks.insert start stop).erase b, start, stop⟩
  else if reaches stop b then
    if stop < c then ⟨decide (stop = b), false, (blocks.insert start c).erase b, start, c⟩
    else ⟨decide (stop = b), false, (blocks.insert start stop).erase b, start, stop⟩
  else ⟨false, false, blocks.insert start stop, start, stop⟩

/-- The branch in which no block starts at or above the segment. -/
def checkAboveAll (blocks : OrdMap ℕ ℕ) (start stop : ℕ) : Except Fault ContigCheck :=
  match blocks.last? with
  | none => .ok ⟨false, false, blocks.insert start stop, start, stop⟩
  | some (p, q) =>
    if stop ≤ q then
      if p ≤ start then .ok ⟨true, true, blocks, start, stop⟩ else .error .assertFailed
    else if q = start ∨ u64 (q + 1) = start then
      .ok ⟨decide (q = start), false, blocks.insert p stop, p, stop⟩
    else .ok ⟨false, false, blocks.insert start stop, start, stop⟩

def checkRedContigBlocks (blocks : OrdMap ℕ ℕ) (start stop : ℕ) : Except Fault ContigCheck :=
  match blocks.lowerBound? start with
  | none => checkAboveAll blocks start stop
  | some (b, c) =>
    if b = start then
      if stop ≤ c then .ok ⟨true, true, blocks, start, stop⟩ else .error .assertFailed
    else if ¬ start < b then .error .assertFailed
    else
      match blocks.prev? b with
      | some (p, q) => checkBetween blocks start stop p q b c
      | none => .ok (checkBelowAll blocks start stop b c)

/-- The session fields that the check updates. -/
def LTPSession.setContig (s : LTPSession) (r : ContigCheck) : LTPSession :=
  { s with
    redContigBlocks := r.blocks
    firstContiguousBytes :=
      if !r.duplicate && r.contigStart == 0 then u64 (r.contigStop + 1)
      else s.firstContiguousBytes }

/-! ## Overlapping segments -/

/-- The outcome of one `Check_Overlap` scan; an adjusted segment comes back trimmed. -/
inductive Lookup
  | adjusted (ds : LTPDataSegment)
  | deleted (old : LTPDataSegment)
  | duplicate
  | complete

/-- Drop the front of the payload, up to the last byte of the stored segment. -/
def LTPDataSegment.trimLeft (ds this : LTPDataSegment) : LTPDataSegment :=
  let adjust := u64Sub this.stopByte ds.offset
  let offset := u64 (ds.offset + adjust)
  let length := u64Sub ds.payloadLength adjust
  { ds with
    payload := ds.payload.drop adjust
    offset := offset
    payloadLength := length
    startByte := offset
    stopByte := u64Sub (u64 (offset + length)) 1 }

/-- Cut the length by the distance to the stored segment. -/
def LTPDataSegment.trimRight (ds this : LTPDataSegment) : LTPDataSegment :=
  let adjust := u64Sub (u64Sub this.startByte 1) ds.startByte
  let length := u64Sub ds.payloadLength adjust
  { ds with
    payloadLength := length
    stopByte := u64 (ds.startByte + u64Sub length 1) }

/-- The scan of `Check_Overlap`, from an iterator down to the beginning of the map. -/
def overlapScan (ds : LTPDataSegment) : List (ℕ × LTPDataSegment) → Lookup
  | [] => .complete
  | (_, this) :: rest =>
    let left := decide (ds.startByte ≤ this.stopByte) && decide (this.startByte ≤ ds.startByte)
    let right := decide (ds.stopByte ≤ this.stopByte) && decide (this.startByte ≤ ds.stopByte)
    if this.stopByte < ds.startByte then .complete
    else if left && right then .duplicate
    else if ds.startByte ≤ this.startByte ∧ this.stopByte ≤ ds.stopByte then .deleted this
    else if left then .adjusted (ds.trimLeft this)
    else if right then .adjusted (ds.trimRight this)
    else overlapScan ds rest

/-- The entries that the scan visits: the upper bound of the segment's start, or the
last entry when there is none, and everything below. -/
def scanOrder (segments : OrdMap ℕ LTPDataSegment) (start : ℕ) : List (ℕ × LTPDataSegment) :=
  match segments.upperBound? start with
  | some (k, _) => (segments.entries.filter (fun p => decide (p.1 ≤ k))).reverse
  | none => segments.entries.reverse

def checkOverlap (segments : OrdMap ℕ LTPDataSegment) (ds : LTPDataSegment) : Lookup :=
  overlapScan ds (scanOrder segments ds.startByte)

/-- Result of trimming: whether to insert, the segment map, the byte counter and the segment. -/
structure TrimResult where
  insert : Bool
  segments : OrdMap ℕ LTPDataSegment
  redBytes : ℕ
  ds : LTPDataSegment

/-- The loop of `CheckAndTrim`. It ends on a complete or a duplicate lookup only; the
deletion of a stored segment always lowers the red byte counter. -/
def trimLoop : ℕ → OrdMap ℕ LTPDataSegment → ℕ → LTPDataSegment → Except Fault TrimResult
  | 0, _, _, _ => .error .noReturn
  | fuel + 1, segments, redBytes, ds =>
    match checkOverlap segments ds with
    | .complete => .ok ⟨true, segments, redBytes, ds⟩
    | .duplicate => .ok ⟨false, segments, redBytes, ds⟩
    | .adjusted ds' => trimLoop fuel segments redBytes ds'
    | .deleted old => trimLoop fuel (segments.erase old.startByte)
        (u64Sub redBytes old.payloadLength) ds

/-- Every round of the loop either deletes a stored segment, or shortens the incoming one,
or leaves everything as it was and so repeats for ever. -/
def trimFuel (segments : OrdMap ℕ LTPDataSegment) (ds : LTPDataSegment) : ℕ :=
  segments.size + ds.payloadLength + 2

def checkAndTrim (segments : OrdMap ℕ LTPDataSegment) (redBytes : ℕ) (ds : LTPDataSegment) :
    Except Fault TrimResult :=
  match segments.find? ds.startByte with
  | some _ => .ok ⟨false, segments, redBytes, ds⟩
  | none => trimLoop (trimFuel segments ds) segments redBytes ds

/-! ## Storing a segment -/

/-- Counters and map after a red segment was found storable. -/
def LTPSession.storeRed (s : LTPSession) (ds : LTPDataSegment) : LTPSession :=
  { s with
    expectedRedBytes :=
      if s.expectedRedBytes < u64 (ds.stopByte + 1) then u64 (ds.stopByte + 1)
      else s.expectedRedBytes
    redComplete := s.redComplete || ds.isEndofblock
    totalRedSegments := u64 (s.totalRedSegments + 1)
    redBytesReceived := u64 (s.redBytesReceived + ds.payloadLength)
    redSegments := s.redSegments.insert ds.startByte ds }

def LTPSession.storeGreen (s : LTPSession) (ds : LTPDataSegment) : LTPSession :=
  { s with
    expectedGreenBytes :=
      if s.expectedGreenBytes < u64 (ds.stopByte + 1) then u64 (ds.stopByte + 1)
      else s.expectedGreenBytes
    greenSegments := s.greenSegments.insert ds.startByte ds }

/-- Return status, session and the segment as trimmed. -/
structure AddResult where
  status : ℤ
  session : LTPSession
  ds : LTPDataSegment

/-- The red case, once the block map has been updated. -/
def addRed (s : LTPSession) (ds : LTPDataSegment) (r : ContigCheck) : Except Fault AddResult :=
  let s := s.setContig r
  if r.duplicate then .ok ⟨-1, s, ds⟩
  else if !r.overlap then .ok ⟨0, s.storeRed ds, ds⟩
  else do
    let t ← checkAndTrim s.redSegments s.redBytesReceived ds
    let s := { s with redSegments := t.segments, redBytesReceived := t.redBytes }
    if t.insert then .ok ⟨0, s.storeRed t.ds, t.ds⟩ else .ok ⟨-1, s, t.ds⟩

def addGreen (s : LTPSession) (ds : LTPDataSegment) : Except Fault AddResult := do
  let t ← checkAndTrim s.greenSegments s.redBytesReceived ds
  let s := { s with greenSegments := t.segments, redBytesReceived := t.redBytes }
  if t.insert then .ok ⟨0, s.storeGreen t.ds, t.ds⟩ else .ok ⟨-1, s, t.ds⟩

/-- The flag that is set before the color of the segment is looked at. -/
def LTPSession.noteRedEob (s : LTPSession) (ds : LTPDataSegment) : LTPSession :=
  { s with redEobReceived := s.redEobReceived || ds.isRedEndofblock }

def addSegmentIncoming (s : LTPSession) (ds : LTPDataSegment) : Except Fault AddResult :=
  if s.redProcessed then .ok ⟨-1, s, ds⟩
  else
    let s := s.noteRedEob ds
    match ds.redGreen with
    | .red => do
      let r ← checkRedContigBlocks s.redContigBlocks ds.startByte ds.stopByte
      addRed s ds r
    | .green => addGreen s ds
    | .unknown => .ok ⟨-1, s, ds⟩

/-- `Set_EOB`; it also sets the end-of-block flag of the segment. -/
def setEob (s : LTPSession) (ds : LTPDataSegment) : LTPSession :=
  match ds.redGreen with
  | .red => { s with expectedRedBytes := u64 (ds.stopByte + 1), redComplete := true }
  | .green => { s with greenComplete := true, expectedGreenBytes := u64 (ds.stopByte + 1) }
  | .unknown => s

def isRedFull (s : LTPSession) : ℕ :=
  if s.redEobReceived && s.redComplete && !s.redProcessed then
    if s.redBytesReceived = s.expectedRedBytes then s.redBytesReceived else 0
  else 0

def isGreenFull (s : LTPSession) : ℕ :=
  if !s.greenComplete || s.greenProcessed then 0
  else
    let totalBytes := u64 (s.greenSegments.sum (·.payloadLength))
    if totalBytes = s.expectedGreenBytes then totalBytes else 0

/-- `GetAllRedData`: a copy of the segment map, after an assertion that the red part is full. -/
def getAllRedData (s : LTPSession) : Except Fault (OrdMap ℕ LTPDataSegment × LTPSession) :=
  if 0 < isRedFull s then .ok (s.redSegments, { s with redProcessed := true })
  else .error .assertFailed

def getAllGreenData (s : LTPSession) : OrdMap ℕ LTPDataSegment × LTPSession :=
  (s.greenSegments, { s with greenProcessed := true })

def LTPSession.dataProcessed (s : LTPSession) : Bool := s.redProcessed || s.greenProcessed

def LTPSession.isLtpCancelled (s : LTPSession) : Bool := s.sessionState == .cs

end Dtnme.Ltp
