import Dtnme.Ltp.Outbound
import Dtnme.Ltp.Completion
import Dtnme.Ltp.Reports

/-! # An incoming session

What the receiver does with one session, from its first data segment until it is forgotten. Segments
come in and timers run out in any order. A session that was closed is answered from a table of sizes
until its entry is removed; then a data segment opens it again.

The receiver is the one that keeps the block in memory: `use_files_recv` is off. Segments arrive as
they were sent; that the codec carries them over the wire only while their numbers are below `2 ^ 56`
is stated with the codec.
-/

namespace Dtnme.Ltp
open Library

/-- What the receiver knows of a session. Of a closed one it is the number of red bytes received, or 0
if the session was cancelled. -/
inductive ReceiverState
  | absent
  | active (s : LTPSession)
  | closed (size : ℕ)

/-- The receiver with respect to one session: what it has sent, and what it has handed to the bundle
processor. -/
structure Receiver where
  state : ReceiverState := .absent
  reports : List LTPReportSegment := []
  cancelSegments : ℕ := 0
  cancelAcks : ℕ := 0
  posted : List (OrdMap ℕ LTPDataSegment × ℕ) := []

/-- The key of the session, and what the receiver reads of its configuration. -/
structure ReceiverParams where
  engineId : ℕ
  sessionId : ℕ
  segSize : ℤ
  retranRetries : ℕ

/-- `LTP_CS_REASON_UNREACHABLE`. -/
def csReasonUnreachable : ℕ := 1

/-- `LTP_CS_REASON_RLEXC`. -/
def csReasonRlexc : ℕ := 2

namespace Receiver

def hold (rcv : Receiver) (s : LTPSession) : Receiver := { rcv with state := .active s }

/-- `erase_incoming_session`. -/
def eraseIncomingSession (rcv : Receiver) (s : LTPSession) : Receiver :=
  { rcv with state := .closed (if s.isLtpCancelled then 0 else s.redBytesReceived) }

/-- `build_CS_segment` for a session. -/
def buildCsSegment (rcv : Receiver) (s : LTPSession) (reasonCode : ℕ) : Receiver :=
  if s.isLtpCancelled then rcv.hold s
  else
    { rcv with
      state := .active { s with
        sessionState := .cs
        cancelSegment := some
          { engineId := s.engineId, sessionId := s.sessionId, segmentType := .csBr
            reasonCode := reasonCode } }
      cancelSegments := rcv.cancelSegments + 1 }

/-- `build_CAS_for_CSS`. -/
def buildCas (rcv : Receiver) : Receiver := { rcv with cancelAcks := rcv.cancelAcks + 1 }

def send (rcv : Receiver) (reports : List LTPReportSegment) : Receiver :=
  { rcv with reports := rcv.reports ++ reports }

def post (rcv : Receiver) (segs : OrdMap ℕ LTPDataSegment) (bytes : ℕ) : Receiver :=
  { rcv with posted := rcv.posted ++ [(segs, bytes)] }

end Receiver

def LTPSession.setCheckpointId (s : LTPSession) (checkpointId : ℕ) : LTPSession :=
  { s with checkpointId := checkpointId }

/-! ## Data segments -/

/-- `generate_RS`: all reports of the checkpoint are sent, those of an earlier copy again. -/
def generateRs (p : ReceiverParams) (rcv : Receiver) (s : LTPSession) (ds : LTPDataSegment) :
    Except Fault (Receiver × LTPSession) := do
  let (have_, _, s) ← haveReportSegmentsToSend s ds p.segSize
  if have_ then
    let reports := s.reportSegments.values.filter fun rptseg => rptseg.checkpointId == ds.checkpointId
    pure (rcv.send reports, if reports.isEmpty then s else { s with sessionState := .rs })
  else pure (rcv, s)

def answerCheckpoint (p : ReceiverParams) (rcv : Receiver) (s : LTPSession) (ds : LTPDataSegment) :
    Except Fault (Receiver × LTPSession) :=
  if ds.isCheckpoint then generateRs p rcv (s.setCheckpointId ds.checkpointId) ds else .ok (rcv, s)

/-- The red part is handed over once it is full. -/
def postRed (rcv : Receiver) (s : LTPSession) (redBytes : ℕ) : Except Fault (Receiver × LTPSession) :=
  if 0 < redBytes then do
    let (segs, s) ← getAllRedData s
    pure (rcv.post segs redBytes, s)
  else .ok (rcv, s)

/-- A session whose green part is full is closed, whether there is room for it or not. -/
def postGreen (rcv : Receiver) (s : LTPSession) (acceptGreen : Bool) : Receiver :=
  let greenBytes := isGreenFull s
  if 0 < greenBytes then
    if acceptGreen then
      let (segs, s) := getAllGreenData s
      (rcv.post segs greenBytes).eraseIncomingSession s
    else rcv.eraseIncomingSession s
  else rcv.hold s

/-- Behind `AddSegment_incoming`, for a segment that was stored. `accept` says whether the queue of
the bundle processor and the storage have room for the red part. -/
def processStored (p : ReceiverParams) (rcv : Receiver) (s : LTPSession) (ds : LTPDataSegment)
    (accept acceptGreen : Bool) : Except Fault Receiver :=
  let redBytes := isRedFull s
  if 0 < redBytes ∧ accept = false then .ok (rcv.buildCsSegment s csReasonSysCncld)
  else do
    let (rcv, s) ← answerCheckpoint p rcv s ds
    let (rcv, s) ← postRed rcv s redBytes
    pure (postGreen rcv s acceptGreen)

/-- `process_incoming_data_segment`. -/
def processIncomingDataSegment (p : ReceiverParams) (rcv : Receiver) (s : LTPSession)
    (ds : LTPDataSegment) (accept acceptGreen : Bool) : Except Fault Receiver :=
  if ds.clientServiceId ≠ 1 ∧ ds.clientServiceId ≠ 2 then
    .ok (if ds.redGreen = .red then rcv.buildCsSegment s csReasonUnreachable
      else rcv.eraseIncomingSession s)
  else
    let s := { s with sessionState := .ds }
    if s.dataProcessed then do
      let (rcv, s) ← answerCheckpoint p rcv s ds
      pure (rcv.hold s)
    else do
      let r ← receiveRed s ds
      if r.status = -1 then
        let (rcv, s) ← answerCheckpoint p rcv r.session r.ds
        pure (rcv.hold s)
      else processStored p rcv r.session r.ds accept acceptGreen

/-! ## Segments of every type -/

/-- A segment that the receiver is given. `reportSerial` is the random number that a new session, or a
report on a closed one, starts from. -/
inductive IncomingSegment
  | data (ds : LTPDataSegment) (accept acceptGreen : Bool) (reportSerial : ℕ)
  | reportAck (serialNumber : ℕ)
  | cancelBySender
  | cancelAck

/-- One claim for the whole of a closed session. -/
def closedReport (ds : LTPDataSegment) (reportSerial size : ℕ) : LTPReportSegment :=
  { engineId := ds.engineId, sessionId := ds.sessionId, segmentType := .rs
    checkpointId := ds.checkpointId, serialNumber := reportSerial, lowerBounds := 0
    upperBounds := size, claimCount := 1, claimedBytes := size, claims := addClaim .empty 0 size }

/-- A segment of a session that was closed. -/
def processClosed (rcv : Receiver) (size : ℕ) : IncomingSegment → Receiver
  | .data ds _ _ reportSerial =>
    if size = 0 then { rcv with cancelSegments := rcv.cancelSegments + 1 }
    else if ds.isCheckpoint then rcv.send [closedReport ds reportSerial size]
    else rcv
  | .cancelBySender => rcv.buildCas
  | .reportAck _ => rcv
  | .cancelAck => rcv

/-- The end of a session that its sender has cancelled. -/
def processCancelBySender (rcv : Receiver) (s : LTPSession) : Receiver :=
  rcv.buildCas.eraseIncomingSession { s.removeSegments with sessionState := .cs }

/-- `cleanup_RS`, and what a report acknowledgment does besides. -/
def processReportAck (rcv : Receiver) (s : LTPSession) (serialNumber : ℕ) : Receiver :=
  let s := { s with reportSegments := s.reportSegments.erase serialNumber }
  if s.dataProcessed then rcv.eraseIncomingSession s else rcv.hold { s with sessionState := .ds }

/-- A segment of a session that is open. -/
def processActive (p : ReceiverParams) (rcv : Receiver) (s : LTPSession) :
    IncomingSegment → Except Fault Receiver
  | .data ds accept acceptGreen _ =>
    if s.isLtpCancelled then .ok rcv
    else processIncomingDataSegment p rcv s ds accept acceptGreen
  | .reportAck serialNumber =>
    .ok (if s.isLtpCancelled then rcv else processReportAck rcv s serialNumber)
  -- a cancelled session is acknowledged twice
  | .cancelBySender =>
    .ok (processCancelBySender (if s.isLtpCancelled then rcv.buildCas else rcv) s)
  | .cancelAck => .ok (rcv.eraseIncomingSession { s with cancelSegment := none })

/-- `process_data_for_receiver`. -/
def processDataForReceiver (p : ReceiverParams) (rcv : Receiver) (seg : IncomingSegment) :
    Except Fault Receiver :=
  match rcv.state with
  | .closed size => .ok (processClosed rcv size seg)
  | .active s => processActive p rcv s seg
  | .absent =>
    match seg with
    | .data ds accept acceptGreen reportSerial =>
      processIncomingDataSegment p rcv
        { LTPSession.new p.engineId p.sessionId with reportSerialNumber := reportSerial } ds
        accept acceptGreen
    | .cancelBySender => .ok rcv.buildCas
    | .reportAck _ => .ok rcv
    | .cancelAck => .ok rcv

/-! ## Timers -/

/-- What happens at the receiver by itself. -/
inductive ReceiverTimer
  | report (serialNumber : ℕ)
  | cancel
  | inactivity (idle : Bool)
  | closeout
  | startShutdown

/-- `report_seg_timeout`. -/
def reportSegTimeout (p : ReceiverParams) (rcv : Receiver) (s : LTPSession) (serialNumber : ℕ) :
    Receiver :=
  match s.reportSegments.find? serialNumber with
  | none => rcv
  | some rptseg =>
    if rptseg.isDeleted || s.isLtpCancelled then rcv
    else
      let rptseg := { rptseg with retransRetries := rptseg.retransRetries + 1 }
      if rptseg.retransRetries ≤ p.retranRetries then
        (rcv.send [rptseg]).hold
          { s with reportSegments := s.reportSegments.insert serialNumber rptseg }
      else
        let rptseg := { rptseg with isDeleted := true }
        let s := { s with reportSegments := s.reportSegments.insert serialNumber rptseg }
        if s.dataProcessed then rcv.eraseIncomingSession s else rcv.buildCsSegment s csReasonRlexc

/-- `cancel_seg_timeout`. -/
def cancelSegTimeout (p : ReceiverParams) (rcv : Receiver) (s : LTPSession) : Receiver :=
  match s.cancelSegment with
  | none => rcv
  | some cs =>
    let cs := { cs with retransRetries := cs.retransRetries + 1 }
    if cs.retransRetries ≤ p.retranRetries then
      { rcv with
        state := .active { s with cancelSegment := some cs }
        cancelSegments := rcv.cancelSegments + 1 }
    else rcv.eraseIncomingSession s

/-- `RSIF_inactivity_timer_triggered`. -/
def inactivityTimer (rcv : Receiver) (s : LTPSession) (idle : Bool) : Receiver :=
  if s.sessionState = .ds ∧ idle then rcv.buildCsSegment s.removeSegments csReasonRxmtcycex
  else rcv

def receiverTimer (p : ReceiverParams) (rcv : Receiver) (timer : ReceiverTimer) : Receiver :=
  match rcv.state, timer with
  | .active s, .report serialNumber => reportSegTimeout p rcv s serialNumber
  | .active s, .cancel => cancelSegTimeout p rcv s
  | .active s, .inactivity idle => inactivityTimer rcv s idle
  | .active s, .startShutdown => rcv.buildCsSegment s csReasonSysCncld
  | .closed _, .closeout => { rcv with state := .absent }
  | _, _ => rcv

end Dtnme.Ltp
