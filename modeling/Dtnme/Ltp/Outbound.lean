import Dtnme.Ltp.Segmentation
import Dtnme.Ltp.RoundTrip

/-! # An outgoing session

Everything that happens to one session of the sender, in any order: segments of its block are
sent while reports on earlier ones come in, the convergence layer takes segments off its queue,
timers run out and either side cancels. A report is taken with the claims as they came in, of
which the report segment keeps one for each offset and the sum of all lengths.
-/

namespace Dtnme.Ltp
open Library

/-! ## Reports as they are received -/

/-- The map that `Parse_Buffer` enters the claims in. -/
def claimMap (claims : List LTPReportClaim) : OrdMap ℕ LTPReportClaim :=
  claims.foldl (fun m rc => m.insert rc.offset rc) .empty

/-- The sum that `Parse_Buffer` keeps beside the map. -/
def claimTotal (claims : List LTPReportClaim) : ℕ :=
  claims.foldl (fun n rc => u64 (n + rc.length)) 0

/-- A report segment together with the claims that it came with. -/
structure ReceivedReport where
  seg : LTPReportSegment
  claims : List LTPReportClaim
  claims_eq : seg.claims = claimMap claims
  claimedBytes_eq : seg.claimedBytes = claimTotal claims

/-- The bytes of the block that the report claims. -/
def ReceivedReport.claimed (r : ReceivedReport) : Set ℕ :=
  {b | ∃ rc ∈ r.claims, r.seg.lowerBounds + rc.offset ≤ b ∧
    b < r.seg.lowerBounds + rc.offset + rc.length}

section Parse

variable {mem : ℕ → UInt8} {length c c' : ℕ}

end Parse

/-- The map holds claims that came in. -/
theorem mem_claimMap {claims : List LTPReportClaim} {rc : LTPReportClaim}
    (h : rc ∈ (claimMap claims).values) : rc ∈ claims := by
  have hfold : ∀ (l : List LTPReportClaim) (m : OrdMap ℕ LTPReportClaim),
      rc ∈ (l.foldl (fun m rc => m.insert rc.offset rc) m).values → rc ∈ m.values ∨ rc ∈ l := by
    intro l
    induction l with
    | nil => exact fun m hm => Or.inl hm
    | cons a l ih =>
      intro m hm
      rcases ih _ hm with hold | hrest
      · obtain ⟨p, hp, rfl⟩ := List.mem_map.mp hold
        rcases OrdMap.mem_put hp with rfl | hp
        · exact Or.inr List.mem_cons_self
        · exact Or.inl (List.mem_map_of_mem hp)
      · exact Or.inr (List.mem_cons_of_mem _ hrest)
  rcases hfold claims .empty h with hempty | hmem
  · cases hempty
  · exact hmem

/-! ## Cancellation -/

/-- `RemoveSegments`. -/
def LTPSession.removeSegments (s : LTPSession) : LTPSession :=
  { s with
    checkpoints := .empty
    redSegments := .empty
    greenSegments := .empty
    reportSegments := .empty
    cancelSegment := none }

/-- `build_CS_segment` for a session. The session stays with the sender until the cancel is
acknowledged. -/
def Sender.buildCsSegment (snd : Sender) (s : LTPSession) (reasonCode : ℕ) : Sender :=
  if s.isLtpCancelled then { snd with state := .active s }
  else
    { snd with
      state := .active { s.removeSegments with
        sessionState := .cs
        cancelSegment := some
          { engineId := s.engineId, sessionId := s.sessionId, segmentType := .csBs
            reasonCode := reasonCode }
        bundleList := [] }
      cancelSegments := snd.cancelSegments + 1 }

/-- `LTP_CS_REASON_SYS_CNCLD`. -/
def csReasonSysCncld : ℕ := 4

/-- `LTP_CS_REASON_RXMTCYCEX`. -/
def csReasonRxmtcycex : ℕ := 5

/-- `data_seg_timeout` for the segment that starts at `k`. A segment that the session no longer
holds is flagged as deleted. -/
def Sender.dataSegTimeout (retranRetries : ℕ) (snd : Sender) (s : LTPSession) (k : ℕ) : Sender :=
  match s.redSegments.find? k with
  | none => snd
  | some ds =>
    if s.isLtpCancelled || ds.isDeleted || ds.queuedToSend then snd
    else
      let ds := { ds with retransRetries := ds.retransRetries + 1 }
      if ds.retransRetries ≤ retranRetries then
        { snd with
          state := .active { s.putSegment k ds.setQueuedToSend with sessionState := .ds }
          queue := snd.queue ++ [(k, true)] }
      else snd.buildCsSegment (s.putSegment k { ds with isDeleted := true }) csReasonRxmtcycex

/-- `force_cancel_by_sender`, when the data of a segment cannot be read. -/
def Sender.forceCancelBySender (snd : Sender) (s : LTPSession) (k : ℕ) : Sender :=
  match s.redSegments.find? k with
  | none => snd.buildCsSegment s csReasonSysCncld
  | some ds => snd.buildCsSegment (s.putSegment k { ds with isDeleted := true }) csReasonSysCncld

/-- `cancel_all_sessions`, which `start_shutdown` calls. -/
def Sender.cancelAllSessions (snd : Sender) (s : LTPSession) : Sender :=
  if s.sessionState = .ds ∨ s.sessionState = .rs then snd.buildCsSegment s csReasonSysCncld
  else snd

/-- The convergence layer takes the segment that starts at `k` off its queue. -/
def Sender.transmit (snd : Sender) (s : LTPSession) (k : ℕ) : Sender :=
  { snd with
    state := .active (match s.redSegments.find? k with
      | some ds => if ds.isDeleted then s else s.putSegment k { ds with queuedToSend := false }
      | none => s)
    queue := snd.queue.eraseP fun p => p.1 == k }

/-! ## Steps -/

/-- The sender of one session, where the next segment starts, and whether the last was sent. -/
structure Outbound where
  sender : Sender
  sessionOffset : ℕ := 0
  lastSeg : Bool := false

/-- Bytes that make one segment: from the buffer, or so many bytes of the session file. -/
inductive BlockPart
  | buffer (data : List UInt8)
  | file (dataSize : ℕ)

def BlockPart.length : BlockPart → ℕ
  | .buffer data => data.length
  | .file dataSize => dataSize

/-- The new segment of a part, as `check_send_segment` and `send_segment_using_file` make it. -/
def BlockPart.segment (part : BlockPart) (p : SegmentationParams) (s : LTPSession) (offset : ℕ)
    (isCheckpoint lastSeg : Bool) : LTPDataSegment :=
  match part with
  | .buffer data => (newDataSegment p s isCheckpoint).encodeBuffer data offset isCheckpoint lastSeg
  | .file dataSize => (newDataSegment p s isCheckpoint).setFileUsage offset dataSize lastSeg

/-- A part of the block is sent; the last one is always a checkpoint. -/
def Outbound.sendSegment (p : SegmentationParams) (x : Outbound) (s : LTPSession)
    (part : BlockPart) (isCheckpoint lastSeg : Bool) : Outbound :=
  let isCheckpoint := (isCheckpoint || lastSeg) && !p.sendGreen
  let r := Sending.send { session := s, sessionOffset := x.sessionOffset }
    (part.segment p s x.sessionOffset isCheckpoint lastSeg) isCheckpoint
  { sender := { x.sender with
      state := .active r.session
      queue := x.sender.queue ++ r.queue.map fun ds => (ds.startByte, isCheckpoint) }
    sessionOffset := r.sessionOffset
    lastSeg := lastSeg }

/-- What happens to an outgoing session. -/
inductive SenderEvent
  | segment (part : BlockPart) (nonempty : 0 < part.length) (isCheckpoint lastSeg : Bool)
  | report (r : ReceivedReport)
  | cancelByReceiver
  | cancelAcknowledged
  | transmit (startByte : ℕ)
  | dataSegTimeout (startByte : ℕ)
  | cancelSegTimeout (retriesExceeded : Bool)
  | forceCancelBySender (startByte : ℕ)
  | startShutdown
  | closeoutTimeout

def Outbound.withSender (x : Outbound) (snd : Sender) : Outbound := { x with sender := snd }

def Outbound.withState (x : Outbound) (state : SenderState) : Outbound :=
  { x with sender := { x.sender with state := state } }

/-- Only a session that the sender still has is changed. -/
def Outbound.onActive (x : Outbound) (f : LTPSession → Outbound) : Outbound :=
  match x.sender.state with
  | .active s => f s
  | _ => x

/-- The sender forgets a session that was closed. -/
def Outbound.closeout (x : Outbound) : Outbound :=
  match x.sender.state with
  | .closed _ => x.withState .unknown
  | _ => x

def outboundStep (p : SegmentationParams) (retranRetries : ℕ) (x : Outbound) :
    SenderEvent → Except Fault Outbound
  | .segment part _ isCheckpoint lastSeg => .ok (x.onActive fun s =>
      if x.lastSeg then x else x.sendSegment p s part isCheckpoint lastSeg)
  | .report r => (processRs x.sender r.seg).map x.withSender
  | .cancelByReceiver => .ok (x.onActive fun _ => x.withState (.closed true))
  | .cancelAcknowledged => .ok (x.onActive fun _ => x.withState (.closed true))
  | .transmit k => .ok (x.onActive fun s => x.withSender (x.sender.transmit s k))
  | .dataSegTimeout k =>
    .ok (x.onActive fun s => x.withSender (x.sender.dataSegTimeout retranRetries s k))
  | .cancelSegTimeout retriesExceeded =>
    .ok (x.onActive fun s => if s.cancelSegment.isSome && retriesExceeded then
      x.withState (.closed true) else x)
  | .forceCancelBySender k =>
    .ok (x.onActive fun s => x.withSender (x.sender.forceCancelBySender s k))
  | .startShutdown =>
    let x := x.withSender { x.sender with startShuttingDown := true }
    .ok (x.onActive fun s => x.withSender (x.sender.cancelAllSessions s))
  | .closeoutTimeout => .ok x.closeout

/-- A session that is ready to be sent: its first checkpoint id is chosen at random. -/
def Outbound.start (engineId sessionId checkpointId : ℕ) (bundleList : List ℕ) : Outbound :=
  { sender :=
      { state := .active
          { LTPSession.new engineId sessionId with checkpointId, bundleList, sessionState := .ds } } }

end Dtnme.Ltp
