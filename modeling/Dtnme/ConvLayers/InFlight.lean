import Dtnme.ConvLayers.DataBitmap
import Dtnme.Library.Transition
import Dtnme.Routing.Link

/-! # Bundles in flight

The sending half of a connection: the records of the bundles in flight, how segments and
acknowledgements move them on, and the reports that are posted about them. `Connection4` of the TCP
convergence layer is followed; its header of a segment and its messages with a transfer id are the only
parts that are not those of all stream convergence layers.
-/

namespace Dtnme.ConvLayers
open Library Bundling Routing

/-- A record is known by its transfer id, which also stands for its address. -/
structure InFlightBundle where
  bundle : ℕ
  transferId : ℕ
  totalLength : UInt64
  sendComplete : Bool := false
  transmitEventPosted : Bool := false
  bundleRefused : Bool := false
  sentData : DataBitmap := []
  ackData : DataBitmap := []
  deriving DecidableEq, Repr

/-- `BundleTransmittedEvent`, with the id of the transfer that it reports. -/
structure TransmittedEvent where
  transferId : ℕ
  bundle : ℕ
  bytesSent : UInt64
  reliablySent : UInt64
  success : Bool
  blocksDeleted : Bool
  deriving DecidableEq, Repr

structure SenderParams where
  reactiveFragEnabled : Bool := true
  segmentAckEnabled : Bool := true
  reliable : Bool := true
  clearWhenUnavailable : Bool := false
  maxInflightBundles : ℕ := 1000
  segmentLength : UInt64 := 10000000
  deriving DecidableEq, Repr

/-- The connection with its link. `events` are all reports so far, `pending` the bundles of those that
the daemon has yet to handle. -/
structure Sender where
  params : SenderParams
  link : Link
  inflight : List InFlightBundle := []
  currentInflight : Option ℕ := none
  sendSegmentTodo : UInt64 := 0
  senderTransferId : ℕ := 0
  contactBroken : Bool := false
  events : List TransmittedEvent := []
  pending : List ℕ := []
  deriving DecidableEq, Repr

/-- `Link::add_to_inflight`. -/
def addToInflight (link : Link) (bundle : ℕ) : Link :=
  if bundle ∈ link.inflight then link else { link with inflight := link.inflight ++ [bundle] }

/-- `Link::del_from_inflight`. -/
def delFromInflight (link : Link) (bundle : ℕ) : Bool × Link :=
  if bundle ∈ link.inflight then (true, { link with inflight := link.inflight.erase bundle })
  else (false, link)

namespace Sender

def find (s : Sender) (transferId : ℕ) : Option InFlightBundle :=
  s.inflight.find? (fun r => r.transferId = transferId)

/-- The record with the same transfer id gets its new value. -/
def setRecord (s : Sender) (r : InFlightBundle) : Sender :=
  { s with inflight := s.inflight.map (fun q => if q.transferId = r.transferId then r else q) }

def post (s : Sender) (e : TransmittedEvent) : Sender :=
  { s with events := s.events ++ [e], pending := s.pending ++ [e.bundle] }

def breakContact (s : Sender) : Sender := { s with contactBroken := true }

/-! ## The end of a transfer -/

/-- The report of `check_completed`. -/
def completedEvent (r : InFlightBundle) : TransmittedEvent :=
  if r.bundleRefused then ⟨r.transferId, r.bundle, 0, 0, false, true⟩
  else ⟨r.transferId, r.bundle, r.sentData.numContiguous, r.sentData.numContiguous, true, true⟩

def reportCompleted (s : Sender) (r : InFlightBundle) : Sender :=
  if r.transmitEventPosted then s
  else (s.setRecord { r with transmitEventPosted := true }).post (completedEvent r)

/-- `check_completed`; a record that was deleted is used again if there is none. -/
def checkCompleted (s : Sender) (transferId : ℕ) : Except Fault Sender :=
  if s.currentInflight = some transferId then .ok s
  else
    match s.find transferId with
    | none => .error .undefined
    | some r =>
      if s.params.segmentAckEnabled = true ∧ r.bundleRefused = false ∧
          r.ackData.numContiguous < r.totalLength then .ok s
      else do
        require ((s.inflight.head?.map InFlightBundle.transferId) = some transferId)
        pure { s.reportCompleted r with inflight := (s.reportCompleted r).inflight.tail }

def finishBundle (s : Sender) (r : InFlightBundle) : Except Fault Sender := do
  require (r.sendComplete = true ∨ r.bundleRefused = true)
  require (s.currentInflight = some r.transferId)
  checkCompleted { s with currentInflight := none } r.transferId

/-! ## Sending -/

/-- The loop of `send_data_todo`; `tails` is the room in the send buffer round by round. -/
def sendLoop (r : InFlightBundle) (todo : UInt64) :
    List UInt64 → Except Fault (InFlightBundle × UInt64)
  | [] => .ok (r, todo)
  | tail :: tails =>
    if todo = 0 ∨ tail = 0 then .ok (r, todo)
    else
      let sendLen := if tail < todo then tail else todo
      let bytesSent := r.sentData.next
      match r.sentData.set bytesSent sendLen with
      | .error e => .error e
      | .ok sentData =>
        sendLoop { r with
          sentData := sentData
          sendComplete := bytesSent + sendLen = r.totalLength } (todo - sendLen) tails

def sendDataTodo (s : Sender) (r : InFlightBundle) (tails : List UInt64) : Except Fault Sender := do
  require (s.sendSegmentTodo ≠ 0)
  let sent ← sendLoop r s.sendSegmentTodo tails
  pure { s.setRecord sent.1 with sendSegmentTodo := sent.2 }

/-- The length of the next segment. -/
def segmentLen (s : Sender) (r : InFlightBundle) : UInt64 :=
  if r.totalLength - r.sentData.next ≤ s.params.segmentLength then r.totalLength - r.sentData.next
  else s.params.segmentLength

/-- The bytes of a segment's header. The first segment has a list of extension items, with the
transfer length if more segments follow. -/
def needBytes (s : Sender) (r : InFlightBundle) : UInt64 :=
  if r.sentData.next ≠ 0 then 18
  else if r.totalLength - r.sentData.next ≤ s.params.segmentLength then 22
  else 35

def sendNextSegment (s : Sender) (r : InFlightBundle) (tail : UInt64) (tails : List UInt64) :
    Except Fault Sender :=
  if tail = 0 then .ok s
  else if s.sendSegmentTodo ≠ 0 then .error .assertFailed
  else if r.bundleRefused then s.finishBundle r
  else if r.sentData.next = r.totalLength then s.finishBundle r
  else if tail < s.needBytes r then .ok s
  else sendDataTodo { s with sendSegmentTodo := s.segmentLen r } r ((tail - s.needBytes r) :: tails)

/-- What `start_next_bundle` finds: whether the contact is up and ready, whether the bundle expired or
is being deleted, and the length of its blocks if it has any. -/
structure Start where
  ready : Bool := true
  expired : Bool := false
  blocks : Option UInt64
  deriving DecidableEq, Repr

def newRecord (s : Sender) (bundle : ℕ) (totalLength : UInt64) : InFlightBundle :=
  { bundle := bundle, transferId := s.senderTransferId, totalLength := totalLength }

def startNextBundle (s : Sender) (start : Start) (tail : UInt64) (tails : List UInt64) :
    Except Fault Sender :=
  if !start.ready || s.params.maxInflightBundles ≤ s.inflight.length then .ok s
  else
    match s.link.queue with
    | [] => .ok s
    | b :: _ =>
      if start.expired then do
        let link ← s.link.delFromQueue b
        pure { s with link := link.2 }
      else
        match start.blocks with
        | none => .ok { s with senderTransferId := s.senderTransferId + 1 }
        | some totalLength => do
          let link ← (addToInflight s.link b).delFromQueue b
          sendNextSegment
            { s with
              link := link.2
              inflight := s.inflight ++ [s.newRecord b totalLength]
              currentInflight := some s.senderTransferId
              senderTransferId := s.senderTransferId + 1 }
            (s.newRecord b totalLength) tail tails

/-- `send_pending_data`. A call that completes a segment and goes on is two of these. -/
def sendPendingData (s : Sender) (start : Start) (tail : UInt64) (tails : List UInt64) :
    Except Fault Sender :=
  if tail = 0 then .ok s
  else
    match s.currentInflight with
    | none =>
      if s.sendSegmentTodo ≠ 0 then .error .assertFailed else s.startNextBundle start tail tails
    | some transferId =>
      match s.find transferId with
      | none => .error .undefined
      | some r =>
        if s.sendSegmentTodo ≠ 0 then s.sendDataTodo r (tail :: tails)
        else s.sendNextSegment r tail tails

/-! ## Messages and commands -/

/-- The first byte that was not acknowledged. -/
def ackBegin : DataBitmap → UInt64
  | [] => 0
  | i :: _ => i.stop + 1

def ackedEvent (r : InFlightBundle) : TransmittedEvent :=
  ⟨r.transferId, r.bundle, r.sentData.numContiguous, r.ackData.numContiguous, true, true⟩

def handleAckSegment (s : Sender) (transferId : ℕ) (ackedLen : UInt64) : Except Fault Sender :=
  match s.inflight with
  | [] => .ok s.breakContact
  | r :: _ =>
    if transferId ≠ r.transferId then .ok s.breakContact
    else if ackedLen < ackBegin r.ackData then .ok s.breakContact
    else
      match r.ackData.set 0 ackedLen with
      | .error e => .error e
      | .ok ackData =>
        if ackedLen = r.totalLength then
          checkCompleted
            ((s.setRecord { r with ackData := ackData, transmitEventPosted := true }).post
              (ackedEvent { r with ackData := ackData })) r.transferId
        else .ok (s.setRecord { r with ackData := ackData })

def remove (s : Sender) (transferId : ℕ) : Sender :=
  { s with inflight := s.inflight.filter (fun r => r.transferId ≠ transferId) }

/-- The record of the current bundle is deleted by `finish_bundle` and used once more. -/
def handleRefuseBundle (s : Sender) (transferId : ℕ) : Except Fault Sender :=
  match s.find transferId with
  | none => .ok s.breakContact
  | some r =>
    if s.currentInflight = some transferId then do
      let s ← (s.setRecord { r with bundleRefused := true }).finishBundle { r with bundleRefused := true }
      s.checkCompleted transferId
    else .ok ((s.post (completedEvent { r with bundleRefused := true })).remove transferId)

/-- A bundle of which nothing was sent is cancelled. -/
def handleCancelBundle (s : Sender) (bundle : ℕ) : Sender :=
  match s.inflight.find? (fun r => r.bundle = bundle) with
  | none => s
  | some r =>
    if !r.sentData.isEmpty then s
    else if s.currentInflight = some r.transferId then
      if s.sendSegmentTodo ≠ 0 then s else ({ s with currentInflight := none }).remove r.transferId
    else s.remove r.transferId

/-! ## The daemon -/

/-- `BundleActions::queue_bundle`. -/
def queueBundle (s : Sender) (bundle : ℕ) : Sender :=
  if bundle ∈ s.link.queue ∨ bundle ∈ s.link.inflight then s
  else { s with link := (s.link.addToQueue s.params.clearWhenUnavailable bundle).2 }

/-- `handle_bundle_transmitted`, for a report that came with the blocks deleted. -/
def handleBundleTransmitted (s : Sender) : Except Fault Sender :=
  match s.pending with
  | [] => .ok s
  | b :: pending => do
    let link ← (delFromInflight s.link b).2.delFromQueue b
    pure { s with link := link.2, pending := pending }

inductive Op
  | queueBundle (bundle : ℕ)
  | handleBundleTransmitted
  | sendPendingData (start : Start) (tail : UInt64) (tails : List UInt64)
  | handleAckSegment (transferId : ℕ) (ackedLen : UInt64)
  | handleRefuseBundle (transferId : ℕ)
  | handleCancelBundle (bundle : ℕ)
  | breakContact
  deriving DecidableEq, Repr

/-- Once the contact is broken, the thread of the connection stops. -/
def step (s : Sender) : Op → Except Fault Sender
  | .queueBundle bundle => .ok (s.queueBundle bundle)
  | .handleBundleTransmitted => s.handleBundleTransmitted
  | .sendPendingData start tail tails =>
    if s.contactBroken then .ok s else s.sendPendingData start tail tails
  | .handleAckSegment transferId ackedLen =>
    if s.contactBroken then .ok s else s.handleAckSegment transferId ackedLen
  | .handleRefuseBundle transferId =>
    if s.contactBroken then .ok s else s.handleRefuseBundle transferId
  | .handleCancelBundle bundle => if s.contactBroken then .ok s else .ok (s.handleCancelBundle bundle)
  | .breakContact => .ok s.breakContact

end Sender

end Dtnme.ConvLayers
