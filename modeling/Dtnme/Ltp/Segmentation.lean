import Dtnme.Library.Cuts
import Dtnme.Bundling.Produce
import Dtnme.Ltp.ReportReceipt

/-! # Segmentation of a block

The sender turns the bundles of a session into data segments: it fills a buffer of the
segment size and sends it when it is full, or it writes the whole block to a file first and
cuts the file. Both give the same cut of the same bytes. Bundles are produced by a function
that is a parameter here; timers and the shutdown of the sender are left out.
-/

namespace Dtnme.Ltp
open Library

/-- The ways in which segmentation does not return. -/
inductive SegmentationFault
  | assertFailed
  | overrun
  | noReturn
  deriving DecidableEq, Repr

/-- What one call of `BundleProtocol::produce` leaves: the bundle, the bytes, and whether the
bundle is complete. -/
structure Produced (β : Type*) where
  bundle : β
  bytes : List UInt8
  complete : Bool

/-- What the sender reads before it segments a session. -/
structure SegmentationParams where
  segSize : ℕ
  bytesPerCheckpoint : ℕ
  ccsdsCompatible : Bool
  sendGreen : Bool
  sessionSize : ℕ
  deriving DecidableEq, Repr

/-- 1 for bundles one after another, 2 for service data aggregation. -/
def SegmentationParams.clientServiceId (p : SegmentationParams) : ℕ :=
  if p.ccsdsCompatible then 2 else 1

/-! ## Sending a segment -/

/-- `AddSegment_outgoing`. -/
def addSegmentOutgoing (s : LTPSession) (ds : LTPDataSegment) : LTPSession :=
  match ds.redGreen with
  | .red => (s.noteRedEob ds).storeRed ds
  | .green => (s.noteRedEob ds).storeGreen ds
  | .unknown => s.noteRedEob ds

/-- The session, the queue of the convergence layer and the offset of the next segment. -/
structure Sending where
  session : LTPSession
  queue : List LTPDataSegment := []
  sessionOffset : ℕ := 0

/-- A new data segment of the session, before its data is set. -/
def newDataSegment (p : SegmentationParams) (s : LTPSession) (isCheckpoint : Bool) :
    LTPDataSegment :=
  let ds : LTPDataSegment :=
    { engineId := s.engineId, sessionId := s.sessionId, segmentType := .ds,
      redGreen := if p.sendGreen then .green else .red, clientServiceId := p.clientServiceId,
      offset := 0, startByte := 0, stopByte := 0, payloadLength := 0 }
  if isCheckpoint then ds.setCheckpoint (u64 (s.checkpointId + 1)) 0 else ds

/-- `Encode_Buffer`. -/
def LTPDataSegment.encodeBuffer (ds : LTPDataSegment) (data : List UInt8) (startByte : ℕ)
    (checkpoint eob : Bool) : LTPDataSegment :=
  { ds with
    payloadLength := data.length
    isRedEndofblock := if ds.redGreen = .red then eob else ds.isRedEndofblock
    isGreenEndofblock := if ds.redGreen = .green then eob else ds.isGreenEndofblock
    isCheckpoint := if ds.redGreen = .red then checkpoint else
      if ds.redGreen = .green then false else ds.isCheckpoint
    offset := startByte
    startByte := startByte
    stopByte := startByte + data.length - 1
    payload := data }

/-- `Set_File_Usage`; the payload is read from the file at transmission. -/
def LTPDataSegment.setFileUsage (ds : LTPDataSegment) (startByte length : ℕ) (eob : Bool) :
    LTPDataSegment :=
  { ds with
    offset := startByte
    startByte := startByte
    stopByte := startByte + length - 1
    payloadLength := length
    isRedEndofblock := if ds.redGreen = .red then eob else ds.isRedEndofblock
    isGreenEndofblock := if ds.redGreen = .green then eob else ds.isGreenEndofblock }

/-- The segment enters the session, its checkpoint and the queue. -/
def Sending.send (x : Sending) (ds : LTPDataSegment) (isCheckpoint : Bool) : Sending :=
  let ds := ds.setQueuedToSend
  let s := addSegmentOutgoing x.session ds
  { session := if isCheckpoint then s.addCheckpointSeg ds else s
    queue := x.queue ++ [ds]
    sessionOffset := x.sessionOffset + ds.payloadLength }

/-! ## From memory -/

/-- The local variables of `process_bundles`. -/
structure Filling where
  sending : Sending
  buffer : List UInt8 := []
  bufUnused : ℕ
  towardCheckpoint : ℕ := 0
  isCheckpoint : Bool := false
  lastSeg : Bool := false

/-- `use_intermediate_checkpoints`. -/
def SegmentationParams.useIntermediateCheckpoints (p : SegmentationParams) (size : ℕ) : Bool :=
  decide (0 < p.bytesPerCheckpoint) && decide (p.bytesPerCheckpoint < size)

/-- `check_send_segment`. -/
def checkSendSegment (p : SegmentationParams) (x : Filling) (forceSendSeg : Bool) :
    Bool × Filling :=
  if !x.lastSeg && !forceSendSeg && x.bufUnused != 0 then (false, x)
  else
    let isCheckpoint := x.isCheckpoint && !p.sendGreen
    let ds := (newDataSegment p x.sending.session isCheckpoint).encodeBuffer x.buffer
      x.sending.sessionOffset isCheckpoint x.lastSeg
    (true, { x with
      sending := x.sending.send ds isCheckpoint, buffer := [], bufUnused := p.segSize })

/-- Bytes at the end of the buffer. -/
def Filling.put (x : Filling) (bytes : List UInt8) : Except SegmentationFault Filling :=
  if x.bufUnused < bytes.length then .error .overrun
  else .ok { x with
    buffer := x.buffer ++ bytes
    bufUnused := x.bufUnused - bytes.length
    towardCheckpoint := x.towardCheckpoint + bytes.length }

/-- The service id goes before every bundle of an aggregation. -/
def Filling.putServiceId (p : SegmentationParams) (x : Filling) :
    Except SegmentationFault Filling :=
  if p.clientServiceId = 2 then x.put [1] else .ok x

/-- The start of a bundle: the service id when there is one, and a check of the buffer. -/
def startBundle (p : SegmentationParams) (x : Filling) : Except SegmentationFault Filling := do
  let x ← x.putServiceId p
  let x := { x with
    isCheckpoint := if p.useIntermediateCheckpoints p.sessionSize then
      decide (p.bytesPerCheckpoint < x.towardCheckpoint) else x.isCheckpoint }
  let r := checkSendSegment p x false
  .ok (if r.1 then { r.2 with towardCheckpoint := 0 } else r.2)

/-- Whether the next segment is a checkpoint; the last one always is. -/
def Filling.noteProduced (p : SegmentationParams) (x : Filling) (lastSeg : Bool) : Filling :=
  { x with
    lastSeg := lastSeg
    isCheckpoint := lastSeg || if p.useIntermediateCheckpoints p.sessionSize then
      decide (p.bytesPerCheckpoint ≤ x.towardCheckpoint) else x.isCheckpoint }

/-- A checkpoint that was sent starts the count of bytes anew. -/
def restartCount (r : Bool × Filling) : Filling :=
  if r.1 && r.2.isCheckpoint then { r.2 with towardCheckpoint := 0 } else r.2

/-- The loop over one bundle. -/
def fillBundle {β : Type*} (p : SegmentationParams) (produce : β → ℕ → ℕ → Produced β)
    (isLast : Bool) : ℕ → β → ℕ → Filling → Except SegmentationFault Filling
  | 0, _, _, _ => .error .noReturn
  | fuel + 1, bundle, bundleOffset, x => do
    let r := produce bundle bundleOffset x.bufUnused
    let x ← x.put r.bytes
    let forceSendSeg := !r.complete && r.bytes.isEmpty && !x.buffer.isEmpty
    let x := restartCount
      (checkSendSegment p (x.noteProduced p (r.complete && isLast)) forceSendSeg)
    if r.complete then .ok x
    else fillBundle p produce isLast fuel r.bundle (bundleOffset + r.bytes.length) x

/-- The loop over the bundles, and the assertion after it. -/
def fillBundles {β : Type*} (p : SegmentationParams) (produce : β → ℕ → ℕ → Produced β)
    (fuel : ℕ) : List β → Filling → Except SegmentationFault Filling
  | [], x => if x.lastSeg then .ok x else .error .assertFailed
  | bundle :: bundles, x => do
    let x ← startBundle p x
    let x ← fillBundle p produce bundles.isEmpty fuel bundle 0 x
    fillBundles p produce fuel bundles x

/-- `process_bundles` for a list of bundles that is not empty. -/
def processBundles {β : Type*} (p : SegmentationParams) (produce : β → ℕ → ℕ → Produced β)
    (fuel : ℕ) (s : LTPSession) (bundles : List β) : Except SegmentationFault Sending := do
  let x ← fillBundles p produce fuel bundles
    { sending := { session := s }, bufUnused := p.segSize }
  .ok x.sending

/-! ## From a file -/

/-- The session file while it is written. `wrote n` says whether write number `n` succeeds. -/
structure FileWriter where
  content : List UInt8 := []
  workBuf : List UInt8 := []
  workBufSize : ℕ
  sessionSize : ℕ := 0
  writes : ℕ := 0

/-- `check_write_to_file`. -/
def checkWriteToFile (wrote : ℕ → Bool) (w : FileWriter) (forceWrite : Bool) :
    Option FileWriter :=
  if forceWrite || w.workBufSize == w.workBuf.length then
    if wrote w.writes then
      some { w with
        content := w.content ++ w.workBuf
        workBuf := []
        sessionSize := w.sessionSize + w.workBuf.length
        writes := w.writes + 1 }
    else none
  else some w

/-- Bytes at the end of the work buffer, and a check of it. -/
def FileWriter.put (wrote : ℕ → Bool) (w : FileWriter) (bytes : List UInt8) :
    Except SegmentationFault (Option FileWriter) :=
  if w.workBufSize < w.workBuf.length + bytes.length then .error .overrun
  else .ok (checkWriteToFile wrote { w with workBuf := w.workBuf ++ bytes } false)

def FileWriter.putServiceId (p : SegmentationParams) (wrote : ℕ → Bool) (w : FileWriter) :
    Except SegmentationFault (Option FileWriter) :=
  if p.clientServiceId = 2 then w.put wrote [1] else .ok (some w)

/-- The loop over one bundle; nothing is returned when a write fails. -/
def writeBundle {β : Type*} (produce : β → ℕ → ℕ → Produced β) (wrote : ℕ → Bool) :
    ℕ → β → ℕ → FileWriter → Except SegmentationFault (Option FileWriter)
  | 0, _, _, _ => .error .noReturn
  | fuel + 1, bundle, bundleOffset, w => do
    let r := produce bundle bundleOffset (w.workBufSize - w.workBuf.length)
    match ← w.put wrote r.bytes with
    | none => .ok none
    | some w =>
      if r.complete then .ok (some w)
      else writeBundle produce wrote fuel r.bundle (bundleOffset + r.bytes.length) w

/-- The loop over the bundles. -/
def writeBundles {β : Type*} (p : SegmentationParams) (produce : β → ℕ → ℕ → Produced β)
    (wrote : ℕ → Bool) (fuel : ℕ) :
    List β → FileWriter → Except SegmentationFault (Option FileWriter)
  | [], w => .ok (some w)
  | bundle :: bundles, w => do
    match ← w.putServiceId p wrote with
    | none => .ok none
    | some w =>
      match ← writeBundle produce wrote fuel bundle 0 w with
      | none => .ok none
      | some w => writeBundles p produce wrote fuel bundles w

/-- `send_segment_using_file`. -/
def sendSegmentUsingFile (p : SegmentationParams) (x : Sending) (dataSize : ℕ)
    (isCheckpoint lastSeg : Bool) : Sending :=
  let isCheckpoint := isCheckpoint && !p.sendGreen
  x.send ((newDataSegment p x.session isCheckpoint).setFileUsage x.sessionOffset dataSize lastSeg)
    isCheckpoint

/-- The loop that cuts the file. -/
def cutFile (p : SegmentationParams) (sessionSize : ℕ) :
    ℕ → ℕ → ℕ → Sending → Except SegmentationFault Sending
  | 0, bytesRemaining, _, x => if bytesRemaining = 0 then .ok x else .error .noReturn
  | fuel + 1, bytesRemaining, towardCheckpoint, x =>
    if bytesRemaining = 0 then .ok x
    else
      let lastSeg := decide (bytesRemaining ≤ p.segSize)
      let dataSize := if p.segSize < bytesRemaining then p.segSize else bytesRemaining
      let intermediate := p.useIntermediateCheckpoints sessionSize
      let towardCheckpoint :=
        if intermediate then towardCheckpoint + dataSize else towardCheckpoint
      let isCheckpoint :=
        lastSeg || (intermediate && decide (p.bytesPerCheckpoint ≤ towardCheckpoint))
      cutFile p sessionSize fuel (bytesRemaining - dataSize)
        (if isCheckpoint then 0 else towardCheckpoint)
        (sendSegmentUsingFile p x dataSize isCheckpoint lastSeg)

/-- `work_buf_.clear(); work_buf_.reserve(10000000)` for a buffer of some size. -/
def reserveWorkBuf (size : ℕ) : ℕ :=
  if 10000000 ≤ size then size else if size * 2 < 10000000 then 10000000 else size * 2

/-- `process_bundles_using_a_file`: the content of the file and what is sent, or nothing when
a write fails. -/
def processBundlesUsingAFile {β : Type*} (p : SegmentationParams)
    (produce : β → ℕ → ℕ → Produced β) (wrote : ℕ → Bool) (workBufSize fuel : ℕ) (s : LTPSession)
    (bundles : List β) : Except SegmentationFault (Option (List UInt8 × Sending)) := do
  match ← writeBundles p produce wrote fuel bundles
      { workBufSize := reserveWorkBuf workBufSize } with
  | none => .ok none
  | some w =>
    match checkWriteToFile wrote w true with
    | none => .ok none
    | some w => do
      let x ← cutFile p w.sessionSize w.sessionSize w.sessionSize 0 { session := s }
      .ok (some (w.content, x))

/-- `read_seg_from_file`. -/
def readSegFromFile (content : List UInt8) (ds : LTPDataSegment) : List UInt8 :=
  (content.drop ds.offset).take ds.payloadLength

/-! ## What is sent -/

/-- The bytes that a bundle puts into the block. -/
def SegmentationParams.framed (p : SegmentationParams) (wire : List UInt8) : List UInt8 :=
  if p.clientServiceId = 2 then 1 :: wire else wire

/-- The block of a list of wire images. -/
def SegmentationParams.block (p : SegmentationParams) (wires : List (List UInt8)) : List UInt8 :=
  wires.flatMap p.framed

/-- `produce` gives the bytes of a bundle in chunks that fill the space unless the bundle ends;
`Rest` says what is left of a bundle at an offset. -/
def Produces {β : Type*} (produce : β → ℕ → ℕ → Produced β) (Rest : β → ℕ → List UInt8 → Prop) :
    Prop :=
  ∀ b offset rest space, Rest b offset rest → rest ≠ [] → 0 < space →
    (produce b offset space).bytes = rest.take space ∧
    (produce b offset space).complete = decide (rest.length ≤ space) ∧
    (space < rest.length →
      Rest (produce b offset space).bundle (offset + space) (rest.drop space))

/-- A segment as a piece of the block, with its data read in some way. -/
def LTPDataSegment.piece (data : LTPDataSegment → List UInt8) (ds : LTPDataSegment) :
    Piece UInt8 :=
  ⟨ds.offset, data ds, ds.isEndofblock⟩

/-- The range of a segment is that of its data. -/
structure Ranges (p : SegmentationParams) (data : LTPDataSegment → List UInt8)
    (ds : LTPDataSegment) : Prop where
  color : ds.redGreen = if p.sendGreen then .green else .red
  start : ds.startByte = ds.offset
  length : ds.payloadLength = (data ds).length
  stop : ds.stopByte = ds.offset + ds.payloadLength - 1

/-- A queue of full segments, with more to come. -/
structure Opens (p : SegmentationParams) (data : LTPDataSegment → List UInt8) (x : Sending)
    (parts : List (List UInt8)) : Prop where
  full : ∀ q ∈ parts, q.length = p.segSize
  queue : x.queue.map (LTPDataSegment.piece data) = openLayout 0 parts
  offset : x.sessionOffset = parts.flatten.length
  ranges : ∀ ds ∈ x.queue, Ranges p data ds

/-- A queue that holds the whole block. -/
structure Closes (p : SegmentationParams) (data : LTPDataSegment → List UInt8)
    (queue : List LTPDataSegment) (block : List UInt8) : Prop where
  pieces : ∃ parts, Cuts p.segSize block parts ∧
    queue.map (LTPDataSegment.piece data) = layout 0 parts
  ranges : ∀ ds ∈ queue, Ranges p data ds

variable {p : SegmentationParams} {data : LTPDataSegment → List UInt8} {x : Sending}
  {parts : List (List UInt8)} {ds : LTPDataSegment}

/-- A full segment that does not end the block. -/
theorem Opens.send (h : Opens p data x parts) {q : List UInt8} (hq : q.length = p.segSize)
    (hdata : data ds.setQueuedToSend = q) (hoff : ds.offset = x.sessionOffset)
    (heob : ds.isEndofblock = false) (hr : Ranges p data ds.setQueuedToSend) (b : Bool) :
    Opens p data (x.send ds b) (parts ++ [q]) where
  full r hr := by
    rcases List.mem_append.mp hr with hold | hself
    · exact h.full r hold
    · rw [List.mem_singleton.mp hself, hq]
  queue := by
    have hpiece : ds.setQueuedToSend.piece data = ⟨0 + parts.flatten.length, q, false⟩ := by
      rw [LTPDataSegment.piece, hdata, Nat.zero_add, ← h.offset, ← hoff, ← heob]
      rfl
    rw [openLayout_append, ← h.queue, ← hpiece]
    simp [Sending.send]
  offset := by
    have hlen : ds.payloadLength = q.length := by
      rw [← hdata]
      exact hr.length
    simp only [Sending.send, List.flatten_append, List.length_append, List.flatten_cons,
      List.flatten_nil, List.append_nil, h.offset]
    exact congrArg _ hlen
  ranges d hd := by
    rcases List.mem_append.mp hd with hold | hself
    · exact h.ranges d hold
    · rw [List.mem_singleton.mp hself]
      exact hr

/-- A last segment closes the queue. -/
theorem Opens.close (h : Opens p data x parts) {q block : List UInt8}
    (hblock : parts.flatten ++ q = block) (hq : q ≠ []) (hle : q.length ≤ p.segSize) (hdata : data ds.setQueuedToSend = q)
    (hoff : ds.offset = x.sessionOffset) (heob : ds.isEndofblock = true)
    (hr : Ranges p data ds.setQueuedToSend) (b : Bool) :
    Closes p data (x.send ds b).queue block where
  pieces := by
    subst hblock
    refine ⟨parts ++ [q], Cuts.append h.full (.last hq hle), ?_⟩
    have hpiece : ds.setQueuedToSend.piece data = ⟨0 + parts.flatten.length, q, true⟩ := by
      rw [LTPDataSegment.piece, hdata, Nat.zero_add, ← h.offset, ← hoff, ← heob]
      rfl
    rw [layout_append, ← h.queue, ← hpiece]
    simp [Sending.send]
  ranges d hd := by
    rcases List.mem_append.mp hd with hold | hself
    · exact h.ranges d hold
    · rw [List.mem_singleton.mp hself]
      exact hr

/-! ## Filling the buffer -/

/-- What was produced so far is in the queue and in the buffer. -/
structure Fills (p : SegmentationParams) (x : Filling) (done : List UInt8) : Prop where
  parts : ∃ parts, Opens p LTPDataSegment.payload x.sending parts ∧ parts.flatten ++ x.buffer = done
  room : x.bufUnused + x.buffer.length = p.segSize
  last : x.lastSeg = false

theorem encodeBuffer_ranges (s : LTPSession) (c : Bool) (bytes : List UInt8) (start : ℕ)
    (checkpoint eob : Bool) :
    Ranges p LTPDataSegment.payload
      ((newDataSegment p s c).encodeBuffer bytes start checkpoint eob).setQueuedToSend := by
  refine ⟨?_, rfl, rfl, rfl⟩
  cases c <;> rfl

theorem encodeBuffer_isEndofblock (s : LTPSession) (c : Bool) (bytes : List UInt8) (start : ℕ)
    (checkpoint eob : Bool) :
    ((newDataSegment p s c).encodeBuffer bytes start checkpoint eob).isEndofblock = eob := by
  cases hg : p.sendGreen <;> cases c <;>
    simp [newDataSegment, LTPDataSegment.encodeBuffer, LTPSegment.isEndofblock,
      LTPDataSegment.setCheckpoint, hg]

variable {y : Filling} {done bytes : List UInt8}

/-- Bytes that fit go to the end of the buffer. -/
theorem Fills.put (h : Fills p y done) (hroom : bytes.length ≤ y.bufUnused) :
    ∃ z, y.put bytes = .ok z ∧ Fills p z (done ++ bytes) ∧ z.bufUnused = y.bufUnused - bytes.length ∧
      z.buffer = y.buffer ++ bytes := by
  rw [Filling.put, if_neg (by omega)]
  obtain ⟨parts, hopen, rfl⟩ := h.parts
  refine ⟨_, rfl, ⟨⟨parts, hopen, by simp⟩, ?_, h.last⟩, rfl, rfl⟩
  have := h.room
  simp only [List.length_append]
  omega

/-- Before the end of the block a full buffer is sent, and any other is kept. -/
theorem Fills.checkSend (h : Fills p y done) (hseg : 1 ≤ p.segSize) :
    Fills p (checkSendSegment p y false).2 done ∧ 0 < (checkSendSegment p y false).2.bufUnused := by
  by_cases hfull : y.bufUnused = 0
  · obtain ⟨parts, hopen, hdone⟩ := h.parts
    have hlen : y.buffer.length = p.segSize := by
      have := h.room
      omega
    rw [checkSendSegment, if_neg (by simp [hfull])]
    refine ⟨⟨⟨parts ++ [y.buffer], ?_, by simpa using hdone⟩, by simp, h.last⟩, hseg⟩
    refine hopen.send hlen rfl rfl ?_ (encodeBuffer_ranges _ _ _ _ _ _) _
    rw [encodeBuffer_isEndofblock, h.last]
  · rw [checkSendSegment, if_pos (by simp [h.last, hfull])]
    exact ⟨h, Nat.pos_of_ne_zero hfull⟩

/-- The rest of the block is sent with its last bytes. -/
structure Closed (p : SegmentationParams) (y : Filling) (block : List UInt8) : Prop where
  closes : Closes p LTPDataSegment.payload y.sending.queue block
  checkpoint : p.sendGreen = false → ∀ ds ∈ y.sending.queue.getLast?, ds.isCheckpoint = true
  last : y.lastSeg = true

theorem Fills.close (h : Fills p y done) (hne : y.buffer ≠ []) (force : Bool) :
    Closed p (checkSendSegment p { y with lastSeg := true, isCheckpoint := true } force).2 done := by
  obtain ⟨parts, hopen, rfl⟩ := h.parts
  rw [checkSendSegment, if_neg (by simp)]
  refine ⟨?_, fun hred ds hds => ?_, rfl⟩
  · refine hopen.close rfl hne ?_ rfl rfl ?_ (encodeBuffer_ranges _ _ _ _ _ _) _
    · have := h.room
      omega
    · exact encodeBuffer_isEndofblock _ _ _ _ _ _
  · simp only [Sending.send, List.getLast?_append, List.getLast?_singleton, Option.some_or,
      Option.mem_def, Option.some.injEq] at hds
    subst hds
    simp [LTPDataSegment.setQueuedToSend, LTPDataSegment.encodeBuffer, newDataSegment,
      LTPDataSegment.setCheckpoint, hred]

/-- The bookkeeping of checkpoints does not touch the data. -/
theorem Fills.checkpoint (h : Fills p y done) (n : ℕ) (b : Bool) :
    Fills p { y with towardCheckpoint := n, isCheckpoint := b } done :=
  ⟨h.parts, h.room, h.last⟩

theorem Fills.noteProduced (h : Fills p y done) : Fills p (y.noteProduced p false) done :=
  ⟨h.parts, h.room, rfl⟩

theorem restartCount_eq (r : Bool × Filling) :
    ∃ n, restartCount r = { r.2 with towardCheckpoint := n } := by
  unfold restartCount
  split_ifs
  · exact ⟨0, rfl⟩
  · exact ⟨r.2.towardCheckpoint, rfl⟩

/-- The start of a bundle adds the service id when there is one. -/
theorem Fills.startBundle (h : Fills p y done) (hseg : 1 ≤ p.segSize) (hroom : 0 < y.bufUnused) :
    ∃ z, startBundle p y = .ok z ∧
      Fills p z (done ++ if p.clientServiceId = 2 then [1] else []) ∧ 0 < z.bufUnused := by
  have hput : ∃ z, y.putServiceId p = .ok z ∧
      Fills p z (done ++ if p.clientServiceId = 2 then [1] else []) := by
    unfold Filling.putServiceId
    split_ifs
    · have hone : ([1] : List UInt8).length ≤ y.bufUnused := hroom
      obtain ⟨z, hz, hfills, -⟩ := h.put hone
      exact ⟨z, hz, hfills⟩
    · exact ⟨y, rfl, by simpa using h⟩
  obtain ⟨z, hz, hfills⟩ := hput
  rw [Ltp.startBundle, hz]
  simp only [bind, Except.bind]
  obtain ⟨hkeep, hpos⟩ := (hfills.checkpoint z.towardCheckpoint
    (if p.useIntermediateCheckpoints p.sessionSize = true then
      decide (p.bytesPerCheckpoint < z.towardCheckpoint) else z.isCheckpoint)).checkSend hseg
  generalize checkSendSegment p _ false = r at hkeep hpos ⊢
  cases r.1
  · exact ⟨_, rfl, hkeep, hpos⟩
  · exact ⟨_, rfl, ⟨hkeep.parts, hkeep.room, hkeep.last⟩, hpos⟩

/-! ## One bundle -/

variable {β : Type*} {produce : β → ℕ → ℕ → Produced β} {Rest : β → ℕ → List UInt8 → Prop}

/-- The loop over one bundle produces all of it, and sends the rest with the last bundle. -/
theorem Fills.fillBundle (hprod : Produces produce Rest) (hseg : 1 ≤ p.segSize) (isLast : Bool)
    {fuel : ℕ} {b : β} {offset : ℕ} {rest : List UInt8} (h : Fills p y done)
    (hroom : 0 < y.bufUnused) (hrest : Rest b offset rest) (hne : rest ≠ [])
    (hfuel : rest.length ≤ fuel) :
    ∃ z, Ltp.fillBundle p produce isLast fuel b offset y = .ok z ∧
      if isLast = true then Closed p z (done ++ rest)
      else Fills p z (done ++ rest) ∧ 0 < z.bufUnused := by
  induction fuel generalizing y done b offset rest with
  | zero => exact absurd (List.eq_nil_of_length_eq_zero (Nat.le_zero.mp hfuel)) hne
  | succ fuel ih =>
    have hpos := List.length_pos_iff.mpr hne
    obtain ⟨hbytes, hcomplete, hnext⟩ := hprod b offset rest y.bufUnused hrest hne hroom
    have htake : (rest.take y.bufUnused).length ≤ y.bufUnused := by simp
    obtain ⟨z, hz, hfills, hunused, hbuf⟩ := h.put htake
    have hbuffer : z.buffer ≠ [] := by
      rw [hbuf]
      simp only [ne_eq, List.append_eq_nil_iff, List.take_eq_nil_iff, not_and, not_or]
      exact fun _ => ⟨by omega, hne⟩
    have hforce : (rest.take y.bufUnused).isEmpty = false := by
      rw [List.isEmpty_eq_false_iff]
      simp only [ne_eq, List.take_eq_nil_iff, not_or]
      exact ⟨by omega, hne⟩
    rw [Ltp.fillBundle, hbytes, hz, hcomplete]
    simp only [bind, Except.bind, hforce, Bool.and_false, Bool.false_and]
    by_cases hle : rest.length ≤ y.bufUnused
    · rw [List.take_of_length_le hle] at hfills
      simp only [hle, decide_true, Bool.true_and, if_true]
      refine ⟨_, rfl, ?_⟩
      cases isLast with
      | true =>
        have hclosed := hfills.close hbuffer false
        obtain ⟨n, hn⟩ := restartCount_eq (checkSendSegment p (z.noteProduced p true) false)
        rw [if_pos rfl, hn]
        exact ⟨hclosed.closes, hclosed.checkpoint, hclosed.last⟩
      | false =>
        obtain ⟨hsent, hopen⟩ := hfills.noteProduced.checkSend hseg
        obtain ⟨n, hn⟩ := restartCount_eq (checkSendSegment p (z.noteProduced p false) false)
        rw [if_neg (by simp), hn]
        exact ⟨⟨hsent.parts, hsent.room, hsent.last⟩, hopen⟩
    · obtain ⟨hsent, hopen⟩ := hfills.noteProduced.checkSend hseg
      obtain ⟨n, hn⟩ := restartCount_eq (checkSendSegment p (z.noteProduced p false) false)
      simp only [hle, decide_false, Bool.false_and, Bool.false_eq_true, if_false]
      rw [hn]
      have hlen : (rest.take y.bufUnused).length = y.bufUnused := by
        rw [List.length_take]
        omega
      rw [hlen]
      have hdrop : rest.drop y.bufUnused ≠ [] := by
        simp only [ne_eq, List.drop_eq_nil_iff]
        omega
      have hcount : Fills p { (checkSendSegment p (z.noteProduced p false) false).2 with
          towardCheckpoint := n } (done ++ rest.take y.bufUnused) :=
        ⟨hsent.parts, hsent.room, hsent.last⟩
      obtain ⟨w, hw, hend⟩ := ih hcount hopen (hnext (by omega)) hdrop
        (by rw [List.length_drop]; omega)
      refine ⟨w, hw, ?_⟩
      simpa only [List.append_assoc, List.take_append_drop] using hend

/-! ## All bundles -/

/-- A bundle at its start, and its wire image. -/
def Starts (Rest : β → ℕ → List UInt8 → Prop) (b : β) (wire : List UInt8) : Prop :=
  Rest b 0 wire ∧ wire ≠ []

theorem framed_eq (p : SegmentationParams) (wire : List UInt8) :
    p.framed wire = (if p.clientServiceId = 2 then [1] else []) ++ wire := by
  unfold SegmentationParams.framed
  split_ifs <;> rfl

theorem Fills.fillBundles (hprod : Produces produce Rest) (hseg : 1 ≤ p.segSize) {fuel : ℕ}
    {bundles : List β} {wires : List (List UInt8)} (h : Fills p y done) (hroom : 0 < y.bufUnused)
    (hstarts : List.Forall₂ (Starts Rest) bundles wires) (hne : bundles ≠ [])
    (hfuel : ∀ w ∈ wires, w.length ≤ fuel) :
    ∃ z, Ltp.fillBundles p produce fuel bundles y = .ok z ∧ Closed p z (done ++ p.block wires) := by
  induction hstarts generalizing y done with
  | nil => exact absurd rfl hne
  | @cons b wire bundles wires hb hrest ih =>
    obtain ⟨y₁, hstart, hfills, hroom₁⟩ := h.startBundle hseg hroom
    obtain ⟨z, hz, hend⟩ := hfills.fillBundle hprod hseg bundles.isEmpty hroom₁ hb.1 hb.2
      (hfuel wire List.mem_cons_self)
    rw [List.append_assoc, ← framed_eq] at hend
    have hblock : done ++ p.block (wire :: wires) = (done ++ p.framed wire) ++ p.block wires := by
      simp [SegmentationParams.block]
    rw [hblock, Ltp.fillBundles, hstart]
    simp only [bind, Except.bind, hz]
    cases bundles with
    | nil =>
      cases hrest
      simp only [List.isEmpty_nil, if_true] at hend
      rw [Ltp.fillBundles, if_pos hend.last]
      exact ⟨z, rfl, by simpa [SegmentationParams.block] using hend⟩
    | cons b' rest =>
      simp only [List.isEmpty_cons, Bool.false_eq_true, if_false] at hend
      exact ih hend.1 hend.2 (by simp) fun w hw => hfuel w (List.mem_cons_of_mem _ hw)

theorem processBundles_closed (hprod : Produces produce Rest) (hseg : 1 ≤ p.segSize) {fuel : ℕ}
    {bundles : List β} {wires : List (List UInt8)} (s : LTPSession)
    (hstarts : List.Forall₂ (Starts Rest) bundles wires) (hne : bundles ≠ [])
    (hfuel : ∀ w ∈ wires, w.length ≤ fuel) :
    ∃ z, processBundles p produce fuel s bundles = .ok z ∧
      Closes p LTPDataSegment.payload z.queue (p.block wires) ∧
      (p.sendGreen = false → ∀ ds ∈ z.queue.getLast?, ds.isCheckpoint = true) := by
  have hinit : Fills p { sending := { session := s }, bufUnused := p.segSize } [] :=
    ⟨⟨[], ⟨by simp, rfl, rfl, by simp⟩, rfl⟩, by simp, rfl⟩
  obtain ⟨z, hz, hclosed⟩ := hinit.fillBundles hprod hseg hseg hstarts hne hfuel
  rw [processBundles, hz]
  exact ⟨z.sending, rfl, by simpa using hclosed.closes, hclosed.checkpoint⟩

/-! ## Writing the file -/

variable {wrote : ℕ → Bool} {w : FileWriter}

/-- What was produced so far is in the file and in the work buffer. -/
structure Writes (w : FileWriter) (done : List UInt8) : Prop where
  bytes : w.content ++ w.workBuf = done
  room : w.workBuf.length < w.workBufSize
  size : w.sessionSize = w.content.length

theorem Writes.put (hwrote : ∀ n, wrote n = true) (h : Writes w done)
    (hroom : bytes.length ≤ w.workBufSize - w.workBuf.length) :
    ∃ v, w.put wrote bytes = .ok (some v) ∧ Writes v (done ++ bytes) := by
  have hlt := h.room
  rw [FileWriter.put, if_neg (by omega), checkWriteToFile]
  by_cases hfull : w.workBufSize = (w.workBuf ++ bytes).length
  · rw [if_pos (by simpa using hfull), if_pos (hwrote _)]
    refine ⟨_, rfl, ?_, ?_, ?_⟩
    · rw [List.append_nil, ← List.append_assoc, h.bytes]
    · simp only [List.length_nil]
      omega
    · simp [h.size]
  · rw [if_neg (by simpa using hfull)]
    refine ⟨_, rfl, ?_, ?_, h.size⟩
    · rw [← List.append_assoc, h.bytes]
    · simp only [List.length_append] at hfull ⊢
      omega

theorem Writes.putServiceId (hwrote : ∀ n, wrote n = true) (h : Writes w done) :
    ∃ v, w.putServiceId p wrote = .ok (some v) ∧
      Writes v (done ++ if p.clientServiceId = 2 then [1] else []) := by
  unfold FileWriter.putServiceId
  split_ifs
  · have := h.room
    exact h.put hwrote (by simp only [List.length_singleton]; omega)
  · exact ⟨w, rfl, by simpa using h⟩

theorem Writes.writeBundle (hprod : Produces produce Rest) (hwrote : ∀ n, wrote n = true)
    {fuel : ℕ} {b : β} {offset : ℕ} {rest : List UInt8} (h : Writes w done)
    (hrest : Rest b offset rest) (hne : rest ≠ []) (hfuel : rest.length ≤ fuel) :
    ∃ v, Ltp.writeBundle produce wrote fuel b offset w = .ok (some v) ∧
      Writes v (done ++ rest) := by
  induction fuel generalizing w done b offset rest with
  | zero => exact absurd (List.eq_nil_of_length_eq_zero (Nat.le_zero.mp hfuel)) hne
  | succ fuel ih =>
    have hpos := List.length_pos_iff.mpr hne
    have hroom := h.room
    obtain ⟨hbytes, hcomplete, hnext⟩ := hprod b offset rest (w.workBufSize - w.workBuf.length)
      hrest hne (by omega)
    have htake : (rest.take (w.workBufSize - w.workBuf.length)).length ≤
        w.workBufSize - w.workBuf.length := by simp
    obtain ⟨v, hv, hwrites⟩ := h.put hwrote htake
    rw [Ltp.writeBundle, hbytes, hv, hcomplete]
    simp only [bind, Except.bind]
    by_cases hle : rest.length ≤ w.workBufSize - w.workBuf.length
    · rw [List.take_of_length_le hle] at hwrites
      simp only [hle, decide_true, if_true]
      exact ⟨v, rfl, hwrites⟩
    · have hlen : (rest.take (w.workBufSize - w.workBuf.length)).length =
          w.workBufSize - w.workBuf.length := by
        rw [List.length_take]
        omega
      have hdrop : rest.drop (w.workBufSize - w.workBuf.length) ≠ [] := by
        simp only [ne_eq, List.drop_eq_nil_iff]
        omega
      simp only [hle, decide_false, Bool.false_eq_true, if_false, hlen]
      obtain ⟨u, hu, hend⟩ := ih hwrites (hnext (by omega)) hdrop
        (by rw [List.length_drop]; omega)
      refine ⟨u, hu, ?_⟩
      simpa only [List.append_assoc, List.take_append_drop] using hend

theorem Writes.writeBundles (hprod : Produces produce Rest) (hwrote : ∀ n, wrote n = true)
    {fuel : ℕ} {bundles : List β} {wires : List (List UInt8)} (h : Writes w done)
    (hstarts : List.Forall₂ (Starts Rest) bundles wires)
    (hfuel : ∀ w ∈ wires, w.length ≤ fuel) :
    ∃ v, Ltp.writeBundles p produce wrote fuel bundles w = .ok (some v) ∧
      Writes v (done ++ p.block wires) := by
  induction hstarts generalizing w done with
  | nil => exact ⟨w, rfl, by simpa [SegmentationParams.block] using h⟩
  | @cons b wire bundles wires hb hrest ih =>
    obtain ⟨v, hv, hwrites⟩ := h.putServiceId (p := p) hwrote
    obtain ⟨u, hu, hend⟩ := hwrites.writeBundle hprod hwrote hb.1 hb.2
      (hfuel wire List.mem_cons_self)
    rw [List.append_assoc, ← framed_eq] at hend
    have hblock : done ++ p.block (wire :: wires) = (done ++ p.framed wire) ++ p.block wires := by
      simp [SegmentationParams.block]
    rw [hblock, Ltp.writeBundles, hv]
    simp only [bind, Except.bind, hu]
    exact ih hend fun w hw => hfuel w (List.mem_cons_of_mem _ hw)

/-! ## Cutting the file -/

theorem setFileUsage_isEndofblock (s : LTPSession) (c : Bool) (start length : ℕ) (eob : Bool) :
    ((newDataSegment p s c).setFileUsage start length eob).isEndofblock = eob := by
  cases hg : p.sendGreen <;> cases c <;>
    simp [newDataSegment, LTPDataSegment.setFileUsage, LTPSegment.isEndofblock,
      LTPDataSegment.setCheckpoint, hg]

variable {content : List UInt8}

theorem setFileUsage_ranges (s : LTPSession) (c : Bool) (start length : ℕ) (eob : Bool)
    (hlen : start + length ≤ content.length) :
    Ranges p (readSegFromFile content)
      ((newDataSegment p s c).setFileUsage start length eob).setQueuedToSend := by
  refine ⟨?_, rfl, ?_, rfl⟩
  · cases c <;> rfl
  · simp only [LTPDataSegment.setQueuedToSend, LTPDataSegment.setFileUsage, readSegFromFile,
      List.length_take, List.length_drop]
    omega

/-- The loop sends the rest of the file. -/
theorem Opens.cutFile (hseg : 1 ≤ p.segSize) (sessionSize : ℕ) {fuel : ℕ} {rest : List UInt8}
    (h : Opens p (readSegFromFile content) x parts) (hrest : parts.flatten ++ rest = content)
    (hne : rest ≠ []) (hfuel : rest.length ≤ fuel) (n : ℕ) :
    ∃ y, Ltp.cutFile p sessionSize fuel rest.length n x = .ok y ∧
      Closes p (readSegFromFile content) y.queue content := by
  induction fuel generalizing x parts rest n with
  | zero => exact absurd (List.eq_nil_of_length_eq_zero (Nat.le_zero.mp hfuel)) hne
  | succ fuel ih =>
    have hpos := List.length_pos_iff.mpr hne
    have hread : ∀ k, (content.drop x.sessionOffset).take k = rest.take k := by
      intro k
      rw [h.offset, ← hrest, List.drop_left]
    have hlength : content.length = parts.flatten.length + rest.length := by
      rw [← hrest, List.length_append]
    rw [Ltp.cutFile, if_neg (by omega)]
    simp only [sendSegmentUsingFile]
    by_cases hle : rest.length ≤ p.segSize
    · have hzero : ∀ k y, Ltp.cutFile p sessionSize fuel 0 k y = .ok y := by
        intro k y
        cases fuel <;> rfl
      simp only [if_neg (Nat.not_lt.mpr hle), Nat.sub_self, hzero]
      refine ⟨_, rfl, ?_⟩
      apply h.close hrest hne hle
      · exact (hread rest.length).trans List.take_length
      · rfl
      · rw [setFileUsage_isEndofblock]
        simpa using hle
      · exact setFileUsage_ranges _ _ _ _ _ (by rw [h.offset]; omega)
    · simp only [if_pos (Nat.lt_of_not_le hle)]
      have hdrop : (rest.drop p.segSize).length = rest.length - p.segSize := List.length_drop
      rw [← hdrop]
      refine ih (h.send (show (rest.take p.segSize).length = p.segSize from ?_) ?_ rfl ?_ ?_ _)
        ?_ ?_ ?_ _
      · rw [List.length_take]
        omega
      · exact hread p.segSize
      · rw [setFileUsage_isEndofblock]
        simpa using hle
      · exact setFileUsage_ranges _ _ _ _ _ (by rw [h.offset]; omega)
      · simpa using hrest
      · simp only [ne_eq, List.drop_eq_nil_iff]
        omega
      · omega

theorem reserveWorkBuf_pos (size : ℕ) : 0 < reserveWorkBuf size := by
  unfold reserveWorkBuf
  split_ifs <;> omega

theorem block_ne_nil {bundles : List β} {wires : List (List UInt8)}
    (hstarts : List.Forall₂ (Starts Rest) bundles wires) (hne : bundles ≠ []) :
    p.block wires ≠ [] := by
  cases hstarts with
  | nil => exact absurd rfl hne
  | cons hb _ => simp [SegmentationParams.block, framed_eq, hb.2]

theorem processBundlesUsingAFile_closed (hprod : Produces produce Rest)
    (hwrote : ∀ n, wrote n = true) (hseg : 1 ≤ p.segSize) {fuel : ℕ} (workBufSize : ℕ)
    {bundles : List β} {wires : List (List UInt8)} (s : LTPSession)
    (hstarts : List.Forall₂ (Starts Rest) bundles wires) (hne : bundles ≠ [])
    (hfuel : ∀ w ∈ wires, w.length ≤ fuel) :
    ∃ y, processBundlesUsingAFile p produce wrote workBufSize fuel s bundles =
        .ok (some (p.block wires, y)) ∧
      Closes p (readSegFromFile (p.block wires)) y.queue (p.block wires) := by
  have hinit : Writes { workBufSize := reserveWorkBuf workBufSize } [] :=
    ⟨rfl, reserveWorkBuf_pos workBufSize, rfl⟩
  obtain ⟨w, hw, hwrites⟩ := hinit.writeBundles (p := p) hprod hwrote hstarts hfuel
  rw [List.nil_append] at hwrites
  have hopen : Opens p (readSegFromFile (p.block wires)) { session := s } [] :=
    ⟨by simp, rfl, rfl, by simp⟩
  obtain ⟨y, hy, hcloses⟩ := hopen.cutFile hseg (p.block wires).length
    (List.nil_append (p.block wires)) (block_ne_nil hstarts hne) le_rfl 0
  have hsize : w.sessionSize + w.workBuf.length = (p.block wires).length := by
    rw [hwrites.size, ← hwrites.bytes, List.length_append]
  refine ⟨y, ?_, hcloses⟩
  rw [processBundlesUsingAFile, hw]
  simp only [bind, Except.bind, checkWriteToFile, Bool.true_or, if_true, hwrote, hwrites.bytes,
    hsize, hy]

/-! ## Segmentation is lossless -/

/-- The segments tile the block, spell it, and the last one alone ends it. -/
structure Lossless (segSize : ℕ) (block : List UInt8) (data : LTPDataSegment → List UInt8)
    (queue : List LTPDataSegment) : Prop where
  tiles : ∀ i ds, queue[i]? = some ds →
    ds.offset = ((queue.take i).map LTPDataSegment.payloadLength).sum
  total : (queue.map LTPDataSegment.payloadLength).sum = block.length
  lengths : ∀ ds ∈ queue, 1 ≤ ds.payloadLength ∧ ds.payloadLength ≤ segSize
  ranges : ∀ ds ∈ queue, ds.startByte = ds.offset ∧
    ds.stopByte + 1 = ds.offset + ds.payloadLength ∧ (data ds).length = ds.payloadLength
  bytes : queue.flatMap data = block
  endOfBlock : ∀ i ds, queue[i]? = some ds → (ds.isEndofblock = true ↔ i + 1 = queue.length)

theorem Closes.map_data {queue : List LTPDataSegment}
    (h : queue.map (LTPDataSegment.piece data) = layout 0 parts) : queue.map data = parts := by
  rw [← layout_map_data 0 parts, ← h, List.map_map]
  rfl

theorem Closes.lossless {queue : List LTPDataSegment} {block : List UInt8} (hseg : 1 ≤ p.segSize)
    (h : Closes p data queue block) : Lossless p.segSize block data queue := by
  obtain ⟨parts, hcuts, hpieces⟩ := h.pieces
  have hdata := Closes.map_data hpieces
  have hlengths : queue.map LTPDataSegment.payloadLength = parts.map List.length := by
    rw [← hdata, List.map_map]
    exact List.map_congr_left fun ds hds => (h.ranges ds hds).length
  have hat : ∀ (i : ℕ) (ds : LTPDataSegment), queue[i]? = some ds → (layout 0 parts)[i]? = some (ds.piece data) := by
    intro i ds hi
    rw [← hpieces, List.getElem?_map, hi]
    rfl
  have hpos : ∀ ds ∈ queue, 1 ≤ ds.payloadLength ∧ ds.payloadLength ≤ p.segSize := by
    intro ds hds
    rw [(h.ranges ds hds).length]
    exact hcuts.length_mem hseg _ (hdata ▸ List.mem_map_of_mem hds)
  refine ⟨fun i ds hi => ?_, ?_, hpos, fun ds hds => ?_, ?_, fun i ds hi => ?_⟩
  · have hoff := (layout_getElem? (hat i ds hi)).1
    rw [Nat.zero_add] at hoff
    rw [List.map_take, hlengths, ← List.map_take]
    exact hoff
  · rw [hlengths, ← hcuts.flatten, List.length_flatten]
  · have hr := h.ranges ds hds
    have hstop := hr.stop
    have := (hpos ds hds).1
    exact ⟨hr.start, by omega, hr.length.symm⟩
  · rw [← hcuts.flatten, ← hdata, List.flatMap_def]
  · have hlen : queue.length = parts.length := by rw [← hdata, List.length_map]
    rw [hlen]
    exact (layout_getElem? (hat i ds hi)).2.2

/-- The in-memory segments and the ones cut from the file are the same cut of the block. -/
theorem processBundles_lossless {β : Type*} {produce : β → ℕ → ℕ → Produced β}
    {Rest : β → ℕ → List UInt8 → Prop} (hprod : Produces produce Rest) (p : SegmentationParams)
    (hseg : 1 ≤ p.segSize) (wrote : ℕ → Bool) (hwrote : ∀ n, wrote n = true) (workBufSize : ℕ)
    (s : LTPSession) (bundles : List β) (wires : List (List UInt8)) (hne : bundles ≠ [])
    (hstarts : List.Forall₂ (fun b wire => Rest b 0 wire ∧ wire ≠ []) bundles wires) (fuel : ℕ)
    (hfuel : ∀ w ∈ wires, w.length ≤ fuel) :
    ∃ x y, processBundles p produce fuel s bundles = .ok x ∧
      processBundlesUsingAFile p produce wrote workBufSize fuel s bundles =
        .ok (some (p.block wires, y)) ∧
      Lossless p.segSize (p.block wires) LTPDataSegment.payload x.queue ∧
      (p.sendGreen = false → ∀ ds ∈ x.queue.getLast?, ds.isCheckpoint = true) ∧
      Lossless p.segSize (p.block wires) (readSegFromFile (p.block wires)) y.queue ∧
      x.queue.map (fun ds => (ds.offset, ds.payloadLength, ds.payload, ds.isEndofblock)) =
        y.queue.map fun ds => (ds.offset, ds.payloadLength,
          readSegFromFile (p.block wires) ds, ds.isEndofblock) := by
  obtain ⟨x, hx, hcloses, hcheck⟩ := processBundles_closed (p := p) hprod hseg s hstarts hne hfuel
  obtain ⟨y, hy, hcloses'⟩ := processBundlesUsingAFile_closed (p := p) hprod hwrote hseg
    workBufSize s hstarts hne hfuel
  refine ⟨x, y, hx, hy, hcloses.lossless hseg, hcheck, hcloses'.lossless hseg, ?_⟩
  have hsame : x.queue.map (LTPDataSegment.piece LTPDataSegment.payload) =
      y.queue.map (LTPDataSegment.piece (readSegFromFile (p.block wires))) := by
    obtain ⟨parts, hcuts, hpieces⟩ := hcloses.pieces
    obtain ⟨parts', hcuts', hpieces'⟩ := hcloses'.pieces
    rw [hpieces, hpieces', hcuts.unique hcuts' rfl]
  have hview : ∀ (data : LTPDataSegment → List UInt8) (queue : List LTPDataSegment),
      (∀ ds ∈ queue, Ranges p data ds) →
      queue.map (fun ds => (ds.offset, ds.payloadLength, data ds, ds.isEndofblock)) =
        (queue.map (LTPDataSegment.piece data)).map
          fun q => (q.offset, q.data.length, q.data, q.last) := by
    intro data queue hr
    rw [List.map_map]
    refine List.map_congr_left fun ds hds => ?_
    rw [(hr ds hds).length]
    rfl
  rw [hview _ _ hcloses.ranges, hview _ _ hcloses'.ranges, hsame]

/-! ## Version 7 bundles -/

/-- `BundleProtocolVersion7::produce` for a payload and its blocks. -/
def produceVersion7 (b : List UInt8 × List Bundling.BlockInfo) (offset space : ℕ) :
    Produced (List UInt8 × List Bundling.BlockInfo) :=
  match Bundling.produce b.1 b.2 offset space with
  | .ok c => ⟨(b.1, c.blocks), c.bytes, c.last⟩
  | .error _ => ⟨b, [], false⟩

/-- What is left of a version 7 bundle whose blocks are ready at an offset. -/
def RestVersion7 (b : List UInt8 × List Bundling.BlockInfo) (offset : ℕ) (rest : List UInt8) :
    Prop :=
  ∃ front pay, b.2 = front ++ [pay] ∧ (∀ block ∈ front, Bundling.EncodedBlock block) ∧
    Bundling.PayloadBlock b.1 pay ∧ front ≠ [] ∧
    Bundling.Ready b.1 pay (offset - 1 - (Bundling.body b.1 front).length) ∧
    rest = (Bundling.image b.1 b.2).drop offset

/-- The version 7 blocks are produced in chunks that fill the space. -/
theorem produceVersion7_produces : Produces produceVersion7 RestVersion7 := by
  rintro ⟨payload, blocks⟩ offset rest space ⟨front, pay, hblocks, hfront, hpay, hne, hready, hrest⟩
    hrestne hspace
  obtain rfl : blocks = front ++ [pay] := hblocks
  replace hpay : Bundling.PayloadBlock payload pay := hpay
  have hoff : offset < (Bundling.image payload (front ++ [pay])).length := by
    by_contra hge
    exact hrestne (hrest.trans (List.drop_eq_nil_of_le (Nat.le_of_not_lt hge)))
  have hlen : rest.length = (Bundling.image payload (front ++ [pay])).length - offset := by
    rw [hrest, List.length_drop]
  obtain ⟨c, l, hc, hbytes, -, hlast, hnext, hready'⟩ :=
    Bundling.produce_spec hfront hpay hne hspace hoff hready
  have hprod : produceVersion7 (payload, front ++ [pay]) offset space =
      ⟨(payload, c.blocks), c.bytes, c.last⟩ := by
    simp only [produceVersion7, hc]
  rw [hprod]
  refine ⟨?_, ?_, fun hshort => ?_⟩
  · rw [hbytes, hrest]
    rfl
  · rw [hlast, decide_eq_decide]
    omega
  · have hopen : c.last = false := by
      rw [hlast, decide_eq_false_iff_not]
      omega
    refine ⟨front, pay.setLocals l, hnext, hfront, hpay.setLocals l, hne, ?_, ?_⟩
    · exact hready' hopen
    · have himage : Bundling.image payload c.blocks = Bundling.image payload (front ++ [pay]) := by
        rw [hnext]
        simp [Bundling.image, Bundling.body_append]
      rw [hrest, List.drop_drop, himage]

/-- Generated blocks are ready at their start. -/
theorem RestVersion7.start {payload : List UInt8} {blocks : List Bundling.BlockInfo}
    (h : Bundling.Generated payload blocks) :
    RestVersion7 (payload, blocks) 0 (Bundling.image payload blocks) ∧
      Bundling.image payload blocks ≠ [] := by
  obtain ⟨front, pay, rfl, hfront, hpay, hfresh⟩ := h.last
  refine ⟨⟨front, pay, rfl, hfront, hpay, ?_, fun b hb => ?_, rfl⟩, by simp [Bundling.image]⟩
  · rintro rfl
    obtain ⟨b, hb, htype⟩ := h.first
    obtain rfl : pay = b := by simpa using hb
    exact absurd (hpay.type_eq.symm.trans htype) (by decide)
  · simp [hfresh] at hb

/-- Segments of five bytes for an aggregation with intermediate checkpoints. -/
def aggregationParams : SegmentationParams :=
  { segSize := 5, bytesPerCheckpoint := 7, ccsdsCompatible := true, sendGreen := false,
    sessionSize := 40 }

/-- A bundle and its copy. -/
def twoBundles : List (List UInt8 × List Bundling.BlockInfo) :=
  [([10, 11, 12], Bundling.threeBlocks), ([10, 11, 12], Bundling.threeBlocks)]

def twoBundlesWires : List (List UInt8) :=
  [Bundling.image [10, 11, 12] Bundling.threeBlocks, Bundling.image [10, 11, 12] Bundling.threeBlocks]

/-- The block of the two bundles. -/
def twoBundlesBlock : List UInt8 := aggregationParams.block twoBundlesWires

theorem processBundles_lossless_two :
    ∃ x y, processBundles aggregationParams produceVersion7 40 (.new 1 1) twoBundles = .ok x ∧
      processBundlesUsingAFile aggregationParams produceVersion7 (fun _ => true) 512 40 (.new 1 1)
        twoBundles = .ok (some (twoBundlesBlock, y)) ∧
      Lossless 5 twoBundlesBlock LTPDataSegment.payload x.queue ∧
      (aggregationParams.sendGreen = false → ∀ ds ∈ x.queue.getLast?, ds.isCheckpoint = true) ∧
      Lossless 5 twoBundlesBlock (readSegFromFile twoBundlesBlock) y.queue ∧
      x.queue.map (fun ds => (ds.offset, ds.payloadLength, ds.payload, ds.isEndofblock)) =
        y.queue.map fun ds => (ds.offset, ds.payloadLength,
          readSegFromFile twoBundlesBlock ds, ds.isEndofblock) :=
  processBundles_lossless produceVersion7_produces aggregationParams (by decide) (fun _ => true)
    (fun _ => rfl) 512 (.new 1 1) twoBundles twoBundlesWires (by decide)
    (.cons (RestVersion7.start Bundling.threeBlocks_generated)
      (.cons (RestVersion7.start Bundling.threeBlocks_generated) .nil)) 40 (by decide)

end Dtnme.Ltp
