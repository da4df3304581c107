import Dtnme.Ltp.Cutting

/-! # Agreement of both ends

One red session at its sender and at its receiver, and what is on the way between them. Whatever was
sent may be lost, come late, out of order or more than once, and the timers of both ends run out at
any time. What the sender reports as transmitted has arrived, and what the receiver hands over is the
block.
-/

namespace Dtnme.Ltp
open Library

/-! ## The exchange -/

/-- Both ends of a session, the data segments that were sent, whether a cancel of the receiver was
acknowledged, and the data segments that arrived. -/
structure Exchange where
  outbound : Outbound
  receiver : Receiver := {}
  dataSent : List LTPDataSegment := []
  cancelAckSent : Bool := false
  arrivals : List LTPDataSegment := []

structure ExchangeParams where
  segmentation : SegmentationParams
  retranRetries : ℕ
  receiver : ReceiverParams

/-- What the sender does by itself. -/
def SenderEvent.isLocal : SenderEvent → Bool
  | .report _ => false
  | .cancelByReceiver => false
  | .cancelAcknowledged => false
  | _ => true

/-- What happens next. A segment arrives by its place among those that were sent. -/
inductive ExchangeEvent
  | sender (e : SenderEvent) (here : e.isLocal = true)
  | receiver (timer : ReceiverTimer)
  | dataArrives (i : ℕ) (accept acceptGreen : Bool) (reportSerial : ℕ)
  | reportArrives (i : ℕ)
  | reportAckArrives (i : ℕ)
  | cancelBySenderArrives
  | cancelBySenderAckArrives
  | cancelByReceiverArrives
  | cancelByReceiverAckArrives

/-- A data segment as it comes out of the decoder. -/
def LTPDataSegment.received (ds : LTPDataSegment) : LTPDataSegment :=
  { ds with isDeleted := false, retransRetries := 0, queuedToSend := false }

/-- What the convergence layer sends when it takes the segment that starts at `k` off its queue. -/
def Outbound.onWire (x : Outbound) (k : ℕ) : List LTPDataSegment :=
  match x.sender.state with
  | .active s =>
    match s.redSegments.find? k with
    | some ds => if ds.isDeleted then [] else [ds.received]
    | none => []
  | _ => []

namespace Exchange

def sends (x : Exchange) : SenderEvent → List LTPDataSegment
  | .transmit k => x.outbound.onWire k
  | _ => []

/-- Something happens to the sender. -/
def atSender (p : ExchangeParams) (x : Exchange) (e : SenderEvent) : Except Fault Exchange := do
  let y ← outboundStep p.segmentation p.retranRetries x.outbound e
  pure { x with outbound := y, dataSent := x.dataSent ++ x.sends e }

/-- Something arrives at the receiver. -/
def atReceiver (p : ExchangeParams) (x : Exchange) (seg : IncomingSegment) :
    Except Fault Exchange := do
  let rcv ← processDataForReceiver p.receiver x.receiver seg
  pure { x with receiver := rcv }

end Exchange

def exchangeStep (p : ExchangeParams) (x : Exchange) : ExchangeEvent → Except Fault Exchange
  | .sender e _ => x.atSender p e
  | .receiver timer => .ok { x with receiver := receiverTimer p.receiver x.receiver timer }
  | .dataArrives i accept acceptGreen reportSerial =>
    match x.dataSent[i]? with
    | some ds =>
      { x with arrivals := x.arrivals ++ [ds] }.atReceiver p
        (.data ds accept acceptGreen reportSerial)
    | none => .ok x
  | .reportArrives i =>
    match x.receiver.reports[i]? with
    | some rs => x.atSender p (.report rs.arrival)
    | none => .ok x
  | .reportAckArrives i =>
    match x.outbound.sender.reportAcks[i]? with
    | some serialNumber => x.atReceiver p (.reportAck serialNumber)
    | none => .ok x
  | .cancelBySenderArrives =>
    if 0 < x.outbound.sender.cancelSegments then x.atReceiver p .cancelBySender else .ok x
  | .cancelBySenderAckArrives =>
    if 0 < x.receiver.cancelAcks then x.atSender p .cancelAcknowledged else .ok x
  -- the sender answers with an acknowledgment, whatever it knows of the session
  | .cancelByReceiverArrives =>
    if 0 < x.receiver.cancelSegments then
      { x with cancelAckSent := true }.atSender p .cancelByReceiver
    else .ok x
  | .cancelByReceiverAckArrives =>
    if x.cancelAckSent then x.atReceiver p .cancelAck else .ok x

/-- A session that is ready to be sent to a receiver that does not know it. -/
def Exchange.start (engineId sessionId checkpointId : ℕ) (bundleList : List ℕ) : Exchange :=
  { outbound := .start engineId sessionId checkpointId bundleList }

/-! ## The sender -/

variable {x y : Outbound} {P P' : Set Extent} {R R' : Set ℕ} {rs : LTPReportSegment}
  {p : SegmentationParams} {retranRetries : ℕ} {s t : LTPSession}

/-- A session of a sender that has cut the extents `P` off its block: what it no longer holds is
among the bytes `R`. -/
structure Outbound.Open (x : Outbound) (P : Set Extent) (R : Set ℕ) (s : LTPSession) : Prop where
  held : ∀ k ds, s.redSegments.find? k = some ds → ds.extent ∈ P
  accounted : Accounted false s x.sessionOffset R
  expected : s.expectedRedBytes = x.sessionOffset
  complete : s.redComplete = true → x.lastSeg = true ∧ 0 < x.sessionOffset
  cancelled : s.isLtpCancelled = true → s.bundleList = []
  pending : x.sender.transmitted = []

structure Outbound.Sends (x : Outbound) (P : Set Extent) (R : Set ℕ) : Prop where
  cut : Cut x.sessionOffset x.lastSeg P
  session : ∀ s, x.sender.state = .active s → x.Open P R s
  done : x.sender.transmitted ≠ [] → x.lastSeg = true ∧ ∀ b < x.sessionOffset, b ∈ R

theorem Outbound.Sends.mono (h : x.Sends P R) (hR : R ⊆ R') : x.Sends P R' where
  cut := h.cut
  session s hs := { h.session s hs with accounted := (h.session s hs).accounted.mono hR }
  done hne := ⟨(h.done hne).1, fun b hb => hR ((h.done hne).2 b hb)⟩

/-- The session that an active sender goes on with. -/
theorem Outbound.Open.succeeds (h : x.Open P R s) (ht : Succeeds s t)
    (hoffset : y.sessionOffset = x.sessionOffset) (hlast : y.lastSeg = x.lastSeg)
    (htransmitted : y.sender.transmitted = x.sender.transmitted)
    (hacc : Accounted false t y.sessionOffset R) : y.Open P R t where
  held k ds hk := by
    obtain ⟨old, hold, heq⟩ := ht.origin k ds hk
    rw [heq]
    exact h.held k old hold
  accounted := hacc
  expected := by rw [ht.expected, h.expected, hoffset]
  complete hc := by
    rw [hoffset, hlast]
    exact h.complete (ht.complete ▸ hc)
  cancelled hc := by
    rcases ht.cancelled hc with hsc | hnone
    · exact ht.bundles.elim (fun heq => heq.trans (h.cancelled hsc)) id
    · exact hnone
  pending := htransmitted.trans h.pending

theorem Outbound.Sends.quiet (h : x.Sends P R) (hq : Quiet x y) (hacc : y.Accounts false R) :
    y.Sends P R := by
  constructor
  · rw [hq.offset, hq.lastSeg]
    exact h.cut
  · intro t ht
    obtain ⟨s, hs, hst⟩ := hq.session t ht
    exact (h.session s hs).succeeds hst hq.offset hq.lastSeg hq.transmitted (hacc t ht)
  · rw [hq.offset, hq.lastSeg, hq.transmitted]
    exact h.done

theorem Outbound.Sends.accounts (h : x.Sends P R) : x.Accounts false R :=
  fun s hs => (h.session s hs).accounted

theorem BlockPart.segment_extent (part : BlockPart) (p : SegmentationParams) (s : LTPSession)
    (offset : ℕ) (isCheckpoint lastSeg : Bool) :
    (part.segment p s offset isCheckpoint lastSeg).clientServiceId = p.clientServiceId ∧
      (part.segment p s offset isCheckpoint lastSeg).isEndofblock = lastSeg := by
  cases part with
  | buffer data =>
    refine ⟨?_, encodeBuffer_isEndofblock ..⟩
    cases isCheckpoint <;> rfl
  | file dataSize =>
    refine ⟨?_, setFileUsage_isEndofblock ..⟩
    cases isCheckpoint <;> rfl

/-- A new segment starts behind all the others. -/
theorem Outbound.Sends.sendSegment (h : x.Sends P R) (hs : x.sender.state = .active s)
    (hmore : x.lastSeg = false) (hred : p.sendGreen = false) (part : BlockPart)
    (hlen : 0 < part.length) (isCheckpoint lastSeg : Bool)
    (hoff : x.sessionOffset + part.length < 2 ^ 64) :
    ∃ P', P ⊆ P' ∧ (x.sendSegment p s part isCheckpoint lastSeg).Sends P' R := by
  have hopen := h.session s hs
  have haccounts : (x.sendSegment p s part isCheckpoint lastSeg).Accounts false R := by
    have hacc := hopen.accounted
    rw [← hred] at hacc
    have hsent := hacc.sendSegment part hlen isCheckpoint lastSeg
    rw [hred] at hsent
    exact hsent
  generalize hckpt : ((isCheckpoint || lastSeg) && !p.sendGreen) = ckpt
  generalize hds : part.segment p s x.sessionOffset ckpt lastSeg = ds
  obtain ⟨hstart, -, hstop, hpay, -, hcolor⟩ := part.segment_range p s x.sessionOffset ckpt lastSeg
  obtain ⟨hservice, hend⟩ := part.segment_extent p s x.sessionOffset ckpt lastSeg
  rw [hds] at hstart hstop hpay hcolor hservice hend
  rw [hred] at hcolor
  obtain ⟨y, hy⟩ : ∃ y, y = x.sendSegment p s part isCheckpoint lastSeg := ⟨_, rfl⟩
  have hadd : addSegmentOutgoing s ds.setQueuedToSend =
      (s.noteRedEob ds.setQueuedToSend).storeRed ds.setQueuedToSend := by
    have hcolor' : ds.setQueuedToSend.redGreen = .red := hcolor
    simp [addSegmentOutgoing, hcolor']
  have hsession (t : LTPSession) (ht : y.sender.state = .active t) :
      t.redSegments = s.redSegments.insert ds.startByte ds.setQueuedToSend ∧
      t.expectedRedBytes = (if s.expectedRedBytes < u64 (ds.stopByte + 1) then u64 (ds.stopByte + 1)
        else s.expectedRedBytes) ∧ t.redComplete = (s.redComplete || ds.isEndofblock) ∧
      t.isLtpCancelled = s.isLtpCancelled ∧ t.bundleList = s.bundleList := by
    rw [hy] at ht
    simp only [Outbound.sendSegment, Sending.send, hckpt, hds, hadd] at ht
    cases ckpt <;> cases ht <;> exact ⟨rfl, rfl, rfl, rfl, rfl⟩
  have hoffset : y.sessionOffset = x.sessionOffset + part.length := by
    rw [hy]
    simp only [Outbound.sendSegment, Sending.send, hckpt, hds, LTPDataSegment.setQueuedToSend, hpay]
  have htransmitted : y.sender.transmitted = x.sender.transmitted := by
    rw [hy]
    rfl
  have hlast : y.lastSeg = lastSeg := by
    rw [hy]
    rfl
  rw [← hy] at haccounts ⊢
  refine ⟨insert ds.extent P, Set.subset_insert _ _, ?_, fun t ht => ?_, fun hne => ?_⟩
  · have hcut := h.cut
    rw [hmore] at hcut
    rw [hoffset, hlast]
    refine hcut.add hlen hcolor ?_ hstart hstop hpay hend
    have hid : ds.extent.clientServiceId = p.clientServiceId := hservice
    rw [hid, SegmentationParams.clientServiceId]
    split_ifs
    · exact Or.inr rfl
    · exact Or.inl rfl
  · obtain ⟨hsegs, hexpected, hcomplete, hcancelled, hlist⟩ := hsession t ht
    refine ⟨fun k es hk => ?_, haccounts t ht, ?_, fun hc => ⟨?_, by omega⟩, fun hc => ?_,
      htransmitted.trans hopen.pending⟩
    · rw [hsegs, OrdMap.find?_insert] at hk
      split_ifs at hk
      · cases hk
        exact Set.mem_insert _ _
      · exact Set.mem_insert_of_mem _ (hopen.held k es hk)
    · have hold := hopen.expected
      rw [hexpected, hoffset, u64_of_lt (by omega)]
      split_ifs <;> omega
    · rw [hcomplete, Bool.or_eq_true, hend] at hc
      rw [hlast]
      refine hc.resolve_left fun hold => ?_
      rw [(hopen.complete hold).1] at hmore
      cases hmore
    · rw [hlist]
      exact hopen.cancelled (hcancelled ▸ hc)
  · rw [htransmitted, hopen.pending] at hne
    exact absurd rfl hne

/-- What a sound report leaves with the sender, and what it completes. -/
theorem Outbound.Open.report (h : x.Open P R s) (hs : x.sender.state = .active s)
    (hR : ∀ b ∈ R, b < x.sessionOffset) (hrs : SoundReport R rs) {snd : Sender}
    (hrun : processRs x.sender rs.arrival.seg = .ok snd) :
    (∀ t, snd.state = .active t → Accounted false t x.sessionOffset R) ∧
      (snd.state = .closed false → s.isLtpCancelled = false → ∀ b < x.sessionOffset, b ∈ R) := by
  have hout := h.accounted.outgoing
  cases hlive : s.isLtpCancelled with
  | false =>
    have hharmless : Harmless x.sender s rs.arrival := by
      apply hrs.harmless hout hs hlive _ _ hrun
      · rw [h.expected]
        exact hR
      · rw [h.expected]
        exact fun hc => (h.complete hc).2
    obtain ⟨snd', hrun', hacc, hclosed⟩ := processRs_accounted hs h.accounted hharmless
    cases hrun.symm.trans hrun'
    rw [Set.union_eq_left.mpr hrs.claimed_subset] at hacc hclosed
    rw [h.expected] at hclosed
    exact ⟨hacc, fun hend _ => hclosed hend⟩
  | true =>
    refine ⟨fun t ht => ?_, fun _ hno => by cases hno⟩
    obtain ⟨t', hst, hanswer⟩ := processRs_answers hout hs hrun
    rcases hanswer with ⟨hactive, -⟩ | ⟨hclosed, -⟩
    · cases hactive.symm.trans ht
      apply Sound.accounted _ (hst.stays hlive)
      apply h.accounted.toSound.of_sameRange _ hst.expected hst.complete
      intro k ds hk
      obtain ⟨old, hold, heq⟩ := hst.origin k ds hk
      exact ⟨old, hold, congrArg Extent.startByte heq, congrArg Extent.stopByte heq,
        congrArg Extent.offset heq, congrArg Extent.payloadLength heq⟩
    · cases hclosed.symm.trans ht

/-- A sound report makes the sender let go of bytes that arrived, and of no others. -/
theorem Outbound.Sends.report (h : x.Sends P R) (hR : ∀ b ∈ R, b < x.sessionOffset)
    (hrs : (∃ s, x.sender.state = .active s) → SoundReport R rs) {snd : Sender}
    (hrun : processRs x.sender rs.arrival.seg = .ok snd) : (x.withSender snd).Sends P R := by
  by_cases hactive : ∃ s, x.sender.state = .active s
  · have hsound := hrs hactive
    obtain ⟨s, hs⟩ := hactive
    have hopen := h.session s hs
    obtain ⟨hacc, hclosed⟩ := hopen.report hs hR hsound hrun
    obtain ⟨t, hst, hanswer⟩ := processRs_answers hopen.accounted.outgoing hs hrun
    refine ⟨h.cut, fun u hu => ?_, fun hne => ?_⟩
    · rcases hanswer with ⟨ht, htransmitted⟩ | ⟨hend, -⟩
      · cases ht.symm.trans hu
        exact hopen.succeeds hst rfl rfl htransmitted (hacc t ht)
      · cases hend.symm.trans hu
    · have hpending := hopen.pending
      change snd.transmitted ≠ [] at hne
      rcases hanswer with ⟨-, htransmitted⟩ | ⟨hend, hcomplete, htransmitted | htransmitted⟩
      · exact absurd (htransmitted.trans hpending) hne
      · exact absurd (htransmitted.trans hpending) hne
      · -- only a session that is not cancelled has bundles to report
        refine ⟨(hopen.complete (hst.complete ▸ hcomplete)).1, hclosed hend ?_⟩
        by_contra hc
        have hnone := hopen.cancelled (by simpa using hc)
        rw [htransmitted, hpending, hst.bundles.elim (fun heq => heq.trans hnone) id] at hne
        exact hne rfl
  · rw [not_exists] at hactive
    have hsame : snd.state = x.sender.state ∧ snd.transmitted = x.sender.transmitted := by
      unfold processRs at hrun
      cases hs : x.sender.state with
      | active s => exact absurd hs (hactive s)
      | closed cancelled =>
        cases cancelled <;> rw [hs] at hrun <;> cases hrun <;> exact ⟨hs, rfl⟩
      | unknown =>
        rw [hs] at hrun
        cases hrun
        exact ⟨hs, rfl⟩
    refine ⟨h.cut, fun u hu => ?_, fun hne => ?_⟩
    · exact absurd (hsame.1.symm.trans hu) (hactive u)
    · apply h.done
      rw [← hsame.2]
      exact hne

theorem Outbound.sessionOffset_sendSegment (x : Outbound) (s : LTPSession) (part : BlockPart)
    (c l : Bool) : (x.sendSegment p s part c l).sessionOffset = x.sessionOffset + part.length := by
  obtain ⟨-, -, -, hpay, -⟩ := part.segment_range p s x.sessionOffset ((c || l) && !p.sendGreen) l
  simp only [Outbound.sendSegment, Sending.send, LTPDataSegment.setQueuedToSend, hpay]

theorem outboundStep_offset_le {e : SenderEvent} (hrun : outboundStep p retranRetries x e = .ok y) :
    x.sessionOffset ≤ y.sessionOffset := by
  by_cases hreport : ∃ r, e = .report r
  · obtain ⟨r, rfl⟩ := hreport
    have hmap : (processRs x.sender r.seg).map x.withSender = .ok y := hrun
    cases hprocess : processRs x.sender r.seg with
    | error e =>
      rw [hprocess] at hmap
      cases hmap
    | ok snd =>
      rw [hprocess] at hmap
      cases hmap
      exact le_rfl
  by_cases hsegment : ∃ part hlen c l, e = .segment part hlen c l
  · obtain ⟨part, hlen, c, l, rfl⟩ := hsegment
    cases hrun
    unfold Outbound.onActive
    split
    · split_ifs
      · exact le_rfl
      · rw [Outbound.sessionOffset_sendSegment]
        exact Nat.le_add_right _ _
    · exact le_rfl
  · apply (outboundStep_quiet (fun r heq => hreport ⟨r, heq⟩) _ hrun).offset.ge
    exact fun part hlen c l heq => hsegment ⟨part, hlen, c, l, heq⟩

/-- One event of the sender other than a report. -/
theorem outboundStep_sends (h : x.Sends P R) (hred : p.sendGreen = false) {e : SenderEvent}
    (hreport : ∀ r, e ≠ .report r) (hrun : outboundStep p retranRetries x e = .ok y)
    (hoff : y.sessionOffset < 2 ^ 64) :
    (∃ P', P ⊆ P' ∧ y.Sends P' R) ∧
      ∀ t, y.sender.state = .active t → ∃ s, x.sender.state = .active s := by
  by_cases hsegment : ∃ part hlen c l, e = .segment part hlen c l
  · obtain ⟨part, hlen, c, l, rfl⟩ := hsegment
    cases hrun
    cases hs : x.sender.state with
    | active s =>
      simp only [Outbound.onActive, hs] at hoff ⊢
      split_ifs at hoff ⊢ with hlast
      · exact ⟨⟨P, subset_rfl, h⟩, fun t _ => ⟨s, rfl⟩⟩
      · rw [Outbound.sessionOffset_sendSegment] at hoff
        exact ⟨h.sendSegment hs (by simpa using hlast) hred part hlen c l hoff, fun t _ => ⟨s, rfl⟩⟩
    | closed cancelled =>
      simp only [Outbound.onActive, hs]
      exact ⟨⟨P, subset_rfl, h⟩, fun t ht => by simp at ht⟩
    | unknown =>
      simp only [Outbound.onActive, hs]
      exact ⟨⟨P, subset_rfl, h⟩, fun t ht => by simp at ht⟩
  · have hq : Quiet x y := by
      apply outboundStep_quiet hreport _ hrun
      exact fun part hlen c l heq => hsegment ⟨part, hlen, c, l, heq⟩
    have haccounts : x.Accounts p.sendGreen R := by
      rw [hred]
      exact h.accounts
    obtain ⟨y', hrun', hacc⟩ := outboundStep_accounts p retranRetries haccounts e hreport
    cases hrun.symm.trans hrun'
    rw [hred] at hacc
    refine ⟨⟨P, subset_rfl, h.quiet hq hacc⟩, fun t ht => ?_⟩
    obtain ⟨s, hs, -⟩ := hq.session t ht
    exact ⟨s, hs⟩

/-- What goes on the wire has an extent that the session holds. -/
theorem Outbound.Sends.onWire (h : x.Sends P R) {k : ℕ} {ds : LTPDataSegment}
    (hds : ds ∈ x.onWire k) : ds.extent ∈ P := by
  unfold Outbound.onWire at hds
  cases hs : x.sender.state with
  | active s =>
    rw [hs] at hds
    cases hk : s.redSegments.find? k with
    | none => simp [hk] at hds
    | some es =>
      simp only [hk] at hds
      split_ifs at hds
      · cases hds
      · rw [List.mem_singleton.mp hds]
        exact (h.session s hs).held k es hk
  | closed cancelled => simp [hs] at hds
  | unknown => simp [hs] at hds

/-! ## Both ends -/

/-- Both ends agree: what arrived was sent, the receiver is sound about it, and the sender has let go
of nothing else. Its acknowledgment of a cancel makes reports of the receiver worthless, but then
the sender has no use for them any more. -/
structure Exchange.Agreed (x : Exchange) (P : Set Extent) : Prop where
  sends : x.outbound.Sends P (receivedBytes x.arrivals)
  sent : ∀ ds ∈ x.dataSent, ds.extent ∈ P
  arrived : ∀ ds ∈ x.arrivals, ds ∈ x.dataSent
  receiver : x.receiver.Sound {ds | ds ∈ x.dataSent} (receivedBytes x.arrivals)
    (x.cancelAckSent = false)
  gone : x.cancelAckSent = true → ∀ s, x.outbound.sender.state ≠ .active s

variable {z w : Exchange} {q : ExchangeParams}

namespace Exchange.Agreed

theorem below (h : z.Agreed P) {b : ℕ} (hb : b ∈ receivedBytes z.arrivals) :
    b < z.outbound.sessionOffset := by
  obtain ⟨ds, hds, -, hhi⟩ := hb
  have hbelow : ds.stopByte < z.outbound.sessionOffset :=
    h.sends.cut.below _ (h.sent ds (h.arrived ds hds))
  omega

theorem cutFrom (h : z.Agreed P) (hoff : z.outbound.sessionOffset < 2 ^ 64) :
    CutFrom {ds | ds ∈ z.dataSent} :=
  h.sends.cut.cutFrom hoff h.sent

/-- Segments that share a byte are copies of one another. -/
theorem copies (h : z.Agreed P) {ds es : LTPDataSegment} (hds : ds ∈ z.dataSent)
    (hes : es ∈ z.dataSent) (hlo : ds.startByte ≤ es.stopByte) (hhi : es.startByte ≤ ds.stopByte) :
    ds.extent = es.extent :=
  h.sends.cut.apart _ (h.sent ds hds) _ (h.sent es hes) hlo hhi

/-- A block that was handed over holds a copy of everything that was sent. -/
theorem holds (h : z.Agreed P) {segs : OrdMap ℕ LTPDataSegment} {ds : LTPDataSegment}
    (hwhole : WholeBlock {ds | ds ∈ z.dataSent} segs z.outbound.sessionOffset)
    (hds : ds ∈ z.dataSent) :
    ∃ es, segs.find? ds.startByte = some es ∧ es.extent = ds.extent := by
  have hordered : ds.startByte ≤ ds.stopByte := h.sends.cut.ordered _ (h.sent ds hds)
  have hbelow : ds.stopByte < z.outbound.sessionOffset := h.sends.cut.below _ (h.sent ds hds)
  have hstored : ds.startByte ∈ storedBytes segs := by
    rw [hwhole.bytes, Set.mem_Iio]
    omega
  obtain ⟨k, es, hk, hlo, hhi⟩ := hstored
  have hkey := hwhole.segments.keyed hk
  have hsame := h.copies (hwhole.sent k es hk) hds (by omega) hhi
  have hstart : es.startByte = ds.startByte := congrArg Extent.startByte hsame
  rw [hkey] at hstart
  rw [← hstart]
  exact ⟨es, hk, hsame⟩

theorem start (engineId sessionId checkpointId : ℕ) (bundleList : List ℕ) :
    (Exchange.start engineId sessionId checkpointId bundleList).Agreed ∅ where
  sends := by
    refine ⟨.empty false, fun s hs => ?_, fun hne => absurd rfl hne⟩
    have hacc := Outbound.start_accounts false engineId sessionId checkpointId bundleList s hs
    cases hs
    refine ⟨fun k ds hk => (by cases hk), ?_, rfl, fun hc => (by cases hc), fun hc => (by cases hc), rfl⟩
    apply hacc.mono
    rintro b ⟨r, hr, -⟩
    cases hr
  sent ds hds := by cases hds
  arrived ds hds := by cases hds
  receiver := ⟨⟨fun _ r hr => (by cases hr), fun q hq => (by cases hq)⟩, fun s hs => (by cases hs), trivial⟩
  gone hack := by cases hack

/-- The sender goes on by itself, or is cancelled by the receiver. -/
theorem atSender (h : z.Agreed P) (hred : q.segmentation.sendGreen = false) {e : SenderEvent}
    (hreport : ∀ r, e ≠ .report r) (hrun : z.atSender q e = .ok w)
    (hoff : w.outbound.sessionOffset < 2 ^ 64) :
    ∃ P', w.Agreed P' := by
  obtain ⟨y, hstep, hrest⟩ := returns_of_bind hrun
  cases hrest
  obtain ⟨⟨P', hP, hsends⟩, hactive⟩ := outboundStep_sends h.sends hred hreport hstep hoff
  have hsent : ∀ ds ∈ z.dataSent ++ z.sends e, ds.extent ∈ P' := by
    intro ds hds
    rcases List.mem_append.mp hds with hds | hds
    · exact hP (h.sent ds hds)
    · unfold Exchange.sends at hds
      split at hds
      · exact hP (h.sends.onWire hds)
      · cases hds
  refine ⟨P', hsends, hsent, fun ds hds => List.mem_append_left _ (h.arrived ds hds), ?_, ?_⟩
  · exact h.receiver.mono (fun ds hds => List.mem_append_left _ hds) subset_rfl id
  · intro hack t ht
    obtain ⟨s, hs⟩ := hactive t ht
    exact h.gone hack s hs

/-- A segment of the block, or one without data, arrives at the receiver. -/
theorem atReceiver (h : z.Agreed P) {seg : IncomingSegment} (hrun : z.atReceiver q seg = .ok w)
    (hoff : w.outbound.sessionOffset < 2 ^ 64)
    (hseg : seg.Among {ds | ds ∈ z.dataSent} (receivedBytes z.arrivals))
    (hcas : seg = .cancelAck → z.cancelAckSent = true) :
    ∃ P', w.Agreed P' := by
  obtain ⟨rcv, hstep, hrest⟩ := returns_of_bind hrun
  cases hrest
  have hsound := processDataForReceiver_sound h.receiver (h.cutFrom hoff) hseg
    (fun heq hno => by simp [hcas heq] at hno) hstep
  exact ⟨P, h.sends, h.sent, h.arrived, hsound, h.gone⟩

/-- The sender gives its session up and acknowledges that. -/
theorem cancelByReceiver (h : z.Agreed P)
    (hrun : ({ z with cancelAckSent := true } : Exchange).atSender q .cancelByReceiver = .ok w) :
    ∃ P', w.Agreed P' := by
  obtain ⟨y, hstep, hrest⟩ := returns_of_bind hrun
  cases hrest
  cases hstep
  have hquiet : Quiet z.outbound (z.outbound.onActive fun _ => z.outbound.withState (.closed true)) :=
    .onActive fun _ _ => .withState (by simp)
  have hgone : ∀ s, (z.outbound.onActive fun _ =>
      z.outbound.withState (.closed true)).sender.state ≠ .active s := by
    intro s
    unfold Outbound.onActive
    split
    · simp [Outbound.withState]
    · rename_i hno
      exact hno s
  refine ⟨P, h.sends.quiet hquiet fun s hs => absurd hs (hgone s), ?_, ?_, ?_,
    fun _ => hgone⟩
  · intro ds hds
    exact h.sent ds ((List.mem_append.mp hds).resolve_right fun hnone => by cases hnone)
  · exact fun ds hds => List.mem_append_left _ (h.arrived ds hds)
  · exact h.receiver.mono (fun ds hds => List.mem_append_left _ hds) subset_rfl fun hno => by cases hno

/-- A report of the receiver arrives at the sender. -/
theorem reportArrives (h : z.Agreed P) {rs : LTPReportSegment} (hrs : rs ∈ z.receiver.reports)
    (hrun : z.atSender q (.report rs.arrival) = .ok w) :
    ∃ P', w.Agreed P' := by
  obtain ⟨y, hstep, hrest⟩ := returns_of_bind hrun
  cases hrest
  have hmap : (processRs z.outbound.sender rs.arrival.seg).map z.outbound.withSender = .ok y := hstep
  cases hprocess : processRs z.outbound.sender rs.arrival.seg with
  | error e =>
    rw [hprocess] at hmap
    cases hmap
  | ok snd =>
    rw [hprocess] at hmap
    cases hmap
    have hsends : (z.outbound.withSender snd).Sends P (receivedBytes z.arrivals) := by
      refine h.sends.report (fun b hb => h.below hb) (fun ⟨s, hs⟩ => ?_) hprocess
      apply h.receiver.emitted _ rs hrs
      by_contra hack
      exact h.gone (by simpa using hack) s hs
    have hsame : z.dataSent ++ z.sends (.report rs.arrival) = z.dataSent := List.append_nil _
    refine ⟨P, hsends, ?_, ?_, ?_, fun hack t ht => ?_⟩
    · rw [hsame]
      exact h.sent
    · rw [hsame]
      exact h.arrived
    · rw [hsame]
      exact h.receiver
    · have hgone : ∀ s, z.outbound.sender.state ≠ .active s := h.gone hack
      obtain ⟨snd', hrun', hstate⟩ := processRs_gone hgone rs.arrival.seg
      cases hprocess.symm.trans hrun'
      exact hgone t (hstate.symm.trans ht)

end Exchange.Agreed

/-- Whatever happens next, both ends still agree. -/
theorem exchangeStep_agreed (h : z.Agreed P) (hred : q.segmentation.sendGreen = false)
    {e : ExchangeEvent} (hrun : exchangeStep q z e = .ok w)
    (hoff : w.outbound.sessionOffset < 2 ^ 64) :
    ∃ P', w.Agreed P' := by
  have hsame : ∃ P', z.Agreed P' := ⟨P, h⟩
  cases e with
  | sender e here =>
    apply h.atSender hred _ hrun hoff
    rintro r rfl
    cases here
  | receiver timer =>
    cases hrun
    exact ⟨P, h.sends, h.sent, h.arrived, receiverTimer_sound h.receiver timer, h.gone⟩
  | dataArrives i accept acceptGreen reportSerial =>
    cases hds : z.dataSent[i]? with
    | none =>
      simp only [exchangeStep, hds] at hrun
      cases hrun
      exact hsame
    | some ds =>
      simp only [exchangeStep, hds] at hrun
      have hmem := List.mem_of_getElem? hds
      have hbytes : receivedBytes z.arrivals ⊆ receivedBytes (z.arrivals ++ [ds]) := by
        rw [receivedBytes_append]
        exact fun b hb => Or.inl hb
      have hin : ({ z with arrivals := z.arrivals ++ [ds] } : Exchange).Agreed P := by
        refine ⟨h.sends.mono hbytes, h.sent, fun es hes => ?_, h.receiver.mono subset_rfl hbytes id, h.gone⟩
        rcases List.mem_append.mp hes with hes | hes
        · exact h.arrived es hes
        · rw [List.mem_singleton.mp hes]
          exact hmem
      refine hin.atReceiver hrun hoff ⟨hmem, fun b hlo hhi => ?_⟩ fun heq => (by cases heq)
      exact ⟨ds, List.mem_append_right _ List.mem_cons_self, hlo, hhi⟩
  | reportArrives i =>
    cases hrs : z.receiver.reports[i]? with
    | none =>
      simp only [exchangeStep, hrs] at hrun
      cases hrun
      exact hsame
    | some rs =>
      simp only [exchangeStep, hrs] at hrun
      exact h.reportArrives (List.mem_of_getElem? hrs) hrun
  | reportAckArrives i =>
    simp only [exchangeStep] at hrun
    split at hrun
    · exact h.atReceiver hrun hoff trivial fun heq => (by cases heq)
    · cases hrun
      exact hsame
  | cancelBySenderArrives =>
    simp only [exchangeStep] at hrun
    split_ifs at hrun
    · exact h.atReceiver hrun hoff trivial fun heq => (by cases heq)
    · cases hrun
      exact hsame
  | cancelBySenderAckArrives =>
    simp only [exchangeStep] at hrun
    split_ifs at hrun
    · exact h.atSender hred (fun r hr => by cases hr) hrun hoff
    · cases hrun
      exact hsame
  | cancelByReceiverArrives =>
    simp only [exchangeStep] at hrun
    split_ifs at hrun
    · exact h.cancelByReceiver hrun
    · cases hrun
      exact hsame
  | cancelByReceiverAckArrives =>
    simp only [exchangeStep] at hrun
    split_ifs at hrun with hack
    · exact h.atReceiver hrun hoff trivial fun _ => hack
    · cases hrun
      exact hsame

/-! ## Runs -/

theorem Exchange.atSender_offset_le {e : SenderEvent} (hrun : z.atSender q e = .ok w) :
    z.outbound.sessionOffset ≤ w.outbound.sessionOffset := by
  obtain ⟨y, hstep, hrest⟩ := returns_of_bind hrun
  cases hrest
  exact outboundStep_offset_le hstep

theorem Exchange.atReceiver_outbound {seg : IncomingSegment} (hrun : z.atReceiver q seg = .ok w) :
    w.outbound = z.outbound := by
  obtain ⟨rcv, -, hrest⟩ := returns_of_bind hrun
  cases hrest
  rfl

/-- The block grows only. -/
theorem exchangeStep_offset_le {e : ExchangeEvent} (hrun : exchangeStep q z e = .ok w) :
    z.outbound.sessionOffset ≤ w.outbound.sessionOffset := by
  have hreceiver {seg : IncomingSegment} {z : Exchange} (hrun : z.atReceiver q seg = .ok w) :
      z.outbound.sessionOffset ≤ w.outbound.sessionOffset := by
    rw [Exchange.atReceiver_outbound hrun]
  cases e with
  | sender e here => exact Exchange.atSender_offset_le hrun
  | receiver timer =>
    cases hrun
    exact le_rfl
  | dataArrives i accept acceptGreen reportSerial =>
    simp only [exchangeStep] at hrun
    split at hrun
    · have hle := hreceiver hrun
      exact hle
    · cases hrun
      exact le_rfl
  | reportArrives i =>
    simp only [exchangeStep] at hrun
    split at hrun
    · exact Exchange.atSender_offset_le hrun
    · cases hrun
      exact le_rfl
  | reportAckArrives i =>
    simp only [exchangeStep] at hrun
    split at hrun
    · exact hreceiver hrun
    · cases hrun
      exact le_rfl
  | cancelBySenderArrives =>
    simp only [exchangeStep] at hrun
    split_ifs at hrun
    · exact hreceiver hrun
    · cases hrun
      exact le_rfl
  | cancelBySenderAckArrives =>
    simp only [exchangeStep] at hrun
    split_ifs at hrun
    · exact Exchange.atSender_offset_le hrun
    · cases hrun
      exact le_rfl
  | cancelByReceiverArrives =>
    simp only [exchangeStep] at hrun
    split_ifs at hrun
    · have hle := Exchange.atSender_offset_le hrun
      exact hle
    · cases hrun
      exact le_rfl
  | cancelByReceiverAckArrives =>
    simp only [exchangeStep] at hrun
    split_ifs at hrun
    · exact hreceiver hrun
    · cases hrun
      exact le_rfl

/-- Along every run both ends agree. -/
theorem exchange_run_agreed (hred : q.segmentation.sendGreen = false)
    {engineId sessionId checkpointId : ℕ} {bundleList : List ℕ} {events : List ExchangeEvent}
    (hrun : run (exchangeStep q) (.start engineId sessionId checkpointId bundleList) events = .ok z)
    (hoff : z.outbound.sessionOffset < 2 ^ 64) : ∃ P, z.Agreed P := by
  refine run_ok_invariant (fun z _ => z.outbound.sessionOffset < 2 ^ 64 → ∃ P, z.Agreed P)
    ?_ ?_ hrun hoff
  · intro z past e w _ hz hstep hw
    obtain ⟨P, hP⟩ := hz ((exchangeStep_offset_le hstep).trans_lt hw)
    exact exchangeStep_agreed hP hred hstep hw
  · exact fun _ => ⟨∅, .start ..⟩

/-- What the sender of a red session reports as transmitted has arrived: the last segment was cut,
and every byte of the block was in a segment that got to the receiver. -/
theorem transmitted_run_arrived (q : ExchangeParams) (hred : q.segmentation.sendGreen = false)
    (engineId sessionId checkpointId : ℕ) (bundleList : List ℕ) (events : List ExchangeEvent)
    (z : Exchange)
    (hrun : run (exchangeStep q) (.start engineId sessionId checkpointId bundleList) events = .ok z)
    (hoff : z.outbound.sessionOffset < 2 ^ 64) (hdone : z.outbound.sender.transmitted ≠ []) :
    z.outbound.lastSeg = true ∧
      ∀ b < z.outbound.sessionOffset, ∃ ds ∈ z.arrivals, ds.startByte ≤ b ∧ b ≤ ds.stopByte := by
  obtain ⟨P, hP⟩ := exchange_run_agreed hred hrun hoff
  exact hP.sends.done hdone

def exchangeParams : ExchangeParams :=
  { segmentation := redParams, retranRetries := 3
    receiver := { engineId := 1, sessionId := 1, segSize := 1400, retranRetries := 3 } }

/-- Two segments arrive in the wrong order, one of them twice. The report on the second makes the
sender send the first again. -/
def twoArrive : List ExchangeEvent :=
  [.sender (.segment (.buffer [10, 11, 12, 13, 14]) (by decide) false false) rfl,
    .sender (.segment (.buffer [15, 16, 17, 18, 19]) (by decide) false true) rfl,
    .sender (.transmit 5) rfl, .sender (.transmit 0) rfl, .dataArrives 0 true true 40,
    .dataArrives 1 true true 41, .dataArrives 1 true true 42, .reportArrives 0,
    .sender (.transmit 0) rfl, .dataArrives 2 true true 43, .reportArrives 1]

/-- Nothing is cancelled, the receiver reports and hands over, and the sender completes. -/
theorem twoArrive_completes :
    ∃ z, run (exchangeStep exchangeParams) (.start 1 1 0 [7]) twoArrive = .ok z ∧
      (z.outbound.sessionOffset < 2 ^ 64 ∧ z.cancelAckSent = false ∧
        z.outbound.sender.transmitted ≠ [] ∧ 0 < z.receiver.posted.length ∧
        0 < z.receiver.reports.length) := by
  decide +kernel

theorem transmitted_run_arrived_two :
    ∃ z, run (exchangeStep exchangeParams) (.start 1 1 0 [7]) twoArrive = .ok z ∧
      z.outbound.sender.transmitted ≠ [] ∧ z.outbound.lastSeg = true ∧
      ∀ b < z.outbound.sessionOffset, ∃ ds ∈ z.arrivals, ds.startByte ≤ b ∧ b ≤ ds.stopByte := by
  obtain ⟨z, hrun, hoff, -, hdone, -⟩ := twoArrive_completes
  exact ⟨z, hrun, hdone,
    transmitted_run_arrived exchangeParams rfl 1 1 0 [7] twoArrive z hrun hoff hdone⟩

/-- What the receiver hands over is the block: each byte once, in copies of all that was sent. -/
theorem posted_run_block (q : ExchangeParams) (hred : q.segmentation.sendGreen = false)
    (engineId sessionId checkpointId : ℕ) (bundleList : List ℕ) (events : List ExchangeEvent)
    (z : Exchange)
    (hrun : run (exchangeStep q) (.start engineId sessionId checkpointId bundleList) events = .ok z)
    (hoff : z.outbound.sessionOffset < 2 ^ 64) (segs : OrdMap ℕ LTPDataSegment) (n : ℕ)
    (hposted : (segs, n) ∈ z.receiver.posted) :
    z.outbound.lastSeg = true ∧ n = z.outbound.sessionOffset ∧
      SegmentsOk segs ∧ storedBytes segs = Set.Iio n ∧
      (∀ k ds, segs.find? k = some ds → ds ∈ z.dataSent) ∧
      ∀ ds ∈ z.dataSent, ∃ es, segs.find? ds.startByte = some es ∧ es.extent = ds.extent := by
  obtain ⟨P, hP⟩ := exchange_run_agreed hred hrun hoff
  have hwhole : WholeBlock {ds | ds ∈ z.dataSent} segs n := hP.receiver.posted _ hposted
  obtain ⟨es, hes, heob, hn⟩ := hwhole.ends
  obtain ⟨hlast, hend⟩ := hP.sends.cut.ends _ (hP.sent es hes) heob
  have hsize : n = z.outbound.sessionOffset := hn.trans hend
  refine ⟨hlast, hsize, hwhole.segments, hwhole.bytes, hwhole.sent, fun ds hds => ?_⟩
  rw [hsize] at hwhole
  exact hP.holds hwhole hds

theorem posted_run_block_two :
    ∃ z segs n, run (exchangeStep exchangeParams) (.start 1 1 0 [7]) twoArrive = .ok z ∧
      (segs, n) ∈ z.receiver.posted ∧ z.outbound.lastSeg = true ∧ n = z.outbound.sessionOffset ∧
      SegmentsOk segs ∧ storedBytes segs = Set.Iio n ∧
      (∀ k ds, segs.find? k = some ds → ds ∈ z.dataSent) ∧
      ∀ ds ∈ z.dataSent, ∃ es, segs.find? ds.startByte = some es ∧ es.extent = ds.extent := by
  obtain ⟨z, hrun, hoff, -, -, hone, -⟩ := twoArrive_completes
  obtain ⟨⟨segs, n⟩, hposted⟩ := List.exists_mem_of_length_pos hone
  exact ⟨z, segs, n, hrun, hposted,
    posted_run_block exchangeParams rfl 1 1 0 [7] twoArrive z hrun hoff segs n hposted⟩

/-- Until a cancel of the receiver was acknowledged, all that its reports claim has arrived, and a
session that it remembers with a size was handed over. -/
theorem reports_run_arrived (q : ExchangeParams) (hred : q.segmentation.sendGreen = false)
    (engineId sessionId checkpointId : ℕ) (bundleList : List ℕ) (events : List ExchangeEvent)
    (z : Exchange)
    (hrun : run (exchangeStep q) (.start engineId sessionId checkpointId bundleList) events = .ok z)
    (hoff : z.outbound.sessionOffset < 2 ^ 64) (hack : z.cancelAckSent = false) :
    (∀ rs ∈ z.receiver.reports, ∀ b ∈ rs.arrival.claimed,
      ∃ ds ∈ z.arrivals, ds.startByte ≤ b ∧ b ≤ ds.stopByte) ∧
    ∀ size, z.receiver.state = .closed size → 0 < size → z.receiver.HandedOver size := by
  obtain ⟨P, hP⟩ := exchange_run_agreed hred hrun hoff
  constructor
  · intro rs hrs b hb
    exact (hP.receiver.emitted hack rs hrs).claimed_subset hb
  · intro size hstate
    have hremembers := hP.receiver.remembers
    rw [hstate] at hremembers
    exact (hremembers hack).2

theorem reports_run_arrived_two :
    ∃ z, run (exchangeStep exchangeParams) (.start 1 1 0 [7]) twoArrive = .ok z ∧
      0 < z.receiver.reports.length ∧
      (∀ rs ∈ z.receiver.reports, ∀ b ∈ rs.arrival.claimed,
        ∃ ds ∈ z.arrivals, ds.startByte ≤ b ∧ b ≤ ds.stopByte) ∧
      ∀ size, z.receiver.state = .closed size → 0 < size → z.receiver.HandedOver size := by
  obtain ⟨z, hrun, hoff, hack, -, -, hone⟩ := twoArrive_completes
  exact ⟨z, hrun, hone,
    reports_run_arrived exchangeParams rfl 1 1 0 [7] twoArrive z hrun hoff hack⟩

/-- An acknowledgment that comes again closes a session that was opened again as if it had been
handed over. -/
def ackedAgain : List ExchangeEvent :=
  [.sender (.segment (.buffer [20, 21, 22, 23, 24]) (by decide) false false) rfl,
    .sender (.segment (.buffer [25, 26, 27, 28, 29]) (by decide) false true) rfl,
    .sender (.transmit 5) rfl, .dataArrives 0 true true 40, .receiver .startShutdown,
    .cancelByReceiverArrives, .cancelByReceiverAckArrives, .receiver .closeout,
    .dataArrives 0 true true 41, .cancelByReceiverAckArrives, .dataArrives 0 true true 42]

-- then a report claims bytes that never arrived
example : ∃ z, run (exchangeStep exchangeParams) (.start 1 1 0 [7]) ackedAgain = .ok z ∧
    ((∀ ds ∈ z.arrivals, ds.startByte = 5) ∧
      ∃ rs ∈ z.receiver.reports, ∃ rc ∈ rs.claims.values, rc.offset = 0 ∧ 0 < rc.length) := by
  decide +kernel

end Dtnme.Ltp
