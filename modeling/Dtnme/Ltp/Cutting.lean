import Dtnme.Ltp.ReportSafety
import Dtnme.Ltp.Gathering

/-! # What a sender cuts its block into

Every copy of a segment that leaves the sender has one extent, whatever checkpoint it carries, and
two extents are the same or share no byte. A session that is cancelled reports no bundle as
transmitted.
-/

namespace Dtnme.Ltp
open Library

/-- What all copies of a data segment have in common. -/
structure Extent where
  redGreen : Color
  clientServiceId : ℕ
  offset : ℕ
  startByte : ℕ
  stopByte : ℕ
  payloadLength : ℕ
  payload : List UInt8
  isEndofblock : Bool

def LTPDataSegment.extent (ds : LTPDataSegment) : Extent where
  redGreen := ds.redGreen
  clientServiceId := ds.clientServiceId
  offset := ds.offset
  startByte := ds.startByte
  stopByte := ds.stopByte
  payloadLength := ds.payloadLength
  payload := ds.payload
  isEndofblock := ds.isEndofblock

/-- The extents of a red block of which the sender has cut `offset` bytes, or all of them. -/
structure Cut (offset : ℕ) (lastSeg : Bool) (P : Set Extent) : Prop where
  red : ∀ e ∈ P, e.redGreen = .red
  service : ∀ e ∈ P, e.clientServiceId = 1 ∨ e.clientServiceId = 2
  length : ∀ e ∈ P, e.payloadLength + e.startByte = e.stopByte + 1
  ordered : ∀ e ∈ P, e.startByte ≤ e.stopByte
  below : ∀ e ∈ P, e.stopByte < offset
  ends : ∀ e ∈ P, e.isEndofblock = true → lastSeg = true ∧ e.stopByte + 1 = offset
  apart : ∀ e ∈ P, ∀ f ∈ P, e.startByte ≤ f.stopByte → f.startByte ≤ e.stopByte → e = f

variable {offset : ℕ} {lastSeg : Bool} {P : Set Extent} {K : Set LTPDataSegment}
  {ds es : LTPDataSegment} {k : ℕ}

theorem Cut.empty (lastSeg : Bool) : Cut 0 lastSeg ∅ := by
  constructor <;> simp

/-- What was sent of a block that is not too long. -/
theorem Cut.cutFrom (h : Cut offset lastSeg P) (hoff : offset < 2 ^ 64)
    (hK : ∀ ds ∈ K, ds.extent ∈ P) : CutFrom K where
  incoming ds hds := by
    have hbelow := h.below _ (hK ds hds)
    exact ⟨h.red _ (hK ds hds), h.length _ (hK ds hds), h.ordered _ (hK ds hds),
      lt_of_le_of_lt hbelow hoff⟩
  service ds hds := h.service _ (hK ds hds)
  ends ds hds he es hes := by
    have hend : ds.stopByte + 1 = offset := (h.ends _ (hK ds hds) he).2
    have hbelow : es.stopByte < offset := h.below _ (hK es hes)
    omega
  apart ds hds es hes hlo hhi := by
    have heq : ds.extent = es.extent := h.apart _ (hK ds hds) _ (hK es hes) hlo hhi
    exact ⟨congrArg Extent.startByte heq, congrArg Extent.stopByte heq⟩

/-- The next segment starts where the last one ended. -/
theorem Cut.add (h : Cut offset false P) {e : Extent} {len : ℕ} (hlen : 0 < len)
    (hred : e.redGreen = .red) (hservice : e.clientServiceId = 1 ∨ e.clientServiceId = 2)
    (hstart : e.startByte = offset) (hstop : e.stopByte = offset + len - 1)
    (hpay : e.payloadLength = len) (hend : e.isEndofblock = lastSeg) :
    Cut (offset + len) lastSeg (insert e P) := by
  have hcases (f : Extent) (hf : f ∈ insert e P) : f = e ∨ f ∈ P := hf
  constructor
  · intro f hf
    rcases hcases f hf with rfl | hf
    · exact hred
    · exact h.red f hf
  · intro f hf
    rcases hcases f hf with rfl | hf
    · exact hservice
    · exact h.service f hf
  · intro f hf
    rcases hcases f hf with rfl | hf
    · omega
    · exact h.length f hf
  · intro f hf
    rcases hcases f hf with rfl | hf
    · omega
    · exact h.ordered f hf
  · intro f hf
    rcases hcases f hf with rfl | hf
    · omega
    · have := h.below f hf
      omega
  · intro f hf he
    rcases hcases f hf with rfl | hf
    · exact ⟨hend ▸ he, by omega⟩
    · cases (h.ends f hf he).1
  · intro f hf g hg hfg hgf
    rcases hcases f hf with rfl | hf' <;> rcases hcases g hg with rfl | hg'
    · rfl
    · have := h.below g hg'
      omega
    · have := h.below f hf'
      omega
    · exact h.apart f hf' g hg' hfg hgf

/-! ## A session from one step to the next -/

/-- The session holds no new extent, expects as much as before, and has the same bundles or, as
when it is cancelled, none. -/
structure Succeeds (s t : LTPSession) : Prop where
  origin : ∀ k es, t.redSegments.find? k = some es →
    ∃ ds, s.redSegments.find? k = some ds ∧ es.extent = ds.extent
  expected : t.expectedRedBytes = s.expectedRedBytes
  complete : t.redComplete = s.redComplete
  cancelled : t.isLtpCancelled = true → s.isLtpCancelled = true ∨ t.bundleList = []
  stays : s.isLtpCancelled = true → t.isLtpCancelled = true
  bundles : t.bundleList = s.bundleList ∨ t.bundleList = []

variable {s t : LTPSession}

theorem Succeeds.refl (s : LTPSession) : Succeeds s s :=
  ⟨fun _ es h => ⟨es, h, rfl⟩, rfl, rfl, Or.inl, id, Or.inl rfl⟩

theorem Succeeds.trans {u : LTPSession} (h : Succeeds s t) (h' : Succeeds t u) : Succeeds s u where
  origin k fs hk := by
    obtain ⟨es, hes, heq'⟩ := h'.origin k fs hk
    obtain ⟨ds, hds, heq⟩ := h.origin k es hes
    exact ⟨ds, hds, heq'.trans heq⟩
  expected := h'.expected.trans h.expected
  complete := h'.complete.trans h.complete
  cancelled hc := by
    rcases h'.cancelled hc with ht | hnone
    · rcases h.cancelled ht with hs | hnone
      · exact Or.inl hs
      · exact Or.inr (h'.bundles.elim (fun heq => heq.trans hnone) id)
    · exact Or.inr hnone
  stays hs := h'.stays (h.stays hs)
  bundles := by
    rcases h'.bundles with heq | hnone
    · rw [heq]
      exact h.bundles
    · exact Or.inr hnone

/-- Only the red segments differ, and hold no new extent. -/
theorem Succeeds.of_red (horigin : ∀ k es, t.redSegments.find? k = some es →
      ∃ ds, s.redSegments.find? k = some ds ∧ es.extent = ds.extent)
    (hexpected : t.expectedRedBytes = s.expectedRedBytes) (hcomplete : t.redComplete = s.redComplete)
    (hcancelled : t.isLtpCancelled = s.isLtpCancelled) (hlist : t.bundleList = s.bundleList) :
    Succeeds s t :=
  ⟨horigin, hexpected, hcomplete, fun hc => Or.inl (hcancelled ▸ hc),
    fun hc => hcancelled.trans hc, Or.inl hlist⟩

theorem Succeeds.putSegment (s : LTPSession)
    (hsame : ∀ old, s.redSegments.find? k = some old → ds.extent = old.extent) :
    Succeeds s (s.putSegment k ds) := by
  cases hk : s.redSegments.find? k with
  | none =>
    have hput : s.putSegment k ds = s := by simp [LTPSession.putSegment, hk]
    rw [hput]
    exact .refl s
  | some old =>
    refine Succeeds.of_red (fun j es hj => ?_) rfl rfl rfl rfl
    rw [find?_putSegment hk] at hj
    split_ifs at hj with heq
    · subst heq
      cases hj
      exact ⟨old, hk, hsame old hk⟩
    · exact ⟨es, hj, rfl⟩

theorem Succeeds.addCheckpointSeg (s : LTPSession) (ds : LTPDataSegment) :
    Succeeds s (s.addCheckpointSeg ds) :=
  .of_red (fun _ es h => ⟨es, h, rfl⟩) rfl rfl rfl rfl

theorem extent_resent (serial newChkpt : ℕ) (last : Bool) (ds : LTPDataSegment) :
    (resent serial newChkpt last ds).extent = ds.extent := by
  cases last <;> rfl

theorem Succeeds.resendSegment {r : Resending} (serial : ℕ) (last : Bool)
    (hsame : ∀ old, r.session.redSegments.find? k = some old → ds.extent = old.extent) :
    Succeeds r.session (resendSegment serial k ds last r).session := by
  rw [session_resendSegment]
  cases last with
  | false => exact .putSegment _ fun old hold => (extent_resent ..).trans (hsame old hold)
  | true =>
    apply (Succeeds.addCheckpointSeg r.session _).trans
    exact .putSegment _ fun old hold => (extent_resent ..).trans (hsame old hold)

theorem sendRemainingSegments_succeeds (serial : ℕ) {l : List (ℕ × LTPDataSegment)}
    {r r' : Resending}
    (hsame : ∀ p ∈ l, ∀ old, r.session.redSegments.find? p.1 = some old → p.2.extent = old.extent)
    (hrun : sendRemainingSegments serial l r = .ok r') : Succeeds r.session r'.session := by
  induction l generalizing r with
  | nil =>
    cases hrun
    exact .refl _
  | cons p rest ih =>
    obtain ⟨k, ds⟩ := p
    simp only [sendRemainingSegments] at hrun
    split_ifs at hrun
    have hround := Succeeds.resendSegment serial rest.isEmpty (hsame _ List.mem_cons_self)
    apply hround.trans
    apply ih _ hrun
    intro q hq es hes
    obtain ⟨old, hold, heq⟩ := hround.origin _ es hes
    exact (hsame q (List.mem_cons_of_mem _ hq) old hold).trans heq.symm

theorem Succeeds.noteReported (s : LTPSession) (r : LTPReportSegment) :
    Succeeds s (s.noteReported r) := by
  unfold LTPSession.noteReported
  split_ifs
  · exact .of_red (fun _ es h => ⟨es, h, rfl⟩) rfl rfl rfl rfl
  · exact .refl s

/-- A cancelled session has nothing left. -/
theorem Succeeds.buildCsSegment {snd : Sender} {reasonCode : ℕ}
    (ht : (snd.buildCsSegment s reasonCode).state = .active t) : Succeeds s t := by
  unfold Sender.buildCsSegment at ht
  split_ifs at ht with hc
  · cases ht
    exact .refl s
  · cases ht
    exact ⟨fun k es hk => (by cases hk), rfl, rfl, fun _ => Or.inr rfl, fun _ => rfl, Or.inr rfl⟩

/-! ## Reports -/

variable {snd snd' : Sender} {r : LTPReportSegment}

/-- The session that the sender has after a report, or that it has completed. -/
def Sender.Answers (snd : Sender) (s : LTPSession) (snd' : Sender) : Prop :=
  ∃ t, Succeeds s t ∧ ((snd'.state = .active t ∧ snd'.transmitted = snd.transmitted) ∨
    (snd'.state = .closed false ∧ t.redComplete = true ∧
      (snd'.transmitted = snd.transmitted ∨
        snd'.transmitted = snd.transmitted ++ t.bundleList.reverse)))

theorem Sender.answers_completed (snd : Sender) (h : Succeeds s t) (hc : t.redComplete = true) :
    snd.Answers s (snd.completed t) := by
  refine ⟨t, h, Or.inr ⟨rfl, hc, ?_⟩⟩
  unfold Sender.completed
  dsimp only
  split_ifs
  · exact Or.inr rfl
  · exact Or.inl (List.append_nil _)

theorem Sender.answers_settle (snd : Sender) {st : Resending} (h : Succeeds s st.session) :
    snd.Answers s (snd.settle st) := by
  unfold Sender.settle
  split_ifs with hend
  · rw [Bool.and_eq_true] at hend
    exact Sender.answers_completed { snd with state := .active st.session, queue := st.queue } h hend.1
  · exact ⟨st.session, h, Or.inl ⟨rfl, rfl⟩⟩

/-- What a report leaves in the session was there before. -/
theorem applyReport_answers (hm : Outgoing s.redSegments) (hrun : applyReport snd s r = .ok snd') :
    snd.Answers s snd' := by
  have hswept := applyClaims_swept hm r
  have hnote := Succeeds.noteReported s r
  have hred : (s.noteReported r).redSegments = s.redSegments := redSegments_noteReported
  have hset : Succeeds s ((s.noteReported r).setRedSegments (applyClaims r s.redSegments).redSegments) := by
    refine hnote.trans (.of_red (fun k es hk => ⟨es, ?_, rfl⟩) rfl rfl rfl rfl)
    rw [hred]
    exact hswept.held k es hk
  unfold applyReport at hrun
  dsimp only at hrun
  split_ifs at hrun
  · cases hrun
    exact snd.answers_settle hset
  · obtain ⟨st, hst, hsettle⟩ := returns_of_bind hrun
    cases hsettle
    apply snd.answers_settle
    apply hset.trans
    apply sendRemainingSegments_succeeds r.serialNumber _ hst
    intro q hq old hold
    have hk := ((mem_retransmit hm r).mp hq).1
    have hsame := hswept.held _ _ hold
    rw [Option.some.inj (hsame.symm.trans hk)]

theorem processRs_answers (hm : Outgoing s.redSegments) (hactive : snd.state = .active s)
    (hrun : processRs snd r = .ok snd') : snd.Answers s snd' := by
  unfold processRs at hrun
  rw [hactive] at hrun
  dsimp only at hrun
  split_ifs at hrun with hwhole
  · cases hrun
    simp only [claimsWholeSession, Bool.and_eq_true] at hwhole
    exact (snd.acknowledge r).answers_completed (.refl s) hwhole.1.1.1
  · cases hrun
    exact ⟨s, .refl s, Or.inl ⟨hactive, rfl⟩⟩
  · have hanswers : (snd.acknowledge r).Answers s snd' := applyReport_answers hm hrun
    exact hanswers

/-! ## The other events -/

variable {x y : Outbound} {p : SegmentationParams} {retranRetries : ℕ}

/-- An event that cuts nothing off the block and reports nothing. -/
structure Quiet (x y : Outbound) : Prop where
  offset : y.sessionOffset = x.sessionOffset
  lastSeg : y.lastSeg = x.lastSeg
  transmitted : y.sender.transmitted = x.sender.transmitted
  session : ∀ t, y.sender.state = .active t → ∃ s, x.sender.state = .active s ∧ Succeeds s t

theorem Quiet.refl (x : Outbound) : Quiet x x := ⟨rfl, rfl, rfl, fun t ht => ⟨t, ht, .refl t⟩⟩

theorem Quiet.onActive {f : LTPSession → Outbound}
    (hf : ∀ s, x.sender.state = .active s → Quiet x (f s)) : Quiet x (x.onActive f) := by
  unfold Outbound.onActive
  cases hs : x.sender.state with
  | active s => exact hf s hs
  | closed cancelled => exact .refl x
  | unknown => exact .refl x

theorem Quiet.withState {state : SenderState} (hstate : ∀ s, state ≠ .active s) :
    Quiet x (x.withState state) :=
  ⟨rfl, rfl, rfl, fun t ht => absurd ht (hstate t)⟩

/-- The sender is another one, and its session comes from the one that there was. -/
theorem Quiet.withSender (hs : x.sender.state = .active s)
    (htransmitted : snd.transmitted = x.sender.transmitted)
    (hsession : ∀ t, snd.state = .active t → Succeeds s t) : Quiet x (x.withSender snd) :=
  ⟨rfl, rfl, htransmitted, fun t ht => ⟨s, hs, hsession t ht⟩⟩

theorem transmitted_buildCsSegment (snd : Sender) (s : LTPSession) (reasonCode : ℕ) :
    (snd.buildCsSegment s reasonCode).transmitted = snd.transmitted := by
  unfold Sender.buildCsSegment
  split_ifs <;> rfl

theorem Quiet.buildCsSegment (hs : x.sender.state = .active s) (h : Succeeds s t) (reasonCode : ℕ) :
    Quiet x (x.withSender (x.sender.buildCsSegment t reasonCode)) := by
  apply Quiet.withSender hs (transmitted_buildCsSegment ..)
  intro u hu
  exact h.trans (.buildCsSegment hu)

theorem Quiet.dataSegTimeout (hs : x.sender.state = .active s) (k : ℕ) :
    Quiet x (x.withSender (x.sender.dataSegTimeout retranRetries s k)) := by
  have hsame : Quiet x (x.withSender x.sender) := .refl x
  unfold Sender.dataSegTimeout
  cases hk : s.redSegments.find? k with
  | none => exact hsame
  | some ds =>
    dsimp only
    split_ifs with hidle hretries
    · exact hsame
    · refine Quiet.withSender hs ?_ fun t ht => ?_
      · rfl
      cases ht
      have hput : Succeeds s (s.putSegment k
          ({ ds with retransRetries := ds.retransRetries + 1 } : LTPDataSegment).setQueuedToSend) := by
        apply Succeeds.putSegment
        intro old hold
        cases hk.symm.trans hold
        rfl
      refine ⟨hput.origin, hput.expected, hput.complete, fun hc => (by cases hc), fun hc => ?_,
        hput.bundles⟩
      simp [hc] at hidle
    · apply Quiet.buildCsSegment hs
      apply Succeeds.putSegment
      intro old hold
      cases hk.symm.trans hold
      rfl

theorem Quiet.forceCancelBySender (hs : x.sender.state = .active s) (k : ℕ) :
    Quiet x (x.withSender (x.sender.forceCancelBySender s k)) := by
  unfold Sender.forceCancelBySender
  cases hk : s.redSegments.find? k with
  | none => exact .buildCsSegment hs (.refl s) _
  | some ds =>
    apply Quiet.buildCsSegment hs
    apply Succeeds.putSegment
    intro old hold
    cases hk.symm.trans hold
    rfl

theorem Quiet.transmit (hs : x.sender.state = .active s) (k : ℕ) :
    Quiet x (x.withSender (x.sender.transmit s k)) := by
  refine Quiet.withSender hs ?_ fun t ht => ?_
  · rfl
  cases ht
  cases hk : s.redSegments.find? k with
  | none => exact .refl s
  | some ds =>
    dsimp only
    split_ifs
    · exact .refl s
    · apply Succeeds.putSegment
      intro old hold
      cases hk.symm.trans hold
      rfl

/-- All events but new segments and reports are of this kind. -/
theorem outboundStep_quiet {e : SenderEvent} (hreport : ∀ r, e ≠ .report r)
    (hsegment : ∀ part h c l, e ≠ .segment part h c l)
    (hrun : outboundStep p retranRetries x e = .ok y) : Quiet x y := by
  cases e with
  | segment part hlen isCheckpoint lastSeg => exact absurd rfl (hsegment _ _ _ _)
  | report r => exact absurd rfl (hreport r)
  | cancelByReceiver =>
    cases hrun
    exact .onActive fun _ _ => .withState (by simp)
  | cancelAcknowledged =>
    cases hrun
    exact .onActive fun _ _ => .withState (by simp)
  | transmit k =>
    cases hrun
    exact .onActive fun s hs => .transmit hs k
  | dataSegTimeout k =>
    cases hrun
    exact .onActive fun s hs => .dataSegTimeout hs k
  | cancelSegTimeout retriesExceeded =>
    cases hrun
    apply Quiet.onActive
    intro s hs
    split_ifs
    · exact .withState (by simp)
    · exact .refl x
  | forceCancelBySender k =>
    cases hrun
    exact .onActive fun s hs => .forceCancelBySender hs k
  | startShutdown =>
    cases hrun
    have hdown (z : Outbound) : Quiet z (z.onActive fun s =>
        z.withSender (z.sender.cancelAllSessions s)) := by
      apply Quiet.onActive
      intro s hs
      unfold Sender.cancelAllSessions
      split_ifs
      · exact .buildCsSegment hs (.refl s) _
      · exact .refl z
    obtain ⟨hoffset, hlast, htransmitted, hsession⟩ :=
      hdown (x.withSender { x.sender with startShuttingDown := true })
    exact ⟨hoffset, hlast, htransmitted, hsession⟩
  | closeoutTimeout =>
    cases hrun
    unfold Outbound.closeout
    split
    · exact .withState (by simp)
    · exact .refl x

/-! ## Reports as they arrive -/

variable {R R' : Set ℕ} {rs : LTPReportSegment}

/-- A report as it comes out of the decoder, with its claims. -/
def LTPReportSegment.arrival (rs : LTPReportSegment) : ReceivedReport where
  seg := rs.received
  claims := rs.claims.values.map (·.relative rs.lowerBounds)
  claims_eq := by
    rw [claimMap, List.foldl_map]
    rfl
  claimedBytes_eq := by
    rw [claimTotal, List.foldl_map]
    rfl

theorem SoundReport.claim (h : SoundReport R rs) {rc : LTPReportClaim} (hrc : rc ∈ rs.claims.values) :
    rs.lowerBounds ≤ rc.offset ∧ Backed R rc.offset rc.length := by
  obtain ⟨⟨k, rc'⟩, hmem, rfl⟩ := List.mem_map.mp hrc
  obtain ⟨hoff, hlow, hback⟩ := h k rc' (OrdMap.find?_eq_some_iff.mpr hmem)
  dsimp only at hoff ⊢
  rw [hoff]
  exact ⟨hlow, hback⟩

/-- The claims of a sound report are claimed where they were received. -/
theorem SoundReport.claimed_subset (h : SoundReport R rs) : rs.arrival.claimed ⊆ R := by
  rintro b ⟨rc, hrc, hlo, hhi⟩
  obtain ⟨rc', hrc', rfl⟩ := List.mem_map.mp hrc
  obtain ⟨hlow, hback⟩ := h.claim hrc'
  have hlower : rs.arrival.seg.lowerBounds = rs.lowerBounds := rfl
  rw [hlower] at hlo hhi
  simp only [LTPReportClaim.relative] at hlo hhi
  exact hback.received b (by omega) (by omega)

theorem SoundReport.values (h : SoundReport R rs) :
    rs.arrival.seg.claims.values = rs.claims.values.map (·.relative rs.lowerBounds) := by
  apply values_relativeClaims
  · rw [OrdMap.values, List.pairwise_map]
    refine rs.claims.sorted.imp_of_mem fun {q q'} hq hq' hlt => ?_
    have hoff := (h q.1 q.2 (OrdMap.find?_eq_some_iff.mpr hq)).1
    have hoff' := (h q'.1 q'.2 (OrdMap.find?_eq_some_iff.mpr hq')).1
    omega
  · exact fun rc hrc => (h.claim hrc).1

/-- A single claim of all the bytes that the block has is one from the first byte on. -/
theorem SoundReport.whole (h : SoundReport R rs) (hR : ∀ b ∈ R, b < s.expectedRedBytes)
    (hpos : 0 < s.expectedRedBytes) (hwhole : claimsWholeSession s rs.arrival.seg = true) :
    ∃ rc ∈ rs.arrival.claims, rc.offset = 0 ∧ s.expectedRedBytes ≤ rc.length := by
  simp only [claimsWholeSession, Bool.and_eq_true, beq_iff_eq] at hwhole
  obtain ⟨⟨⟨-, hlower⟩, hsize⟩, hbytes⟩ := hwhole
  have hvalues := h.values
  obtain ⟨rc, hone⟩ : ∃ rc, rs.claims.values = [rc] := by
    apply List.length_eq_one_iff.mp
    have hlen := congrArg List.length hvalues
    rw [List.length_map] at hlen
    rw [← hlen, OrdMap.values, List.length_map]
    exact hsize
  have hmem : rc ∈ rs.claims.values := by simp [hone]
  obtain ⟨-, hback⟩ := h.claim hmem
  have hword := hback.word
  have hlt : rc.length < 2 ^ 64 := by omega
  have hlength : rc.length = s.expectedRedBytes := by
    rw [← hbytes]
    simp [LTPReportSegment.arrival, LTPReportSegment.received, hone, u64_of_lt hlt]
  have hlast := hR _ (hback.received (rc.offset + rc.length - 1) (by omega) (by omega))
  refine ⟨rc.relative rs.lowerBounds, by simp [LTPReportSegment.arrival, hone], ?_, hlength.ge⟩
  simp only [LTPReportClaim.relative]
  omega

/-- A sound report that the sender takes without a fault reaches none of its flaws. -/
theorem SoundReport.harmless (h : SoundReport R rs) (hm : Outgoing s.redSegments)
    (hactive : snd.state = .active s) (hlive : s.isLtpCancelled = false)
    (hR : ∀ b ∈ R, b < s.expectedRedBytes) (hpos : s.redComplete = true → 0 < s.expectedRedBytes)
    (hrun : processRs snd rs.arrival.seg = .ok snd') : Harmless snd s rs.arrival := by
  constructor
  · intro hwhole
    have hcomplete : s.redComplete = true := by
      simp only [claimsWholeSession, Bool.and_eq_true] at hwhole
      exact hwhole.1.1.1
    exact h.whole hR (hpos hcomplete) hwhole
  · exact fun _ => hlive
  · rintro - rc hrc ⟨hwraps, -⟩
    rw [h.values] at hrc
    obtain ⟨rc', hrc', rfl⟩ := List.mem_map.mp hrc
    obtain ⟨hlow, hback⟩ := h.claim hrc'
    have hword := hback.word
    have hlower : rs.arrival.seg.lowerBounds = rs.lowerBounds := rfl
    rw [hlower] at hwraps
    simp only [LTPReportClaim.relative] at hwraps
    omega
  · intro happlies
    unfold processRs at hrun
    rw [hactive] at hrun
    dsimp only at hrun
    rw [if_neg (by simp [happlies.1]), if_neg (not_lt.mpr happlies.2)] at hrun
    exact (applyReport_isOk_iff (snd.acknowledge rs.arrival.seg) hm rs.arrival.seg).mp ⟨snd', hrun⟩

end Dtnme.Ltp
