import Dtnme.ConvLayers.InFlightRuns

/-! # Closing a contact

`close_contact` puts the bundles in flight back on the link's queue or reports what was sent of them. Its
byte counts are 32-bit numbers, and it looks for a report that was posted before only if it is about to
report itself.
-/

namespace Dtnme.ConvLayers
open Library Bundling Routing DataBitmap

namespace Sender

def sentBytes (r : InFlightBundle) : UInt32 := r.sentData.numContiguous.toUInt32

def ackedBytes (r : InFlightBundle) : UInt32 := r.ackData.numContiguous.toUInt32

/-- Whether `close_contact` pushes the bundle back onto the link's queue. -/
def requeues (params : SenderParams) (r : InFlightBundle) : Bool :=
  !params.reactiveFragEnabled || sentBytes r = 0 || (params.reliable && ackedBytes r = 0)

def partialEvent (r : InFlightBundle) : TransmittedEvent :=
  ⟨r.transferId, r.bundle, (sentBytes r).toUInt64, (ackedBytes r).toUInt64, true, false⟩

/-- What `close_contact` does with one bundle in flight. -/
def closeInflight (s : Sender) (r : InFlightBundle) : Sender :=
  if requeues s.params r then
    if (delFromInflight s.link r.bundle).1 then
      { s with
        link := ((delFromInflight s.link r.bundle).2.addToQueue s.params.clearWhenUnavailable r.bundle).2 }
    else s
  else if r.transmitEventPosted then s
  else s.post (partialEvent r)

/-- `ConnectionConvergenceLayer::close_contact`, the bundles in flight. -/
def closeContact (s : Sender) : Sender :=
  { s.inflight.foldl closeInflight s with inflight := [], currentInflight := none, contactBroken := true }

/-! ## What becomes of the bundles -/

/-- The transmission was reported as complete. -/
def Reported (s : Sender) (r : InFlightBundle) : Prop := ∃ e ∈ s.events, e.transferId = r.transferId

/-- A report of what was sent and acknowledged of a bundle without a gap. -/
def PartlySent (r : InFlightBundle) (e : TransmittedEvent) : Prop :=
  e.transferId = r.transferId ∧ e.bundle = r.bundle ∧ Contiguous r.sentData e.bytesSent ∧
    Contiguous r.ackData e.reliablySent ∧ e.success = true ∧ e.blocksDeleted = false

/-- Nothing is left in flight. A bundle that was reported is neither put back on the queue nor reported
again; every other one is either put back, once, or reported, once, as partly sent. -/
def Disposed (s s' : Sender) : Prop :=
  s'.inflight = [] ∧ ∃ requeued reports,
    s'.link.queue = s.link.queue ++ requeued ∧ s'.events = s.events ++ reports ∧
    requeued.Nodup ∧ (reports.map TransmittedEvent.transferId).Nodup ∧
    ∀ r ∈ s.inflight,
      (Reported s r → r.bundle ∉ requeued ∧ ∀ e ∈ reports, e.transferId ≠ r.transferId) ∧
      (¬ Reported s r →
        (r.bundle ∈ requeued ∧ ∀ e ∈ reports, e.transferId ≠ r.transferId) ∨
        (r.bundle ∉ requeued ∧ ∃ e ∈ reports, PartlySent r e))

/-- Reactive fragmentation is on, and neither the bytes sent nor, on a reliable link, those
acknowledged are a multiple of 2^32. -/
def Fragments (params : SenderParams) (r : InFlightBundle) : Prop :=
  params.reactiveFragEnabled = true ∧ ¬ 2 ^ 32 ∣ r.sentData.numContiguous.toNat ∧
    (params.reliable = true → ¬ 2 ^ 32 ∣ r.ackData.numContiguous.toNat)

/-- A bundle that is fragmented and was not reported is shorter than 2^32 bytes as far as it was sent
and acknowledged, and the report of any other one was handled if there was one. -/
def ClosesWell (s : Sender) : Prop :=
  ∀ r ∈ s.inflight,
    (Fragments s.params r → r.transmitEventPosted = false →
      r.sentData.numContiguous.toNat < 2 ^ 32 ∧ r.ackData.numContiguous.toNat < 2 ^ 32) ∧
    (¬ Fragments s.params r → r.transmitEventPosted = true → r.bundle ∉ s.link.inflight)

theorem toUInt32_eq_zero_iff (n : UInt64) : n.toUInt32 = 0 ↔ 2 ^ 32 ∣ n.toNat := by
  rw [← UInt32.toNat_inj, UInt64.toNat_toUInt32, Nat.dvd_iff_mod_eq_zero]
  rfl

theorem requeues_iff (params : SenderParams) (r : InFlightBundle) :
    requeues params r = true ↔ ¬ Fragments params r := by
  unfold requeues Fragments sentBytes ackedBytes
  simp only [Bool.or_eq_true, Bool.and_eq_true, Bool.not_eq_true', decide_eq_true_eq,
    toUInt32_eq_zero_iff]
  cases params.reactiveFragEnabled <;> cases params.reliable
  · simp
  · simp
  · simp
  · simp only [Bool.true_eq_false, false_or, true_and, forall_const, not_and_or, not_not]

/-- The 32-bit number is the count. -/
theorem toUInt32_toUInt64_iff (n : UInt64) : n.toUInt32.toUInt64 = n ↔ n.toNat < 2 ^ 32 := by
  rw [← UInt64.toNat_inj, UInt32.toNat_toUInt64, UInt64.toNat_toUInt32]
  exact ⟨fun h => h ▸ Nat.mod_lt _ (by norm_num), Nat.mod_eq_of_lt⟩

def requeued (s : Sender) (l : List InFlightBundle) : List ℕ :=
  (l.filter (fun r => requeues s.params r && decide (r.bundle ∈ s.link.inflight))).map
    InFlightBundle.bundle

def reports (s : Sender) (l : List InFlightBundle) : List TransmittedEvent :=
  (l.filter (fun r => !requeues s.params r && !r.transmitEventPosted)).map partialEvent

theorem closeLoop {l : List InFlightBundle} : ∀ {s : Sender}, s.link.state ≠ .unavailable →
    (l.map InFlightBundle.bundle).Nodup →
    (∀ r ∈ l, r.bundle ∈ s.link.inflight → r.bundle ∉ s.link.queue) →
    (l.foldl closeInflight s).link.queue = s.link.queue ++ s.requeued l ∧
      (l.foldl closeInflight s).events = s.events ++ s.reports l := by
  induction l with
  | nil => simp [requeued, reports]
  | cons r l ih =>
    intro s havailable hnodup hdisjoint
    rw [List.map_cons, List.nodup_cons] at hnodup
    have hne : ∀ q ∈ l, q.bundle ≠ r.bundle :=
      fun q hq he => hnodup.1 (he ▸ List.mem_map_of_mem hq)
    rw [List.foldl_cons]
    by_cases hre : requeues s.params r = true
    · by_cases hmem : r.bundle ∈ s.link.inflight
      · -- the bundle goes from the one list to the other
        have hopen : ({ s.link with inflight := s.link.inflight.erase r.bundle } : Link).clearsBundles
            s.params.clearWhenUnavailable = false := by
          simp [Link.clearsBundles, havailable]
        have hqueue := hdisjoint r List.mem_cons_self hmem
        have hclose : s.closeInflight r = { s with link := { s.link with
            inflight := s.link.inflight.erase r.bundle
            queue := s.link.queue ++ [r.bundle]
            bundlesQueued := s.link.bundlesQueued + 1 } } := by
          simp [closeInflight, hre, delFromInflight, hmem, Link.addToQueue, hopen, hqueue]
        rw [hclose]
        obtain ⟨hq, he⟩ := ih (s := { s with link := { s.link with
            inflight := s.link.inflight.erase r.bundle
            queue := s.link.queue ++ [r.bundle]
            bundlesQueued := s.link.bundlesQueued + 1 } }) havailable hnodup.2 (fun q hq hm => by
          have := hdisjoint q (List.mem_cons_of_mem _ hq) (List.mem_of_mem_erase hm)
          simp [this, hne q hq])
        have hsame : ∀ q ∈ l, q.bundle ∈ s.link.inflight.erase r.bundle ↔ q.bundle ∈ s.link.inflight :=
          fun q hq => List.mem_erase_of_ne (hne q hq)
        rw [hq, he]
        constructor
        · simp only [requeued, List.filter_cons, hre, hmem, decide_true, Bool.and_self, if_true,
            List.map_cons, List.append_assoc, List.singleton_append]
          congr 3
          exact List.filter_congr (fun q hq => by rw [decide_eq_decide.mpr (hsame q hq)])
        · simp [reports, hre]
      · have hclose : s.closeInflight r = s := by
          simp [closeInflight, hre, delFromInflight, hmem]
        rw [hclose]
        obtain ⟨hq, he⟩ := ih havailable hnodup.2
          (fun q hq => hdisjoint q (List.mem_cons_of_mem _ hq))
        rw [hq, he]
        simp [requeued, reports, hre, hmem]
    · by_cases hp : r.transmitEventPosted = true
      · have hclose : s.closeInflight r = s := by
          simp [closeInflight, hre, hp]
        rw [hclose]
        obtain ⟨hq, he⟩ := ih havailable hnodup.2
          (fun q hq => hdisjoint q (List.mem_cons_of_mem _ hq))
        rw [hq, he]
        simp [requeued, reports, hre, hp]
      · have hclose : s.closeInflight r = s.post (partialEvent r) := by
          simp [closeInflight, hre, hp]
        rw [hclose]
        obtain ⟨hq, he⟩ := ih (s := s.post (partialEvent r)) havailable hnodup.2
          (fun q hq => hdisjoint q (List.mem_cons_of_mem _ hq))
        have hkeep : (s.post (partialEvent r)).requeued l = s.requeued l := rfl
        have hkeep' : (s.post (partialEvent r)).reports l = s.reports l := rfl
        rw [hq, he, hkeep, hkeep']
        simp [requeued, reports, hre, hp, Sender.post]

/-- The report of a record carries the true counts if they are 32-bit numbers. -/
theorem partlySent_partialEvent_iff {s : Sender} {r : InFlightBundle} (h : Ok s r) :
    PartlySent r (partialEvent r) ↔
      r.sentData.numContiguous.toNat < 2 ^ 32 ∧ r.ackData.numContiguous.toNat < 2 ^ 32 := by
  have hsent : Contiguous r.sentData r.sentData.numContiguous := by
    conv_lhs => rw [h.sent]
    exact contiguous_upTo _
  have hack : Contiguous r.ackData r.ackData.numContiguous := by
    conv_lhs => rw [h.acked]
    exact contiguous_upTo _
  rw [← toUInt32_toUInt64_iff, ← toUInt32_toUInt64_iff]
  constructor
  · rintro ⟨-, -, hs, ha, -, -⟩
    exact ⟨hs.unique hsent, ha.unique hack⟩
  · rintro ⟨hs, ha⟩
    refine ⟨rfl, rfl, ?_, ?_, rfl, rfl⟩
    · rw [partialEvent, sentBytes, hs]
      exact hsent
    · rw [partialEvent, ackedBytes, ha]
      exact hack

theorem Inv.mem_requeued {s : Sender} (h : Inv s) {r : InFlightBundle} (hr : r ∈ s.inflight) :
    r.bundle ∈ s.requeued s.inflight ↔ ¬ Fragments s.params r ∧ r.bundle ∈ s.link.inflight := by
  rw [← requeues_iff]
  unfold requeued
  simp only [List.mem_map, List.mem_filter, Bool.and_eq_true, decide_eq_true_eq]
  constructor
  · rintro ⟨q, ⟨hq, hre, hm⟩, he⟩
    obtain rfl := List.inj_on_of_nodup_map h.bundles hq hr he
    exact ⟨hre, hm⟩
  · exact fun ⟨hre, hm⟩ => ⟨r, ⟨hr, hre, hm⟩, rfl⟩

theorem Inv.mem_reports {s : Sender} (h : Inv s) {r : InFlightBundle} (hr : r ∈ s.inflight)
    {e : TransmittedEvent} (he : e.transferId = r.transferId) :
    e ∈ s.reports s.inflight ↔
      Fragments s.params r ∧ r.transmitEventPosted = false ∧ e = partialEvent r := by
  have hre : requeues s.params r = false ↔ Fragments s.params r := by
    rw [← Bool.not_eq_true, requeues_iff, not_not]
  rw [← hre]
  unfold reports
  simp only [List.mem_map, List.mem_filter, Bool.and_eq_true, Bool.not_eq_true']
  constructor
  · rintro ⟨q, ⟨hq, hstays, hp⟩, rfl⟩
    obtain rfl := h.eq_of_id hq hr he
    exact ⟨hstays, hp, rfl⟩
  · rintro ⟨hstays, hp, rfl⟩
    exact ⟨r, ⟨hr, hstays, hp⟩, rfl⟩

theorem Inv.closeContact_eq {s : Sender} (h : Inv s) :
    s.closeContact.link.queue = s.link.queue ++ s.requeued s.inflight ∧
      s.closeContact.events = s.events ++ s.reports s.inflight :=
  closeLoop h.available h.bundles (fun _ _ hm hq => h.disjoint _ hq hm)

/-- The records meet the condition if and only if each is disposed of as it should be. -/
theorem Good.disposed_iff {s : Sender} (h : Good s) : Disposed s s.closeContact ↔ ClosesWell s := by
  obtain ⟨hqueue, hevents⟩ := h.toInv.closeContact_eq
  have hreported : ∀ r ∈ s.inflight, Reported s r ↔ r.transmitEventPosted = true :=
    fun r hr => (h.ok r hr).reported.symm
  constructor
  · rintro ⟨-, requeued', reports', hq, he, -, -, hall⟩
    obtain rfl := List.append_cancel_left (hqueue.symm.trans hq)
    obtain rfl := List.append_cancel_left (hevents.symm.trans he)
    refine fun r hr => ⟨fun hfrag hp => ?_, fun hfrag hp hmem => ?_⟩
    · have hno : ¬ Reported s r := by simp [hreported r hr, hp]
      rcases (hall r hr).2 hno with ⟨hm, -⟩ | ⟨-, e, he, hpart⟩
      · exact absurd hfrag ((h.toInv.mem_requeued hr).mp hm).1
      · obtain ⟨-, -, rfl⟩ := (h.toInv.mem_reports hr hpart.1).mp he
        exact (partlySent_partialEvent_iff (h.ok r hr)).mp hpart
    · exact ((hall r hr).1 ((hreported r hr).mpr hp)).1 ((h.toInv.mem_requeued hr).mpr ⟨hfrag, hmem⟩)
  · intro hwell
    refine ⟨rfl, _, _, hqueue, hevents, ?_, ?_, fun r hr => ⟨fun hrep => ⟨?_, ?_⟩, fun hrep => ?_⟩⟩
    · exact h.bundles.sublist (List.filter_sublist.map _)
    · rw [reports, List.map_map]
      exact h.ids.sublist (List.filter_sublist.map _)
    · rw [h.toInv.mem_requeued hr]
      rintro ⟨hfrag, hmem⟩
      exact (hwell r hr).2 hfrag ((hreported r hr).mp hrep) hmem
    · intro e he hid
      have hp := ((h.toInv.mem_reports hr hid).mp he).2.1
      rw [hreported r hr, hp] at hrep
      cases hrep
    · have hp : r.transmitEventPosted = false := by simpa [hreported r hr] using hrep
      by_cases hfrag : Fragments s.params r
      · refine .inr ⟨fun hm => ((h.toInv.mem_requeued hr).mp hm).1 hfrag, partialEvent r, ?_, ?_⟩
        · exact (h.toInv.mem_reports hr rfl).mpr ⟨hfrag, hp, rfl⟩
        · exact (partlySent_partialEvent_iff (h.ok r hr)).mpr ((hwell r hr).1 hfrag hp)
      · refine .inl ⟨(h.toInv.mem_requeued hr).mpr ⟨hfrag, ((h.ok r hr).live hp).1⟩, fun e he hid => ?_⟩
        exact hfrag ((h.toInv.mem_reports hr hid).mp he).1

/-- After any run in which no final acknowledgement is repeated, closing the contact disposes of each
bundle in exactly one way if and only if the condition holds. -/
theorem closeContact_disposed_iff {s t : Sender} (h : Opened s) {ops : List Op}
    (hops : Meets step AckedOnce s ops) (ht : run step s ops = .ok t) :
    Disposed t t.closeContact ↔ ClosesWell t :=
  (good_run h.good hops ht).disposed_iff

instance (params : SenderParams) (r : InFlightBundle) : Decidable (Fragments params r) := by
  unfold Fragments
  infer_instance

instance (s : Sender) : Decidable (ClosesWell s) := by
  unfold ClosesWell
  infer_instance

/-- A link on whose queue two bundles wait. -/
def twoQueued : Link := { name := [], state := .opened, queue := [1, 2], bundlesQueued := 2 }

theorem opened_twoQueued (params : SenderParams) :
    Opened { params := params, link := twoQueued } where
  inflight := rfl
  events := rfl
  counted := ⟨by simp [twoQueued], rfl⟩
  available := by simp [twoQueued]
  disjoint := by simp [twoQueued]
  pendingNodup := List.nodup_nil
  pendingMem := by simp

/-- The first bundle is sent and acknowledged, the second one is sent and acknowledged in part. -/
theorem closeContact_disposed_iff_two :
    ∃ t, run step { params := {}, link := twoQueued }
      [.sendPendingData { blocks := some 100 } 1000 [1000], .sendPendingData { blocks := none } 1000 [],
        .handleAckSegment 0 100, .handleBundleTransmitted,
        .sendPendingData { blocks := some 5000 } 1000 [1000], .handleAckSegment 1 900] = .ok t ∧
      (Disposed t t.closeContact ↔ ClosesWell t) := by
  obtain ⟨t, ht⟩ : ∃ t, run step { params := {}, link := twoQueued }
      [.sendPendingData { blocks := some 100 } 1000 [1000], .sendPendingData { blocks := none } 1000 [],
        .handleAckSegment 0 100, .handleBundleTransmitted,
        .sendPendingData { blocks := some 5000 } 1000 [1000], .handleAckSegment 1 900] = .ok t :=
    ⟨_, rfl⟩
  exact ⟨t, ht, closeContact_disposed_iff (opened_twoQueued {}) (by decide +kernel) ht⟩

/-- Without reactive fragmentation, a bundle that was sent, acknowledged and reported is put back on the
queue if the daemon has not handled the report and `finish_bundle` was not called. -/
theorem sent_bundle_requeued :
    Opened { params := { reactiveFragEnabled := false }, link := twoQueued } ∧
    ∃ t, run step { params := { reactiveFragEnabled := false }, link := twoQueued }
      [.sendPendingData { blocks := some 100 } 1000 [1000], .handleAckSegment 0 100] = .ok t ∧
      ¬ Disposed t t.closeContact := by
  have hops : Meets step AckedOnce { params := { reactiveFragEnabled := false }, link := twoQueued }
      [.sendPendingData { blocks := some 100 } 1000 [1000], .handleAckSegment 0 100] := by
    decide +kernel
  refine ⟨opened_twoQueued _, _, rfl, ?_⟩
  rw [(good_run (opened_twoQueued _).good hops rfl).disposed_iff]
  decide +kernel

-- the counts of a longer bundle are cut to 32 bits
example : (run step { params := { segmentLength := 10000000000 }, link := twoQueued }
    [.sendPendingData { blocks := some 5000000000 } 1000 [5000000000],
      .handleAckSegment 0 4500000000]).toOption.map (fun t => t.closeContact.events) =
      some [⟨0, 1, 5000000000 - 2 ^ 32, 4500000000 - 2 ^ 32, true, false⟩] := by
  decide +kernel

end Sender

end Dtnme.ConvLayers
