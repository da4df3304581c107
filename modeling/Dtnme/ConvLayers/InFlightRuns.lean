import Dtnme.ConvLayers.InFlight

/-! # Runs of a sender

What holds of the bundles in flight, whatever is sent, acknowledged, refused and cancelled: each is
reported at most once, and until then the link has it in flight.
-/

namespace Dtnme.ConvLayers
open Library Bundling Routing DataBitmap

namespace Sender

/-! ## The invariant -/

/-- What holds of a record: it was reported if its flag says so, and then all of it was acknowledged;
otherwise the link has the bundle in flight. Its bitmaps are filled from the beginning, and the segment
in progress fits into the bundle. -/
structure Ok (s : Sender) (r : InFlightBundle) : Prop where
  lt : r.transferId < s.senderTransferId
  reported : r.transmitEventPosted = true ↔ ∃ e ∈ s.events, e.transferId = r.transferId
  live : r.transmitEventPosted = false → r.bundle ∈ s.link.inflight ∧ r.bundle ∉ s.pending
  ackedAll : r.transmitEventPosted = true → r.totalLength ≤ r.ackData.numContiguous
  acked : r.ackData = upTo r.ackData.numContiguous
  sent : r.sentData = upTo r.sentData.numContiguous
  sentLen : r.sentData.numContiguous.toNat +
    (if s.currentInflight = some r.transferId then s.sendSegmentTodo.toNat else 0) ≤ r.totalLength.toNat

structure Inv (s : Sender) : Prop where
  counted : s.link.Counted
  available : s.link.state ≠ .unavailable
  disjoint : ∀ b ∈ s.link.queue, b ∉ s.link.inflight
  pendingNodup : s.pending.Nodup
  pendingMem : ∀ b ∈ s.pending, b ∈ s.link.inflight
  eventsLt : ∀ e ∈ s.events, e.transferId < s.senderTransferId
  bundles : (s.inflight.map InFlightBundle.bundle).Nodup
  ids : (s.inflight.map InFlightBundle.transferId).Nodup
  ok : ∀ r ∈ s.inflight, Ok s r

/-- Only the current record can have been reported. -/
def PostedCurrent (s : Sender) : Prop :=
  ∀ r ∈ s.inflight, r.transmitEventPosted = true → s.currentInflight = some r.transferId

theorem find_mem {s : Sender} {transferId : ℕ} {r : InFlightBundle} (h : s.find transferId = some r) :
    r ∈ s.inflight ∧ r.transferId = transferId :=
  ⟨List.mem_of_find?_eq_some h, by simpa using List.find?_some h⟩

theorem Inv.eq_of_id {s : Sender} (h : Inv s) {r q : InFlightBundle} (hr : r ∈ s.inflight)
    (hq : q ∈ s.inflight) (he : r.transferId = q.transferId) : r = q :=
  List.inj_on_of_nodup_map h.ids hr hq he

theorem Inv.bundle_ne {s : Sender} (h : Inv s) {r q : InFlightBundle} (hr : r ∈ s.inflight)
    (hq : q ∈ s.inflight) (hne : r.transferId ≠ q.transferId) : r.bundle ≠ q.bundle :=
  fun he => hne (congrArg _ (List.inj_on_of_nodup_map h.bundles hr hq he))

/-- The records after one got a new value. -/
theorem mem_setRecord {s : Sender} {r q : InFlightBundle} (h : q ∈ (s.setRecord r).inflight) :
    q = r ∨ (q ∈ s.inflight ∧ q.transferId ≠ r.transferId) := by
  obtain ⟨p, hp, rfl⟩ := List.mem_map.mp h
  by_cases hid : p.transferId = r.transferId
  · simp [hid]
  · simp [hid, hp]

theorem Inv.map_setRecord {s : Sender} (h : Inv s) {r : InFlightBundle} (r' : InFlightBundle)
    (hr : r ∈ s.inflight) (hid : r'.transferId = r.transferId) {α : Type} (f : InFlightBundle → α) (hf : f r' = f r) :
    (s.setRecord r').inflight.map f = s.inflight.map f := by
  rw [setRecord, List.map_map]
  apply List.map_congr_left
  intro q hq
  by_cases he : q.transferId = r'.transferId
  · obtain rfl := h.eq_of_id hq hr (he.trans hid)
    simp [he, hf]
  · simp [he]

/-- A record gets a new value, and with it the segment in progress a new rest. -/
theorem Inv.setRecord {s : Sender} (h : Inv s) {r : InFlightBundle} (r' : InFlightBundle)
    (hr : r ∈ s.inflight) (hid : r'.transferId = r.transferId) (hb : r'.bundle = r.bundle) (todo : UInt64)
    (htodo : s.currentInflight = some r.transferId ∨ todo = s.sendSegmentTodo)
    (hok : Ok { s with sendSegmentTodo := todo } r') :
    Inv { s.setRecord r' with sendSegmentTodo := todo } where
  counted := h.counted
  available := h.available
  disjoint := h.disjoint
  pendingNodup := h.pendingNodup
  pendingMem := h.pendingMem
  eventsLt := h.eventsLt
  bundles := by
    rw [h.map_setRecord r' hr hid _ hb]
    exact h.bundles
  ids := by
    rw [h.map_setRecord r' hr hid _ hid]
    exact h.ids
  ok q hq := by
    rcases mem_setRecord hq with rfl | ⟨hq, hne⟩
    · exact ⟨hok.lt, hok.reported, hok.live, hok.ackedAll, hok.acked, hok.sent, hok.sentLen⟩
    · have hold := h.ok q hq
      refine ⟨hold.lt, hold.reported, hold.live, hold.ackedAll, hold.acked, hold.sent, ?_⟩
      rcases htodo with hcur | rfl
      · have hother : ¬ s.currentInflight = some q.transferId := by
          rw [hcur, hid] at *
          simpa using Ne.symm hne
        have hlen := hold.sentLen
        rw [if_neg hother] at hlen
        exact (if_neg hother).symm ▸ hlen
      · exact hold.sentLen

theorem Inv.sublist {s : Sender} (h : Inv s) {l : List InFlightBundle} (hl : l.Sublist s.inflight) :
    Inv { s with inflight := l } where
  counted := h.counted
  available := h.available
  disjoint := h.disjoint
  pendingNodup := h.pendingNodup
  pendingMem := h.pendingMem
  eventsLt := h.eventsLt
  bundles := h.bundles.sublist (hl.map _)
  ids := h.ids.sublist (hl.map _)
  ok q hq := by
    have hold := h.ok q (hl.subset hq)
    exact ⟨hold.lt, hold.reported, hold.live, hold.ackedAll, hold.acked, hold.sent, hold.sentLen⟩

theorem Inv.clearCurrent {s : Sender} (h : Inv s) : Inv { s with currentInflight := none } where
  counted := h.counted
  available := h.available
  disjoint := h.disjoint
  pendingNodup := h.pendingNodup
  pendingMem := h.pendingMem
  eventsLt := h.eventsLt
  bundles := h.bundles
  ids := h.ids
  ok q hq := by
    have hold := h.ok q hq
    refine ⟨hold.lt, hold.reported, hold.live, hold.ackedAll, hold.acked, hold.sent, ?_⟩
    have hlen := hold.sentLen
    simp only [reduceCtorEq, if_false]
    omega

/-- A report says nothing about the other records. -/
theorem Ok.post {s : Sender} {q : InFlightBundle} (h : Ok s q) {e : TransmittedEvent}
    (hid : e.transferId ≠ q.transferId) (hb : e.bundle ≠ q.bundle) : Ok (s.post e) q where
  lt := h.lt
  reported := by
    rw [h.reported]
    simp [Sender.post, hid]
  live hp := by
    refine ⟨(h.live hp).1, fun hm => ?_⟩
    rcases List.mem_append.mp hm with hm | hm
    · exact (h.live hp).2 hm
    · exact hb (List.mem_singleton.mp hm).symm
  ackedAll := h.ackedAll
  acked := h.acked
  sent := h.sent
  sentLen := h.sentLen

/-- A record is reported for the first time; it stays, marked, or goes. -/
theorem Inv.post {s : Sender} (h : Inv s) {r : InFlightBundle} (hr : r ∈ s.inflight)
    (hp : r.transmitEventPosted = false) {e : TransmittedEvent} (hid : e.transferId = r.transferId)
    (hb : e.bundle = r.bundle) {l : List InFlightBundle}
    (hbundles : (l.map InFlightBundle.bundle).Nodup) (hids : (l.map InFlightBundle.transferId).Nodup)
    (hl : ∀ q ∈ l, Ok (s.post e) q ∨ (q ∈ s.inflight ∧ q.transferId ≠ r.transferId)) :
    Inv { s.post e with inflight := l } where
  counted := h.counted
  available := h.available
  disjoint := h.disjoint
  pendingNodup := List.nodup_append.mpr ⟨h.pendingNodup, List.nodup_singleton _, by
    rintro a ha b hbs rfl
    rw [List.mem_singleton.mp hbs, hb] at ha
    exact ((h.ok r hr).live hp).2 ha⟩
  pendingMem b hm := by
    rcases List.mem_append.mp hm with hm | hm
    · exact h.pendingMem b hm
    · rw [List.mem_singleton.mp hm, hb]
      exact ((h.ok r hr).live hp).1
  eventsLt e' he' := by
    rcases List.mem_append.mp he' with he' | he'
    · exact h.eventsLt e' he'
    · rw [List.mem_singleton.mp he', hid]
      exact (h.ok r hr).lt
  bundles := hbundles
  ids := hids
  ok q hq := by
    have hok : Ok (s.post e) q := by
      rcases hl q hq with hok | ⟨hq, hne⟩
      · exact hok
      · refine (h.ok q hq).post (by rw [hid]; exact Ne.symm hne) ?_
        rw [hb]
        exact h.bundle_ne hr hq (Ne.symm hne)
    exact ⟨hok.lt, hok.reported, hok.live, hok.ackedAll, hok.acked, hok.sent, hok.sentLen⟩

/-! ## Each operation keeps it -/

theorem of_require {c : Prop} [Decidable c] {u : Unit} (h : require c = .ok u) : c := by
  by_contra hc
  rw [require, if_neg hc] at h
  cases h

/-- The invariant between operations. -/
structure Good (s : Sender) : Prop extends Inv s where
  current : PostedCurrent s

theorem Inv.popReported {s : Sender} (h : Inv s) {r : InFlightBundle} (hr : r ∈ s.inflight)
    (hhead : s.inflight.head?.map InFlightBundle.transferId = some r.transferId) :
    Inv { s.reportCompleted r with inflight := (s.reportCompleted r).inflight.tail } ∧
      (∀ q ∈ (s.reportCompleted r).inflight.tail, q ∈ s.inflight ∧ q.transferId ≠ r.transferId) := by
  obtain ⟨l, hl⟩ : ∃ l, s.inflight = r :: l := by
    cases hs : s.inflight with
    | nil => simp [hs] at hr
    | cons q l =>
      rw [hs, List.head?_cons, Option.map_some, Option.some.injEq] at hhead
      exact ⟨l, by rw [h.eq_of_id hr (hs ▸ List.mem_cons_self) hhead.symm]⟩
  have hids := h.ids
  rw [hl, List.map_cons, List.nodup_cons] at hids
  have hne : ∀ q ∈ l, q.transferId ≠ r.transferId :=
    fun q hq he => hids.1 (he ▸ List.mem_map_of_mem hq)
  have hmem : ∀ q ∈ l, q ∈ s.inflight := fun q hq => hl ▸ List.mem_cons_of_mem _ hq
  have htail : (s.reportCompleted r).inflight.tail = l := by
    unfold reportCompleted
    split_ifs with hp
    · rw [hl, List.tail_cons]
    · change (s.inflight.map _).tail = l
      rw [hl, List.map_cons, List.tail_cons]
      exact (List.map_congr_left (fun q hq => if_neg (hne q hq))).trans (List.map_id' l)
  rw [htail]
  have hsub : l.Sublist s.inflight := hl ▸ List.sublist_cons_self _ _
  refine ⟨?_, fun q hq => ⟨hmem q hq, hne q hq⟩⟩
  unfold reportCompleted
  split_ifs with hp
  · exact h.sublist hsub
  · have hevent : (completedEvent r).transferId = r.transferId ∧ (completedEvent r).bundle = r.bundle := by
      unfold completedEvent
      split_ifs <;> exact ⟨rfl, rfl⟩
    exact h.post hr (by simpa using hp) hevent.1 hevent.2 (h.bundles.sublist (hsub.map _))
      (h.ids.sublist (hsub.map _)) (fun q hq => .inr ⟨hmem q hq, hne q hq⟩)

theorem Inv.checkCompleted {s t : Sender} (h : Inv s) {transferId : ℕ}
    (hp : ∀ r ∈ s.inflight, r.transmitEventPosted = true →
      s.currentInflight = some r.transferId ∨ r.transferId = transferId)
    (ht : s.checkCompleted transferId = .ok t) : Good t := by
  unfold Sender.checkCompleted at ht
  by_cases hcur : s.currentInflight = some transferId
  · rw [if_pos hcur] at ht
    cases ht
    exact ⟨h, fun r hr hpost => (hp r hr hpost).elim id (fun he => he ▸ hcur)⟩
  · rw [if_neg hcur] at ht
    cases hfind : s.find transferId with
    | none => simp [hfind] at ht
    | some r =>
      obtain ⟨hr, hid⟩ := find_mem hfind
      simp only [hfind] at ht
      by_cases hwait : s.params.segmentAckEnabled = true ∧ r.bundleRefused = false ∧
          r.ackData.numContiguous < r.totalLength
      · rw [if_pos hwait] at ht
        cases ht
        refine ⟨h, fun q hq hpost => (hp q hq hpost).elim id (fun he => ?_)⟩
        rw [h.eq_of_id hq hr (he.trans hid.symm)] at hpost
        exact absurd hwait.2.2 (UInt64.not_lt.mpr ((h.ok r hr).ackedAll hpost))
      · rw [if_neg hwait] at ht
        obtain ⟨_, hhead, hrest⟩ := of_bind_ok ht
        cases hrest
        have hhead' : s.inflight.head?.map InFlightBundle.transferId = some r.transferId := by
          rw [hid]
          exact of_require hhead
        obtain ⟨hinv, hmem⟩ := h.popReported hr hhead'
        refine ⟨hinv, fun q hq hpost => ?_⟩
        obtain ⟨hq, hne⟩ := hmem q hq
        have hkeep : (s.reportCompleted r).currentInflight = s.currentInflight := by
          unfold reportCompleted
          split_ifs <;> rfl
        exact hkeep.trans ((hp q hq hpost).resolve_right (fun he => hne (he.trans hid.symm)))

theorem Good.finishBundle {s t : Sender} (h : Good s) {r : InFlightBundle}
    (ht : s.finishBundle r = .ok t) : Good t := by
  obtain ⟨_, _, ht⟩ := of_bind_ok ht
  obtain ⟨_, hcur, ht⟩ := of_bind_ok ht
  refine h.toInv.clearCurrent.checkCompleted (fun q hq hp => .inr ?_) ht
  have := (h.current q hq hp).symm.trans (of_require hcur)
  exact Option.some.inj this

/-- The loop extends what was sent of the record and changes nothing else of it. -/
theorem sendLoop_spec {r r' : InFlightBundle} {todo todo' : UInt64} {tails : List UInt64}
    (hsent : r.sentData = upTo r.sentData.numContiguous)
    (hlen : r.sentData.numContiguous.toNat + todo.toNat ≤ r.totalLength.toNat)
    (h : sendLoop r todo tails = .ok (r', todo')) :
    (∃ sentData sendComplete, r' = { r with sentData := sentData, sendComplete := sendComplete }) ∧
      r'.sentData = upTo r'.sentData.numContiguous ∧
      r'.sentData.numContiguous.toNat + todo'.toNat ≤ r'.totalLength.toNat := by
  induction tails generalizing r todo with
  | nil =>
    cases h
    exact ⟨⟨_, _, rfl⟩, hsent, hlen⟩
  | cons tail tails ih =>
    rw [sendLoop] at h
    by_cases hstop : todo = 0 ∨ tail = 0
    · rw [if_pos hstop] at h
      cases h
      exact ⟨⟨_, _, rfl⟩, hsent, hlen⟩
    · rw [if_neg hstop] at h
      obtain ⟨htodo, htail⟩ := not_or.mp hstop
      set sendLen := if tail < todo then tail else todo with hdef
      set n := r.sentData.numContiguous
      have hne : sendLen ≠ 0 := by
        rw [hdef]
        split_ifs
        · exact htail
        · exact htodo
      have hle : sendLen.toNat ≤ todo.toNat := by
        rw [hdef]
        split_ifs with hlt
        · exact (UInt64.lt_iff_toNat_lt.mp hlt).le
        · exact le_rfl
      have htotal := r.totalLength.toNat_lt
      have hset : r.sentData.set r.sentData.next sendLen = .ok (upTo (n + sendLen)) := by
        rw [hsent, next_upTo]
        exact set_next hne (by omega)
      have hadd : (n + sendLen).toNat = n.toNat + sendLen.toNat := by
        rw [UInt64.toNat_add]
        exact Nat.mod_eq_of_lt (by omega)
      have hsub : (todo - sendLen).toNat = todo.toNat - sendLen.toNat :=
        UInt64.toNat_sub_of_le _ _ (UInt64.le_iff_toNat_le.mpr hle)
      simp only [hset] at h
      obtain ⟨⟨sentData, sendComplete, hr'⟩, hrest⟩ := ih (by rw [numContiguous_upTo])
        (by rw [numContiguous_upTo, hadd, hsub]; simp only; omega) h
      exact ⟨⟨sentData, sendComplete, hr'⟩, hrest⟩

theorem Good.sendDataTodo {s t : Sender} (h : Good s) {r : InFlightBundle} (hr : r ∈ s.inflight)
    (hcur : s.currentInflight = some r.transferId) {tails : List UInt64}
    (ht : s.sendDataTodo r tails = .ok t) : Good t := by
  obtain ⟨_, _, ht⟩ := of_bind_ok ht
  obtain ⟨⟨r', todo'⟩, hloop, ht⟩ := of_bind_ok ht
  cases ht
  have hok := h.ok r hr
  have hlen := hok.sentLen
  rw [if_pos hcur] at hlen
  obtain ⟨⟨sentData, sendComplete, rfl⟩, hsent, hlen'⟩ := sendLoop_spec hok.sent hlen hloop
  have hok' : Ok { s with sendSegmentTodo := todo' }
      { r with sentData := sentData, sendComplete := sendComplete } :=
    ⟨hok.lt, hok.reported, hok.live, hok.ackedAll, hok.acked, hsent, by
      rw [if_pos hcur]
      exact hlen'⟩
  refine ⟨h.toInv.setRecord { r with sentData := sentData, sendComplete := sendComplete } hr rfl rfl
    todo' (.inl hcur) hok', fun q hq hp => ?_⟩
  rcases mem_setRecord hq with rfl | ⟨hq, -⟩
  · exact hcur
  · exact h.current q hq hp

theorem Good.sendNextSegment {s t : Sender} (h : Good s) {r : InFlightBundle} (hr : r ∈ s.inflight)
    (hcur : s.currentInflight = some r.transferId) {tail : UInt64} {tails : List UInt64}
    (ht : s.sendNextSegment r tail tails = .ok t) : Good t := by
  unfold Sender.sendNextSegment at ht
  split_ifs at ht
  · cases ht
    exact h
  · exact h.finishBundle ht
  · exact h.finishBundle ht
  · cases ht
    exact h
  · -- the new segment fits into the rest of the bundle
    have hok := h.ok r hr
    have hlen := hok.sentLen
    rw [if_pos hcur] at hlen
    have hnext : r.sentData.next = r.sentData.numContiguous := by
      conv_lhs => rw [hok.sent, next_upTo]
    have hsub : (r.totalLength - r.sentData.numContiguous).toNat =
        r.totalLength.toNat - r.sentData.numContiguous.toNat :=
      UInt64.toNat_sub_of_le _ _ (UInt64.le_iff_toNat_le.mpr (by omega))
    have hseg : (s.segmentLen r).toNat ≤ r.totalLength.toNat - r.sentData.numContiguous.toNat := by
      rw [segmentLen, hnext, ← hsub]
      split_ifs with hle
      · exact le_rfl
      · exact (UInt64.lt_iff_toNat_lt.mp (UInt64.not_le.mp hle)).le
    have hset : Inv { s with sendSegmentTodo := s.segmentLen r } := by
      have hself : s.setRecord r = s := by
        unfold Sender.setRecord
        have hid : ∀ q ∈ s.inflight, (if q.transferId = r.transferId then r else q) = q := by
          intro q hq
          by_cases he : q.transferId = r.transferId
          · rw [if_pos he, h.eq_of_id hq hr he]
          · rw [if_neg he]
        rw [List.map_congr_left hid, List.map_id']
      have hinv := h.toInv.setRecord r hr rfl rfl (s.segmentLen r) (.inl hcur) ⟨hok.lt, hok.reported,
        hok.live, hok.ackedAll, hok.acked, hok.sent, by simp only [if_pos hcur]; omega⟩
      rwa [hself] at hinv
    exact Good.sendDataTodo ⟨hset, h.current⟩ hr hcur ht

/-- The link changes, and reports are handled; the bundles of the records stay in flight. -/
theorem Inv.setLink {s : Sender} (h : Inv s) {link : Link} (pending : List ℕ) (hcounted : link.Counted)
    (havailable : link.state ≠ .unavailable) (hdisjoint : ∀ b ∈ link.queue, b ∉ link.inflight)
    (hnodup : pending.Nodup) (hmem : ∀ b ∈ pending, b ∈ link.inflight)
    (hsub : ∀ b ∈ pending, b ∈ s.pending)
    (hlive : ∀ b ∈ s.link.inflight, b ∉ s.pending → b ∈ link.inflight) :
    Inv { s with link := link, pending := pending } where
  counted := hcounted
  available := havailable
  disjoint := hdisjoint
  pendingNodup := hnodup
  pendingMem := hmem
  eventsLt := h.eventsLt
  bundles := h.bundles
  ids := h.ids
  ok q hq := by
    have hok := h.ok q hq
    refine ⟨hok.lt, hok.reported, fun hp => ?_, hok.ackedAll, hok.acked, hok.sent, hok.sentLen⟩
    obtain ⟨hin, hout⟩ := hok.live hp
    exact ⟨hlive _ hin hout, fun hm => hout (hsub _ hm)⟩

theorem mem_addToInflight {link : Link} {b c : ℕ} :
    c ∈ (addToInflight link b).inflight ↔ c ∈ link.inflight ∨ c = b := by
  unfold addToInflight
  split_ifs with hb
  · exact ⟨.inl, fun h => h.elim id (fun he => he ▸ hb)⟩
  · simp

/-- The front of the queue is put in flight. -/
theorem Inv.addRecord {s : Sender} (h : Good s) {b : ℕ} (hb : b ∈ s.link.queue) (link : Link)
    (hqueue : ∀ c ∈ link.queue, c ∈ s.link.queue ∧ c ≠ b)
    (hinflight : ∀ c, c ∈ link.inflight ↔ c ∈ s.link.inflight ∨ c = b) (hcounted : link.Counted)
    (havailable : link.state ≠ .unavailable) (hcur : s.currentInflight = none)
    (htodo : s.sendSegmentTodo = 0) (totalLength : UInt64) :
    Good { s with
      link := link
      inflight := s.inflight ++ [s.newRecord b totalLength]
      currentInflight := some s.senderTransferId
      senderTransferId := s.senderTransferId + 1 } := by
  have hlink := h.toInv.setLink s.pending hcounted havailable
    (fun c hc hm => ((hinflight c).mp hm).elim (h.disjoint c (hqueue c hc).1) (hqueue c hc).2)
    h.pendingNodup (fun c hc => (hinflight c).mpr (.inl (h.pendingMem c hc))) (fun c hc => hc)
    (fun c hc _ => (hinflight c).mpr (.inl hc))
  have hunposted : ∀ q ∈ s.inflight, q.transmitEventPosted = false := by
    intro q hq
    by_contra hp
    have := h.current q hq (by simpa using hp)
    rw [hcur] at this
    cases this
  have hnot : b ∉ s.inflight.map InFlightBundle.bundle := by
    intro hm
    obtain ⟨q, hq, rfl⟩ := List.mem_map.mp hm
    exact h.disjoint _ hb ((h.ok q hq).live (hunposted q hq)).1
  have hid : s.senderTransferId ∉ s.inflight.map InFlightBundle.transferId := by
    intro hm
    obtain ⟨q, hq, he⟩ := List.mem_map.mp hm
    have := (h.ok q hq).lt
    omega
  have hbounds : ∀ e ∈ s.events, e.transferId < s.senderTransferId + 1 :=
    fun e he => (h.eventsLt e he).trans (Nat.lt_succ_self _)
  refine ⟨⟨hlink.counted, hlink.available, hlink.disjoint, hlink.pendingNodup, hlink.pendingMem, hbounds,
    ?_, ?_, fun q hq => ?_⟩, fun q hq hp => ?_⟩
  · rw [List.map_append]
    exact List.nodup_append.mpr ⟨h.bundles, List.nodup_singleton _, by
      rintro c hc d hd rfl
      obtain rfl := List.mem_singleton.mp hd
      exact hnot hc⟩
  · rw [List.map_append]
    exact List.nodup_append.mpr ⟨h.ids, List.nodup_singleton _, by
      rintro c hc d hd rfl
      obtain rfl := List.mem_singleton.mp hd
      exact hid hc⟩
  · rcases List.mem_append.mp hq with hq | hq
    · have hok := hlink.ok q hq
      have hne : ¬ some s.senderTransferId = some q.transferId := by
        have hlt : q.transferId < s.senderTransferId := hok.lt
        simpa using hlt.ne'
      refine ⟨hok.lt.trans (Nat.lt_succ_self _), hok.reported, hok.live, hok.ackedAll, hok.acked,
        hok.sent, ?_⟩
      have hlen := hok.sentLen
      rw [if_neg hne]
      omega
    · obtain rfl := List.mem_singleton.mp hq
      refine ⟨Nat.lt_succ_self _, ⟨fun hp => absurd hp (by simp [newRecord]), ?_⟩, fun _ => ⟨?_, ?_⟩,
        fun hp => absurd hp (by simp [newRecord]), rfl, rfl, ?_⟩
      · rintro ⟨e, he, hid'⟩
        exact absurd hid' (h.eventsLt e he).ne
      · exact (hinflight _).mpr (.inr rfl)
      · exact fun hm => h.disjoint b hb (h.pendingMem b hm)
      · simp [newRecord, numContiguous, htodo]
  · rcases List.mem_append.mp hq with hq | hq
    · rw [hunposted q hq] at hp
      cases hp
    · rw [List.mem_singleton.mp hq] at hp
      cases hp

theorem Good.startNextBundle {s t : Sender} (h : Good s) (hcur : s.currentInflight = none)
    (htodo : s.sendSegmentTodo = 0) {start : Start} {tail : UInt64} {tails : List UInt64}
    (ht : s.startNextBundle start tail tails = .ok t) : Good t := by
  unfold Sender.startNextBundle at ht
  by_cases hready : (!start.ready || s.params.maxInflightBundles ≤ s.inflight.length) = true
  · rw [if_pos hready] at ht
    cases ht
    exact h
  · rw [if_neg hready] at ht
    cases hqueue : s.link.queue with
    | nil =>
      simp only [hqueue] at ht
      cases ht
      exact h
    | cons b rest =>
      have hb : b ∈ s.link.queue := by simp [hqueue]
      have herase : ∀ c ∈ s.link.queue.erase b, c ∈ s.link.queue ∧ c ≠ b := fun c hc =>
        ⟨List.mem_of_mem_erase hc, ((List.Nodup.mem_erase_iff h.counted.nodup).mp hc).1⟩
      simp only [hqueue] at ht
      cases hexpired : start.expired with
      | true =>
        rw [hexpired, if_pos rfl] at ht
        obtain ⟨link, hdel, hcounted, hlink⟩ := h.counted.delFromQueue hb
        rw [hdel, ok_bind] at ht
        cases ht
        refine ⟨h.toInv.setLink s.pending hcounted ?_ ?_ h.pendingNodup ?_ (fun c hc => hc) ?_,
          h.current⟩
        all_goals subst hlink
        · exact h.available
        · exact fun c hc => h.disjoint c (herase c hc).1
        · exact h.pendingMem
        · exact fun c hc _ => hc
      | false =>
        rw [hexpired, if_neg (by simp)] at ht
        cases hblocks : start.blocks with
        | none =>
          simp only [hblocks] at ht
          cases ht
          exact ⟨⟨h.counted, h.available, h.disjoint, h.pendingNodup, h.pendingMem,
            fun e he => (h.eventsLt e he).trans (Nat.lt_succ_self _), h.bundles, h.ids, fun q hq =>
              ⟨(h.ok q hq).lt.trans (Nat.lt_succ_self _), (h.ok q hq).reported, (h.ok q hq).live,
                (h.ok q hq).ackedAll, (h.ok q hq).acked, (h.ok q hq).sent, (h.ok q hq).sentLen⟩⟩,
            h.current⟩
        | some totalLength =>
          simp only [hblocks] at ht
          have hsame : (addToInflight s.link b).queue = s.link.queue ∧
              (addToInflight s.link b).bundlesQueued = s.link.bundlesQueued ∧
              (addToInflight s.link b).state = s.link.state := by
            unfold addToInflight
            split_ifs <;> exact ⟨rfl, rfl, rfl⟩
          have hcounted' : (addToInflight s.link b).Counted :=
            ⟨hsame.1 ▸ h.counted.nodup, by rw [hsame.1, hsame.2.1]; exact h.counted.count_eq⟩
          obtain ⟨link, hdel, hcounted, hlink⟩ := hcounted'.delFromQueue (hsame.1.symm ▸ hb)
          rw [hdel, ok_bind] at ht
          have hgood := Inv.addRecord h hb link (by
              subst hlink
              simp only [hsame.1]
              exact herase) (by
              subst hlink
              exact fun c => mem_addToInflight) hcounted (by
              subst hlink
              exact hsame.2.2.symm ▸ h.available) hcur htodo totalLength
          exact hgood.sendNextSegment (List.mem_append_right _ List.mem_cons_self) rfl ht

theorem Good.sendPendingData {s t : Sender} (h : Good s) {start : Start} {tail : UInt64}
    {tails : List UInt64} (ht : s.sendPendingData start tail tails = .ok t) : Good t := by
  unfold Sender.sendPendingData at ht
  by_cases htail : tail = 0
  · rw [if_pos htail] at ht
    cases ht
    exact h
  · rw [if_neg htail] at ht
    cases hcur : s.currentInflight with
    | none =>
      simp only [hcur] at ht
      split_ifs at ht with htodo
      exact h.startNextBundle hcur (by simpa using htodo) ht
    | some transferId =>
      simp only [hcur] at ht
      cases hfind : s.find transferId with
      | none => simp [hfind] at ht
      | some r =>
        obtain ⟨hr, rfl⟩ := find_mem hfind
        simp only [hfind] at ht
        split_ifs at ht
        · exact h.sendDataTodo hr hcur ht
        · exact h.sendNextSegment hr hcur ht

/-- The acknowledgement of a whole bundle does not come again while the bundle is being finished. -/
def AckedOnce (s : Sender) : Op → Prop
  | .handleAckSegment transferId ackedLen => ∀ r ∈ s.inflight.head?, r.transferId = transferId →
      ackedLen = r.totalLength → r.transmitEventPosted = false
  | _ => True

instance (s : Sender) : ∀ op, Decidable (AckedOnce s op)
  | .handleAckSegment _ _ | .queueBundle _ | .handleBundleTransmitted | .sendPendingData _ _ _
  | .handleRefuseBundle _ | .handleCancelBundle _ | .breakContact => by unfold AckedOnce; infer_instance

theorem Good.breakContact {s : Sender} (h : Good s) : Good s.breakContact :=
  ⟨⟨h.counted, h.available, h.disjoint, h.pendingNodup, h.pendingMem, h.eventsLt, h.bundles, h.ids,
    fun q hq => ⟨(h.ok q hq).lt, (h.ok q hq).reported, (h.ok q hq).live, (h.ok q hq).ackedAll,
      (h.ok q hq).acked, (h.ok q hq).sent, (h.ok q hq).sentLen⟩⟩, h.current⟩

/-- What is acknowledged grows to the length of the acknowledgement. -/
theorem ackData_set {r : InFlightBundle} {ackedLen : UInt64} {ackData : DataBitmap}
    (h : r.ackData = upTo r.ackData.numContiguous) (hset : r.ackData.set 0 ackedLen = .ok ackData) :
    ackData = upTo ackData.numContiguous ∧ r.ackData.numContiguous ≤ ackData.numContiguous ∧
      ackedLen ≤ ackData.numContiguous := by
  by_cases hlen : ackedLen = 0
  · subst hlen
    cases hset
  · rw [h, set_zero _ hlen] at hset
    cases hset
    rw [numContiguous_upTo]
    refine ⟨rfl, ?_⟩
    split_ifs with hlt
    · exact ⟨UInt64.le_of_lt hlt, UInt64.le_refl _⟩
    · exact ⟨UInt64.le_refl _, UInt64.not_lt.mp hlt⟩

theorem Good.handleAckSegment {s t : Sender} (h : Good s) {transferId : ℕ} {ackedLen : UInt64}
    (honce : AckedOnce s (.handleAckSegment transferId ackedLen))
    (ht : s.handleAckSegment transferId ackedLen = .ok t) : Good t := by
  unfold Sender.handleAckSegment at ht
  cases hl : s.inflight with
  | nil =>
    simp only [hl] at ht
    cases ht
    exact h.breakContact
  | cons r l =>
    simp only [hl] at ht
    have hr : r ∈ s.inflight := by simp [hl]
    have hok := h.ok r hr
    by_cases hid : transferId ≠ r.transferId
    · rw [if_pos hid] at ht
      cases ht
      exact h.breakContact
    · rw [if_neg hid] at ht
      by_cases hbegin : ackedLen < ackBegin r.ackData
      · rw [if_pos hbegin] at ht
        cases ht
        exact h.breakContact
      · rw [if_neg hbegin] at ht
        cases hset : r.ackData.set 0 ackedLen with
        | error e => simp [hset] at ht
        | ok ackData =>
          simp only [hset] at ht
          obtain ⟨hack, hgrow, hlen⟩ := ackData_set hok.acked hset
          by_cases hfinal : ackedLen = r.totalLength
          · rw [if_pos hfinal] at ht
            have hp : r.transmitEventPosted = false :=
              honce r (by simp [hl]) (not_not.mp hid).symm hfinal
            set r' : InFlightBundle := { r with ackData := ackData, transmitEventPosted := true }
            have hok' : Ok (s.post (ackedEvent { r with ackData := ackData })) r' := by
              refine ⟨hok.lt, ⟨fun _ => ?_, fun _ => rfl⟩, fun hf => by simp [r'] at hf, fun _ => ?_, hack,
                hok.sent, hok.sentLen⟩
              · exact ⟨_, List.mem_append_right _ List.mem_cons_self, rfl⟩
              · rw [← hfinal]
                exact hlen
            have hinv : Inv ((s.setRecord r').post (ackedEvent { r with ackData := ackData })) :=
              h.toInv.post hr hp rfl rfl (l := (s.setRecord r').inflight)
                (by
                  rw [h.toInv.map_setRecord r' hr rfl _ rfl]
                  exact h.bundles)
                (by
                  rw [h.toInv.map_setRecord r' hr rfl _ rfl]
                  exact h.ids)
                (fun q hq => (mem_setRecord hq).imp_left (fun he => by rwa [he]))
            refine hinv.checkCompleted (fun q hq hpost => ?_) ht
            rcases mem_setRecord hq with rfl | ⟨hq, -⟩
            · exact .inr rfl
            · exact .inl (h.current q hq hpost)
          · rw [if_neg hfinal] at ht
            cases ht
            refine ⟨h.toInv.setRecord { r with ackData := ackData } hr rfl rfl s.sendSegmentTodo (.inr rfl)
              ⟨hok.lt, hok.reported, hok.live, fun hp => UInt64.le_trans (hok.ackedAll hp) hgrow, hack,
                hok.sent, hok.sentLen⟩, fun q hq hpost => ?_⟩
            rcases mem_setRecord hq with rfl | ⟨hq, -⟩
            · exact h.current r hr hpost
            · exact h.current q hq hpost

theorem Good.handleRefuseBundle {s t : Sender} (h : Good s) {transferId : ℕ}
    (ht : s.handleRefuseBundle transferId = .ok t) : Good t := by
  unfold Sender.handleRefuseBundle at ht
  cases hfind : s.find transferId with
  | none =>
    simp only [hfind] at ht
    cases ht
    exact h.breakContact
  | some r =>
    obtain ⟨hr, rfl⟩ := find_mem hfind
    have hok := h.ok r hr
    simp only [hfind] at ht
    by_cases hcur : s.currentInflight = some r.transferId
    · rw [if_pos hcur] at ht
      obtain ⟨u, hfinish, ht⟩ := of_bind_ok ht
      have hrefused : Good (s.setRecord { r with bundleRefused := true }) := by
        refine ⟨h.toInv.setRecord { r with bundleRefused := true } hr rfl rfl s.sendSegmentTodo (.inr rfl)
          ⟨hok.lt, hok.reported, hok.live, hok.ackedAll, hok.acked, hok.sent, hok.sentLen⟩,
          fun q hq hpost => ?_⟩
        rcases mem_setRecord hq with rfl | ⟨hq, -⟩
        · exact hcur
        · exact h.current q hq hpost
      have hu := hrefused.finishBundle hfinish
      exact hu.toInv.checkCompleted (fun q hq hpost => .inl (hu.current q hq hpost)) ht
    · rw [if_neg hcur] at ht
      cases ht
      have hp : r.transmitEventPosted = false := by
        by_contra hp
        exact hcur (h.current r hr (by simpa using hp))
      have hsub : (s.inflight.filter (fun q => q.transferId ≠ r.transferId)).Sublist s.inflight :=
        List.filter_sublist
      refine ⟨h.toInv.post hr hp rfl rfl (h.bundles.sublist (hsub.map _)) (h.ids.sublist (hsub.map _))
        (fun q hq => .inr ?_), fun q hq hpost => h.current q (hsub.subset hq) hpost⟩
      simpa [Sender.post] using hq

theorem Good.handleCancelBundle {s : Sender} (h : Good s) (bundle : ℕ) :
    Good (s.handleCancelBundle bundle) := by
  unfold Sender.handleCancelBundle
  cases hfind : s.inflight.find? (fun r => r.bundle = bundle) with
  | none => exact h
  | some r =>
    have hsub : (s.inflight.filter (fun q => q.transferId ≠ r.transferId)).Sublist s.inflight :=
      List.filter_sublist
    simp only
    split_ifs with hempty hcur htodo
    · exact h
    · exact h
    · refine ⟨h.toInv.clearCurrent.sublist hsub, fun q hq hpost => ?_⟩
      have hq' : q ∈ s.inflight ∧ q.transferId ≠ r.transferId := by simpa [Sender.remove] using hq
      have := (h.current q hq'.1 hpost).symm.trans hcur
      exact absurd (Option.some.inj this) hq'.2
    · exact ⟨h.toInv.sublist hsub, fun q hq hpost => h.current q (hsub.subset hq) hpost⟩

theorem Good.queueBundle {s : Sender} (h : Good s) (bundle : ℕ) : Good (s.queueBundle bundle) := by
  unfold Sender.queueBundle
  split_ifs with hmem
  · exact h
  · obtain ⟨hqueue, hinflight⟩ := not_or.mp hmem
    have hopen : s.link.clearsBundles s.params.clearWhenUnavailable = false := by
      simp [Link.clearsBundles, h.available]
    have hadd : s.link.addToQueue s.params.clearWhenUnavailable bundle = (true, { s.link with
        queue := s.link.queue ++ [bundle], bundlesQueued := s.link.bundlesQueued + 1 }) := by
      simp [Link.addToQueue, hopen, hqueue]
    have hcounted := h.counted.addToQueue s.params.clearWhenUnavailable bundle
    rw [hadd] at hcounted ⊢
    refine ⟨h.toInv.setLink s.pending hcounted h.available (fun b hb => ?_) h.pendingNodup h.pendingMem
      (fun b hb => hb) (fun b hb _ => hb), h.current⟩
    rcases List.mem_append.mp hb with hb | hb
    · exact h.disjoint b hb
    · exact List.mem_singleton.mp hb ▸ hinflight

theorem Good.handleBundleTransmitted {s t : Sender} (h : Good s)
    (ht : s.handleBundleTransmitted = .ok t) : Good t := by
  unfold Sender.handleBundleTransmitted at ht
  cases hpending : s.pending with
  | nil =>
    simp only [hpending] at ht
    cases ht
    exact h
  | cons b pending =>
    simp only [hpending] at ht
    have hnodup := h.pendingNodup
    rw [hpending, List.nodup_cons] at hnodup
    have hb : b ∈ s.link.inflight := h.pendingMem b (by simp [hpending])
    have hnot : b ∉ s.link.queue := fun hq => h.disjoint b hq hb
    have hdel : (delFromInflight s.link b).2 = { s.link with inflight := s.link.inflight.erase b } := by
      rw [delFromInflight, if_pos hb]
    rw [hdel] at ht
    have hqueue : ({ s.link with inflight := s.link.inflight.erase b } : Link).delFromQueue b =
        .ok (false, { s.link with inflight := s.link.inflight.erase b }) := if_pos hnot
    rw [hqueue, ok_bind] at ht
    cases ht
    refine ⟨h.toInv.setLink pending ⟨h.counted.nodup, h.counted.count_eq⟩ h.available
      (fun c hc hm => h.disjoint c hc (List.mem_of_mem_erase hm)) hnodup.2 (fun c hc => ?_) (fun c hc => ?_)
      (fun c hc hout => ?_), h.current⟩
    · exact (List.mem_erase_of_ne (ne_of_mem_of_not_mem hc hnodup.1)).mpr
        (h.pendingMem c (by simp [hpending, hc]))
    · simp [hpending, hc]
    · refine (List.mem_erase_of_ne (fun he => hout ?_)).mpr hc
      simp [hpending, he]

theorem Good.step {s t : Sender} (h : Good s) {op : Op} (honce : AckedOnce s op)
    (ht : s.step op = .ok t) : Good t := by
  cases op with
  | queueBundle bundle =>
    cases ht
    exact h.queueBundle bundle
  | handleBundleTransmitted => exact h.handleBundleTransmitted ht
  | sendPendingData start tail tails =>
    simp only [Sender.step] at ht
    split_ifs at ht
    · cases ht
      exact h
    · exact h.sendPendingData ht
  | handleAckSegment transferId ackedLen =>
    simp only [Sender.step] at ht
    split_ifs at ht
    · cases ht
      exact h
    · exact h.handleAckSegment honce ht
  | handleRefuseBundle transferId =>
    simp only [Sender.step] at ht
    split_ifs at ht
    · cases ht
      exact h
    · exact h.handleRefuseBundle ht
  | handleCancelBundle bundle =>
    simp only [Sender.step] at ht
    split_ifs at ht
    · cases ht
      exact h
    · cases ht
      exact h.handleCancelBundle bundle
  | breakContact =>
    cases ht
    exact h.breakContact

/-- A contact that was just opened: nothing was sent, the bundles on the link's queue are not in flight,
and those with a report that is not handled yet are. -/
structure Opened (s : Sender) : Prop where
  inflight : s.inflight = []
  events : s.events = []
  counted : s.link.Counted
  available : s.link.state ≠ .unavailable
  disjoint : ∀ b ∈ s.link.queue, b ∉ s.link.inflight
  pendingNodup : s.pending.Nodup
  pendingMem : ∀ b ∈ s.pending, b ∈ s.link.inflight

theorem Opened.good {s : Sender} (h : Opened s) : Good s :=
  ⟨⟨h.counted, h.available, h.disjoint, h.pendingNodup, h.pendingMem, by simp [h.events],
    by simp [h.inflight], by simp [h.inflight], by simp [h.inflight]⟩, by simp [PostedCurrent, h.inflight]⟩

theorem good_run {s t : Sender} {ops : List Op} (h : Good s) (hops : Meets step AckedOnce s ops)
    (ht : run step s ops = .ok t) : Good t := by
  induction ops generalizing s with
  | nil =>
    cases ht
    exact h
  | cons op ops ih =>
    obtain ⟨hop, hrest⟩ := hops
    simp only [run] at ht
    cases hs : s.step op with
    | error e => simp [hs] at ht
    | ok u =>
      rw [hs] at ht hrest
      exact ih (h.step hop hs) hrest ht

end Sender

end Dtnme.ConvLayers
