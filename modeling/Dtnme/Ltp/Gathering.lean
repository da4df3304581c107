import Dtnme.Ltp.Claims
import Dtnme.Ltp.Delivery

/-! # What a receiver gathers from one sender

The segments of one block share all of their bytes or none. Whatever their order, however often they
come and whatever else happens to the session in between, it holds the bytes it has received in
segments that were sent, claims no others, and hands over the block as a whole.
-/

namespace Dtnme.Ltp
open Library Runs

/-! ## Counting stored bytes -/

theorem storedBytes_erase {m : OrdMap ℕ LTPDataSegment} {k : ℕ} {ds : LTPDataSegment}
    (hk : m.find? k = some ds) :
    storedBytes m = storedBytes (m.erase k) ∪ Set.Icc k ds.stopByte := by
  ext x
  constructor
  · rintro ⟨j, es, hj, hlo, hhi⟩
    by_cases heq : j = k
    · subst heq
      cases hk.symm.trans hj
      exact Or.inr ⟨hlo, hhi⟩
    · exact Or.inl ⟨j, es, by rw [OrdMap.find?_erase, if_neg heq, hj], hlo, hhi⟩
  · rintro (⟨j, es, hj, hlo, hhi⟩ | hx)
    · rw [OrdMap.find?_erase] at hj
      split_ifs at hj
      exact ⟨j, es, hj, hlo, hhi⟩
    · exact ⟨k, ds, hk, hx.1, hx.2⟩

/-- The counter of a session with disjoint segments counts their bytes. -/
theorem SegmentsOk.ncard_storedBytes {m : OrdMap ℕ LTPDataSegment} (h : SegmentsOk m) :
    (storedBytes m).Finite ∧ (storedBytes m).ncard = m.sum (·.payloadLength) := by
  induction hn : m.size generalizing m with
  | zero =>
    have hentries : m.entries = [] := List.eq_nil_of_length_eq_zero hn
    have hempty : storedBytes m = ∅ := by
      ext x
      simp [storedBytes, OrdMap.find?, OrdMap.lookup, hentries]
    simp [hempty, OrdMap.sum, hentries]
  | succ n ih =>
    obtain ⟨p, hp⟩ : ∃ p, p ∈ m.entries := List.exists_mem_of_length_pos (by
      have : m.entries.length = n + 1 := hn
      omega)
    have hk : m.find? p.1 = some p.2 := OrdMap.find?_eq_some_iff.mpr hp
    have hsize := OrdMap.size_erase hk
    have hsum := OrdMap.sum_erase (·.payloadLength) hk
    have hlen := h.length hk
    obtain ⟨hfin, hcard⟩ := ih (h.erase p.1) (by omega)
    have hdisjoint : Disjoint (storedBytes (m.erase p.1)) (Set.Icc p.1 p.2.stopByte) := by
      rw [Set.disjoint_left]
      rintro x ⟨j, es, hj, hlo, hhi⟩ ⟨hlo', hhi'⟩
      rw [OrdMap.find?_erase] at hj
      split_ifs at hj with hne
      rcases Nat.lt_or_gt_of_ne hne with hlt | hlt
      · have := h.apart hj hk hlt
        omega
      · have := h.apart hk hj hlt
        omega
    rw [storedBytes_erase hk]
    refine ⟨hfin.union (Set.finite_Icc _ _), ?_⟩
    rw [Set.ncard_union_eq hdisjoint hfin (Set.finite_Icc _ _), hcard, Set.ncard_eq_toFinset_card',
      Set.toFinset_Icc, Nat.card_Icc, hsum]
    omega

/-! ## Segments of one block -/

/-- Red segments of one block. Two of them that share a byte have the same range. -/
structure CutFrom (K : Set LTPDataSegment) : Prop where
  incoming : ∀ ds ∈ K, IncomingRed ds
  service : ∀ ds ∈ K, ds.clientServiceId = 1 ∨ ds.clientServiceId = 2
  ends : ∀ ds ∈ K, ds.isEndofblock = true → ∀ es ∈ K, es.stopByte ≤ ds.stopByte
  apart : ∀ ds ∈ K, ∀ es ∈ K, ds.startByte ≤ es.stopByte → es.startByte ≤ ds.stopByte →
    ds.startByte = es.startByte ∧ ds.stopByte = es.stopByte

/-- The number of bytes up to the end of a segment that ends the block. -/
def EndsAfter (K : Set LTPDataSegment) (n : ℕ) : Prop :=
  ∃ es ∈ K, es.isEndofblock = true ∧ n = es.stopByte + 1

/-- A session that has received the bytes `T` holds each of them in a segment of the block. -/
structure Holding (K : Set LTPDataSegment) (s : LTPSession) (T : Set ℕ) : Prop where
  consistent : Consistent s T
  within : Within s
  stored : T ⊆ storedBytes s.redSegments
  sent : ∀ k es, s.redSegments.find? k = some es → es ∈ K
  expected : s.expectedRedBytes = 0 ∨ ∃ es ∈ K, s.expectedRedBytes = es.stopByte + 1
  complete : s.redComplete = true → EndsAfter K s.expectedRedBytes

variable {K K' : Set LTPDataSegment} {s t : LTPSession} {T : Set ℕ} {ds : LTPDataSegment}

theorem EndsAfter.mono {n : ℕ} (h : EndsAfter K n) (hK : K ⊆ K') : EndsAfter K' n := by
  obtain ⟨es, hes, hend⟩ := h
  exact ⟨es, hK hes, hend⟩

theorem Holding.mono (h : Holding K s T) (hK : K ⊆ K') : Holding K' s T where
  consistent := h.consistent
  within := h.within
  stored := h.stored
  sent k es hk := hK (h.sent k es hk)
  expected := h.expected.imp_right fun ⟨es, hes, heq⟩ => ⟨es, hK hes, heq⟩
  complete hc := (h.complete hc).mono hK

theorem Holding.new (K : Set LTPDataSegment) (engineId sessionId : ℕ) :
    Holding K (.new engineId sessionId) ∅ where
  consistent := .new engineId sessionId
  within := .new engineId sessionId
  stored _ hx := hx.elim
  sent k es hk := by simp [LTPSession.new] at hk
  expected := Or.inl rfl
  complete hc := by cases hc

/-- The counters that reports are made from count what is held. -/
theorem Holding.counted (h : Holding K s T) (hK : CutFrom K) : Counted s T := by
  have heq : T = storedBytes s.redSegments := h.stored.antisymm h.consistent.stored
  constructor
  · exact h.consistent.blocks
  · exact h.consistent.canonical.first
  · rw [heq, h.consistent.segments.ncard_storedBytes.2, h.consistent.count]
  · intro x hx
    obtain ⟨k, es, hk, -, hhi⟩ := h.stored hx
    have := h.within k es hk
    omega
  · rcases h.expected with hzero | ⟨es, hes, hexp⟩
    · omega
    · have := (hK.incoming es hes).2.bound
      omega

/-- A segment of the block was received as a whole, or none of its bytes were. -/
theorem Holding.whole (h : Holding K s T) (hK : CutFrom K) (hds : ds ∈ K) :
    Repeats s.redContigBlocks ds.startByte ds.stopByte ∨
      ∀ x, ds.startByte ≤ x → x ≤ ds.stopByte → x ∉ T := by
  by_cases hnew : ∀ x, ds.startByte ≤ x → x ≤ ds.stopByte → x ∉ T
  · exact Or.inr hnew
  · push Not at hnew
    obtain ⟨x, hlo, hhi, hx⟩ := hnew
    obtain ⟨k, es, hk, hklo, hkhi⟩ := h.stored hx
    have hkey := h.consistent.segments.keyed hk
    obtain ⟨hstart, hstop⟩ := hK.apart ds hds es (h.sent k es hk) (by omega) (by omega)
    apply Or.inl
    apply h.consistent.blocks.inside (hK.incoming ds hds).2.ordered
    intro y hylo hyhi
    exact h.consistent.stored ⟨k, es, hk, by omega, by omega⟩

/-! ## One segment -/

/-- What reception leaves alone. -/
structure SameRest (s t : LTPSession) : Prop where
  state : t.sessionState = s.sessionState
  reports : t.reportSegments = s.reportSegments
  cancelSegment : t.cancelSegment = s.cancelSegment
  greenComplete : t.greenComplete = s.greenComplete
  greenProcessed : t.greenProcessed = s.greenProcessed

theorem Holding.repeats (h : Holding K s T)
    (hr : Repeats s.redContigBlocks ds.startByte ds.stopByte) :
    Holding K (s.noteRedEob ds) (extend T ds) := by
  have hcons : Consistent (s.noteRedEob ds) (extend T ds) := (h.consistent.noteRedEob ds).repeats hr
  refine ⟨hcons, h.within, ?_, h.sent, h.expected, h.complete⟩
  rintro x (hx | ⟨hlo, hhi⟩)
  · exact h.stored hx
  · obtain ⟨a, b, hab, ha, hb⟩ := hr
    exact h.stored (h.consistent.blocks.mem hab (by omega) (by omega))

/-- The first copy of a segment is stored. -/
theorem Holding.fresh (h : Holding K s T) (hK : CutFrom K) (hds : ds ∈ K)
    (hnew : ∀ x, ds.startByte ≤ x → x ≤ ds.stopByte → x ∉ T) :
    ∃ t, receiveRed s ds = .ok ⟨0, t, ds⟩ ∧ Holding K t (extend T ds) ∧ SameRest s t := by
  have hin := hK.incoming ds hds
  obtain ⟨hmerge, hstart, hset, -⟩ := h.consistent.apart hin hnew
  obtain ⟨c, hrec⟩ := receiveRed_apart h.consistent hin hnew
  have haccept : AcceptsEob s ds := by
    refine Or.inr ⟨hmerge, Or.inr ⟨hset, fun he => ?_⟩⟩
    rcases h.expected with hzero | ⟨es, hes, hexp⟩
    · omega
    · have := hK.ends ds hds he es hes
      omega
  obtain ⟨r, hr, hcons, hwithin⟩ := receiveRed_accepts h.consistent h.within hin haccept
  have hsame := Except.ok.inj (hr.symm.trans hrec)
  have hseg : r.session.redSegments = s.redSegments.insert ds.startByte ds := by
    rw [hsame]
    split_ifs
    · rw [setEob_red hin]
      rfl
    · rfl
  have hexp : r.session.expectedRedBytes = if ds.isEndofblock then ds.stopByte + 1 else
      if s.expectedRedBytes < ds.stopByte + 1 then ds.stopByte + 1 else s.expectedRedBytes := by
    rw [hsame]
    split_ifs with h₁ h₂ <;>
      simp_all [setEob_red hin, LTPSession.storeTrimmed, LTPSession.storeRed,
        LTPSession.setContig, LTPSession.noteRedEob, u64_of_lt hin.2.bound]
  have hcomp : r.session.redComplete = (s.redComplete || ds.isEndofblock) := by
    rw [hsame]
    split_ifs with he
    · rw [setEob_red hin, he, Bool.or_true]
    · rfl
  refine ⟨r.session, ?_, ⟨hcons, hwithin, ?_, ?_, ?_, ?_⟩, ?_⟩
  · rw [hr, hsame]
  · intro x hx
    rw [hseg]
    exact (storedBytes_insert hstart x).mpr (hx.imp_left fun hx => h.stored hx)
  · intro k es hk
    rw [hseg, OrdMap.find?_insert] at hk
    split_ifs at hk
    · cases hk
      exact hds
    · exact h.sent k es hk
  · rw [hexp]
    split_ifs
    · exact Or.inr ⟨ds, hds, rfl⟩
    · exact Or.inr ⟨ds, hds, rfl⟩
    · exact h.expected
  · rw [hcomp, hexp, Bool.or_eq_true]
    rintro (hdone | he)
    · -- nothing of the block ends behind the end of the block
      obtain ⟨es, hes, hend, hstop⟩ := h.complete hdone
      have hle := hK.ends es hes hend ds hds
      split_ifs with he hlt
      · exact ⟨ds, hds, he, rfl⟩
      · omega
      · exact ⟨es, hes, hend, hstop⟩
    · rw [if_pos he]
      exact ⟨ds, hds, he, rfl⟩
  · rw [hsame]
    split_ifs
    · rw [setEob_red hin]
      exact ⟨rfl, rfl, rfl, rfl, rfl⟩
    · exact ⟨rfl, rfl, rfl, rfl, rfl⟩

/-- Any copy of a segment of the block is taken in as it should be. -/
theorem Holding.receive (h : Holding K s T) (hK : CutFrom K) (hds : ds ∈ K) :
    ∃ r, receiveRed s ds = .ok r ∧ r.ds = ds ∧ Holding K r.session (extend T ds) ∧
      SameRest s r.session := by
  rcases h.whole hK hds with hr | hnew
  · refine ⟨⟨-1, s.noteRedEob ds, ds⟩, ?_, rfl, h.repeats hr, ⟨rfl, rfl, rfl, rfl, rfl⟩⟩
    unfold receiveRed
    rw [addSegmentIncoming_repeats h.consistent (hK.incoming ds hds) hr]
    rfl
  · obtain ⟨t, hrun, hold, hsame⟩ := h.fresh hK hds hnew
    exact ⟨⟨0, t, ds⟩, hrun, rfl, hold, hsame⟩

/-- A full red part is the whole block. -/
theorem Holding.full (h : Holding K s T) (hfull : 0 < isRedFull s) :
    EndsAfter K (isRedFull s) ∧ s.redBytesReceived = s.expectedRedBytes ∧
      isRedFull s = s.redBytesReceived := by
  unfold isRedFull at hfull ⊢
  split_ifs at hfull ⊢ with hdone heq
  · simp only [Bool.and_eq_true] at hdone
    rw [heq]
    exact ⟨h.complete hdone.1.2, rfl, rfl⟩
  · omega
  · omega

/-! ## A session and what else happens to it -/

/-- The counters and maps that reception works on. -/
structure SameRed (s t : LTPSession) : Prop where
  processed : t.redProcessed = s.redProcessed
  complete : t.redComplete = s.redComplete
  received : t.redBytesReceived = s.redBytesReceived
  expected : t.expectedRedBytes = s.expectedRedBytes
  first : t.firstContiguousBytes = s.firstContiguousBytes
  segments : t.redSegments = s.redSegments
  blocks : t.redContigBlocks = s.redContigBlocks

theorem Holding.congr (h : Holding K s T) (hst : SameRed s t) : Holding K t T := by
  constructor
  · constructor
    · rw [hst.processed]
      exact h.consistent.live
    · rw [hst.blocks]
      exact h.consistent.blocks
    · rw [hst.first, hst.blocks]
      exact h.consistent.first
    · exact h.consistent.bound
    · rw [hst.segments]
      exact h.consistent.segments
    · rw [hst.segments]
      exact h.consistent.stored
    · rw [hst.received, hst.segments]
      exact h.consistent.count
  · unfold Within
    rw [hst.segments, hst.expected]
    exact h.within
  · rw [hst.segments]
    exact h.stored
  · rw [hst.segments]
    exact h.sent
  · rw [hst.expected]
    exact h.expected
  · rw [hst.complete, hst.expected]
    exact h.complete

theorem Counted.congr (h : Counted s T) (hst : SameRed s t) : Counted t T := by
  constructor
  · rw [hst.blocks]
    exact h.blocks
  · rw [hst.first]
    exact h.first
  · rw [hst.received]
    exact h.received
  · rw [hst.expected]
    exact h.expected
  · rw [hst.expected]
    exact h.word

variable {R R' : Set ℕ}

/-- The bytes of a session arrived. They are held until the red part is handed over, which is when
all of them are there. -/
def Collected (K : Set LTPDataSegment) (R : Set ℕ) (s : LTPSession) : Prop :=
  ∃ T ⊆ R, Counted s T ∧ (s.redProcessed = false → Holding K s T) ∧
    (s.redProcessed = true → s.redBytesReceived = s.expectedRedBytes)

theorem Collected.congr (h : Collected K R s) (hst : SameRed s t) : Collected K R t := by
  obtain ⟨T, hT, hcount, hlive, hdone⟩ := h
  refine ⟨T, hT, hcount.congr hst, ?_, ?_⟩
  · rw [hst.processed]
    exact fun hp => (hlive hp).congr hst
  · rw [hst.processed, hst.received, hst.expected]
    exact hdone

theorem Collected.mono (h : Collected K R s) (hK : K ⊆ K') (hR : R ⊆ R') : Collected K' R' s := by
  obtain ⟨T, hT, hcount, hlive, hdone⟩ := h
  exact ⟨T, hT.trans hR, hcount, fun hp => (hlive hp).mono hK, hdone⟩

/-- The size under which a session is remembered that was handed over. -/
theorem Collected.size (h : Collected K R s) (hdone : s.redProcessed = true) :
    Backed R 0 s.redBytesReceived := by
  obtain ⟨T, hT, hcount, -, hfull⟩ := h
  have heq := hfull hdone
  have hword := hcount.word
  exact ⟨by omega, fun x _ hx => hT ((hcount.full heq x).mpr (by omega))⟩

/-- What a session of the receiver has to do with the segments `K` that were sent and the bytes `R`
that arrived. -/
structure Gathers (K : Set LTPDataSegment) (R : Set ℕ) (s : LTPSession) : Prop where
  reports : ∀ k r, s.reportSegments.find? k = some r → SoundReport R r
  cancelled : s.cancelSegment ≠ none → s.isLtpCancelled = true
  greenComplete : s.greenComplete = false
  greenProcessed : s.greenProcessed = false
  collected : s.isLtpCancelled = false → Collected K R s

theorem Gathers.new (K : Set LTPDataSegment) (R : Set ℕ) (hK : CutFrom K)
    (engineId sessionId reportSerial : ℕ) :
    Gathers K R { LTPSession.new engineId sessionId with reportSerialNumber := reportSerial } where
  reports k r hk := by simp [LTPSession.new] at hk
  cancelled hc := absurd rfl hc
  greenComplete := rfl
  greenProcessed := rfl
  collected _ := by
    have hnew := Holding.new K engineId sessionId
    have hsame : SameRed (.new engineId sessionId)
        { LTPSession.new engineId sessionId with reportSerialNumber := reportSerial } :=
      ⟨rfl, rfl, rfl, rfl, rfl, rfl, rfl⟩
    exact ⟨∅, Set.empty_subset R, (hnew.counted hK).congr hsame, fun _ => hnew.congr hsame,
      fun hp => by cases hp⟩

theorem Gathers.mono (h : Gathers K R s) (hK : K ⊆ K') (hR : R ⊆ R') : Gathers K' R' s where
  reports k r hk := (h.reports k r hk).mono hR
  cancelled := h.cancelled
  greenComplete := h.greenComplete
  greenProcessed := h.greenProcessed
  collected hc := (h.collected hc).mono hK hR

/-- A session that differs in what it has to say about its red part. -/
structure Updates (R : Set ℕ) (s t : LTPSession) : Prop extends SameRed s t where
  cancelSegment : t.cancelSegment = s.cancelSegment
  greenComplete : t.greenComplete = s.greenComplete
  greenProcessed : t.greenProcessed = s.greenProcessed
  reports : ∀ k r, t.reportSegments.find? k = some r →
    s.reportSegments.find? k = some r ∨ SoundReport R r

theorem Updates.trans {u : LTPSession} (h : Updates R s t) (h' : Updates R t u) : Updates R s u where
  processed := h'.processed.trans h.processed
  complete := h'.complete.trans h.complete
  received := h'.received.trans h.received
  expected := h'.expected.trans h.expected
  first := h'.first.trans h.first
  segments := h'.segments.trans h.segments
  blocks := h'.blocks.trans h.blocks
  cancelSegment := h'.cancelSegment.trans h.cancelSegment
  greenComplete := h'.greenComplete.trans h.greenComplete
  greenProcessed := h'.greenProcessed.trans h.greenProcessed
  reports k r hk := (h'.reports k r hk).elim (h.reports k r) Or.inr

theorem Updates.same {s t : LTPSession} (h : SameRed s t) (hcancel : t.cancelSegment = s.cancelSegment)
    (hcomplete : t.greenComplete = s.greenComplete) (hprocessed : t.greenProcessed = s.greenProcessed)
    (hreports : t.reportSegments = s.reportSegments) : Updates R s t where
  toSameRed := h
  cancelSegment := hcancel
  greenComplete := hcomplete
  greenProcessed := hprocessed
  reports _ _ hk := Or.inl (hreports ▸ hk)

theorem Gathers.update (h : Gathers K R s) (hu : Updates R s t)
    (hstate : t.isLtpCancelled = s.isLtpCancelled) : Gathers K R t where
  reports k r hk := (hu.reports k r hk).elim (h.reports k r) id
  cancelled hc := by
    rw [hstate]
    exact h.cancelled (hu.cancelSegment ▸ hc)
  greenComplete := hu.greenComplete.trans h.greenComplete
  greenProcessed := hu.greenProcessed.trans h.greenProcessed
  collected hc := (h.collected (hstate ▸ hc)).congr hu.toSameRed

/-- A session that is cancelled keeps nothing but its reports. -/
theorem Gathers.cancel (h : Gathers K R s) (ht : t.isLtpCancelled = true)
    (hreports : ∀ k r, t.reportSegments.find? k = some r → s.reportSegments.find? k = some r)
    (hcomplete : t.greenComplete = s.greenComplete)
    (hprocessed : t.greenProcessed = s.greenProcessed) : Gathers K R t where
  reports k r hk := h.reports k r (hreports k r hk)
  cancelled _ := ht
  greenComplete := hcomplete.trans h.greenComplete
  greenProcessed := hprocessed.trans h.greenProcessed
  collected hc := by
    rw [ht] at hc
    cases hc

/-! ## Answers to a checkpoint -/

variable {p : ReceiverParams} {rcv rcv' : Receiver} {honest : Prop}

theorem updates_addReports {reports : List LTPReportSegment} (hr : ∀ r ∈ reports, SoundReport R r) :
    Updates R s (s.addReports reports) ∧ (s.addReports reports).sessionState = s.sessionState := by
  induction reports generalizing s with
  | nil =>
    have hsame : Updates R s s := .same ⟨rfl, rfl, rfl, rfl, rfl, rfl, rfl⟩ rfl rfl rfl rfl
    exact ⟨hsame, rfl⟩
  | cons r reports ih =>
    have hone : Updates R s (s.addReport r) := by
      refine ⟨⟨rfl, rfl, rfl, rfl, rfl, rfl, rfl⟩, rfl, rfl, rfl, fun k r' hk => ?_⟩
      simp only [LTPSession.addReport, OrdMap.find?_insert] at hk
      split_ifs at hk
      · cases hk
        exact Or.inr (hr r List.mem_cons_self)
      · exact Or.inl hk
    obtain ⟨hrest, hstate⟩ := ih (s := s.addReport r) fun r' hr' => hr r' (List.mem_cons_of_mem r hr')
    exact ⟨hone.trans hrest, hstate⟩

/-- Reports that are looked up or made are sound. -/
theorem haveReportSegmentsToSend_updates (h : Collected K R s) {segsize : ℤ} {b : Bool} {n : ℕ}
    (hrun : haveReportSegmentsToSend s ds segsize = .ok (b, n, t)) :
    Updates R s t ∧ t.sessionState = s.sessionState := by
  obtain ⟨T, hT, hcount, -⟩ := h
  unfold haveReportSegmentsToSend at hrun
  dsimp only at hrun
  generalize hnote : s.noteUpperBounds ds.offset (u64 (ds.stopByte + 1)) = s' at hrun
  have hsame : SameRed s s' := by
    subst hnote
    exact ⟨rfl, rfl, rfl, rfl, rfl, rfl, rfl⟩
  have hbounds : Updates R s s' := by
    subst hnote
    exact .same hsame rfl rfl rfl rfl
  have hstate : s'.sessionState = s.sessionState := by
    subst hnote
    rfl
  have hgenerate (lower upper : ℕ) (hgen : (generateReportSegments s' ds.checkpointId lower upper
      segsize >>= fun r => pure (true, r.1, r.2)) = Except.ok (b, n, t)) :
      Updates R s t ∧ t.sessionState = s.sessionState := by
    obtain ⟨⟨total, t'⟩, hmade, hres⟩ := returns_of_bind hgen
    cases hres
    obtain ⟨reports, rfl, hsound⟩ := generateReportSegments_sound (hcount.congr hsame) hmade
    obtain ⟨hadd, hsess⟩ := updates_addReports (s := s') fun r hr => (hsound r hr).mono hT
    exact ⟨hbounds.trans hadd, hsess.trans hstate⟩
  cases hfind : s'.findReport ds with
  | none =>
    rw [hfind] at hrun
    exact hgenerate _ _ hrun
  | some rptseg =>
    rw [hfind] at hrun
    dsimp only at hrun
    split_ifs at hrun
    · cases hrun
      exact ⟨hbounds, hstate⟩
    · exact hgenerate _ _ hrun

/-! ## The receiver -/

/-- What is handed over is the whole block, once each byte, in segments that were sent. -/
structure WholeBlock (K : Set LTPDataSegment) (segs : OrdMap ℕ LTPDataSegment) (n : ℕ) : Prop where
  segments : SegmentsOk segs
  bytes : storedBytes segs = Set.Iio n
  sent : ∀ k es, segs.find? k = some es → es ∈ K
  ends : EndsAfter K n

theorem WholeBlock.mono {segs : OrdMap ℕ LTPDataSegment} {n : ℕ} (h : WholeBlock K segs n)
    (hK : K ⊆ K') : WholeBlock K' segs n where
  segments := h.segments
  bytes := h.bytes
  sent k es hk := hK (h.sent k es hk)
  ends := h.ends.mono hK

/-- So many bytes have been handed over. -/
def Receiver.HandedOver (rcv : Receiver) (n : ℕ) : Prop := ∃ segs, (segs, n) ∈ rcv.posted

/-- What the receiver has sent and handed over. Its reports can be trusted as long as `honest` holds. -/
structure Receiver.Sent (K : Set LTPDataSegment) (R : Set ℕ) (honest : Prop) (rcv : Receiver) :
    Prop where
  emitted : honest → ∀ r ∈ rcv.reports, SoundReport R r
  posted : ∀ q ∈ rcv.posted, WholeBlock K q.1 q.2

/-- The receiver and the session that it works on. -/
structure Receiver.Serves (K : Set LTPDataSegment) (R : Set ℕ) (honest : Prop) (rcv : Receiver)
    (s : LTPSession) : Prop extends rcv.Sent K R honest, Gathers K R s where
  handed : s.isLtpCancelled = false → s.redProcessed = true → rcv.HandedOver s.redBytesReceived

/-- A session is closed under a size that it has received and handed over. -/
def Receiver.Remembers (R : Set ℕ) (honest : Prop) (rcv : Receiver) : ReceiverState → Prop
  | .closed size => honest → Backed R 0 size ∧ (0 < size → rcv.HandedOver size)
  | _ => True

structure Receiver.Sound (K : Set LTPDataSegment) (R : Set ℕ) (honest : Prop) (rcv : Receiver) :
    Prop extends rcv.Sent K R honest where
  serves : ∀ s, rcv.state = .active s → rcv.Serves K R honest s
  remembers : rcv.Remembers R honest rcv.state

namespace Receiver

theorem Sent.send (h : rcv.Sent K R honest) {reports : List LTPReportSegment}
    (hr : honest → ∀ r ∈ reports, SoundReport R r) : (rcv.send reports).Sent K R honest where
  emitted hh r hmem := (List.mem_append.mp hmem).elim (h.emitted hh r) (hr hh r)
  posted := h.posted

theorem Serves.send (h : rcv.Serves K R honest s) {reports : List LTPReportSegment}
    (hr : honest → ∀ r ∈ reports, SoundReport R r) : (rcv.send reports).Serves K R honest s where
  toSent := h.toSent.send hr
  toGathers := h.toGathers
  handed := h.handed

theorem Serves.update (h : rcv.Serves K R honest s) (hu : Updates R s t)
    (hstate : t.isLtpCancelled = s.isLtpCancelled) : rcv.Serves K R honest t where
  toSent := h.toSent
  toGathers := h.toGathers.update hu hstate
  handed := by
    rw [hstate, hu.processed, hu.received]
    exact h.handed

theorem Serves.hold (h : rcv.Serves K R honest s) : (rcv.hold s).Sound K R honest where
  emitted := h.emitted
  posted := h.posted
  serves t ht := by
    cases ht
    exact ⟨⟨h.emitted, h.posted⟩, h.toGathers, h.handed⟩
  remembers := trivial

/-- A session is erased when it is cancelled or has been handed over. -/
theorem Serves.erase (h : rcv.Serves K R honest s)
    (hs : s.isLtpCancelled = false → honest → s.dataProcessed = true) :
    (rcv.eraseIncomingSession s).Sound K R honest where
  emitted := h.emitted
  posted := h.posted
  serves t ht := by cases ht
  remembers := by
    intro hh
    split_ifs with hc
    · exact ⟨⟨by omega, fun x _ hx => by omega⟩, fun hpos => absurd hpos (lt_irrefl 0)⟩
    · have hlive : s.isLtpCancelled = false := by simpa using hc
      have hdone : s.redProcessed = true := by
        simpa [LTPSession.dataProcessed, h.greenProcessed] using hs hlive hh
      exact ⟨(h.collected hlive).size hdone, fun _ => h.handed hlive hdone⟩

/-- A session is cancelled, possibly after its segments were removed. -/
theorem Sent.cancel (h : rcv.Sent K R honest) (hs : Gathers K R s) (ht : t.isLtpCancelled = true)
    (hreports : ∀ k r, t.reportSegments.find? k = some r → s.reportSegments.find? k = some r)
    (hcomplete : t.greenComplete = s.greenComplete)
    (hprocessed : t.greenProcessed = s.greenProcessed) : rcv.Serves K R honest t where
  toSent := h
  toGathers := hs.cancel ht hreports hcomplete hprocessed
  handed hc := by
    rw [ht] at hc
    cases hc

theorem Serves.buildCsSegment (h : rcv.Serves K R honest s) (reasonCode : ℕ) :
    (rcv.buildCsSegment s reasonCode).Sound K R honest := by
  unfold Receiver.buildCsSegment
  split_ifs
  · exact h.hold
  · refine ⟨⟨h.emitted, h.posted⟩, fun t ht => ?_, trivial⟩
    cases ht
    exact Sent.cancel ⟨h.emitted, h.posted⟩ h.toGathers rfl (fun _ _ hk => hk) rfl rfl

theorem Sound.mono (h : rcv.Sound K R honest) (hK : K ⊆ K') (hR : R ⊆ R') {honest' : Prop}
    (hh : honest' → honest) : rcv.Sound K' R' honest' := by
  have hsent : rcv.Sent K' R' honest' :=
    ⟨fun hh' r hr => (h.emitted (hh hh') r hr).mono hR, fun q hq => (h.posted q hq).mono hK⟩
  refine ⟨hsent, fun s hs => ⟨hsent, (h.serves s hs).toGathers.mono hK hR, (h.serves s hs).handed⟩, ?_⟩
  have hremembers := h.remembers
  cases hs : rcv.state with
  | absent => trivial
  | active s => trivial
  | closed size =>
    rw [hs] at hremembers
    exact fun hh' => ⟨(hremembers (hh hh')).1.mono hR, (hremembers (hh hh')).2⟩

/-- Only the counts of cancel segments and of their acknowledgments differ. -/
theorem Sound.counts (h : rcv.Sound K R honest) (n m : ℕ) :
    ({ rcv with cancelSegments := n, cancelAcks := m } : Receiver).Sound K R honest where
  emitted := h.emitted
  posted := h.posted
  serves s hs := ⟨⟨h.emitted, h.posted⟩, (h.serves s hs).toGathers, (h.serves s hs).handed⟩
  remembers := by
    have hremembers := h.remembers
    cases hs : rcv.state with
    | absent => trivial
    | active s => trivial
    | closed size =>
      rw [hs] at hremembers
      exact hremembers

end Receiver

theorem isLtpCancelled_of_state {x : SessionState} (ht : t.sessionState = x) (hx : x ≠ .cs) :
    t.isLtpCancelled = false := by
  unfold LTPSession.isLtpCancelled
  rw [ht, beq_eq_false_iff_ne]
  exact hx

/-- A checkpoint is answered with sound reports, and the session goes on. -/
theorem generateRs_serves (h : rcv.Serves K R honest s) (hc : s.isLtpCancelled = false)
    (hrun : generateRs p rcv s ds = .ok (rcv', t)) :
    rcv'.Serves K R honest t ∧ Updates R s t ∧ t.isLtpCancelled = false := by
  unfold generateRs at hrun
  obtain ⟨⟨have_, n, s'⟩, hreports, hrest⟩ := returns_of_bind hrun
  obtain ⟨hu, hstate⟩ := haveReportSegmentsToSend_updates (h.collected hc) hreports
  have hc' : s'.isLtpCancelled = false := by
    unfold LTPSession.isLtpCancelled
    rw [hstate]
    exact hc
  have h' := h.update hu (hc'.trans hc.symm)
  have hsound (_ : honest) : ∀ r ∈ s'.reportSegments.values.filter
      (fun rptseg => rptseg.checkpointId == ds.checkpointId), SoundReport R r := by
    intro r hr
    obtain ⟨⟨k, r'⟩, hmem, rfl⟩ := List.mem_map.mp (List.mem_of_mem_filter hr)
    exact h'.reports k r' (OrdMap.find?_eq_some_iff.mpr hmem)
  have hrs : Updates R s' { s' with sessionState := .rs } :=
    .same ⟨rfl, rfl, rfl, rfl, rfl, rfl, rfl⟩ rfl rfl rfl rfl
  have hcrs : LTPSession.isLtpCancelled { s' with sessionState := .rs } = false :=
    isLtpCancelled_of_state rfl (by simp)
  dsimp only at hrest
  split_ifs at hrest
  · cases hrest
    exact ⟨h'.send hsound, hu, hc'⟩
  · cases hrest
    exact ⟨(h'.send hsound).update hrs (hcrs.trans hc'.symm), hu.trans hrs, hcrs⟩
  · cases hrest
    exact ⟨h', hu, hc'⟩

theorem answerCheckpoint_serves (h : rcv.Serves K R honest s) (hc : s.isLtpCancelled = false)
    (hrun : answerCheckpoint p rcv s ds = .ok (rcv', t)) :
    rcv'.Serves K R honest t ∧ Updates R s t ∧ t.isLtpCancelled = false := by
  unfold answerCheckpoint at hrun
  have hid : Updates R s (s.setCheckpointId ds.checkpointId) :=
    .same ⟨rfl, rfl, rfl, rfl, rfl, rfl, rfl⟩ rfl rfl rfl rfl
  split_ifs at hrun
  · obtain ⟨h', hu, hc'⟩ := generateRs_serves (h.update hid rfl) hc hrun
    exact ⟨h', hid.trans hu, hc'⟩
  · cases hrun
    exact ⟨h, .same ⟨rfl, rfl, rfl, rfl, rfl, rfl, rfl⟩ rfl rfl rfl rfl, hc⟩

/-! ## Data segments -/

/-- One more segment of the block, for a session whose red part was not handed over. -/
theorem Receiver.Serves.receive (h : rcv.Serves K R honest s) (hc : s.isLtpCancelled = false)
    (hp : s.redProcessed = false) (hK : CutFrom K) (hds : ds ∈ K)
    (hR : ∀ x, ds.startByte ≤ x → x ≤ ds.stopByte → x ∈ R) :
    ∃ r, receiveRed s ds = .ok r ∧ r.ds = ds ∧ rcv.Serves K R honest r.session ∧
      r.session.isLtpCancelled = false ∧ r.session.redProcessed = false := by
  obtain ⟨T, hT, -, hlive, -⟩ := h.collected hc
  obtain ⟨r, hr, hseg, hold, hsame⟩ := (hlive hp).receive hK hds
  have hc' : r.session.isLtpCancelled = false := by
    unfold LTPSession.isLtpCancelled
    rw [hsame.state]
    exact hc
  have hp' := hold.consistent.live
  refine ⟨r, hr, hseg, ⟨h.toSent, ⟨?_, ?_, ?_, ?_, fun _ => ?_⟩, fun _ hdone => ?_⟩, hc', hp'⟩
  · rw [hsame.reports]
    exact h.reports
  · rw [hsame.cancelSegment]
    intro hcancel
    rw [h.cancelled hcancel] at hc
    cases hc
  · exact hsame.greenComplete.trans h.greenComplete
  · exact hsame.greenProcessed.trans h.greenProcessed
  · refine ⟨extend T ds, ?_, hold.counted hK, fun _ => hold, fun hdone => ?_⟩
    · rintro x (hx | ⟨hlo, hhi⟩)
      · exact hT hx
      · exact hR x hlo hhi
    · rw [hp'] at hdone
      cases hdone
  · rw [hp'] at hdone
    cases hdone

/-- A full red part is handed over as the block. -/
theorem postRed_serves (h : rcv.Serves K R honest t) (hold : Holding K s T) (hT : T ⊆ R)
    (hcount : Counted s T) (hu : Updates R s t) {u : LTPSession}
    (hrun : postRed rcv t (isRedFull s) = .ok (rcv', u)) : rcv'.Serves K R honest u := by
  unfold postRed at hrun
  split_ifs at hrun with hfull
  · obtain ⟨⟨segs, t'⟩, hall, hrest⟩ := returns_of_bind hrun
    unfold getAllRedData at hall
    split_ifs at hall
    cases hall
    cases hrest
    obtain ⟨hends, heq, hsize⟩ := hold.full hfull
    have hcount' : Counted t T := hcount.congr hu.toSameRed
    have hold' : Holding K t T := hold.congr hu.toSameRed
    have heq' : t.redBytesReceived = t.expectedRedBytes := by
      rw [hu.received, hu.expected, heq]
    have hwhole : WholeBlock K t.redSegments (isRedFull s) := by
      refine ⟨hold'.consistent.segments, ?_, hold'.sent, hends⟩
      rw [← hold'.stored.antisymm hold'.consistent.stored]
      ext x
      rw [hcount'.full heq', Set.mem_Iio, hsize, heq, hu.expected]
    refine ⟨⟨h.emitted, fun q hq => ?_⟩, ⟨h.reports, h.cancelled, h.greenComplete,
      h.greenProcessed, fun _ => ?_⟩, fun _ _ => ⟨t.redSegments, List.mem_append_right _ ?_⟩⟩
    · rcases List.mem_append.mp hq with hq | hq
      · exact h.posted q hq
      · rw [List.mem_singleton.mp hq]
        exact hwhole
    · exact ⟨T, hT, { hcount' with }, fun hdone => (by cases hdone), fun _ => heq'⟩
    · rw [List.mem_singleton, hsize, ← hu.received]
  · cases hrun
    exact h

/-- There is no green part, so the session is kept. -/
theorem postGreen_sound (h : rcv.Serves K R honest s) (acceptGreen : Bool) :
    (postGreen rcv s acceptGreen).Sound K R honest := by
  have hnone : isGreenFull s = 0 := by simp [isGreenFull, h.greenComplete]
  unfold postGreen
  rw [if_neg (by omega)]
  exact h.hold

theorem processStored_sound (h : rcv.Serves K R honest s) (hc : s.isLtpCancelled = false)
    (hp : s.redProcessed = false) {accept acceptGreen : Bool}
    (hrun : processStored p rcv s ds accept acceptGreen = .ok rcv') : rcv'.Sound K R honest := by
  unfold processStored at hrun
  dsimp only at hrun
  split_ifs at hrun
  · cases hrun
    exact h.buildCsSegment _
  · obtain ⟨⟨rcv₁, s₁⟩, hanswer, hrun⟩ := returns_of_bind hrun
    obtain ⟨⟨rcv₂, s₂⟩, hpost, hrun⟩ := returns_of_bind hrun
    obtain ⟨h₁, hu, -⟩ := answerCheckpoint_serves h hc hanswer
    obtain ⟨T, hT, hcount, hlive, -⟩ := h.collected hc
    have h₂ := postRed_serves h₁ (hlive hp) hT hcount hu hpost
    cases hrun
    exact postGreen_sound h₂ acceptGreen

/-- A data segment of the block, for a session that is not cancelled. -/
theorem processIncomingDataSegment_sound (h : rcv.Serves K R honest s)
    (hc : s.isLtpCancelled = false) (hK : CutFrom K) (hds : ds ∈ K)
    (hR : ∀ x, ds.startByte ≤ x → x ≤ ds.stopByte → x ∈ R) {accept acceptGreen : Bool}
    (hrun : processIncomingDataSegment p rcv s ds accept acceptGreen = .ok rcv') :
    rcv'.Sound K R honest := by
  have hstate : Updates R s { s with sessionState := .ds } :=
    .same ⟨rfl, rfl, rfl, rfl, rfl, rfl, rfl⟩ rfl rfl rfl rfl
  have hc₀ : LTPSession.isLtpCancelled { s with sessionState := .ds } = false :=
    isLtpCancelled_of_state rfl (by simp)
  have h₀ := h.update hstate (hc₀.trans hc.symm)
  unfold processIncomingDataSegment at hrun
  rw [if_neg (fun hother => hother.2 ((hK.service ds hds).resolve_left hother.1))] at hrun
  dsimp only at hrun
  generalize hs₀ : ({ s with sessionState := .ds } : LTPSession) = s₀ at hrun h₀ hc₀
  split_ifs at hrun with hprocessed
  · obtain ⟨⟨rcv₁, s₁⟩, hanswer, hrun⟩ := returns_of_bind hrun
    cases hrun
    exact (answerCheckpoint_serves h₀ hc₀ hanswer).1.hold
  · have hp : s₀.redProcessed = false := by
      simp only [LTPSession.dataProcessed, Bool.or_eq_true, not_or, Bool.not_eq_true] at hprocessed
      exact hprocessed.1
    obtain ⟨r, hrec, hseg, hr, hcr, hpr⟩ := h₀.receive hc₀ hp hK hds hR
    rw [hrec] at hrun
    obtain ⟨r', heq, hrun⟩ := returns_of_bind hrun
    cases heq
    split_ifs at hrun
    · obtain ⟨⟨rcv₁, s₁⟩, hanswer, hrun⟩ := returns_of_bind hrun
      cases hrun
      exact (answerCheckpoint_serves hr hcr hanswer).1.hold
    · exact processStored_sound hr hcr hpr hrun

/-! ## Everything the receiver does -/

theorem processReportAck_sound (h : rcv.Serves K R honest s) (hc : s.isLtpCancelled = false)
    (serialNumber : ℕ) : (processReportAck rcv s serialNumber).Sound K R honest := by
  have hu : Updates R s { s with reportSegments := s.reportSegments.erase serialNumber } := by
    refine ⟨⟨rfl, rfl, rfl, rfl, rfl, rfl, rfl⟩, rfl, rfl, rfl, fun k r hk => Or.inl ?_⟩
    simp only [OrdMap.find?_erase] at hk
    split_ifs at hk
    exact hk
  have hs := h.update hu rfl
  have hstate : Updates R { s with reportSegments := s.reportSegments.erase serialNumber }
      { s with reportSegments := s.reportSegments.erase serialNumber, sessionState := .ds } :=
    .same ⟨rfl, rfl, rfl, rfl, rfl, rfl, rfl⟩ rfl rfl rfl rfl
  unfold processReportAck
  dsimp only
  split_ifs with hdone
  · exact hs.erase fun _ _ => hdone
  · exact (hs.update hstate ((isLtpCancelled_of_state rfl (by simp)).trans hc.symm)).hold

/-- A session that its sender has cancelled is remembered with size 0. -/
theorem processCancelBySender_sound (h : rcv.Sent K R honest) (hs : Gathers K R s) :
    (processCancelBySender rcv s).Sound K R honest := by
  have hempty : ∀ k r, s.removeSegments.reportSegments.find? k = some r →
      s.reportSegments.find? k = some r := by
    intro k r hk
    cases hk
  have hcancel : rcv.buildCas.Serves K R honest { s.removeSegments with sessionState := .cs } :=
    Receiver.Sent.cancel ⟨h.emitted, h.posted⟩ hs rfl hempty rfl rfl
  apply hcancel.erase
  intro hc
  cases hc

theorem processClosed_sound (h : rcv.Sound K R honest) {size : ℕ} (hs : rcv.state = .closed size)
    (seg : IncomingSegment) : (processClosed rcv size seg).Sound K R honest := by
  have hremembers := h.remembers
  rw [hs] at hremembers
  cases seg with
  | data ds accept acceptGreen reportSerial =>
    simp only [processClosed]
    split_ifs
    · exact h.counts _ _
    · have hsent : (rcv.send [closedReport ds reportSerial size]).Sent K R honest := by
        apply h.toSent.send
        intro hh r hr
        rw [List.mem_singleton.mp hr]
        exact SoundClaims.empty.add le_rfl (hremembers hh).1
      refine ⟨hsent, fun s hactive => ?_, ?_⟩
      · cases hs.symm.trans hactive
      · have hstate : (rcv.send [closedReport ds reportSerial size]).state = .closed size := hs
        rw [hstate]
        exact hremembers
    · exact h
  | reportAck serialNumber => exact h
  | cancelBySender => exact h.counts _ _
  | cancelAck => exact h

/-- A data segment is one of the block, and its bytes arrive with it. -/
def IncomingSegment.Among (K : Set LTPDataSegment) (R : Set ℕ) : IncomingSegment → Prop
  | .data ds _ _ _ => ds ∈ K ∧ ∀ x, ds.startByte ≤ x → x ≤ ds.stopByte → x ∈ R
  | _ => True

theorem processActive_sound (hsound : rcv.Sound K R honest) (hs : rcv.state = .active s)
    (hK : CutFrom K) {seg : IncomingSegment} (hseg : seg.Among K R)
    (hcas : seg = .cancelAck → ¬ honest) (hrun : processActive p rcv s seg = .ok rcv') :
    rcv'.Sound K R honest := by
  have h := hsound.serves s hs
  cases seg with
  | data ds accept acceptGreen reportSerial =>
    simp only [processActive] at hrun
    split_ifs at hrun with hc
    · cases hrun
      exact hsound
    · exact processIncomingDataSegment_sound h (by simpa using hc) hK hseg.1 hseg.2 hrun
  | reportAck serialNumber =>
    cases hrun
    split_ifs with hc
    · exact hsound
    · exact processReportAck_sound h (by simpa using hc) serialNumber
  | cancelBySender =>
    cases hrun
    apply processCancelBySender_sound _ h.toGathers
    split_ifs
    · exact ⟨h.emitted, h.posted⟩
    · exact h.toSent
  | cancelAck =>
    cases hrun
    have hnone : rcv.Serves K R honest { s with cancelSegment := none } :=
      ⟨h.toSent, ⟨h.reports, fun hno => absurd rfl hno, h.greenComplete, h.greenProcessed,
        fun hc => (h.collected hc).congr ⟨rfl, rfl, rfl, rfl, rfl, rfl, rfl⟩⟩, h.handed⟩
    exact hnone.erase fun _ hh => absurd hh (hcas rfl)

/-- What the receiver does with one segment. -/
theorem processDataForReceiver_sound (h : rcv.Sound K R honest) (hK : CutFrom K)
    {seg : IncomingSegment} (hseg : seg.Among K R) (hcas : seg = .cancelAck → ¬ honest)
    (hrun : processDataForReceiver p rcv seg = .ok rcv') : rcv'.Sound K R honest := by
  unfold processDataForReceiver at hrun
  cases hs : rcv.state with
  | closed size =>
    rw [hs] at hrun
    cases hrun
    exact processClosed_sound h hs seg
  | active s =>
    rw [hs] at hrun
    exact processActive_sound h hs hK hseg hcas hrun
  | absent =>
    rw [hs] at hrun
    cases seg with
    | data ds accept acceptGreen reportSerial =>
      have hnew : rcv.Serves K R honest
          { LTPSession.new p.engineId p.sessionId with reportSerialNumber := reportSerial } :=
        ⟨h.toSent, .new K R hK p.engineId p.sessionId reportSerial, fun _ hdone => by cases hdone⟩
      exact processIncomingDataSegment_sound hnew rfl hK hseg.1 hseg.2 hrun
    | cancelBySender =>
      cases hrun
      exact h.counts _ _
    | reportAck serialNumber =>
      cases hrun
      exact h
    | cancelAck =>
      cases hrun
      exact h

/-! ## Timers -/

theorem reportSegTimeout_sound (hsound : rcv.Sound K R honest) (h : rcv.Serves K R honest s)
    (serialNumber : ℕ) : (reportSegTimeout p rcv s serialNumber).Sound K R honest := by
  unfold reportSegTimeout
  cases hfind : s.reportSegments.find? serialNumber with
  | none => exact hsound
  | some rptseg =>
    have hr := h.reports serialNumber rptseg hfind
    have hput (r : LTPReportSegment) (hr : SoundReport R r) : rcv.Serves K R honest
        { s with reportSegments := s.reportSegments.insert serialNumber r } := by
      refine h.update ⟨⟨rfl, rfl, rfl, rfl, rfl, rfl, rfl⟩, rfl, rfl, rfl, fun k r' hk => ?_⟩ rfl
      simp only [OrdMap.find?_insert] at hk
      split_ifs at hk
      · cases hk
        exact Or.inr hr
      · exact Or.inl hk
    have hagain := hput { rptseg with retransRetries := rptseg.retransRetries + 1 } hr
    have hdeleted := hput { rptseg with
      retransRetries := rptseg.retransRetries + 1, isDeleted := true } hr
    dsimp only
    split_ifs with hskip hretries hdone
    · exact hsound
    · apply Receiver.Serves.hold
      apply hagain.send
      intro _ r hmem
      rw [List.mem_singleton.mp hmem]
      exact hr
    · exact hdeleted.erase fun _ _ => hdone
    · exact hdeleted.buildCsSegment _

theorem cancelSegTimeout_sound (hsound : rcv.Sound K R honest) (h : rcv.Serves K R honest s) :
    (cancelSegTimeout p rcv s).Sound K R honest := by
  unfold cancelSegTimeout
  cases hcs : s.cancelSegment with
  | none => exact hsound
  | some cs =>
    have hc := h.cancelled (by simp [hcs])
    dsimp only
    split_ifs
    · refine ⟨⟨hsound.emitted, hsound.posted⟩, fun t ht => ?_, trivial⟩
      cases ht
      exact Receiver.Sent.cancel ⟨hsound.emitted, hsound.posted⟩ h.toGathers hc (fun _ _ hk => hk) rfl rfl
    · apply h.erase
      intro hlive
      rw [hc] at hlive
      cases hlive

theorem inactivityTimer_sound (hsound : rcv.Sound K R honest) (h : rcv.Serves K R honest s)
    (idle : Bool) : (inactivityTimer rcv s idle).Sound K R honest := by
  unfold inactivityTimer
  split_ifs with hidle
  · have hlive : s.removeSegments.isLtpCancelled = false :=
      isLtpCancelled_of_state hidle.1 (by simp)
    unfold Receiver.buildCsSegment
    rw [if_neg (by simp [hlive])]
    refine ⟨⟨hsound.emitted, hsound.posted⟩, fun t ht => ?_, trivial⟩
    cases ht
    refine Receiver.Sent.cancel ⟨hsound.emitted, hsound.posted⟩ h.toGathers rfl (fun k r hk => ?_) rfl rfl
    cases hk
  · exact hsound

/-- What the receiver does by itself. -/
theorem receiverTimer_sound (h : rcv.Sound K R honest) (timer : ReceiverTimer) :
    (receiverTimer p rcv timer).Sound K R honest := by
  unfold receiverTimer
  cases hs : rcv.state with
  | absent => cases timer <;> exact h
  | closed size =>
    cases timer with
    | closeout =>
      exact ⟨⟨h.emitted, h.posted⟩, fun s hactive => (by cases hactive), trivial⟩
    | report serialNumber => exact h
    | cancel => exact h
    | inactivity idle => exact h
    | startShutdown => exact h
  | active s =>
    have hserves := h.serves s hs
    cases timer with
    | report serialNumber => exact reportSegTimeout_sound h hserves serialNumber
    | cancel => exact cancelSegTimeout_sound h hserves
    | inactivity idle => exact inactivityTimer_sound h hserves idle
    | closeout => exact h
    | startShutdown => exact hserves.buildCsSegment _

end Dtnme.Ltp
