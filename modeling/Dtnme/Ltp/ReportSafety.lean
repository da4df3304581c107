import Dtnme.Ltp.Outbound
import Dtnme.Ltp.ReportGroup

/-! # Reports cannot end a session early

Whatever claims a report carries, the sender of a session holds every byte that it has sent until
a claim covers it, as long as the report does not reach one of three flaws: the comparison that
takes one claim for the whole session, the retransmission of a segment that is a checkpoint, and
the sum of bounds that leaves the word. A report on a cancelled session is a fourth.
-/

namespace Dtnme.Ltp
open Library

variable {m : OrdMap ℕ LTPDataSegment} {es ds : LTPDataSegment} {k c : ℕ} {st st' : ClaimPass}

/-! ## The passes of any report -/

/-- The bounds of one pass of `RemoveClaimedSegments`. -/
structure PassBounds where
  lowerBounds : ℕ
  claimOffset : ℕ
  upperBounds : ℕ
  deriving DecidableEq

def PassBounds.effect (b : PassBounds) (checkpointId : ℕ) (es : LTPDataSegment) : Effect :=
  claimEffect checkpointId b.lowerBounds b.claimOffset b.upperBounds es

def PassBounds.remove (b : PassBounds) (checkpointId : ℕ) (st : ClaimPass) : ClaimPass :=
  removeClaimedSegments checkpointId b.lowerBounds b.claimOffset b.upperBounds st

/-- One pass for each claim, and one for the gap behind the last. -/
def passBounds (rptLowerBounds rptUpperBounds : ℕ) : ℕ → List LTPReportClaim → List PassBounds
  | lower, [] => if lower < rptUpperBounds then [⟨lower, rptUpperBounds, rptUpperBounds⟩] else []
  | lower, rc :: rest =>
    let claimOffset := u64 (rptLowerBounds + rc.offset)
    let upper := u64 (claimOffset + rc.length)
    ⟨lower, claimOffset, upper⟩ :: passBounds rptLowerBounds rptUpperBounds upper rest

def LTPReportSegment.passes (r : LTPReportSegment) : List PassBounds :=
  passBounds r.lowerBounds r.upperBounds r.lowerBounds r.claims.values

theorem applyClaims_eq (r : LTPReportSegment) (m : OrdMap ℕ LTPDataSegment) :
    applyClaims r m =
      r.passes.foldl (fun st b => b.remove r.checkpointId st) { redSegments := m } := by
  unfold applyClaims LTPReportSegment.passes
  generalize r.claims.values = claims
  suffices h : ∀ (lower : ℕ) (st : ClaimPass),
      (if (claimPasses r.checkpointId r.lowerBounds claims lower st).1 < r.upperBounds then
        removeClaimedSegments r.checkpointId
          (claimPasses r.checkpointId r.lowerBounds claims lower st).1 r.upperBounds r.upperBounds
          (claimPasses r.checkpointId r.lowerBounds claims lower st).2
        else (claimPasses r.checkpointId r.lowerBounds claims lower st).2) =
        (passBounds r.lowerBounds r.upperBounds lower claims).foldl
          (fun st b => b.remove r.checkpointId st) st from h _ _
  induction claims with
  | nil =>
    intro lower st
    by_cases h : lower < r.upperBounds <;> simp [claimPasses, passBounds, h, PassBounds.remove]
  | cons rc claims ih => exact fun _ _ => ih _ _

/-- The segment goes on the list before a pass takes it out of the session. -/
def SentAgain (checkpointId : ℕ) (es : LTPDataSegment) : List PassBounds → Prop
  | [] => False
  | b :: rest => b.effect checkpointId es = .resend ∨
      (b.effect checkpointId es = .keep ∧ SentAgain checkpointId es rest)

instance SentAgain.decidable (checkpointId : ℕ) (es : LTPDataSegment) :
    ∀ passes, Decidable (SentAgain checkpointId es passes)
  | [] => inferInstanceAs (Decidable False)
  | _ :: rest =>
    have := SentAgain.decidable checkpointId es rest
    inferInstanceAs (Decidable (_ ∨ _))

/-- What some passes do to the session and the list. -/
structure Swept (checkpointId : ℕ) (passes : List PassBounds) (st st' : ClaimPass) : Prop where
  held : ∀ k es, st'.redSegments.find? k = some es → st.redSegments.find? k = some es
  removed : ∀ k es, st.redSegments.find? k = some es → es.isDeleted = false →
    st'.redSegments.find? k = some es ∨ ∃ b ∈ passes, b.effect checkpointId es = .remove
  listed : ∀ k es, (∀ ds, st.redSegments.find? k = some ds → ds = es) →
    st.retransmit.find? k = some es → st'.retransmit.find? k = some es
  again : ∀ k es, st.redSegments.find? k = some es → es.isDeleted = false →
    SentAgain checkpointId es passes → st'.retransmit.find? k = some es
  origin : ∀ k es, st'.retransmit.find? k = some es → st.retransmit.find? k = some es ∨
    (st.redSegments.find? k = some es ∧ es.isDeleted = false ∧ SentAgain checkpointId es passes)

theorem Swept.nil : Swept c [] st st :=
  ⟨fun _ _ h => h, fun _ _ h _ => Or.inl h, fun _ _ _ h => h, fun _ _ _ _ h => h.elim,
    fun _ _ h => Or.inl h⟩

/-- The entry of a segment after one pass. -/
theorem PassBounds.remove_cases (b : PassBounds) (h : Outgoing st.redSegments) (k : ℕ) :
    ((st.redSegments.find? k = none ∨ ∃ es, st.redSegments.find? k = some es ∧
        es.isDeleted = true) ∧
      (b.remove c st).retransmit.find? k = st.retransmit.find? k ∧
      ∀ es, (b.remove c st).redSegments.find? k = some es → st.redSegments.find? k = some es) ∨
    ∃ es, st.redSegments.find? k = some es ∧ es.isDeleted = false ∧
      (b.remove c st).entry k = (b.effect c es).apply es (st.entry k) := by
  have hpass := removeClaimedSegments_passed c b.lowerBounds b.claimOffset b.upperBounds h
  cases hk : st.redSegments.find? k with
  | none =>
    have hentry := hpass.absent k hk
    refine Or.inl ⟨Or.inl rfl, congrArg Prod.snd hentry, fun es hes => ?_⟩
    exact hk.symm.trans ((congrArg Prod.fst hentry).symm.trans hes)
  | some es =>
    cases hdel : es.isDeleted with
    | true =>
      refine Or.inl ⟨Or.inr ⟨es, rfl, hdel⟩, ?_, fun ds hds => hk.symm.trans (hpass.redSegments hds)⟩
      rcases hpass.dropped k es hk hdel with heq | heq <;> exact congrArg Prod.snd heq
    | false => exact Or.inr ⟨es, rfl, hdel, hpass.effect k es hk hdel⟩

theorem Swept.cons {b : PassBounds} {passes : List PassBounds} (h : Outgoing st.redSegments)
    (hrest : Swept c passes (b.remove c st) st') : Swept c (b :: passes) st st' := by
  have hpass := removeClaimedSegments_passed c b.lowerBounds b.claimOffset b.upperBounds h
  have hone : ∀ {k es}, st.redSegments.find? k = some es → es.isDeleted = false →
      (b.remove c st).entry k = (b.effect c es).apply es (some es, st.retransmit.find? k) := by
    intro k es hk hdel
    rw [← hk]
    exact hpass.effect k es hk hdel
  constructor
  · exact fun k es hk => hpass.redSegments (hrest.held k es hk)
  · intro k es hk hdel
    have hentry := hone hk hdel
    cases heff : b.effect c es with
    | remove => exact Or.inr ⟨b, List.mem_cons_self, heff⟩
    | keep =>
      rw [heff] at hentry
      rcases hrest.removed k es (congrArg Prod.fst hentry) hdel with hkeep | ⟨b', hb', hrem⟩
      · exact Or.inl hkeep
      · exact Or.inr ⟨b', List.mem_cons_of_mem _ hb', hrem⟩
    | resend =>
      rw [heff] at hentry
      rcases hrest.removed k es (congrArg Prod.fst hentry) hdel with hkeep | ⟨b', hb', hrem⟩
      · exact Or.inl hkeep
      · exact Or.inr ⟨b', List.mem_cons_of_mem _ hb', hrem⟩
  · intro k es hsame hlist
    apply hrest.listed k es fun ds hds => hsame ds (hpass.redSegments hds)
    rcases b.remove_cases h k with ⟨-, hret, -⟩ | ⟨ds, hk, -, hentry⟩
    · exact hret.trans hlist
    · cases heff : b.effect c ds <;> rw [heff] at hentry
      · exact (congrArg Prod.snd hentry).trans hlist
      · exact (congrArg Prod.snd hentry).trans (congrArg some (hsame ds hk))
      · exact (congrArg Prod.snd hentry).trans hlist
  · intro k es hk hdel hagain
    have hentry := hone hk hdel
    rcases hagain with heff | ⟨heff, hagain⟩ <;> rw [heff] at hentry
    · apply hrest.listed k es _ (congrArg Prod.snd hentry)
      intro ds hds
      exact Option.some.inj (hds.symm.trans (congrArg Prod.fst hentry))
    · exact hrest.again k es (congrArg Prod.fst hentry) hdel hagain
  · intro k es hes
    rcases hrest.origin k es hes with hold | ⟨hk, hdel, hagain⟩
    · rcases b.remove_cases h k with ⟨-, hret, -⟩ | ⟨ds, hk, hdel, hentry⟩
      · exact Or.inl (hret.symm.trans hold)
      · cases heff : b.effect c ds <;> rw [heff] at hentry
        · exact Or.inl ((congrArg Prod.snd hentry).symm.trans hold)
        · have hds : ds = es := Option.some.inj ((congrArg Prod.snd hentry).symm.trans hold)
          subst hds
          exact Or.inr ⟨hk, hdel, Or.inl heff⟩
        · exact Or.inl ((congrArg Prod.snd hentry).symm.trans hold)
    · have hk' := hpass.redSegments hk
      have hentry := hone hk' hdel
      refine Or.inr ⟨hk', hdel, ?_⟩
      cases heff : b.effect c es with
      | keep => exact Or.inr ⟨heff, hagain⟩
      | resend => exact Or.inl heff
      | remove =>
        rw [heff] at hentry
        cases hk.symm.trans (congrArg Prod.fst hentry)

theorem foldl_swept (c : ℕ) {passes : List PassBounds} {st : ClaimPass}
    (h : Outgoing st.redSegments) :
    Swept c passes st (passes.foldl (fun st b => b.remove c st) st) := by
  induction passes generalizing st with
  | nil => exact .nil
  | cons b passes ih =>
    apply Swept.cons h
    apply ih
    apply h.mono
    intro k es
    exact (removeClaimedSegments_passed c b.lowerBounds b.claimOffset b.upperBounds h).redSegments

/-! ## Sending again -/

/-- The list can be sent again exactly if no segment of it is a checkpoint. -/
theorem sendRemainingSegments_isOk_iff (serial : ℕ) (l : List (ℕ × LTPDataSegment))
    (r : Resending) :
    (∃ r', sendRemainingSegments serial l r = .ok r') ↔ ∀ p ∈ l, p.2.isCheckpoint = false := by
  induction l generalizing r with
  | nil => simp [sendRemainingSegments]
  | cons p rest ih =>
    obtain ⟨k, ds⟩ := p
    cases h : ds.isCheckpoint with
    | true => simp [sendRemainingSegments, h]
    | false => simp [sendRemainingSegments, h, ih]

/-- The segment has the range of another one and is deleted if that one is. -/
structure Alike (es ds : LTPDataSegment) : Prop extends SameRange es ds where
  deleted : ds.isDeleted = es.isDeleted

theorem Alike.refl (es : LTPDataSegment) : Alike es es := ⟨.refl es, rfl⟩

theorem Alike.symm (h : Alike es ds) : Alike ds es :=
  ⟨⟨h.start.symm, h.stop.symm, h.offset.symm, h.length.symm⟩, h.deleted.symm⟩

theorem Alike.trans {fs : LTPDataSegment} (h : Alike es ds) (h' : Alike ds fs) : Alike es fs :=
  ⟨⟨h'.start.trans h.start, h'.stop.trans h.stop, h'.offset.trans h.offset,
    h'.length.trans h.length⟩, h'.deleted.trans h.deleted⟩

theorem alike_resent (serial newChkpt : ℕ) (last : Bool) (ds : LTPDataSegment) :
    Alike ds (resent serial newChkpt last ds) := by
  cases last <;> exact ⟨⟨rfl, rfl, rfl, rfl⟩, rfl⟩

/-- The session holds the same ranges and differs in no field that decides about them. -/
structure Requeued (s t : LTPSession) : Prop where
  find : ∀ k es, s.redSegments.find? k = some es →
    ∃ ds, t.redSegments.find? k = some ds ∧ Alike es ds
  origin : ∀ k ds, t.redSegments.find? k = some ds →
    ∃ es, s.redSegments.find? k = some es ∧ Alike es ds
  complete : t.redComplete = s.redComplete
  expected : t.expectedRedBytes = s.expectedRedBytes
  cancelled : t.isLtpCancelled = s.isLtpCancelled

variable {s t : LTPSession}

theorem Requeued.refl (s : LTPSession) : Requeued s s :=
  ⟨fun _ es h => ⟨es, h, .refl es⟩, fun _ es h => ⟨es, h, .refl es⟩, rfl, rfl, rfl⟩

theorem Requeued.trans {u : LTPSession} (h : Requeued s t) (h' : Requeued t u) : Requeued s u where
  find k es hk := by
    obtain ⟨ds, hds, hlike⟩ := h.find k es hk
    obtain ⟨fs, hfs, hlike'⟩ := h'.find k ds hds
    exact ⟨fs, hfs, hlike.trans hlike'⟩
  origin k fs hk := by
    obtain ⟨ds, hds, hlike'⟩ := h'.origin k fs hk
    obtain ⟨es, hes, hlike⟩ := h.origin k ds hds
    exact ⟨es, hes, hlike.trans hlike'⟩
  complete := h'.complete.trans h.complete
  expected := h'.expected.trans h.expected
  cancelled := h'.cancelled.trans h.cancelled

/-- Putting back a segment of the same range. -/
theorem Requeued.putSegment (s : LTPSession)
    (hlike : ∀ es, s.redSegments.find? k = some es → Alike es ds) :
    Requeued s (s.putSegment k ds) := by
  cases hk : s.redSegments.find? k with
  | none =>
    have hsame : s.putSegment k ds = s := by simp [LTPSession.putSegment, hk]
    rw [hsame]
    exact .refl s
  | some old =>
    have hfind : ∀ j, (s.putSegment k ds).redSegments.find? j =
        if j = k then some ds else s.redSegments.find? j := find?_putSegment hk
    refine ⟨fun j es hj => ?_, fun j fs hj => ?_, rfl, rfl, rfl⟩
    · rw [hfind]
      split_ifs with heq
      · subst heq
        exact ⟨ds, rfl, hlike es hj⟩
      · exact ⟨es, hj, .refl es⟩
    · rw [hfind] at hj
      split_ifs at hj with heq
      · subst heq
        cases hj
        exact ⟨old, hk, hlike old hk⟩
      · exact ⟨fs, hj, .refl fs⟩

theorem Requeued.addCheckpointSeg (s : LTPSession) (ds : LTPDataSegment) :
    Requeued s (s.addCheckpointSeg ds) :=
  ⟨fun _ es h => ⟨es, h, .refl es⟩, fun _ es h => ⟨es, h, .refl es⟩, rfl, rfl, rfl⟩

theorem Requeued.resendSegment {r : Resending} (serial : ℕ) (last : Bool)
    (hlike : ∀ es, r.session.redSegments.find? k = some es → Alike es ds) :
    Requeued r.session (resendSegment serial k ds last r).session := by
  rw [session_resendSegment]
  cases last with
  | false => exact .putSegment _ fun es hes => (hlike es hes).trans (alike_resent ..)
  | true =>
    apply (Requeued.addCheckpointSeg r.session _).trans
    exact .putSegment _ fun es hes => (hlike es hes).trans (alike_resent ..)

theorem sendRemainingSegments_requeued (serial : ℕ) {l : List (ℕ × LTPDataSegment)}
    {r r' : Resending}
    (hlike : ∀ p ∈ l, ∀ es, r.session.redSegments.find? p.1 = some es → Alike es p.2)
    (hrun : sendRemainingSegments serial l r = .ok r') : Requeued r.session r'.session := by
  induction l generalizing r with
  | nil =>
    cases hrun
    exact .refl _
  | cons p rest ih =>
    obtain ⟨k, ds⟩ := p
    simp only [sendRemainingSegments] at hrun
    split_ifs at hrun
    have hround := Requeued.resendSegment serial rest.isEmpty (hlike _ List.mem_cons_self)
    apply hround.trans
    apply ih _ hrun
    intro q hq es hes
    obtain ⟨fs, hfs, hfes⟩ := hround.origin _ es hes
    exact hfes.symm.trans (hlike q (List.mem_cons_of_mem _ hq) fs hfs)

/-! ## The condition -/

/-- The report is applied to the segments of the session. -/
def Applies (s : LTPSession) (r : LTPReportSegment) : Prop :=
  claimsWholeSession s r = false ∧ 0 ≤ s.findCheckpointStopByte r.checkpointId

/-- The offset of the claim leaves the word, and the claim comes down on a segment. -/
def Wraps (m : OrdMap ℕ LTPDataSegment) (rptLowerBounds : ℕ) (rc : LTPReportClaim) : Prop :=
  2 ^ 64 ≤ rptLowerBounds + rc.offset ∧ ∃ k es, m.find? k = some es ∧
    u64 (rptLowerBounds + rc.offset) ≤ es.offset ∧
    es.stopByte < u64 (u64 (rptLowerBounds + rc.offset) + rc.length)

/-- Before some claim takes it out of the session, a checkpoint is cut by a claim, or it is the
reported one and lies in front of a claim. -/
def ResendsCheckpoint (m : OrdMap ℕ LTPDataSegment) (r : LTPReportSegment) : Prop :=
  ∃ k es, m.find? k = some es ∧
    (es.isDeleted = false ∧ es.isCheckpoint = true ∧ SentAgain r.checkpointId es r.passes)

/-- The report does not reach one of the flaws. -/
structure Harmless (snd : Sender) (s : LTPSession) (r : ReceivedReport) : Prop where
  whole : claimsWholeSession s r.seg = true →
    ∃ rc ∈ r.claims, rc.offset = 0 ∧ s.expectedRedBytes ≤ rc.length
  current : Applies s r.seg → s.isLtpCancelled = false
  inside : Applies s r.seg →
    ∀ rc ∈ r.seg.claims.values, ¬ Wraps s.redSegments r.seg.lowerBounds rc
  resends : Applies s r.seg → snd.startShuttingDown = false → ¬ ResendsCheckpoint s.redSegments r.seg

instance (s : LTPSession) (r : LTPReportSegment) : Decidable (Applies s r) :=
  inferInstanceAs (Decidable (_ ∧ _))

instance (m : OrdMap ℕ LTPDataSegment) (lower : ℕ) (rc : LTPReportClaim) :
    Decidable (Wraps m lower rc) := by
  unfold Wraps
  infer_instance

instance (m : OrdMap ℕ LTPDataSegment) (r : LTPReportSegment) :
    Decidable (ResendsCheckpoint m r) := by
  unfold ResendsCheckpoint
  infer_instance

instance (snd : Sender) (s : LTPSession) (r : ReceivedReport) : Decidable (Harmless snd s r) :=
  decidable_of_iff
    ((claimsWholeSession s r.seg = true →
        ∃ rc ∈ r.claims, rc.offset = 0 ∧ s.expectedRedBytes ≤ rc.length) ∧
      (Applies s r.seg → s.isLtpCancelled = false) ∧
      (Applies s r.seg → ∀ rc ∈ r.seg.claims.values, ¬ Wraps s.redSegments r.seg.lowerBounds rc) ∧
      (Applies s r.seg → snd.startShuttingDown = false → ¬ ResendsCheckpoint s.redSegments r.seg))
    ⟨fun ⟨h₁, h₂, h₃, h₄⟩ => ⟨h₁, h₂, h₃, h₄⟩, fun ⟨h₁, h₂, h₃, h₄⟩ => ⟨h₁, h₂, h₃, h₄⟩⟩

/-- The condition on one event: it is about reports on a session that the sender still has. -/
def HarmlessEvent (x : Outbound) : SenderEvent → Prop
  | .report r =>
    match x.sender.state with
    | .active s => Harmless x.sender s r
    | _ => True
  | _ => True

instance (x : Outbound) (e : SenderEvent) : Decidable (HarmlessEvent x e) := by
  unfold HarmlessEvent
  split
  · split <;> infer_instance
  · infer_instance

/-! ## One report -/

variable {snd snd' : Sender} {r : LTPReportSegment}

theorem applyClaims_swept (h : Outgoing s.redSegments) (r : LTPReportSegment) :
    Swept r.checkpointId r.passes { redSegments := s.redSegments } (applyClaims r s.redSegments) := by
  rw [applyClaims_eq]
  exact foldl_swept r.checkpointId h

/-- What is sent again are segments of the session. -/
theorem mem_retransmit (h : Outgoing s.redSegments) (r : LTPReportSegment) :
    (k, es) ∈ (applyClaims r s.redSegments).retransmit.entries ↔
      s.redSegments.find? k = some es ∧ es.isDeleted = false ∧
        SentAgain r.checkpointId es r.passes := by
  have hswept := applyClaims_swept h r
  rw [← OrdMap.find?_eq_some_iff]
  constructor
  · intro hk
    rcases hswept.origin k es hk with hempty | hsent
    · cases hempty
    · exact hsent
  · rintro ⟨hk, hdel, hagain⟩
    exact hswept.again k es hk hdel hagain

/-- A report fails the assertion exactly if it is applied while the sender is up and reaches a
checkpoint. -/
theorem applyReport_isOk_iff (snd : Sender) (h : Outgoing s.redSegments) (r : LTPReportSegment) :
    (∃ snd', applyReport snd s r = .ok snd') ↔
      (snd.startShuttingDown = false → ¬ ResendsCheckpoint s.redSegments r) := by
  cases hdown : snd.startShuttingDown with
  | true => simp [applyReport, hdown, pure, Except.pure, bind, Except.bind]
  | false =>
    have hsend := sendRemainingSegments_isOk_iff r.serialNumber
      (applyClaims r s.redSegments).retransmit.entries
      ⟨(s.noteReported r).setRedSegments (applyClaims r s.redSegments).redSegments, snd.queue⟩
    have happly : (∃ snd', applyReport snd s r = .ok snd') ↔ ∃ r',
        sendRemainingSegments r.serialNumber (applyClaims r s.redSegments).retransmit.entries
          ⟨(s.noteReported r).setRedSegments (applyClaims r s.redSegments).redSegments,
            snd.queue⟩ = .ok r' := by
      simp only [applyReport, hdown, Bool.false_eq_true, if_false]
      cases sendRemainingSegments r.serialNumber (applyClaims r s.redSegments).retransmit.entries
          ⟨(s.noteReported r).setRedSegments (applyClaims r s.redSegments).redSegments,
            snd.queue⟩ <;> simp [bind, Except.bind, pure, Except.pure]
    rw [happly, hsend]
    constructor
    · rintro hall - ⟨k, es, hk, hdel, hckpt, hagain⟩
      have hno := hall (k, es) ((mem_retransmit h r).mpr ⟨hk, hdel, hagain⟩)
      exact Bool.false_ne_true (hno.symm.trans hckpt)
    · intro hno p hp
      obtain ⟨hk, hdel, hagain⟩ := (mem_retransmit h r).mp hp
      by_contra hckpt
      exact hno rfl ⟨p.1, p.2, hk, hdel, by simpa using hckpt, hagain⟩

/-- The session after a report is the swept one, up to what is queued. -/
theorem applyReport_requeued (h : Outgoing s.redSegments)
    (hrun : applyReport snd s r = .ok snd') :
    ∃ st : Resending, snd' = snd.settle st ∧ Requeued
      ((s.noteReported r).setRedSegments (applyClaims r s.redSegments).redSegments) st.session := by
  unfold applyReport at hrun
  cases hdown : snd.startShuttingDown with
  | true =>
    simp only [hdown, if_true] at hrun
    cases hrun
    exact ⟨_, rfl, .refl _⟩
  | false =>
    simp only [hdown, Bool.false_eq_true, if_false] at hrun
    generalize hr₀ : (⟨(s.noteReported r).setRedSegments
      (applyClaims r s.redSegments).redSegments, snd.queue⟩ : Resending) = r₀ at hrun
    cases hsend : sendRemainingSegments r.serialNumber
        (applyClaims r s.redSegments).retransmit.entries r₀ with
    | error e =>
      rw [hsend] at hrun
      cases hrun
    | ok st =>
      rw [hsend] at hrun
      cases hrun
      refine ⟨st, rfl, ?_⟩
      subst hr₀
      apply sendRemainingSegments_requeued r.serialNumber _ hsend
      intro p hp es hes
      have hk := ((mem_retransmit h r).mp hp).1
      have hsame := (applyClaims_swept h r).held _ _ hes
      rw [Option.some.inj (hsame.symm.trans hk)]
      exact .refl _

/-! ## What the sender holds -/

/-- The segments of an outgoing session below the offset of the next one. -/
structure Sound (sendGreen : Bool) (s : LTPSession) (offset : ℕ) : Prop where
  outgoing : Outgoing s.redSegments
  below : ∀ k es, s.redSegments.find? k = some es → es.stopByte < offset
  expected : s.expectedRedBytes ≤ offset
  green : sendGreen = true → s.redComplete = false

/-- Unless the session is cancelled, every byte sent is held or was claimed. -/
structure Accounted (sendGreen : Bool) (s : LTPSession) (offset : ℕ) (C : Set ℕ) : Prop
    extends Sound sendGreen s offset where
  live : s.isLtpCancelled = false → ∀ k es, s.redSegments.find? k = some es → es.isDeleted = false
  covered : s.isLtpCancelled = false → sendGreen = false →
    ∀ b < offset, b ∈ C ∨ b ∈ storedBytes s.redSegments

variable {sendGreen : Bool} {offset : ℕ} {C : Set ℕ}

theorem Outgoing.of_sameRange {m' : OrdMap ℕ LTPDataSegment} (h : Outgoing m)
    (horigin : ∀ k ds, m'.find? k = some ds → ∃ es, m.find? k = some es ∧ SameRange es ds) :
    Outgoing m' := by
  constructor
  · constructor
    · intro k ds hk
      obtain ⟨es, hes, hsame⟩ := horigin k ds hk
      exact hsame.start.trans (h.keyed hes)
    · intro k ds hk
      obtain ⟨es, hes, hsame⟩ := horigin k ds hk
      rw [hsame.length, hsame.stop]
      exact h.length hes
    · intro k ds hk
      obtain ⟨es, hes, hsame⟩ := horigin k ds hk
      rw [hsame.stop]
      exact h.nonempty hes
    · intro k l ds ds' hk hl hlt
      obtain ⟨es, hes, hsame⟩ := horigin k ds hk
      obtain ⟨es', hes', -⟩ := horigin l ds' hl
      rw [hsame.stop]
      exact h.apart hes hes' hlt
  · intro k ds hk
    obtain ⟨es, hes, hsame⟩ := horigin k ds hk
    exact hsame.offset.trans (h.offset hes)

theorem Sound.of_sameRange (h : Sound sendGreen s offset)
    (horigin : ∀ k ds, t.redSegments.find? k = some ds →
      ∃ es, s.redSegments.find? k = some es ∧ SameRange es ds)
    (hexpected : t.expectedRedBytes = s.expectedRedBytes)
    (hcomplete : t.redComplete = s.redComplete) : Sound sendGreen t offset where
  outgoing := h.outgoing.of_sameRange horigin
  below k ds hk := by
    obtain ⟨es, hes, hsame⟩ := horigin k ds hk
    rw [hsame.stop]
    exact h.below k es hes
  expected := hexpected.trans_le h.expected
  green hg := hcomplete.trans (h.green hg)

/-- Nothing is promised of a cancelled session. -/
theorem Sound.accounted (h : Sound sendGreen s offset) (hc : s.isLtpCancelled = true) :
    Accounted sendGreen s offset C where
  toSound := h
  live hno := by
    rw [hc] at hno
    cases hno
  covered hno := by
    rw [hc] at hno
    cases hno

theorem Accounted.requeued (h : Accounted sendGreen s offset C) (hq : Requeued s t) :
    Accounted sendGreen t offset C where
  toSound := h.of_sameRange (fun k ds hk => by
    obtain ⟨es, hes, hlike⟩ := hq.origin k ds hk
    exact ⟨es, hes, hlike.toSameRange⟩) hq.expected hq.complete
  live hlive k ds hk := by
    obtain ⟨es, hes, hlike⟩ := hq.origin k ds hk
    rw [hlike.deleted]
    exact h.live (hq.cancelled.symm.trans hlive) k es hes
  covered hlive hred b hb := by
    rcases h.covered (hq.cancelled.symm.trans hlive) hred b hb with hC | ⟨k, es, hk, hkb, hbs⟩
    · exact Or.inl hC
    · obtain ⟨ds, hds, hlike⟩ := hq.find k es hk
      exact Or.inr ⟨k, ds, hds, hkb, hlike.stop.symm ▸ hbs⟩

theorem Accounted.mono {C' : Set ℕ} (h : Accounted sendGreen s offset C) (hC : C ⊆ C') :
    Accounted sendGreen s offset C' where
  toSound := h.toSound
  live := h.live
  covered hlive hred b hb := (h.covered hlive hred b hb).imp_left fun hb => hC hb

/-- The passes keep every segment that they have no claim for. -/
theorem Accounted.swept {passes : List PassBounds} {C' : Set ℕ}
    (h : Accounted sendGreen s offset C) (hlive : s.isLtpCancelled = false)
    (hswept : Swept c passes { redSegments := s.redSegments } st')
    (hremove : ∀ k es, s.redSegments.find? k = some es →
      ∀ b ∈ passes, b.effect c es = .remove → ∀ x, es.startByte ≤ x → x ≤ es.stopByte → x ∈ C') :
    Accounted sendGreen (s.setRedSegments st'.redSegments) offset (C ∪ C') where
  outgoing := h.outgoing.mono hswept.held
  below k es hk := h.below k es (hswept.held k es hk)
  expected := h.expected
  green := h.green
  live _ k es hk := h.live hlive k es (hswept.held k es hk)
  covered _ hred x hx := by
    rcases h.covered hlive hred x hx with hC | ⟨k, es, hk, hkx, hxs⟩
    · exact Or.inl (Or.inl hC)
    · rcases hswept.removed k es hk (h.live hlive k es hk) with hkeep | ⟨b, hb, hrem⟩
      · exact Or.inr ⟨k, es, hkeep, hkx, hxs⟩
      · have hstart : es.startByte ≤ x := (h.outgoing.keyed hk).trans_le hkx
        exact Or.inl (Or.inr (hremove k es hk b hb hrem x hstart hxs))

/-- A segment that a pass removes lies in its claim. -/
theorem PassBounds.effect_remove {b : PassBounds} (h : b.effect c es = .remove) :
    b.claimOffset ≤ es.offset ∧ es.stopByte < b.upperBounds := by
  unfold PassBounds.effect claimEffect at h
  split_ifs at h with _ _ _ hin
  · cases hother : es.isOtherCheckpoint c <;> rw [hother] at h <;> cases h
  · exact hin

/-- Each pass is that of a claim, or claims nothing. -/
theorem mem_passBounds {lower upper : ℕ} {claims : List LTPReportClaim} {u : ℕ} {b : PassBounds}
    (hb : b ∈ passBounds lower upper u claims) :
    (∃ rc ∈ claims, b.claimOffset = u64 (lower + rc.offset) ∧
      b.upperBounds = u64 (b.claimOffset + rc.length)) ∨ b.claimOffset = b.upperBounds := by
  induction claims generalizing u with
  | nil =>
    unfold passBounds at hb
    split_ifs at hb
    · rw [List.mem_singleton.mp hb]
      exact Or.inr rfl
    · cases hb
  | cons rc claims ih =>
    rcases List.mem_cons.mp hb with rfl | hb
    · exact Or.inl ⟨rc, List.mem_cons_self, rfl, rfl⟩
    · rcases ih hb with ⟨rc', hrc', hbounds⟩ | heq
      · exact Or.inl ⟨rc', List.mem_cons_of_mem _ hrc', hbounds⟩
      · exact Or.inr heq

/-- What a report removes it claims, unless a claim wraps around. -/
theorem claimed_of_remove {r : ReceivedReport} (hm : Outgoing s.redSegments)
    (hinside : ∀ rc ∈ r.seg.claims.values, ¬ Wraps s.redSegments r.seg.lowerBounds rc)
    (hk : s.redSegments.find? k = some es) {b : PassBounds} (hb : b ∈ r.seg.passes)
    (hrem : b.effect c es = .remove) {x : ℕ} (hstart : es.startByte ≤ x) (hstop : x ≤ es.stopByte) :
    x ∈ r.claimed := by
  obtain ⟨hlow, hhigh⟩ := PassBounds.effect_remove hrem
  have hoffset : es.offset = es.startByte := (hm.offset hk).trans (hm.keyed hk).symm
  rcases mem_passBounds hb with ⟨rc, hrc, hoff, hup⟩ | heq
  · have hword : r.seg.lowerBounds + rc.offset < 2 ^ 64 := by
      by_contra hover
      exact hinside rc hrc ⟨not_lt.mp hover, k, es, hk, hoff ▸ hlow, hoff ▸ hup ▸ hhigh⟩
    rw [u64_of_lt hword] at hoff
    have hle : u64 (b.claimOffset + rc.length) ≤ b.claimOffset + rc.length := by
      unfold u64
      omega
    refine ⟨rc, mem_claimMap (r.claims_eq ▸ hrc), ?_, ?_⟩
    · omega
    · omega
  · omega

theorem Requeued.noteReported (s : LTPSession) (r : LTPReportSegment) :
    Requeued s (s.noteReported r) := by
  unfold LTPSession.noteReported
  split_ifs
  · exact ⟨fun _ es h => ⟨es, h, .refl es⟩, fun _ es h => ⟨es, h, .refl es⟩, rfl, rfl, rfl⟩
  · exact .refl s

/-- Only a session that holds nothing more is closed. -/
theorem settle_closed {st : Resending} (h : (snd.settle st).state = .closed false) :
    st.session.redComplete = true ∧ ∀ k, st.session.redSegments.find? k = none := by
  unfold Sender.settle at h
  split_ifs at h with hend
  · rw [Bool.and_eq_true] at hend
    exact ⟨hend.1, OrdMap.isEmpty_iff.mp hend.2⟩

/-- A harmless report is taken without a fault, and what it makes the sender let go of has been
claimed. -/
theorem processRs_accounted {r : ReceivedReport} (hactive : snd.state = .active s)
    (h : Accounted sendGreen s offset C) (hr : Harmless snd s r) :
    ∃ snd', processRs snd r.seg = .ok snd' ∧
      (∀ t, snd'.state = .active t → Accounted sendGreen t offset (C ∪ r.claimed)) ∧
      (snd'.state = .closed false → ∀ b < s.expectedRedBytes, b ∈ C ∪ r.claimed) := by
  unfold processRs
  rw [hactive]
  dsimp only
  split_ifs with hwhole hunknown
  · refine ⟨_, rfl, fun t ht => (by cases ht), fun _ b hb => Or.inr ?_⟩
    obtain ⟨rc, hrc, hoff, hlen⟩ := hr.whole hwhole
    have hlower : r.seg.lowerBounds = 0 := by
      simp only [claimsWholeSession, Bool.and_eq_true, beq_iff_eq] at hwhole
      exact hwhole.1.1.2
    exact ⟨rc, hrc, by omega, by omega⟩
  · refine ⟨_, rfl, fun t ht => ?_, fun ht => ?_⟩
    · cases hactive.symm.trans ht
      exact h.mono Set.subset_union_left
    · cases hactive.symm.trans ht
  · have happlies : Applies s r.seg := ⟨Bool.not_eq_true _ ▸ hwhole, not_lt.mp hunknown⟩
    have hlive := hr.current happlies
    obtain ⟨snd', hrun⟩ := (applyReport_isOk_iff (snd.acknowledge r.seg) h.outgoing r.seg).mpr
      (hr.resends happlies)
    obtain ⟨st, hsettle, hq⟩ := applyReport_requeued h.outgoing hrun
    have hnote := h.requeued (Requeued.noteReported s r.seg)
    have hred : (s.noteReported r.seg).redSegments = s.redSegments := redSegments_noteReported
    have hswept := applyClaims_swept h.outgoing r.seg
    rw [← hred] at hswept
    have hacc : Accounted sendGreen st.session offset (C ∪ r.claimed) := by
      apply Accounted.requeued _ (hred ▸ hq)
      apply hnote.swept ((Requeued.noteReported s r.seg).cancelled.trans hlive) hswept
      intro k es hk b hb hrem x hstart hstop
      rw [hred] at hk
      exact claimed_of_remove h.outgoing (hr.inside happlies) hk hb hrem hstart hstop
    refine ⟨snd', hrun, fun t ht => ?_, fun hclosed b hb => ?_⟩
    · rw [hsettle] at ht
      rcases state_settle_cases (snd.acknowledge r.seg) st with hopen | hclosed
      · cases hopen.symm.trans ht
        exact hacc
      · cases hclosed.symm.trans ht
    · obtain ⟨hcomplete, hempty⟩ := settle_closed (hsettle ▸ hclosed)
      have hgreen : sendGreen = false := by
        by_contra hgreen
        rw [hacc.green (by simpa using hgreen)] at hcomplete
        cases hcomplete
      have hlive' : st.session.isLtpCancelled = false :=
        hq.cancelled.trans ((Requeued.noteReported s r.seg).cancelled.trans hlive)
      rcases hacc.covered hlive' hgreen b (hb.trans_le h.expected) with hC | ⟨k, es, hk, -⟩
      · exact hC
      · cases (hempty k).symm.trans hk

/-! ## Everything else that happens -/

/-- What an outgoing session holds, as long as the sender has it. -/
def Outbound.Accounts (sendGreen : Bool) (x : Outbound) (C : Set ℕ) : Prop :=
  ∀ s, x.sender.state = .active s → Accounted sendGreen s x.sessionOffset C

variable {x : Outbound} {p : SegmentationParams}

theorem Outbound.Accounts.onActive {f : LTPSession → Outbound} (h : x.Accounts sendGreen C)
    (hf : ∀ s, x.sender.state = .active s → (f s).Accounts sendGreen C) :
    (x.onActive f).Accounts sendGreen C := by
  unfold Outbound.onActive
  cases hs : x.sender.state with
  | active s => exact hf s hs
  | closed cancelled => exact h
  | unknown => exact h

theorem Outbound.accounts_withState {state : SenderState} (hstate : ∀ s, state ≠ .active s) :
    (x.withState state).Accounts sendGreen C :=
  fun s hs => absurd hs (hstate s)

/-- A cancel by the sender leaves nothing to account for. -/
theorem Sound.buildCsSegment (h : Sound sendGreen s x.sessionOffset) (snd : Sender)
    (reasonCode : ℕ) :
    (x.withSender (snd.buildCsSegment s reasonCode)).Accounts sendGreen C := by
  intro t ht
  simp only [Outbound.withSender, Sender.buildCsSegment] at ht
  split_ifs at ht with hc
  · cases ht
    exact h.accounted hc
  · cases ht
    apply Sound.accounted _ rfl
    exact h.of_sameRange (fun k ds hk => by cases hk) rfl rfl

theorem Sound.putSegment (h : Sound sendGreen s offset)
    (hsame : ∀ es, s.redSegments.find? k = some es → SameRange es ds) :
    Sound sendGreen (s.putSegment k ds) offset := by
  have hexpected : (s.putSegment k ds).expectedRedBytes = s.expectedRedBytes := rfl
  apply h.of_sameRange _ hexpected (redComplete_putSegment s)
  intro j fs hj
  cases hk : s.redSegments.find? k with
  | none =>
    have hput : s.putSegment k ds = s := by simp [LTPSession.putSegment, hk]
    rw [hput] at hj
    exact ⟨fs, hj, .refl fs⟩
  | some old =>
    rw [find?_putSegment hk] at hj
    split_ifs at hj with heq
    · subst heq
      cases hj
      exact ⟨old, hk, hsame old hk⟩
    · exact ⟨fs, hj, .refl fs⟩

theorem Accounted.dataSegTimeout (h : Accounted sendGreen s x.sessionOffset C)
    (hactive : snd.state = .active s) (retranRetries k : ℕ) :
    (x.withSender (snd.dataSegTimeout retranRetries s k)).Accounts sendGreen C := by
  have hsame : (x.withSender snd).Accounts sendGreen C := by
    intro t ht
    cases hactive.symm.trans ht
    exact h
  unfold Sender.dataSegTimeout
  cases hk : s.redSegments.find? k with
  | none => exact hsame
  | some ds =>
    dsimp only
    split_ifs with hidle hretries
    · exact hsame
    · intro t ht
      cases ht
      have hlive : s.isLtpCancelled = false := by
        simp only [Bool.or_eq_true, not_or, Bool.not_eq_true] at hidle
        exact hidle.1.1
      apply h.requeued
      have hput : Requeued s (s.putSegment k
          ({ ds with retransRetries := ds.retransRetries + 1 } : LTPDataSegment).setQueuedToSend) := by
        apply Requeued.putSegment
        intro es hes
        cases hk.symm.trans hes
        exact ⟨⟨rfl, rfl, rfl, rfl⟩, rfl⟩
      exact ⟨hput.find, hput.origin, hput.complete, hput.expected, hlive.symm⟩
    · apply Sound.buildCsSegment
      apply h.putSegment
      intro es hes
      cases hk.symm.trans hes
      exact ⟨rfl, rfl, rfl, rfl⟩

theorem Accounted.forceCancelBySender (h : Accounted sendGreen s x.sessionOffset C)
    (snd : Sender) (k : ℕ) :
    (x.withSender (snd.forceCancelBySender s k)).Accounts sendGreen C := by
  unfold Sender.forceCancelBySender
  cases hk : s.redSegments.find? k with
  | none => exact h.buildCsSegment snd _
  | some ds =>
    apply Sound.buildCsSegment
    apply h.putSegment
    intro es hes
    cases hk.symm.trans hes
    exact ⟨rfl, rfl, rfl, rfl⟩

theorem Accounted.transmit (h : Accounted sendGreen s x.sessionOffset C) (snd : Sender) (k : ℕ) :
    (x.withSender (snd.transmit s k)).Accounts sendGreen C := by
  intro t ht
  cases ht
  cases hk : s.redSegments.find? k with
  | none => exact h
  | some ds =>
    dsimp only
    split_ifs
    · exact h
    · apply h.requeued
      apply Requeued.putSegment
      intro es hes
      cases hk.symm.trans hes
      exact ⟨⟨rfl, rfl, rfl, rfl⟩, rfl⟩

/-- The range of a new segment is that of its part of the block. -/
theorem BlockPart.segment_range (part : BlockPart) (p : SegmentationParams) (s : LTPSession)
    (offset : ℕ) (isCheckpoint lastSeg : Bool) :
    (part.segment p s offset isCheckpoint lastSeg).startByte = offset ∧
      (part.segment p s offset isCheckpoint lastSeg).offset = offset ∧
      (part.segment p s offset isCheckpoint lastSeg).stopByte = offset + part.length - 1 ∧
      (part.segment p s offset isCheckpoint lastSeg).payloadLength = part.length ∧
      (part.segment p s offset isCheckpoint lastSeg).isDeleted = false ∧
      (part.segment p s offset isCheckpoint lastSeg).redGreen =
        if p.sendGreen then .green else .red := by
  cases part <;> cases isCheckpoint <;> exact ⟨rfl, rfl, rfl, rfl, rfl, rfl⟩

/-- A new red segment starts where the last one ended. -/
theorem Accounted.storeRed (h : Accounted false s offset C) {len : ℕ} (hlen : 0 < len)
    (hstart : ds.startByte = offset) (hoff : ds.offset = offset)
    (hstop : ds.stopByte = offset + len - 1) (hpay : ds.payloadLength = len)
    (hdel : ds.isDeleted = false) :
    Accounted false ((s.noteRedEob ds).storeRed ds) (offset + len) C := by
  have hnew : s.redSegments.find? ds.startByte = none := by
    cases hk : s.redSegments.find? ds.startByte with
    | none => rfl
    | some es =>
      have := h.below _ es hk
      have := h.outgoing.nonempty hk
      omega
  have hfind : ∀ k es, ((s.noteRedEob ds).storeRed ds).redSegments.find? k = some es →
      (k = ds.startByte ∧ es = ds) ∨ s.redSegments.find? k = some es := by
    intro k es hk
    simp only [LTPSession.storeRed, LTPSession.noteRedEob, OrdMap.find?_insert] at hk
    split_ifs at hk with heq
    · cases hk
      exact Or.inl ⟨heq, rfl⟩
    · exact Or.inr hk
  constructor
  · constructor
    · constructor
      · apply h.outgoing.toSegmentsOk.insert_range
        · omega
        · omega
        · intro k es hk
          have := h.below k es hk
          omega
      · intro k es hk
        rcases hfind k es hk with ⟨rfl, rfl⟩ | hold
        · omega
        · exact h.outgoing.offset hold
    · intro k es hk
      rcases hfind k es hk with ⟨rfl, rfl⟩ | hold
      · omega
      · have := h.below k es hold
        omega
    · have hword : u64 (ds.stopByte + 1) ≤ ds.stopByte + 1 := by
        unfold u64
        omega
      have hbelow := h.expected
      have hmax : ((s.noteRedEob ds).storeRed ds).expectedRedBytes =
          if s.expectedRedBytes < u64 (ds.stopByte + 1) then u64 (ds.stopByte + 1)
          else s.expectedRedBytes := rfl
      rw [hmax]
      split_ifs <;> omega
    · intro hg
      cases hg
  · intro hlive k es hk
    rcases hfind k es hk with ⟨rfl, rfl⟩ | hold
    · exact hdel
    · exact h.live hlive k es hold
  · intro hlive hred b hb
    have hstored := storedBytes_insert hnew b
    rcases lt_or_ge b offset with hlow | hhigh
    · exact (h.covered hlive hred b hlow).imp_right fun hs => hstored.mpr (Or.inl hs)
    · exact Or.inr (hstored.mpr (Or.inr ⟨by omega, by omega⟩))

/-- A green session has nothing to be claimed. -/
theorem Accounted.storeGreen (h : Accounted true s offset C) (len : ℕ) (ds : LTPDataSegment) :
    Accounted true ((s.noteRedEob ds).storeGreen ds) (offset + len) C where
  outgoing := h.outgoing
  below k es hk := (h.below k es hk).trans_le (Nat.le_add_right _ _)
  expected := h.expected.trans (Nat.le_add_right _ _)
  green := h.green
  live := h.live
  covered _ hred := by cases hred

theorem Accounted.sendSegment (h : Accounted p.sendGreen s x.sessionOffset C) (part : BlockPart)
    (hlen : 0 < part.length) (isCheckpoint lastSeg : Bool) :
    (x.sendSegment p s part isCheckpoint lastSeg).Accounts p.sendGreen C := by
  intro t ht
  cases ht
  generalize hckpt : ((isCheckpoint || lastSeg) && !p.sendGreen) = ckpt
  generalize hds : part.segment p s x.sessionOffset ckpt lastSeg = ds
  obtain ⟨hstart, hoff, hstop, hpay, hdel, hcolor⟩ :=
    part.segment_range p s x.sessionOffset ckpt lastSeg
  rw [hds] at hstart hoff hstop hpay hdel hcolor
  have hadd : Accounted p.sendGreen (addSegmentOutgoing s ds.setQueuedToSend)
      (x.sessionOffset + ds.payloadLength) C := by
    unfold addSegmentOutgoing
    have hcolor' : ds.setQueuedToSend.redGreen = if p.sendGreen then .green else .red := hcolor
    rw [hcolor', hpay]
    cases hg : p.sendGreen with
    | true =>
      rw [hg] at h
      exact h.storeGreen _ _
    | false =>
      rw [hg] at h
      exact h.storeRed hlen hstart hoff hstop hpay hdel
  simp only [Outbound.sendSegment, Sending.send, hckpt, hds]
  cases ckpt
  · exact hadd
  · exact hadd.requeued (.addCheckpointSeg _ _)

/-- No event but a report asks for anything, and none of them faults. -/
theorem outboundStep_accounts (p : SegmentationParams) (retranRetries : ℕ)
    (h : x.Accounts p.sendGreen C) (e : SenderEvent) (he : ∀ r, e ≠ .report r) :
    ∃ y, outboundStep p retranRetries x e = .ok y ∧ y.Accounts p.sendGreen C := by
  cases e with
  | segment part hlen isCheckpoint lastSeg =>
    refine ⟨_, rfl, h.onActive fun s hs => ?_⟩
    split_ifs
    · exact h
    · exact (h s hs).sendSegment part hlen isCheckpoint lastSeg
  | report r => exact absurd rfl (he r)
  | cancelByReceiver =>
    exact ⟨_, rfl, h.onActive fun _ _ => Outbound.accounts_withState (by simp)⟩
  | cancelAcknowledged =>
    exact ⟨_, rfl, h.onActive fun _ _ => Outbound.accounts_withState (by simp)⟩
  | transmit k => exact ⟨_, rfl, h.onActive fun s hs => (h s hs).transmit _ k⟩
  | dataSegTimeout k =>
    exact ⟨_, rfl, h.onActive fun s hs => (h s hs).dataSegTimeout hs retranRetries k⟩
  | cancelSegTimeout retriesExceeded =>
    refine ⟨_, rfl, h.onActive fun s hs => ?_⟩
    split_ifs
    · exact Outbound.accounts_withState (by simp)
    · exact h
  | forceCancelBySender k =>
    exact ⟨_, rfl, h.onActive fun s hs => (h s hs).forceCancelBySender _ k⟩
  | startShutdown =>
    refine ⟨_, rfl, ?_⟩
    have hdown : (x.withSender { x.sender with startShuttingDown := true }).Accounts
        p.sendGreen C := h
    apply hdown.onActive
    intro s hs
    unfold Sender.cancelAllSessions
    split_ifs
    · exact (hdown s hs).buildCsSegment _ _
    · exact hdown
  | closeoutTimeout =>
    refine ⟨_, rfl, ?_⟩
    unfold Outbound.closeout
    split
    · exact Outbound.accounts_withState (by simp)
    · exact h

/-! ## Runs -/

/-- The bytes that the reports among the events claim. -/
def heard (events : List SenderEvent) : Set ℕ :=
  {b | ∃ r, SenderEvent.report r ∈ events ∧ b ∈ r.claimed}

theorem heard_append_report (events : List SenderEvent) (r : ReceivedReport) :
    heard (events ++ [.report r]) = heard events ∪ r.claimed := by
  ext b
  simp only [heard, List.mem_append, List.mem_singleton, Set.mem_union, Set.mem_ofPred_eq]
  constructor
  · rintro ⟨r', hmem | heq, hb⟩
    · exact Or.inl ⟨r', hmem, hb⟩
    · cases heq
      exact Or.inr hb
  · rintro (⟨r', hmem, hb⟩ | hb)
    · exact ⟨r', Or.inl hmem, hb⟩
    · exact ⟨r, Or.inr rfl, hb⟩

theorem heard_mono (events more : List SenderEvent) : heard events ⊆ heard (events ++ more) := by
  rintro b ⟨r, hr, hb⟩
  exact ⟨r, List.mem_append_left _ hr, hb⟩

/-- A report on a session that is gone is answered or ignored. -/
theorem processRs_gone (hgone : ∀ s, snd.state ≠ .active s) (r : LTPReportSegment) :
    ∃ snd', processRs snd r = .ok snd' ∧ snd'.state = snd.state := by
  unfold processRs
  cases hs : snd.state with
  | active s => exact absurd hs (hgone s)
  | closed cancelled =>
    cases cancelled
    · exact ⟨_, rfl, hs⟩
    · exact ⟨_, rfl, hs⟩
  | unknown => exact ⟨_, rfl, hs⟩

/-- A harmless step accounts for what was sent. -/
theorem outboundStep_heard (p : SegmentationParams) (retranRetries : ℕ) {past : List SenderEvent}
    (h : x.Accounts p.sendGreen (heard past)) {e : SenderEvent} (he : HarmlessEvent x e) :
    ∃ y, outboundStep p retranRetries x e = .ok y ∧ y.Accounts p.sendGreen (heard (past ++ [e])) := by
  by_cases hreport : ∃ r, e = .report r
  · obtain ⟨r, rfl⟩ := hreport
    rw [heard_append_report]
    by_cases hactive : ∃ s, x.sender.state = .active s
    · obtain ⟨s, hs⟩ := hactive
      simp only [HarmlessEvent, hs] at he
      obtain ⟨snd', hrun, hacc, -⟩ := processRs_accounted hs (h s hs) he
      exact ⟨x.withSender snd', by simp [outboundStep, hrun, Except.map], hacc⟩
    · rw [not_exists] at hactive
      obtain ⟨snd', hrun, hstate⟩ := processRs_gone hactive r.seg
      refine ⟨x.withSender snd', by simp [outboundStep, hrun, Except.map], fun t ht => ?_⟩
      exact absurd (hstate.symm.trans ht) (hactive t)
  · obtain ⟨y, hrun, hacc⟩ := outboundStep_accounts p retranRetries h e
      fun r hr => hreport ⟨r, hr⟩
    exact ⟨y, hrun, fun s hs => (hacc s hs).mono (heard_mono past [e])⟩

theorem Outbound.start_accounts (sendGreen : Bool) (engineId sessionId checkpointId : ℕ)
    (bundleList : List ℕ) :
    (Outbound.start engineId sessionId checkpointId bundleList).Accounts sendGreen (heard []) := by
  intro s hs
  cases hs
  constructor
  · constructor
    · exact ⟨SegmentsOk.empty, fun hk => by cases hk⟩
    · intro k es hk
      cases hk
    · exact le_rfl
    · exact fun _ => rfl
  · intro _ k es hk
    cases hk
  · intro _ _ b hb
    cases hb

/-- As long as every report of a run is harmless, none of them faults, and one that completes the
session leaves no byte of it that was not claimed by a report up to then. -/
theorem processRs_run_claimed (p : SegmentationParams)
    (retranRetries engineId sessionId checkpointId : ℕ) (bundleList : List ℕ)
    (events : List SenderEvent) (r : ReceivedReport)
    (h : Meets (outboundStep p retranRetries) HarmlessEvent
      (.start engineId sessionId checkpointId bundleList) (events ++ [.report r])) :
    ∃ x snd, run (outboundStep p retranRetries)
        (.start engineId sessionId checkpointId bundleList) events = .ok x ∧
      processRs x.sender r.seg = .ok snd ∧
      ∀ s, x.sender.state = .active s → snd.state = .closed false →
        ∀ b < s.expectedRedBytes,
          ∃ r', SenderEvent.report r' ∈ events ++ [.report r] ∧ b ∈ r'.claimed := by
  have hmeets := h.take events.length
  rw [List.take_left] at hmeets
  obtain ⟨x, hrun, hacc⟩ := run_invariant
    (fun x past => x.Accounts p.sendGreen (heard past))
    (fun x past e hx he => outboundStep_heard p retranRetries hx he)
    (Outbound.start_accounts p.sendGreen engineId sessionId checkpointId bundleList) hmeets
  have hharmless : HarmlessEvent x (.report r) := by
    apply h.at_index (n := events.length)
    · rw [List.take_left]
      exact hrun
    · simp
  by_cases hactive : ∃ s, x.sender.state = .active s
  · obtain ⟨s, hs⟩ := hactive
    simp only [HarmlessEvent, hs] at hharmless
    obtain ⟨snd, hreport, -, hclosed⟩ := processRs_accounted hs (hacc s hs) hharmless
    refine ⟨x, snd, hrun, hreport, fun s' hs' hend b hb => ?_⟩
    cases hs.symm.trans hs'
    have hheard := hclosed hend b hb
    rw [← heard_append_report] at hheard
    exact hheard
  · rw [not_exists] at hactive
    obtain ⟨snd, hreport, -⟩ := processRs_gone hactive r.seg
    exact ⟨x, snd, hrun, hreport, fun s hs => absurd hs (hactive s)⟩

/-- A report as it would be received, with any claims. -/
def receivedOn (checkpointId lowerBounds upperBounds : ℕ) (claims : List LTPReportClaim) :
    ReceivedReport where
  seg :=
    { engineId := 1, sessionId := 1, checkpointId, serialNumber := 40, lowerBounds, upperBounds
      claimCount := claims.length, claimedBytes := claimTotal claims, claims := claimMap claims }
  claims := claims
  claims_eq := rfl
  claimedBytes_eq := rfl

def redParams : SegmentationParams :=
  { segSize := 5, bytesPerCheckpoint := 0, ccsdsCompatible := false, sendGreen := false
    sessionSize := 10 }

/-- Two segments, of which the first is lost: the second report claims it. -/
def lostThenClaimed : List SenderEvent :=
  [.segment (.buffer [0, 1, 2, 3, 4]) (by decide) false false,
    .segment (.buffer [5, 6, 7, 8, 9]) (by decide) false true,
    .report (receivedOn 1 0 10 [⟨5, 5⟩])]

theorem processRs_run_claimed_lost :
    ∃ x snd, run (outboundStep redParams 3) (.start 1 1 0 []) lostThenClaimed = .ok x ∧
      processRs x.sender (receivedOn 2 0 5 [⟨0, 5⟩]).seg = .ok snd ∧
      ∀ s, x.sender.state = .active s → snd.state = .closed false →
        ∀ b < s.expectedRedBytes, ∃ r',
          SenderEvent.report r' ∈ lostThenClaimed ++ [.report (receivedOn 2 0 5 [⟨0, 5⟩])] ∧
            b ∈ r'.claimed :=
  processRs_run_claimed redParams 3 1 1 0 [] lostThenClaimed (receivedOn 2 0 5 [⟨0, 5⟩])
    (by decide +kernel)

/-- What the sender has of the session. -/
def SenderState.session? : SenderState → Option LTPSession
  | .active s => some s
  | _ => none

/-- Whether the session was completed. -/
def SenderState.isCompleted : SenderState → Bool
  | .closed false => true
  | _ => false

theorem SenderState.eq_of_isCompleted {state : SenderState} (h : state.isCompleted = true) :
    state = .closed false := by
  unfold isCompleted at h
  split at h
  · rfl
  · cases h

/-- One segment of ten bytes. -/
def tenBytes : List SenderEvent :=
  [.segment (.buffer [0, 1, 2, 3, 4, 5, 6, 7, 8, 9]) (by decide) false true]

/-- Two claims of the same five bytes add up to the ten bytes of the session. -/
theorem processRs_run_unclaimed :
    ¬ ∀ (p : SegmentationParams) (retranRetries engineId sessionId checkpointId : ℕ)
      (bundleList : List ℕ) (events : List SenderEvent) (r : ReceivedReport),
      ∃ x snd, run (outboundStep p retranRetries)
          (.start engineId sessionId checkpointId bundleList) events = .ok x ∧
        processRs x.sender r.seg = .ok snd ∧
        ∀ s, x.sender.state = .active s → snd.state = .closed false →
          ∀ b < s.expectedRedBytes,
            ∃ r', SenderEvent.report r' ∈ events ++ [.report r] ∧ b ∈ r'.claimed := by
  intro hall
  obtain ⟨x, snd, hx, hsnd, hclaimed⟩ :=
    hall redParams 3 1 1 0 [] tenBytes (receivedOn 1 0 10 [⟨0, 5⟩, ⟨0, 5⟩])
  have hcode : ∃ x, run (outboundStep redParams 3) (.start 1 1 0 []) tenBytes = .ok x ∧
      (x.sender.state.session?.map (·.expectedRedBytes) = some 10 ∧
        ∃ snd, processRs x.sender (receivedOn 1 0 10 [⟨0, 5⟩, ⟨0, 5⟩]).seg = .ok snd ∧
          snd.state.isCompleted = true) := by decide +kernel
  obtain ⟨x', hx', hexpected, snd', hsnd', hdone⟩ := hcode
  cases hx.symm.trans hx'
  cases hsnd.symm.trans hsnd'
  cases hs : x.sender.state with
  | active s =>
    rw [hs] at hexpected
    have hten : s.expectedRedBytes = 10 := Option.some.inj hexpected
    obtain ⟨r', hr', hb⟩ := hclaimed s hs (SenderState.eq_of_isCompleted hdone) 7 (by omega)
    have hr : r' = receivedOn 1 0 10 [⟨0, 5⟩, ⟨0, 5⟩] := by simpa [tenBytes] using hr'
    subst hr
    obtain ⟨rc, hrc, -, hend⟩ := hb
    have hlen : rc = ⟨0, 5⟩ := by simpa [receivedOn] using hrc
    subst hlen
    exact absurd hend (by decide)
  | closed cancelled =>
    rw [hs] at hexpected
    cases hexpected
  | unknown =>
    rw [hs] at hexpected
    cases hexpected

/-- A claim that cuts the checkpoint itself fails the assertion. -/
example : ∃ x, run (outboundStep redParams 3) (.start 1 1 0 []) tenBytes = .ok x ∧
    processRs x.sender (receivedOn 1 0 10 [⟨0, 5⟩]).seg = .error .assertFailed := by decide +kernel

end Dtnme.Ltp
