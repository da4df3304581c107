import Dtnme.Library.Transition
import Dtnme.Ltp.Overlap

/-! # Receipt of a report segment

What the sender does with a report on one of its sessions: claimed segments leave the
session, unclaimed ones are queued again, and the last of these becomes a new checkpoint.
The segments are shared between the session and the queue of the convergence layer, so the
queue holds their first bytes only, each with whether a retransmission timer came with it.
-/

namespace Dtnme.Ltp
open Library

/-! ## Claims -/

/-- A checkpoint other than the one that is reported on. -/
def LTPDataSegment.isOtherCheckpoint (ds : LTPDataSegment) (checkpointId : ℕ) : Bool :=
  ds.isCheckpoint && ds.checkpointId != checkpointId

/-- The maps that `RemoveClaimedSegments` works on, and its count. -/
structure ClaimPass where
  segsClaimed : ℕ := 0
  redSegments : OrdMap ℕ LTPDataSegment
  retransmit : OrdMap ℕ LTPDataSegment := .empty

def ClaimPass.drop (st : ClaimPass) (k : ℕ) : ClaimPass :=
  { st with redSegments := st.redSegments.erase k }

def ClaimPass.claim (st : ClaimPass) (k : ℕ) : ClaimPass :=
  { st with segsClaimed := st.segsClaimed + 1, redSegments := st.redSegments.erase k }

def ClaimPass.resend (st : ClaimPass) (ds : LTPDataSegment) : ClaimPass :=
  { st with retransmit := st.retransmit.insert ds.startByte ds }

/-- The loop of `RemoveClaimedSegments`. A segment that is neither before the claim nor inside
it is sent again without a look at its checkpoint. -/
def claimLoop (checkpointId lowerBounds claimOffset upperBounds : ℕ) :
    List (ℕ × LTPDataSegment) → ClaimPass → ClaimPass
  | [], st => st
  | (k, ds) :: rest, st =>
    if ds.isDeleted then
      claimLoop checkpointId lowerBounds claimOffset upperBounds rest (st.drop k)
    else if ds.stopByte < lowerBounds then
      claimLoop checkpointId lowerBounds claimOffset upperBounds rest st
    else if upperBounds ≤ ds.offset then st
    else if ds.stopByte < claimOffset then
      if ds.isOtherCheckpoint checkpointId then
        claimLoop checkpointId lowerBounds claimOffset upperBounds rest st
      else claimLoop checkpointId lowerBounds claimOffset upperBounds rest (st.resend ds)
    else if claimOffset ≤ ds.offset ∧ ds.stopByte < upperBounds then
      if ds.isOtherCheckpoint checkpointId then
        claimLoop checkpointId lowerBounds claimOffset upperBounds rest st
      else claimLoop checkpointId lowerBounds claimOffset upperBounds rest (st.claim k)
    else claimLoop checkpointId lowerBounds claimOffset upperBounds rest (st.resend ds)

def removeClaimedSegments (checkpointId lowerBounds claimOffset upperBounds : ℕ)
    (st : ClaimPass) : ClaimPass :=
  claimLoop checkpointId lowerBounds claimOffset upperBounds
    (st.redSegments.fromBefore lowerBounds) st

/-- One pass for each claim, each from the end of the claim before; also the end of the last. -/
def claimPasses (checkpointId rptLowerBounds : ℕ) :
    List LTPReportClaim → ℕ → ClaimPass → ℕ × ClaimPass
  | [], claimUpperBounds, st => (claimUpperBounds, st)
  | rc :: rest, claimLowerBounds, st =>
    let claimOffset := u64 (rptLowerBounds + rc.offset)
    let claimUpperBounds := u64 (claimOffset + rc.length)
    claimPasses checkpointId rptLowerBounds rest claimUpperBounds
      (removeClaimedSegments checkpointId claimLowerBounds claimOffset claimUpperBounds st)

/-- The passes of one report: its claims, and the gap up to its upper bound. -/
def applyClaims (rptSeg : LTPReportSegment) (redSegments : OrdMap ℕ LTPDataSegment) : ClaimPass :=
  let (claimUpperBounds, st) := claimPasses rptSeg.checkpointId rptSeg.lowerBounds
    rptSeg.claims.values rptSeg.lowerBounds { redSegments := redSegments }
  if claimUpperBounds < rptSeg.upperBounds then
    removeClaimedSegments rptSeg.checkpointId claimUpperBounds rptSeg.upperBounds
      rptSeg.upperBounds st
  else st

/-! ## Segments to send again -/

/-- `Set_Checkpoint_ID` and `Set_Report_Serial_Number`. -/
def LTPDataSegment.setCheckpoint (ds : LTPDataSegment) (newChkpt newRsn : ℕ) : LTPDataSegment :=
  { ds with checkpointId := newChkpt, isCheckpoint := decide (0 < newChkpt), serialNumber := newRsn }

def LTPDataSegment.setQueuedToSend (ds : LTPDataSegment) : LTPDataSegment :=
  { ds with queuedToSend := true }

/-- `Get_Next_Checkpoint_ID`, and `Add_Checkpoint_Seg` for the segment that takes it. -/
def LTPSession.addCheckpointSeg (s : LTPSession) (ds : LTPDataSegment) : LTPSession :=
  { s with
    checkpointId := ds.checkpointId
    checkpoints := s.checkpoints.insert ds.checkpointId (i64 ds.stopByte) }

/-- A segment changes where the session holds it. -/
def LTPSession.putSegment (s : LTPSession) (k : ℕ) (ds : LTPDataSegment) : LTPSession :=
  { s with
    redSegments := match s.redSegments.find? k with
      | some _ => s.redSegments.insert k ds
      | none => s.redSegments }

/-- The session and the queue of the convergence layer. -/
structure Resending where
  session : LTPSession
  queue : List (ℕ × Bool)

/-- One round of `Send_Remaining_Segments`. The last segment becomes a checkpoint even when it
is queued already. -/
def resendSegment (reportSerialNum k : ℕ) (ds : LTPDataSegment) (last : Bool) (st : Resending) :
    Resending :=
  let ds := if last then ds.setCheckpoint (u64 (st.session.checkpointId + 1)) reportSerialNum else ds
  let s := if last then st.session.addCheckpointSeg ds else st.session
  if ds.queuedToSend then ⟨s.putSegment k ds, st.queue⟩
  else ⟨s.putSegment k ds.setQueuedToSend, st.queue ++ [(k, last)]⟩

/-- `Send_Remaining_Segments` over the map of segments to send again. -/
def sendRemainingSegments (reportSerialNum : ℕ) :
    List (ℕ × LTPDataSegment) → Resending → Except Fault Resending
  | [], st => .ok st
  | (k, ds) :: rest, st =>
    if ds.isCheckpoint then .error .assertFailed
    else sendRemainingSegments reportSerialNum rest
      (resendSegment reportSerialNum k ds rest.isEmpty st)

/-! ## The sender -/

/-- What the sender knows of a session. -/
inductive SenderState
  | active (s : LTPSession)
  | closed (cancelled : Bool)
  | unknown

/-- The sender with respect to one session: what it has acknowledged and cancelled, and the
bundles that it has reported as transmitted. -/
structure Sender where
  startShuttingDown : Bool := false
  state : SenderState
  queue : List (ℕ × Bool) := []
  reportAcks : List ℕ := []
  cancelSegments : ℕ := 0
  transmitted : List ℕ := []

def Sender.redSegments (snd : Sender) : OrdMap ℕ LTPDataSegment :=
  match snd.state with
  | .active s => s.redSegments
  | _ => .empty

def Sender.acknowledge (snd : Sender) (rptSeg : LTPReportSegment) : Sender :=
  { snd with reportAcks := snd.reportAcks ++ [rptSeg.serialNumber] }

def Sender.cancel (snd : Sender) : Sender := { snd with cancelSegments := snd.cancelSegments + 1 }

/-- `cleanup_sender_session` for a completed session. -/
def Sender.completed (snd : Sender) (s : LTPSession) : Sender :=
  { snd with
    state := .closed false
    transmitted := snd.transmitted ++
      if 0 < s.expectedRedBytes ∨ 0 < s.expectedGreenBytes then s.bundleList.reverse else [] }

/-- The report claims everything in one claim. -/
def claimsWholeSession (s : LTPSession) (rptSeg : LTPReportSegment) : Bool :=
  s.redComplete && rptSeg.lowerBounds == 0 && rptSeg.claims.size == 1 &&
    rptSeg.claimedBytes == s.expectedRedBytes

/-- `Find_Checkpoint_Stop_Byte`. -/
def LTPSession.findCheckpointStopByte (s : LTPSession) (checkpointId : ℕ) : ℤ :=
  (s.checkpoints.find? checkpointId).getD (-1)

/-- `Flag_Checkpoint_As_Claimed`. -/
def LTPSession.flagCheckpointAsClaimed (s : LTPSession) (checkpointId : ℕ) : LTPSession :=
  { s with checkpoints := s.checkpoints.insert checkpointId (-99) }

/-- The session when the report reaches just past the checkpoint. -/
def LTPSession.noteReported (s : LTPSession) (rptSeg : LTPReportSegment) : LTPSession :=
  if u64OfInt (s.findCheckpointStopByte rptSeg.checkpointId + 1) = rptSeg.upperBounds then
    s.flagCheckpointAsClaimed rptSeg.checkpointId
  else s

def LTPSession.setRedSegments (s : LTPSession) (m : OrdMap ℕ LTPDataSegment) : LTPSession :=
  { s with redSegments := m }

/-- The end of `process_RS`: the session completes once nothing is left in it. -/
def Sender.settle (snd : Sender) (r : Resending) : Sender :=
  if r.session.redComplete && r.session.redSegments.isEmpty then
    Sender.completed { snd with state := .active r.session, queue := r.queue } r.session
  else { snd with state := .active r.session, queue := r.queue }

/-- The part of `process_RS` that applies the report to an open session. -/
def applyReport (snd : Sender) (s : LTPSession) (rptSeg : LTPReportSegment) :
    Except Fault Sender := do
  let pass := applyClaims rptSeg s.redSegments
  let r : Resending :=
    ⟨(s.noteReported rptSeg).setRedSegments pass.redSegments, snd.queue⟩
  let r ← if snd.startShuttingDown then pure r
    else sendRemainingSegments rptSeg.serialNumber pass.retransmit.entries r
  pure (snd.settle r)

/-- `process_RS`. -/
def processRs (snd : Sender) (rptSeg : LTPReportSegment) : Except Fault Sender :=
  match snd.state with
  | .unknown => .ok snd.cancel
  | .closed true => .ok snd.cancel
  | .closed false => .ok (snd.acknowledge rptSeg)
  | .active s =>
    let snd := snd.acknowledge rptSeg
    if claimsWholeSession s rptSeg then .ok (snd.completed s)
    else if s.findCheckpointStopByte rptSeg.checkpointId < 0 then .ok snd
    else applyReport snd s rptSeg

/-! ## One pass -/

/-- The segments of an outgoing session. -/
structure Outgoing (m : OrdMap ℕ LTPDataSegment) : Prop extends SegmentsOk m where
  offset : ∀ {k ds}, m.find? k = some ds → ds.offset = k

/-- What a pass does with a segment. -/
inductive Effect
  | keep
  | resend
  | remove
  deriving DecidableEq

/-- The entries of a segment in the two maps, after an effect on it. -/
def Effect.apply (ds : LTPDataSegment) :
    Effect → Option LTPDataSegment × Option LTPDataSegment →
      Option LTPDataSegment × Option LTPDataSegment
  | .keep, e => e
  | .resend, e => (e.1, some ds)
  | .remove, e => (none, e.2)

/-- The same, except for a checkpoint that the report is not about. -/
def Effect.unless (e : Effect) (other : Bool) : Effect := if other then .keep else e

def claimEffect (checkpointId lowerBounds claimOffset upperBounds : ℕ) (ds : LTPDataSegment) :
    Effect :=
  if ds.stopByte < lowerBounds then .keep
  else if upperBounds ≤ ds.offset then .keep
  else if ds.stopByte < claimOffset then Effect.resend.unless (ds.isOtherCheckpoint checkpointId)
  else if claimOffset ≤ ds.offset ∧ ds.stopByte < upperBounds then
    Effect.remove.unless (ds.isOtherCheckpoint checkpointId)
  else .resend

def ClaimPass.entry (st : ClaimPass) (k : ℕ) : Option LTPDataSegment × Option LTPDataSegment :=
  (st.redSegments.find? k, st.retransmit.find? k)

/-- A deleted segment is dropped or stays as it was. -/
def Dropped (e e' : Option LTPDataSegment × Option LTPDataSegment) : Prop :=
  e' = e ∨ e' = (none, e.2)

variable {m : OrdMap ℕ LTPDataSegment} {ds es : LTPDataSegment} {st : ClaimPass}
  {k c lo off up : ℕ} {rest : List (ℕ × LTPDataSegment)}

@[simp] theorem Effect.apply_keep (e : Option LTPDataSegment × Option LTPDataSegment) :
    Effect.keep.apply ds e = e := rfl

@[simp] theorem Effect.unless_true (e : Effect) : e.unless true = .keep := rfl

@[simp] theorem Effect.unless_false (e : Effect) : e.unless false = e := rfl

theorem ClaimPass.entry_drop (j : ℕ) :
    (st.drop k).entry j = if j = k then (none, (st.entry j).2) else st.entry j := by
  simp only [entry, drop, OrdMap.find?_erase]
  split_ifs <;> rfl

theorem ClaimPass.entry_claim (j : ℕ) :
    (st.claim k).entry j = if j = k then (none, (st.entry j).2) else st.entry j := by
  simp only [entry, claim, OrdMap.find?_erase]
  split_ifs <;> rfl

theorem ClaimPass.entry_resend (hds : ds.startByte = k) (j : ℕ) :
    (st.resend ds).entry j = if j = k then ((st.entry j).1, some ds) else st.entry j := by
  simp only [entry, resend, OrdMap.find?_insert, hds]
  split_ifs <;> rfl

/-- The loop stops at a segment behind the claim, or goes on with the entry of that segment
changed and all others as they were. -/
theorem claimLoop_cons (c lo off up : ℕ) (rest : List (ℕ × LTPDataSegment)) (st : ClaimPass)
    (hds : ds.startByte = k) :
    (claimLoop c lo off up ((k, ds) :: rest) st = st ∧ up ≤ ds.offset ∧ ds.isDeleted = false) ∨
      ∃ st', claimLoop c lo off up ((k, ds) :: rest) st = claimLoop c lo off up rest st' ∧
        (∀ j, j ≠ k → st'.entry j = st.entry j) ∧
        (ds.isDeleted = true → Dropped (st.entry k) (st'.entry k)) ∧
        (ds.isDeleted = false → st'.entry k = (claimEffect c lo off up ds).apply ds (st.entry k)) := by
  have hresend : (∀ j, j ≠ k → (st.resend ds).entry j = st.entry j) ∧
      (st.resend ds).entry k = Effect.resend.apply ds (st.entry k) := by
    constructor
    · intro j hj
      rw [ClaimPass.entry_resend hds, if_neg hj]
    · rw [ClaimPass.entry_resend hds, if_pos rfl]
      rfl
  cases hdel : ds.isDeleted with
  | true =>
    refine Or.inr ⟨st.drop k, by simp only [claimLoop, hdel, if_true], fun j hj => ?_,
      fun _ => Or.inr ?_, fun h => by cases h⟩
    · rw [ClaimPass.entry_drop, if_neg hj]
    · rw [ClaimPass.entry_drop, if_pos rfl]
  | false =>
    simp only [claimLoop, claimEffect, hdel, Bool.false_eq_true, if_false]
    split_ifs with hlow hup hoff hother hin hother
    · exact Or.inr ⟨st, rfl, fun _ _ => rfl, fun h => h.elim, fun _ => rfl⟩
    · exact Or.inl ⟨rfl, hup, trivial⟩
    · exact Or.inr ⟨st, rfl, fun _ _ => rfl, fun h => h.elim, fun _ => by simp [hother]⟩
    · exact Or.inr ⟨_, rfl, hresend.1, fun h => h.elim, fun _ => by simp [hother, hresend.2]⟩
    · exact Or.inr ⟨st, rfl, fun _ _ => rfl, fun h => h.elim, fun _ => by simp [hother]⟩
    · refine Or.inr ⟨_, rfl, fun j hj => ?_, fun h => h.elim, fun _ => ?_⟩
      · rw [ClaimPass.entry_claim, if_neg hj]
      · rw [ClaimPass.entry_claim, if_pos rfl]
        simp [hother, Effect.apply]
    · exact Or.inr ⟨_, rfl, hresend.1, fun h => h.elim, fun _ => hresend.2⟩

/-- What the loop does to each entry. -/
theorem claimLoop_entry (c lo off up : ℕ) {l : List (ℕ × LTPDataSegment)} (st : ClaimPass)
    (hsorted : l.Pairwise (fun a b => a.1 < b.1))
    (hkey : ∀ p ∈ l, p.2.startByte = p.1 ∧ p.2.offset = p.1) (k : ℕ) :
    ((∀ es, (k, es) ∉ l) → (claimLoop c lo off up l st).entry k = st.entry k) ∧
      ∀ es, (k, es) ∈ l →
        (es.isDeleted = true → Dropped (st.entry k) ((claimLoop c lo off up l st).entry k)) ∧
        (es.isDeleted = false → (claimLoop c lo off up l st).entry k =
          (claimEffect c lo off up es).apply es (st.entry k)) := by
  induction l generalizing st with
  | nil => exact ⟨fun _ => rfl, fun es hes => by cases hes⟩
  | cons p rest ih =>
    obtain ⟨k₀, ds⟩ := p
    obtain ⟨hfirst, hrest⟩ := List.pairwise_cons.mp hsorted
    obtain ⟨hstart, hoffset⟩ := hkey _ List.mem_cons_self
    have hkey' : ∀ p ∈ rest, p.2.startByte = p.1 ∧ p.2.offset = p.1 :=
      fun p hp => hkey p (List.mem_cons_of_mem _ hp)
    rcases claimLoop_cons c lo off up rest st hstart with
      ⟨hstop, hup, hdel⟩ | ⟨st', hnext, hsame, hdropped, heffect⟩
    · rw [hstop]
      refine ⟨fun _ => rfl, fun es hes => ⟨fun _ => Or.inl rfl, fun _ => ?_⟩⟩
      have hbehind : up ≤ es.offset := by
        rcases List.mem_cons.mp hes with heq | hmem
        · cases heq
          exact hup
        · have hlt := hfirst _ hmem
          have := (hkey' _ hmem).2
          simp only at hlt this
          omega
      simp only [claimEffect, if_pos hbehind, ite_self, Effect.apply_keep]
    · rw [hnext]
      obtain ⟨hout, hin⟩ := ih st' hrest hkey'
      by_cases hk : k = k₀
      · subst hk
        have hnot : ∀ es, (k, es) ∉ rest := fun es hes => lt_irrefl k (hfirst _ hes)
        rw [hout hnot]
        refine ⟨fun hno => absurd List.mem_cons_self (hno ds), fun es hes => ?_⟩
        rcases List.mem_cons.mp hes with heq | hmem
        · cases heq
          exact ⟨hdropped, heffect⟩
        · exact absurd hmem (hnot es)
      · rw [← hsame k hk]
        refine ⟨fun hno => hout fun es hes => hno es (List.mem_cons_of_mem _ hes), fun es hes => ?_⟩
        rcases List.mem_cons.mp hes with heq | hmem
        · cases heq
          exact absurd rfl hk
        · exact hin es hmem

/-- A pass treats each segment of the session by itself. -/
structure Passed (effect : LTPDataSegment → Effect) (st st' : ClaimPass) : Prop where
  absent : ∀ k, st.redSegments.find? k = none → st'.entry k = st.entry k
  dropped : ∀ k es, st.redSegments.find? k = some es → es.isDeleted = true →
    Dropped (st.entry k) (st'.entry k)
  effect : ∀ k es, st.redSegments.find? k = some es → es.isDeleted = false →
    st'.entry k = (effect es).apply es (st.entry k)

theorem removeClaimedSegments_passed (c lo off up : ℕ) (h : Outgoing st.redSegments) :
    Passed (claimEffect c lo off up) st (removeClaimedSegments c lo off up st) := by
  obtain ⟨q, hfrom, hq⟩ := st.redSegments.fromBefore_eq lo
  have hmem : ∀ k es, (k, es) ∈ st.redSegments.fromBefore lo ↔
      st.redSegments.find? k = some es ∧ q ≤ k := by
    intro k es
    rw [hfrom, List.mem_filter, OrdMap.find?_eq_some_iff, decide_eq_true_eq]
  have hsorted : (st.redSegments.fromBefore lo).Pairwise (fun a b => a.1 < b.1) := by
    rw [hfrom]
    exact st.redSegments.sorted.filter _
  have hloop := claimLoop_entry c lo off up st hsorted
    fun p hp => ⟨h.keyed ((hmem p.1 p.2).mp hp).1, h.offset ((hmem p.1 p.2).mp hp).1⟩
  constructor
  · intro k hk
    apply (hloop k).1
    intro es hes
    rw [((hmem k es).mp hes).1] at hk
    cases hk
  · intro k es hk hdel
    by_cases hqk : q ≤ k
    · exact ((hloop k).2 es ((hmem k es).mpr ⟨hk, hqk⟩)).1 hdel
    · refine Or.inl ((hloop k).1 fun es' hes => hqk ((hmem k es').mp hes).2)
  · intro k es hk hdel
    by_cases hqk : q ≤ k
    · exact ((hloop k).2 es ((hmem k es).mpr ⟨hk, hqk⟩)).2 hdel
    · -- a segment that the iterator is not backed up to ends below the lower bound
      obtain ⟨hqlo, v, hv⟩ := hq k es hk (by omega)
      have hstop := h.apart hk hv (by omega)
      rw [show removeClaimedSegments c lo off up st = claimLoop c lo off up
        (st.redSegments.fromBefore lo) st from rfl,
        (hloop k).1 fun es' hes => hqk ((hmem k es').mp hes).2, claimEffect,
        if_pos (by omega), Effect.apply_keep]

/-- A pass only removes segments. -/
theorem Passed.redSegments {effect : LTPDataSegment → Effect} {st' : ClaimPass}
    (h : Passed effect st st') (hk : st'.redSegments.find? k = some es) :
    st.redSegments.find? k = some es := by
  have hfst : (st'.entry k).1 = some es := hk
  cases hold : st.redSegments.find? k with
  | none =>
    rw [h.absent k hold] at hfst
    exact (hold.symm.trans hfst).symm ▸ rfl
  | some ds =>
    have hentry : (st.entry k).1 = some ds := hold
    cases hdel : ds.isDeleted with
    | true =>
      rcases h.dropped k ds hold hdel with heq | heq
      · rw [heq, hentry] at hfst
        exact hfst
      · rw [heq] at hfst
        cases hfst
    | false =>
      rw [h.effect k ds hold hdel] at hfst
      cases heff : effect ds with
      | keep =>
        rw [heff, Effect.apply_keep, hentry] at hfst
        exact hfst
      | resend =>
        rw [heff] at hfst
        exact hentry.symm.trans hfst
      | remove =>
        rw [heff] at hfst
        cases hfst

/-- The first effect alone, or the second alone. -/
def Combines (e₁ e₂ e : Effect) : Prop := (e₁ = .keep ∧ e₂ = e) ∨ (e₁ = e ∧ (e₁ = .remove ∨ e₂ = .keep))

theorem Combines.keep_left (e : Effect) : Combines .keep e e := Or.inl ⟨rfl, rfl⟩

theorem Combines.remove (e : Effect) (other : Bool) (h : other = true → e = .keep) :
    Combines (Effect.remove.unless other) e (Effect.remove.unless other) := by
  cases other with
  | false => exact Or.inr ⟨rfl, Or.inl rfl⟩
  | true => exact Or.inl ⟨rfl, h rfl⟩

theorem Passed.trans {e₁ e₂ e : LTPDataSegment → Effect} {st₁ st₂ : ClaimPass}
    (h₁ : Passed e₁ st st₁) (h₂ : Passed e₂ st₁ st₂)
    (he : ∀ k es, st.redSegments.find? k = some es → Combines (e₁ es) (e₂ es) (e es)) :
    Passed e st st₂ where
  absent k hk := by
    have hentry := h₁.absent k hk
    rw [h₂.absent k ((congrArg Prod.fst hentry).trans hk), hentry]
  dropped k es hk hdel := by
    rcases h₁.dropped k es hk hdel with hentry | hentry
    · rw [← hentry]
      exact h₂.dropped k es ((congrArg Prod.fst hentry).trans hk) hdel
    · exact Or.inr ((h₂.absent k (congrArg Prod.fst hentry)).trans hentry)
  effect k es hk hdel := by
    have hentry := h₁.effect k es hk hdel
    rcases he k es hk with ⟨hkeep, heq⟩ | ⟨heq, hlater⟩
    · rw [hkeep, Effect.apply_keep] at hentry
      rw [h₂.effect k es ((congrArg Prod.fst hentry).trans hk) hdel, heq, hentry]
    · cases heff : e₁ es with
      | remove =>
        rw [heff] at hentry
        rw [h₂.absent k (congrArg Prod.fst hentry), ← heq, heff, hentry]
      | keep =>
        rw [heff, Effect.apply_keep] at hentry
        rw [h₂.effect k es ((congrArg Prod.fst hentry).trans hk) hdel, hentry, ← heq, heff]
        rcases hlater with hrem | hkeep
        · rw [heff] at hrem
          cases hrem
        · rw [hkeep]
      | resend =>
        rw [heff] at hentry
        rw [h₂.effect k es ((congrArg Prod.fst hentry).trans hk) hdel, ← heq, heff]
        rcases hlater with hrem | hkeep
        · rw [heff] at hrem
          cases hrem
        · rw [hkeep, Effect.apply_keep, hentry]

theorem Outgoing.mono {m' : OrdMap ℕ LTPDataSegment} (h : Outgoing m)
    (hsub : ∀ k es, m'.find? k = some es → m.find? k = some es) : Outgoing m' where
  keyed hk := h.keyed (hsub _ _ hk)
  length hk := h.length (hsub _ _ hk)
  nonempty hk := h.nonempty (hsub _ _ hk)
  apart hk hl := h.apart (hsub _ _ hk) (hsub _ _ hl)
  offset hk := h.offset (hsub _ _ hk)

/-! ## The passes of a report -/

/-- The segment lies inside a claim. -/
def Claimed (lower : ℕ) (claims : List LTPReportClaim) (es : LTPDataSegment) : Prop :=
  ∃ rc ∈ claims, lower + rc.offset ≤ es.startByte ∧
    es.stopByte < lower + rc.offset + rc.length

instance (lower : ℕ) (claims : List LTPReportClaim) (es : LTPDataSegment) :
    Decidable (Claimed lower claims es) := by
  unfold Claimed
  infer_instance

/-- The claims follow one another in `[u, hi)`. -/
def Ascending (lower : ℕ) : ℕ → List LTPReportClaim → ℕ → Prop
  | u, [], hi => u ≤ hi
  | u, rc :: claims, hi =>
    u ≤ lower + rc.offset ∧ Ascending lower (lower + rc.offset + rc.length) claims hi

/-- Where the last claim ends. -/
def claimsEnd (lower : ℕ) : ℕ → List LTPReportClaim → ℕ
  | u, [] => u
  | _, rc :: claims => claimsEnd lower (lower + rc.offset + rc.length) claims

/-- No segment is cut at `x`. -/
def Uncut (es : LTPDataSegment) (x : ℕ) : Prop := es.startByte < x → es.stopByte < x

/-- The boundaries of the claims are boundaries of the segment. -/
def Aligned (lower : ℕ) (claims : List LTPReportClaim) (es : LTPDataSegment) : Prop :=
  ∀ rc ∈ claims, Uncut es (lower + rc.offset) ∧ Uncut es (lower + rc.offset + rc.length)

theorem Ascending.le {lower u hi : ℕ} {claims : List LTPReportClaim}
    (h : Ascending lower u claims hi) : u ≤ hi := by
  induction claims generalizing u with
  | nil => exact h
  | cons rc claims ih =>
    have := ih h.2
    have := h.1
    omega

theorem Ascending.above {lower u hi : ℕ} {claims : List LTPReportClaim}
    (h : Ascending lower u claims hi) {rc : LTPReportClaim} (hrc : rc ∈ claims) :
    u ≤ lower + rc.offset ∧ lower + rc.offset + rc.length ≤ hi := by
  induction claims generalizing u with
  | nil => cases hrc
  | cons rc' claims ih =>
    rcases List.mem_cons.mp hrc with heq | hmem
    · subst heq
      exact ⟨h.1, h.2.le⟩
    · have := ih h.2 hmem
      have := h.1
      omega

theorem Ascending.to_end {lower u hi : ℕ} {claims : List LTPReportClaim}
    (h : Ascending lower u claims hi) : Ascending lower u claims (claimsEnd lower u claims) := by
  induction claims generalizing u with
  | nil => exact le_rfl
  | cons rc claims ih => exact ⟨h.1, ih h.2⟩

theorem Claimed.above {lower u hi : ℕ} {claims : List LTPReportClaim}
    (h : Ascending lower u claims hi) (hc : Claimed lower claims es)
    (hord : es.startByte ≤ es.stopByte) : u ≤ es.stopByte ∧ es.stopByte < hi := by
  obtain ⟨rc, hrc, hstart, hstop⟩ := hc
  have := h.above hrc
  omega

/-- What the passes up to `u` do with a segment that ends at or above their lower bound. -/
def passEffect (checkpointId lower : ℕ) (claims : List LTPReportClaim) (u : ℕ)
    (es : LTPDataSegment) : Effect :=
  if Claimed lower claims es then Effect.remove.unless (es.isOtherCheckpoint checkpointId)
  else if es.stopByte < u then Effect.resend.unless (es.isOtherCheckpoint checkpointId)
  else .keep

theorem Ascending.end_le {lower u hi : ℕ} {claims : List LTPReportClaim}
    (h : Ascending lower u claims hi) : u ≤ claimsEnd lower u claims ∧ claimsEnd lower u claims ≤ hi := by
  induction claims generalizing u with
  | nil => exact ⟨le_rfl, h⟩
  | cons rc claims ih =>
    have := ih h.2
    have := h.1
    simp only [claimsEnd]
    omega

/-- A segment in front of a claim, inside it or behind it, before the later claims. -/
theorem claimEffect_combines {lower u hi : ℕ} {rc : LTPReportClaim} {claims : List LTPReportClaim}
    (hasc : Ascending lower u (rc :: claims) hi) (hal : Aligned lower (rc :: claims) es)
    (hord : es.startByte ≤ es.stopByte) (hoff : es.offset = es.startByte) :
    Combines
      (claimEffect c u (lower + rc.offset) (lower + rc.offset + rc.length) es)
      (if es.stopByte < lower + rc.offset + rc.length then .keep
        else passEffect c lower claims (claimsEnd lower u (rc :: claims)) es)
      (if es.stopByte < u then .keep
        else passEffect c lower (rc :: claims) (claimsEnd lower u (rc :: claims)) es) := by
  obtain ⟨hcuta, hcutb⟩ := hal rc List.mem_cons_self
  have hend := hasc.2.end_le
  have hu := hasc.1
  have hlater : ∀ rc' ∈ claims, lower + rc.offset + rc.length ≤ lower + rc'.offset :=
    fun rc' hrc' => (hasc.2.above hrc').1
  by_cases hlow : es.stopByte < u
  · rw [claimEffect, if_pos hlow, if_pos hlow, if_pos (by omega)]
    exact .keep_left _
  rw [claimEffect, if_neg hlow, if_neg hlow]
  by_cases hbefore : es.stopByte < lower + rc.offset
  · have hnone : ¬ Claimed lower (rc :: claims) es := by
      rintro ⟨rc', hrc', hstart, hstop⟩
      rcases List.mem_cons.mp hrc' with heq | hmem
      · subst heq
        omega
      · have := hlater rc' hmem
        omega
    rw [if_neg (by omega), if_pos hbefore, if_pos (by omega), passEffect, if_neg hnone,
      if_pos (by simp only [claimsEnd]; omega)]
    exact Or.inr ⟨rfl, Or.inr rfl⟩
  by_cases hinside : es.stopByte < lower + rc.offset + rc.length
  · have hstart : lower + rc.offset ≤ es.startByte := by
      by_contra hlt
      exact hbefore (hcuta (by omega))
    have hclaimed : Claimed lower (rc :: claims) es := ⟨rc, List.mem_cons_self, hstart, hinside⟩
    rw [if_neg (by omega), if_neg hbefore, if_pos ⟨by omega, hinside⟩, if_pos hinside, passEffect,
      if_pos hclaimed]
    exact .remove _ _ fun _ => rfl
  · have hstart : lower + rc.offset + rc.length ≤ es.startByte := by
      by_contra hlt
      exact hinside (hcutb (by omega))
    have hiff : Claimed lower (rc :: claims) es ↔ Claimed lower claims es := by
      constructor
      · rintro ⟨rc', hrc', hstart', hstop'⟩
        rcases List.mem_cons.mp hrc' with heq | hmem
        · subst heq
          omega
        · exact ⟨rc', hmem, hstart', hstop'⟩
      · rintro ⟨rc', hmem, hrange⟩
        exact ⟨rc', List.mem_cons_of_mem _ hmem, hrange⟩
    rw [if_pos (by omega), if_neg hinside]
    simp only [passEffect, hiff]
    exact .keep_left _

/-- A segment that ends below the lower bound is left alone; any other is claimed, sent again or
still ahead. -/
theorem claimPasses_passed (c : ℕ) {lower u hi : ℕ} {claims : List LTPReportClaim}
    (hm : Outgoing st.redSegments) (hasc : Ascending lower u claims hi) (hhi : hi < 2 ^ 64)
    (hal : ∀ k es, st.redSegments.find? k = some es → Aligned lower claims es) :
    (claimPasses c lower claims u st).1 = claimsEnd lower u claims ∧
      Passed (fun es => if es.stopByte < u then .keep
        else passEffect c lower claims (claimsEnd lower u claims) es) st
        (claimPasses c lower claims u st).2 := by
  induction claims generalizing u st with
  | nil =>
    refine ⟨rfl, fun k _ => rfl, fun k es _ _ => Or.inl rfl, fun k es hk _ => ?_⟩
    have hnone : ¬ Claimed lower [] es := by
      rintro ⟨rc, hrc, -⟩
      cases hrc
    split_ifs with hlt
    · rfl
    · rw [passEffect, if_neg hnone, claimsEnd, if_neg hlt]
      rfl
  | cons rc claims ih =>
    have hle := hasc.2.le
    have ha : u64 (lower + rc.offset) = lower + rc.offset := u64_of_lt (by omega)
    have hb : u64 (lower + rc.offset + rc.length) = lower + rc.offset + rc.length :=
      u64_of_lt (by omega)
    simp only [claimPasses, ha, hb]
    have hpass := removeClaimedSegments_passed c u (lower + rc.offset)
      (lower + rc.offset + rc.length) hm
    obtain ⟨hfst, hrest⟩ := ih (hm.mono fun k es hk => hpass.redSegments hk) hasc.2
      fun k es hk rc' hrc' => hal k es (hpass.redSegments hk) rc' (List.mem_cons_of_mem _ hrc')
    refine ⟨hfst, hpass.trans hrest fun k es hk => ?_⟩
    apply claimEffect_combines hasc (hal k es hk)
    · rw [hm.keyed hk]
      exact hm.nonempty hk
    · rw [hm.offset hk, hm.keyed hk]

/-! ## The whole report -/

/-- The segment has bytes in the range that the report is about. -/
def Touches (rptSeg : LTPReportSegment) (es : LTPDataSegment) : Prop :=
  rptSeg.lowerBounds < rptSeg.upperBounds ∧ es.startByte < rptSeg.upperBounds ∧
    rptSeg.lowerBounds ≤ es.stopByte

instance (rptSeg : LTPReportSegment) (es : LTPDataSegment) : Decidable (Touches rptSeg es) :=
  inferInstanceAs (Decidable (_ ∧ _))

/-- The report fits the segments: its claims ascend inside its bounds and cut no segment, the
segment of its own checkpoint is claimed if it ends inside, and no checkpoint lies across its
upper bound. -/
structure Conforms (m : OrdMap ℕ LTPDataSegment) (rptSeg : LTPReportSegment) : Prop where
  ascending : Ascending rptSeg.lowerBounds rptSeg.lowerBounds rptSeg.claims.values
    rptSeg.upperBounds
  word : rptSeg.upperBounds < 2 ^ 64
  aligned : ∀ k es, m.find? k = some es → Aligned rptSeg.lowerBounds rptSeg.claims.values es
  own : ∀ k es, m.find? k = some es → es.isCheckpoint = true →
    es.checkpointId = rptSeg.checkpointId → rptSeg.lowerBounds ≤ es.stopByte →
    es.stopByte < rptSeg.upperBounds → Claimed rptSeg.lowerBounds rptSeg.claims.values es
  across : ∀ k es, m.find? k = some es → es.startByte < rptSeg.upperBounds →
    rptSeg.upperBounds ≤ es.stopByte → es.isCheckpoint = false

def reportEffect (rptSeg : LTPReportSegment) (es : LTPDataSegment) : Effect :=
  if Claimed rptSeg.lowerBounds rptSeg.claims.values es then
    Effect.remove.unless (es.isOtherCheckpoint rptSeg.checkpointId)
  else if Touches rptSeg es then Effect.resend.unless (es.isOtherCheckpoint rptSeg.checkpointId)
  else .keep

/-- A segment is cut at the end of the claims only if there are none. -/
theorem Aligned.claimsEnd {lower u : ℕ} {claims : List LTPReportClaim} (h : Aligned lower claims es) :
    Uncut es (claimsEnd lower u claims) ∨ claims = [] := by
  induction claims generalizing u with
  | nil => exact Or.inr rfl
  | cons rc claims ih =>
    left
    rcases ih fun rc' hrc' => h rc' (List.mem_cons_of_mem _ hrc') with huncut | hnil
    · exact huncut
    · subst hnil
      exact (h rc List.mem_cons_self).2

/-- The gap behind the last claim, after the claims. -/
theorem gapEffect_combines {rptSeg : LTPReportSegment} (hconf : Conforms m rptSeg)
    (hk : m.find? k = some es) (hord : es.startByte ≤ es.stopByte) (hoff : es.offset = es.startByte)
    {u : ℕ} (hu : u = claimsEnd rptSeg.lowerBounds rptSeg.lowerBounds rptSeg.claims.values) :
    Combines
      (if es.stopByte < rptSeg.lowerBounds then .keep
        else passEffect rptSeg.checkpointId rptSeg.lowerBounds rptSeg.claims.values u es)
      (if u < rptSeg.upperBounds then
        claimEffect rptSeg.checkpointId u rptSeg.upperBounds rptSeg.upperBounds es else .keep)
      (reportEffect rptSeg es) := by
  obtain ⟨hlu, huu⟩ := hu ▸ hconf.ascending.end_le
  have hclaimed : Claimed rptSeg.lowerBounds rptSeg.claims.values es →
      rptSeg.lowerBounds ≤ es.stopByte ∧ es.stopByte < u :=
    fun hc => hu ▸ hc.above hconf.ascending.to_end hord
  have hpassed : es.stopByte < u → (if u < rptSeg.upperBounds then
      claimEffect rptSeg.checkpointId u rptSeg.upperBounds rptSeg.upperBounds es else .keep) =
      .keep := by
    intro hlt
    rw [claimEffect, if_pos hlt, ite_self]
  by_cases hlow : es.stopByte < rptSeg.lowerBounds
  · have hnone : ¬ Claimed rptSeg.lowerBounds rptSeg.claims.values es := fun hc => by
      have := (hclaimed hc).1
      omega
    have htouches : ¬ Touches rptSeg es := fun hm => by
      have := hm.2.2
      omega
    rw [hpassed (by omega), if_pos hlow, reportEffect, if_neg hnone, if_neg htouches]
    exact .keep_left _
  rw [if_neg hlow, passEffect, reportEffect]
  by_cases hc : Claimed rptSeg.lowerBounds rptSeg.claims.values es
  · rw [if_pos hc, if_pos hc, hpassed (hclaimed hc).2]
    exact .remove _ _ fun _ => rfl
  rw [if_neg hc, if_neg hc]
  by_cases hbefore : es.stopByte < u
  · have htouches : Touches rptSeg es := ⟨by omega, by omega, by omega⟩
    rw [hpassed hbefore, if_pos hbefore, if_pos htouches]
    exact Or.inr ⟨rfl, Or.inr rfl⟩
  rw [if_neg hbefore]
  by_cases hgap : u < rptSeg.upperBounds
  · rw [if_pos hgap, claimEffect, if_neg hbefore]
    by_cases hbehind : rptSeg.upperBounds ≤ es.startByte
    · have htouches : ¬ Touches rptSeg es := fun hm => by
        have := hm.2.1
        omega
      rw [if_pos (by omega), if_neg htouches]
      exact .keep_left _
    have htouches : Touches rptSeg es := ⟨by omega, by omega, by omega⟩
    rw [if_neg (by omega), if_pos htouches]
    by_cases hinside : es.stopByte < rptSeg.upperBounds
    · rw [if_pos hinside]
      exact .keep_left _
    · -- a segment across the upper bound is sent again without a look at its checkpoint
      have hother : es.isOtherCheckpoint rptSeg.checkpointId = false := by
        simp [LTPDataSegment.isOtherCheckpoint, hconf.across k es hk (by omega) (by omega)]
      rw [if_neg hinside, if_neg (by omega), hother]
      exact .keep_left _
  · have htouches : ¬ Touches rptSeg es := by
      rintro ⟨hlt, hstart, -⟩
      rcases (hconf.aligned k es hk).claimsEnd with huncut | hnil
      · have := huncut (show es.startByte < claimsEnd _ _ _ by rw [← hu]; omega)
        omega
      · rw [hnil] at hu
        simp only [Dtnme.Ltp.claimsEnd] at hu
        omega
    rw [if_neg hgap, if_neg htouches]
    exact .keep_left _

theorem applyClaims_passed {rptSeg : LTPReportSegment} (hm : Outgoing m) (hconf : Conforms m rptSeg) :
    Passed (reportEffect rptSeg) { redSegments := m } (applyClaims rptSeg m) := by
  have hinit : Outgoing (ClaimPass.redSegments { redSegments := m }) := hm
  obtain ⟨hfst, hpass⟩ := claimPasses_passed rptSeg.checkpointId hinit hconf.ascending hconf.word
    hconf.aligned
  unfold applyClaims
  generalize claimPasses rptSeg.checkpointId rptSeg.lowerBounds rptSeg.claims.values
    rptSeg.lowerBounds { redSegments := m } = r at hfst hpass ⊢
  obtain ⟨u, st₁⟩ := r
  dsimp only at hfst hpass ⊢
  have hgap : Passed (fun es => if u < rptSeg.upperBounds then
      claimEffect rptSeg.checkpointId u rptSeg.upperBounds rptSeg.upperBounds es else .keep) st₁
      (if u < rptSeg.upperBounds then removeClaimedSegments rptSeg.checkpointId u
        rptSeg.upperBounds rptSeg.upperBounds st₁ else st₁) := by
    split_ifs
    · exact removeClaimedSegments_passed _ _ _ _ (hm.mono fun k es hk => hpass.redSegments hk)
    · exact ⟨fun _ _ => rfl, fun _ _ _ _ => Or.inl rfl, fun _ _ _ _ => rfl⟩
  rw [← hfst] at hpass
  refine hpass.trans hgap fun k es hk => gapEffect_combines hconf hk ?_ ?_ hfst
  · rw [hm.keyed hk]
    exact hm.nonempty hk
  · rw [hm.offset hk, hm.keyed hk]

/-! ## Sending again -/

/-- The last segment becomes a checkpoint; all are queued. -/
def resent (reportSerialNum newChkpt : ℕ) (last : Bool) (ds : LTPDataSegment) : LTPDataSegment :=
  (if last then ds.setCheckpoint newChkpt reportSerialNum else ds).setQueuedToSend

theorem setQueuedToSend_of_queued (h : ds.queuedToSend = true) : ds.setQueuedToSend = ds := by
  cases ds
  simp only at h
  subst h
  rfl

@[simp] theorem queuedToSend_setCheckpoint (newChkpt newRsn : ℕ) :
    (ds.setCheckpoint newChkpt newRsn).queuedToSend = ds.queuedToSend := rfl

@[simp] theorem redSegments_addCheckpointSeg (s : LTPSession) :
    (s.addCheckpointSeg ds).redSegments = s.redSegments := rfl

@[simp] theorem redComplete_addCheckpointSeg (s : LTPSession) :
    (s.addCheckpointSeg ds).redComplete = s.redComplete := rfl

@[simp] theorem redComplete_putSegment (s : LTPSession) :
    (s.putSegment k ds).redComplete = s.redComplete := rfl

theorem find?_putSegment {s : LTPSession} (hk : s.redSegments.find? k = some es) (j : ℕ) :
    (s.putSegment k ds).redSegments.find? j = if j = k then some ds else s.redSegments.find? j := by
  simp only [LTPSession.putSegment, hk, OrdMap.find?_insert]

/-- A round puts the segment back as queued. -/
theorem session_resendSegment (serial : ℕ) (last : Bool) (r : Resending) :
    (resendSegment serial k ds last r).session =
      (if last then r.session.addCheckpointSeg
        (ds.setCheckpoint (u64 (r.session.checkpointId + 1)) serial) else r.session).putSegment k
          (resent serial (u64 (r.session.checkpointId + 1)) last ds) := by
  cases hq : ds.queuedToSend <;> cases last <;> simp [resendSegment, resent, hq,
    setQueuedToSend_of_queued]

theorem queue_resendSegment (serial : ℕ) (last : Bool) (r : Resending) :
    (resendSegment serial k ds last r).queue =
      r.queue ++ if ds.queuedToSend then [] else [(k, last)] := by
  cases hq : ds.queuedToSend <;> cases last <;> simp [resendSegment, hq]

@[simp] theorem redComplete_resendSegment (serial : ℕ) (last : Bool) (r : Resending) :
    (resendSegment serial k ds last r).session.redComplete = r.session.redComplete := by
  rw [session_resendSegment]
  cases last <;> rfl

@[simp] theorem expectedRedBytes_resendSegment (serial : ℕ) (last : Bool) (r : Resending) :
    (resendSegment serial k ds last r).session.expectedRedBytes = r.session.expectedRedBytes := by
  rw [session_resendSegment]
  cases last <;> rfl

theorem find?_resendSegment {serial : ℕ} {last : Bool} {r : Resending}
    (hk : r.session.redSegments.find? k = some es) (j : ℕ) :
    (resendSegment serial k ds last r).session.redSegments.find? j =
      if j = k then some (resent serial (u64 (r.session.checkpointId + 1)) last ds)
      else r.session.redSegments.find? j := by
  rw [session_resendSegment]
  cases last
  · exact find?_putSegment hk j
  · have hk' : (r.session.addCheckpointSeg (ds.setCheckpoint (u64 (r.session.checkpointId + 1))
        serial)).redSegments.find? k = some es := hk
    exact find?_putSegment hk' j

/-- What `Send_Remaining_Segments` leaves behind when it sends the segments of `l` again. -/
structure Resent (serial : ℕ) (l : List (ℕ × LTPDataSegment)) (r r' : Resending) : Prop where
  queue : ∃ q, r'.queue = r.queue ++ q ∧
    q.map Prod.fst = (l.filter (fun p => !p.2.queuedToSend)).map Prod.fst ∧
    ∀ k, (k, true) ∈ q → ∃ ds, l.getLast? = some (k, ds)
  others : ∀ k, (∀ ds, (k, ds) ∉ l) →
    r'.session.redSegments.find? k = r.session.redSegments.find? k
  again : ∀ k ds, (k, ds) ∈ l → l.getLast? ≠ some (k, ds) →
    r'.session.redSegments.find? k = some ds.setQueuedToSend
  last : ∀ k ds, l.getLast? = some (k, ds) → r'.session.redSegments.find? k =
      some (ds.setCheckpoint (u64 (r.session.checkpointId + 1)) serial).setQueuedToSend ∧
    r'.session.checkpoints.find? (u64 (r.session.checkpointId + 1)) = some (i64 ds.stopByte)
  complete : r'.session.redComplete = r.session.redComplete
  expected : r'.session.expectedRedBytes = r.session.expectedRedBytes
  ids : (r'.session.checkpointId = r.session.checkpointId ∧
      r'.session.checkpoints = r.session.checkpoints) ∨
    (r'.session.checkpointId = u64 (r.session.checkpointId + 1) ∧ ∃ v, r'.session.checkpoints =
      r.session.checkpoints.insert (u64 (r.session.checkpointId + 1)) v)

theorem resent_nil (serial : ℕ) (r : Resending) : Resent serial [] r r where
  queue := ⟨[], by simp, rfl, fun k hk => by cases hk⟩
  others _ _ := rfl
  again _ _ hmem := by cases hmem
  last _ _ hlast := by cases hlast
  complete := rfl
  expected := rfl
  ids := Or.inl ⟨rfl, rfl⟩

/-- The last segment becomes a checkpoint. -/
theorem resent_last (serial : ℕ) {r : Resending} (hk : r.session.redSegments.find? k = some es) :
    Resent serial [(k, ds)] r (resendSegment serial k ds true r) where
  queue := by
    refine ⟨_, queue_resendSegment serial true r, ?_, ?_⟩
    · cases hq : ds.queuedToSend <;> simp [hq]
    · intro j hj
      refine ⟨ds, ?_⟩
      split_ifs at hj
      · cases hj
      · simp only [List.mem_singleton, Prod.mk.injEq, and_true] at hj
        rw [hj]
        rfl
  others j hj := by
    refine (find?_resendSegment hk j).trans (if_neg ?_)
    rintro rfl
    exact hj ds List.mem_cons_self
  again j es hj hlast := by
    cases List.mem_singleton.mp hj
    exact absurd rfl hlast
  last j es hlast := by
    cases hlast
    refine ⟨(find?_resendSegment hk k).trans (if_pos rfl), ?_⟩
    rw [session_resendSegment]
    simp [LTPSession.putSegment, LTPSession.addCheckpointSeg, LTPDataSegment.setCheckpoint]
  complete := redComplete_resendSegment serial true r
  expected := expectedRedBytes_resendSegment serial true r
  ids := by
    rw [session_resendSegment]
    exact Or.inr ⟨rfl, _, rfl⟩

/-- A segment before the last one is put back as queued, and the rest is sent from there. -/
theorem Resent.cons {serial : ℕ} {r r' : Resending} {l : List (ℕ × LTPDataSegment)} (hl : l ≠ [])
    (hk : r.session.redSegments.find? k = some es) (hne : ∀ j es, (j, es) ∈ l → j ≠ k)
    (h : Resent serial l (resendSegment serial k ds false r) r') : Resent serial ((k, ds) :: l) r r' := by
  have hid : (resendSegment serial k ds false r).session.checkpointId = r.session.checkpointId := by
    rw [session_resendSegment]
    rfl
  have hlast : ((k, ds) :: l).getLast? = l.getLast? := by
    obtain ⟨p, l', rfl⟩ := List.exists_cons_of_ne_nil hl
    rfl
  have hk' : ∀ es, (k, es) ∉ l := fun es hes => hne k es hes rfl
  constructor
  · obtain ⟨q, hqueue, hkeys, htimer⟩ := h.queue
    refine ⟨(if ds.queuedToSend then [] else [(k, false)]) ++ q, ?_, ?_, ?_⟩
    · rw [hqueue, queue_resendSegment, List.append_assoc]
    · rw [List.map_append, hkeys]
      cases hq : ds.queuedToSend <;> simp [hq]
    · intro j hj
      rw [hlast]
      apply htimer
      rcases List.mem_append.mp hj with hj | hj
      · split_ifs at hj
        · cases hj
        · simp at hj
      · exact hj
  · intro j hj
    rw [h.others j fun es hes => hj es (List.mem_cons_of_mem _ hes), find?_resendSegment hk, if_neg]
    rintro rfl
    exact hj ds List.mem_cons_self
  · intro j es hj hnot
    rcases List.mem_cons.mp hj with heq | hmem
    · cases heq
      rw [h.others k hk', find?_resendSegment hk, if_pos rfl]
      rfl
    · exact h.again j es hmem (hlast ▸ hnot)
  · intro j es hl
    have hend := h.last j es (hlast ▸ hl)
    rw [hid] at hend
    exact hend
  · rw [h.complete, redComplete_resendSegment]
  · rw [h.expected, expectedRedBytes_resendSegment]
  · have hckpts : (resendSegment serial k ds false r).session.checkpoints =
        r.session.checkpoints := by
      rw [session_resendSegment]
      rfl
    rw [← hid, ← hckpts]
    exact h.ids

theorem sendRemainingSegments_resent (serial : ℕ) {l : List (ℕ × LTPDataSegment)} {r : Resending}
    (hsorted : l.Pairwise (fun a b => a.1 < b.1)) (hckpt : ∀ p ∈ l, p.2.isCheckpoint = false)
    (hheld : ∀ p ∈ l, r.session.redSegments.find? p.1 = some p.2) :
    ∃ r', sendRemainingSegments serial l r = .ok r' ∧ Resent serial l r r' := by
  induction l generalizing r with
  | nil => exact ⟨r, rfl, resent_nil serial r⟩
  | cons p rest ih =>
    obtain ⟨k, ds⟩ := p
    obtain ⟨hfirst, hrest⟩ := List.pairwise_cons.mp hsorted
    have hk := hheld _ List.mem_cons_self
    have hne : ∀ j es, (j, es) ∈ rest → j ≠ k := fun j es hj => (hfirst _ hj).ne'
    obtain ⟨r', hrun, hres⟩ := @ih (resendSegment serial k ds rest.isEmpty r) hrest
      (fun p hp => hckpt p (List.mem_cons_of_mem _ hp))
      (fun p hp => (find?_resendSegment hk p.1).trans
        ((if_neg (hne p.1 p.2 hp)).trans (hheld p (List.mem_cons_of_mem _ hp))))
    refine ⟨r', ?_, ?_⟩
    · have hno := hckpt _ List.mem_cons_self
      simp only at hno
      simp only [sendRemainingSegments, hno, Bool.false_eq_true, if_false]
      exact hrun
    cases rest with
    | nil =>
      have hr' : resendSegment serial k ds true r = r' := by simpa [sendRemainingSegments] using hrun
      exact hr' ▸ resent_last serial hk
    | cons p' rest' => exact hres.cons (List.cons_ne_nil _ _) hk hne

/-! ## The report as a whole -/

/-- The segment is one to send again. -/
def Unclaimed (rptSeg : LTPReportSegment) (es : LTPDataSegment) : Prop :=
  es.isDeleted = false ∧ Touches rptSeg es ∧
    ¬ Claimed rptSeg.lowerBounds rptSeg.claims.values es ∧ es.isCheckpoint = false

/-- The segment is claimed and no checkpoint that still waits for a report of its own. -/
def Removed (rptSeg : LTPReportSegment) (es : LTPDataSegment) : Prop :=
  Claimed rptSeg.lowerBounds rptSeg.claims.values es ∧
    es.isOtherCheckpoint rptSeg.checkpointId = false

/-- The last of the segments to send again. -/
def LastUnclaimed (m : OrdMap ℕ LTPDataSegment) (rptSeg : LTPReportSegment) (k : ℕ)
    (es : LTPDataSegment) : Prop :=
  m.find? k = some es ∧ Unclaimed rptSeg es ∧
    ∀ j ds, m.find? j = some ds → Unclaimed rptSeg ds → j ≤ k

/-- What the report does to the sender of the session `s`. -/
structure Applied (s : LTPSession) (rptSeg : LTPReportSegment) (snd snd' : Sender) : Prop where
  acked : snd'.reportAcks = snd.reportAcks ++ [rptSeg.serialNumber]
  queue : ∃ q, snd'.queue = snd.queue ++ q ∧ (q.map Prod.fst).Nodup ∧
    (∀ k, k ∈ q.map Prod.fst ↔ ∃ es, s.redSegments.find? k = some es ∧ Unclaimed rptSeg es ∧
      es.queuedToSend = false) ∧
    ∀ k, (k, true) ∈ q → ∃ es, LastUnclaimed s.redSegments rptSeg k es
  removed : ∀ k es, s.redSegments.find? k = some es → es.isDeleted = false → Removed rptSeg es →
    snd'.redSegments.find? k = none
  again : ∀ k es, s.redSegments.find? k = some es → Unclaimed rptSeg es →
    ¬ LastUnclaimed s.redSegments rptSeg k es →
    snd'.redSegments.find? k = some es.setQueuedToSend
  checkpoint : ∀ k es, LastUnclaimed s.redSegments rptSeg k es →
    snd'.redSegments.find? k = some (es.setCheckpoint (u64 (s.checkpointId + 1))
      rptSeg.serialNumber).setQueuedToSend ∧
    ∃ s', snd'.state = .active s' ∧
      s'.checkpoints.find? (u64 (s.checkpointId + 1)) = some (i64 es.stopByte)
  untouched : ∀ k es, s.redSegments.find? k = some es → es.isDeleted = false →
    ¬ Removed rptSeg es → ¬ Unclaimed rptSeg es → snd'.redSegments.find? k = some es
  dropped : ∀ k es, s.redSegments.find? k = some es → es.isDeleted = true →
    snd'.redSegments.find? k = some es ∨ snd'.redSegments.find? k = none
  absent : ∀ k, s.redSegments.find? k = none → snd'.redSegments.find? k = none

variable {s : LTPSession} {rptSeg : LTPReportSegment}

/-- A segment that is sent again is no checkpoint: another one is kept, and the report's own is
claimed or ends outside. -/
theorem Conforms.reportEffect_eq_resend (hconf : Conforms m rptSeg) (hk : m.find? k = some es)
    (hdel : es.isDeleted = false) : reportEffect rptSeg es = .resend ↔ Unclaimed rptSeg es := by
  unfold reportEffect
  constructor
  · intro heff
    split_ifs at heff with hc hm
    · cases hother : es.isOtherCheckpoint rptSeg.checkpointId <;> rw [hother] at heff <;> cases heff
    · refine ⟨hdel, hm, hc, ?_⟩
      cases hother : es.isOtherCheckpoint rptSeg.checkpointId with
      | true =>
        rw [hother] at heff
        cases heff
      | false =>
        by_contra hckpt
        rw [Bool.not_eq_false] at hckpt
        have hid : es.checkpointId = rptSeg.checkpointId := by
          simpa [LTPDataSegment.isOtherCheckpoint, hckpt] using hother
        by_cases hstop : es.stopByte < rptSeg.upperBounds
        · exact hc (hconf.own k es hk hckpt hid hm.2.2 hstop)
        · simp [hconf.across k es hk hm.2.1 (by omega)] at hckpt
  · rintro ⟨-, hm, hc, hckpt⟩
    rw [if_neg hc, if_pos hm]
    simp [LTPDataSegment.isOtherCheckpoint, hckpt]

theorem reportEffect_eq_remove : reportEffect rptSeg es = .remove ↔ Removed rptSeg es := by
  unfold reportEffect Removed
  split_ifs with hc hm <;> cases es.isOtherCheckpoint rptSeg.checkpointId <;> simp [hc]

/-- The segments to send again after the passes. -/
theorem find?_retransmit (hm : Outgoing m) (hconf : Conforms m rptSeg) :
    (applyClaims rptSeg m).retransmit.find? k = some es ↔
      m.find? k = some es ∧ Unclaimed rptSeg es := by
  have hpass := applyClaims_passed hm hconf
  constructor
  · intro hk
    have hsnd : ((applyClaims rptSeg m).entry k).2 = some es := hk
    cases hold : m.find? k with
    | none =>
      rw [hpass.absent k hold] at hsnd
      cases hsnd
    | some ds =>
      cases hdel : ds.isDeleted with
      | true =>
        rcases hpass.dropped k ds hold hdel with heq | heq <;>
        · rw [heq] at hsnd
          cases hsnd
      | false =>
        rw [hpass.effect k ds hold hdel] at hsnd
        cases heff : reportEffect rptSeg ds with
        | resend =>
          rw [heff] at hsnd
          cases hsnd
          exact ⟨rfl, (hconf.reportEffect_eq_resend hold hdel).mp heff⟩
        | keep =>
          rw [heff] at hsnd
          cases hsnd
        | remove =>
          rw [heff] at hsnd
          cases hsnd
  · rintro ⟨hk, hun⟩
    have hentry := hpass.effect k es hk hun.1
    rw [(hconf.reportEffect_eq_resend hk hun.1).mpr hun] at hentry
    exact congrArg Prod.snd hentry

/-- The segments that stay in the session. -/
theorem find?_applyClaims (hm : Outgoing m) (hconf : Conforms m rptSeg) (hk : m.find? k = some es)
    (hdel : es.isDeleted = false) :
    (applyClaims rptSeg m).redSegments.find? k = if reportEffect rptSeg es = .remove then none
      else some es := by
  have hentry := (applyClaims_passed hm hconf).effect k es hk hdel
  have hfst : (applyClaims rptSeg m).redSegments.find? k =
      ((reportEffect rptSeg es).apply es (m.find? k, none)).1 := congrArg Prod.fst hentry
  rw [hfst, hk]
  cases reportEffect rptSeg es <;> rfl

theorem redSegments_noteReported : (s.noteReported rptSeg).redSegments = s.redSegments := by
  unfold LTPSession.noteReported
  split_ifs <;> rfl

theorem checkpointId_noteReported : (s.noteReported rptSeg).checkpointId = s.checkpointId := by
  unfold LTPSession.noteReported
  split_ifs <;> rfl

theorem redComplete_noteReported : (s.noteReported rptSeg).redComplete = s.redComplete := by
  unfold LTPSession.noteReported
  split_ifs <;> rfl

theorem expectedRedBytes_noteReported :
    (s.noteReported rptSeg).expectedRedBytes = s.expectedRedBytes := by
  unfold LTPSession.noteReported
  split_ifs <;> rfl

theorem getLast?_retransmit (hm : Outgoing m) (hconf : Conforms m rptSeg) :
    (applyClaims rptSeg m).retransmit.entries.getLast? = some (k, es) ↔
      LastUnclaimed m rptSeg k es := by
  have hfind : ∀ j ds, (applyClaims rptSeg m).retransmit.find? j = some ds ↔
      m.find? j = some ds ∧ Unclaimed rptSeg ds := fun _ _ => find?_retransmit hm hconf
  constructor
  · intro hlast
    obtain ⟨hk, hnone⟩ := OrdMap.last?_eq_some hlast
    obtain ⟨hk, hun⟩ := (hfind k es).mp hk
    refine ⟨hk, hun, fun j ds hj hds => ?_⟩
    by_contra hlt
    have := (hfind j ds).mpr ⟨hj, hds⟩
    rw [hnone j (by omega)] at this
    cases this
  · rintro ⟨hk, hun, hmax⟩
    have hin := (hfind k es).mpr ⟨hk, hun⟩
    cases hlast : (applyClaims rptSeg m).retransmit.last? with
    | none =>
      rw [OrdMap.last?_eq_none hlast] at hin
      cases hin
    | some e =>
      obtain ⟨j, ds⟩ := e
      obtain ⟨hj, hnone⟩ := OrdMap.last?_eq_some hlast
      have hle := hmax j ds ((hfind j ds).mp hj).1 ((hfind j ds).mp hj).2
      have hge : ¬ j < k := fun hlt => by
        rw [hnone k hlt] at hin
        cases hin
      have hjk : j = k := by omega
      subst hjk
      rw [hj] at hin
      cases hin
      exact hlast

theorem find?_settle (snd : Sender) (r : Resending) (k : ℕ) :
    (snd.settle r).redSegments.find? k = r.session.redSegments.find? k := by
  unfold Sender.settle
  split_ifs with h
  · rw [Bool.and_eq_true] at h
    rw [OrdMap.isEmpty_iff.mp h.2 k]
    rfl
  · rfl

theorem queue_settle (snd : Sender) (r : Resending) : (snd.settle r).queue = r.queue := by
  unfold Sender.settle
  split_ifs <;> rfl

theorem reportAcks_settle (snd : Sender) (r : Resending) :
    (snd.settle r).reportAcks = snd.reportAcks := by
  unfold Sender.settle
  split_ifs <;> rfl

theorem startShuttingDown_settle (snd : Sender) (r : Resending) :
    (snd.settle r).startShuttingDown = snd.startShuttingDown := by
  unfold Sender.settle
  split_ifs <;> rfl

theorem state_settle_cases (snd : Sender) (r : Resending) :
    (snd.settle r).state = .active r.session ∨ (snd.settle r).state = .closed false := by
  unfold Sender.settle
  split_ifs
  · exact Or.inr rfl
  · exact Or.inl rfl

theorem state_settle {snd : Sender} {r : Resending} (hk : r.session.redSegments.find? k = some es) :
    (snd.settle r).state = .active r.session := by
  unfold Sender.settle
  rw [if_neg]
  intro h
  rw [Bool.and_eq_true] at h
  rw [OrdMap.isEmpty_iff.mp h.2 k] at hk
  cases hk

/-- What else the session keeps: at most one checkpoint id is used, and the older checkpoints
change only as the report says. -/
structure Continues (s : LTPSession) (rptSeg : LTPReportSegment) (t : LTPSession) : Prop where
  complete : t.redComplete = s.redComplete
  expected : t.expectedRedBytes = s.expectedRedBytes
  ids : s.checkpointId + 1 < 2 ^ 64 → s.checkpointId ≤ t.checkpointId ∧
    t.checkpointId ≤ s.checkpointId + 1 ∧ ∀ c ≤ s.checkpointId,
      t.findCheckpointStopByte c = (s.noteReported rptSeg).findCheckpointStopByte c

theorem Continues.of_ids {t s₀ : LTPSession} (hcomplete : t.redComplete = s.redComplete)
    (hexpected : t.expectedRedBytes = s.expectedRedBytes)
    (hid₀ : s₀.checkpointId = s.checkpointId)
    (hckpt₀ : s₀.checkpoints = (s.noteReported rptSeg).checkpoints)
    (hids : (t.checkpointId = s₀.checkpointId ∧ t.checkpoints = s₀.checkpoints) ∨
      (t.checkpointId = u64 (s₀.checkpointId + 1) ∧
        ∃ v, t.checkpoints = s₀.checkpoints.insert (u64 (s₀.checkpointId + 1)) v)) :
    Continues s rptSeg t where
  complete := hcomplete
  expected := hexpected
  ids hword := by
    rw [hid₀, hckpt₀, u64_of_lt hword] at hids
    unfold LTPSession.findCheckpointStopByte
    rcases hids with ⟨hid, hckpt⟩ | ⟨hid, v, hckpt⟩
    · exact ⟨by omega, by omega, fun c _ => by rw [hckpt]⟩
    · refine ⟨by omega, by omega, fun c hc => ?_⟩
      rw [hckpt, OrdMap.find?_insert, if_neg (by omega)]

/-- What is sent again after the claims were applied. -/
def resendAfter (s : LTPSession) (rptSeg : LTPReportSegment) (queue : List (ℕ × Bool)) : Resending :=
  ⟨(s.noteReported rptSeg).setRedSegments (applyClaims rptSeg s.redSegments).redSegments, queue⟩

theorem mem_retransmit_iff_unclaimed (hm : Outgoing s.redSegments)
    (hconf : Conforms s.redSegments rptSeg) (k : ℕ) (es : LTPDataSegment) :
    (k, es) ∈ (applyClaims rptSeg s.redSegments).retransmit.entries ↔
      s.redSegments.find? k = some es ∧ Unclaimed rptSeg es :=
  OrdMap.find?_eq_some_iff.symm.trans (find?_retransmit hm hconf)

theorem retransmit_resent (hm : Outgoing s.redSegments) (hconf : Conforms s.redSegments rptSeg)
    (queue : List (ℕ × Bool)) : ∃ r, sendRemainingSegments rptSeg.serialNumber
        (applyClaims rptSeg s.redSegments).retransmit.entries (resendAfter s rptSeg queue) = .ok r ∧
      Resent rptSeg.serialNumber (applyClaims rptSeg s.redSegments).retransmit.entries
        (resendAfter s rptSeg queue) r := by
  refine sendRemainingSegments_resent rptSeg.serialNumber (OrdMap.sorted _)
    (fun p hp => ((mem_retransmit_iff_unclaimed hm hconf p.1 p.2).mp hp).2.2.2.2) fun p hp => ?_
  obtain ⟨hk, hun⟩ := (mem_retransmit_iff_unclaimed hm hconf p.1 p.2).mp hp
  change (applyClaims rptSeg s.redSegments).redSegments.find? p.1 = some p.2
  rw [find?_applyClaims hm hconf hk hun.1, (hconf.reportEffect_eq_resend hk hun.1).mpr hun]
  rfl

section
variable {snd : Sender} {r : Resending} (hm : Outgoing s.redSegments)
  (hconf : Conforms s.redSegments rptSeg)
  (hres : Resent rptSeg.serialNumber (applyClaims rptSeg s.redSegments).retransmit.entries
    (resendAfter s rptSeg snd.queue) r)

include hres in
theorem Resent.continues : Continues s rptSeg r.session :=
  .of_ids (hres.complete.trans redComplete_noteReported)
    (hres.expected.trans expectedRedBytes_noteReported) checkpointId_noteReported rfl hres.ids

include hm hconf hres

/-- A segment that is not sent again is as the claims left it. -/
theorem Resent.unsent (k : ℕ) (hno : ∀ es, s.redSegments.find? k = some es → ¬ Unclaimed rptSeg es) :
    r.session.redSegments.find? k = (applyClaims rptSeg s.redSegments).redSegments.find? k :=
  hres.others k fun es hes =>
    have hun := (mem_retransmit_iff_unclaimed hm hconf k es).mp hes
    hno es hun.1 hun.2

theorem Resent.unsent_of (hk : s.redSegments.find? k = some es) (hno : ¬ Unclaimed rptSeg es) :
    r.session.redSegments.find? k = (applyClaims rptSeg s.redSegments).redSegments.find? k :=
  Resent.unsent hm hconf hres k fun es' hk' => by
    rw [hk] at hk'
    cases hk'
    exact hno

theorem Resent.applied : Applied s rptSeg snd ((snd.acknowledge rptSeg).settle r) := by
  constructor
  · rw [reportAcks_settle]
    rfl
  · obtain ⟨q, hqueue, hkeys, htimer⟩ := hres.queue
    refine ⟨q, ?_, ?_, fun k => ?_, fun k hk => ?_⟩
    · rw [queue_settle, hqueue]
      rfl
    · rw [hkeys]
      exact (((OrdMap.sorted _).filter _).map _ fun a b hab => hab.ne)
    · rw [hkeys, List.mem_map]
      constructor
      · rintro ⟨⟨j, es⟩, hmem', rfl⟩
        obtain ⟨hin, hq⟩ := List.mem_filter.mp hmem'
        obtain ⟨hk, hun⟩ := (mem_retransmit_iff_unclaimed hm hconf j es).mp hin
        exact ⟨es, hk, hun, by simpa using hq⟩
      · rintro ⟨es, hk, hun, hq⟩
        have hin := (mem_retransmit_iff_unclaimed hm hconf k es).mpr ⟨hk, hun⟩
        exact ⟨(k, es), List.mem_filter.mpr ⟨hin, by simp [hq]⟩, rfl⟩
    · obtain ⟨es, hlast⟩ := htimer k hk
      exact ⟨es, (getLast?_retransmit hm hconf).mp hlast⟩
  · intro k es hk hdel hrem
    rw [find?_settle, Resent.unsent_of hm hconf hres hk fun hun => hun.2.2.1 hrem.1,
      find?_applyClaims hm hconf hk hdel, if_pos (reportEffect_eq_remove.mpr hrem)]
  · intro k es hk hun hnot
    rw [find?_settle]
    exact hres.again k es ((mem_retransmit_iff_unclaimed hm hconf k es).mpr ⟨hk, hun⟩)
      fun hlast => hnot ((getLast?_retransmit hm hconf).mp hlast)
  · intro k es hlast
    have hid : (resendAfter s rptSeg snd.queue).session.checkpointId = s.checkpointId :=
      checkpointId_noteReported
    obtain ⟨hfind, hckpt⟩ := hres.last k es ((getLast?_retransmit hm hconf).mpr hlast)
    rw [hid] at hfind hckpt
    exact ⟨by rw [find?_settle, hfind], r.session, state_settle hfind, hckpt⟩
  · intro k es hk hdel hrem hun
    rw [find?_settle, Resent.unsent_of hm hconf hres hk hun, find?_applyClaims hm hconf hk hdel,
      if_neg fun heff => hrem (reportEffect_eq_remove.mp heff)]
  · intro k es hk hdel
    rw [find?_settle, Resent.unsent_of hm hconf hres hk fun hun => by
      rw [hun.1] at hdel
      cases hdel]
    rcases (applyClaims_passed hm hconf).dropped k es hk hdel with heq | heq
    · left
      exact (congrArg Prod.fst heq).trans hk
    · right
      exact congrArg Prod.fst heq
  · intro k hk
    rw [find?_settle, Resent.unsent hm hconf hres k fun es hk' => by
      rw [hk] at hk'
      cases hk']
    exact (congrArg Prod.fst ((applyClaims_passed hm hconf).absent k hk)).trans hk

end

theorem applyReport_applied {snd : Sender} (hm : Outgoing s.redSegments)
    (hconf : Conforms s.redSegments rptSeg) (hup : snd.startShuttingDown = false) :
    ∃ snd', applyReport (snd.acknowledge rptSeg) s rptSeg = .ok snd' ∧ Applied s rptSeg snd snd' ∧
      snd'.startShuttingDown = false ∧
      ((∃ t, snd'.state = .active t ∧ Continues s rptSeg t) ∨ snd'.state = .closed false) := by
  obtain ⟨r, hrun, hres⟩ := retransmit_resent hm hconf snd.queue
  refine ⟨(snd.acknowledge rptSeg).settle r, ?_, Resent.applied hm hconf hres, ?_, ?_⟩
  · have hdown : (snd.acknowledge rptSeg).startShuttingDown = false := hup
    have hqueue : (snd.acknowledge rptSeg).queue = snd.queue := rfl
    unfold resendAfter at hrun
    simp only [applyReport, hdown, hqueue, Bool.false_eq_true, if_false, hrun]
    rfl
  · rw [startShuttingDown_settle]
    exact hup
  · rcases state_settle_cases (snd.acknowledge rptSeg) r with hopen | hclosed
    · exact Or.inl ⟨_, hopen, Resent.continues hres⟩
    · exact Or.inr hclosed

/-- The block is finished and the report claims all of it in one claim. -/
def ClaimsBlock (s : LTPSession) (rptSeg : LTPReportSegment) : Prop :=
  s.redComplete = true ∧ rptSeg.lowerBounds = 0 ∧
    ∃ rc, rptSeg.claims.values = [rc] ∧ rc.offset = 0 ∧ rc.length = s.expectedRedBytes

/-- A lone claim as long as the finished block starts where the block does. The code compares
the count of claimed bytes only. -/
def LoneClaimStarts (s : LTPSession) (rptSeg : LTPReportSegment) : Prop :=
  s.redComplete = true → rptSeg.lowerBounds = 0 → ∀ rc, rptSeg.claims.values = [rc] →
    rc.length = s.expectedRedBytes → rc.offset = 0

/-- So it is if the report ends with the block. -/
theorem loneClaimStarts_of_le {s : LTPSession} {rptSeg : LTPReportSegment}
    (hasc : Ascending rptSeg.lowerBounds rptSeg.lowerBounds rptSeg.claims.values
      rptSeg.upperBounds)
    (hle : s.redComplete = true → rptSeg.upperBounds ≤ s.expectedRedBytes) :
    LoneClaimStarts s rptSeg := by
  intro hcomplete hlower rc hrc hlen
  rw [hrc] at hasc
  have hend : rptSeg.lowerBounds + rc.offset + rc.length ≤ rptSeg.upperBounds := hasc.2
  have := hle hcomplete
  omega

theorem claimsWholeSession_iff {s : LTPSession} {rptSeg : LTPReportSegment}
    (hbytes : rptSeg.claimedBytes = (rptSeg.claims.values.map LTPReportClaim.length).sum)
    (hlone : LoneClaimStarts s rptSeg) :
    claimsWholeSession s rptSeg = true ↔ ClaimsBlock s rptSeg := by
  have hsize : rptSeg.claims.size = rptSeg.claims.values.length := by
    rw [OrdMap.size, OrdMap.values, List.length_map]
  simp only [claimsWholeSession, ClaimsBlock, Bool.and_eq_true, beq_iff_eq, hsize, hbytes]
  constructor
  · rintro ⟨⟨⟨hcomplete, hlower⟩, hone⟩, hsum⟩
    obtain ⟨rc, hrc⟩ := List.length_eq_one_iff.mp hone
    have hlen : rc.length = s.expectedRedBytes := by simpa [hrc] using hsum
    exact ⟨hcomplete, hlower, rc, hrc, hlone hcomplete hlower rc hrc hlen, hlen⟩
  · rintro ⟨hcomplete, hlower, rc, hrc, -, hlen⟩
    refine ⟨⟨⟨hcomplete, hlower⟩, by rw [hrc]; rfl⟩, ?_⟩
    simpa [hrc] using hlen

/-- A report on a known checkpoint: one that claims a whole finished block ends the session; any
other removes, sends again and leaves alone exactly the segments that it should. -/
theorem processRs_exact (snd : Sender) (s : LTPSession) (rptSeg : LTPReportSegment)
    (hactive : snd.state = .active s) (hup : snd.startShuttingDown = false)
    (hm : Outgoing s.redSegments) (hconf : Conforms s.redSegments rptSeg)
    (hbytes : rptSeg.claimedBytes = (rptSeg.claims.values.map LTPReportClaim.length).sum)
    (hlone : LoneClaimStarts s rptSeg)
    (hknown : 0 ≤ s.findCheckpointStopByte rptSeg.checkpointId) :
    ∃ snd', processRs snd rptSeg = .ok snd' ∧
      (ClaimsBlock s rptSeg → snd'.state = .closed false ∧ snd'.queue = snd.queue) ∧
      (¬ ClaimsBlock s rptSeg → Applied s rptSeg snd snd') := by
  have hiff := claimsWholeSession_iff hbytes hlone
  unfold processRs
  rw [hactive]
  dsimp only
  split_ifs with hwhole hneg
  · exact ⟨_, rfl, fun _ => ⟨rfl, rfl⟩, fun hnot => absurd (hiff.mp hwhole) hnot⟩
  · omega
  · obtain ⟨snd', hrun, happlied, -⟩ := applyReport_applied hm hconf hup
    exact ⟨snd', hrun, fun hblock => absurd (hiff.mpr hblock) hwhole, fun _ => happlied⟩

/-- A segment as it was sent. -/
def sentSegment (start stop checkpointId : ℕ) : LTPDataSegment :=
  { engineId := 1, sessionId := 1, segmentType := .ds, redGreen := .red
    isCheckpoint := decide (0 < checkpointId), checkpointId := checkpointId, offset := start
    startByte := start, stopByte := stop, payloadLength := stop + 1 - start }

/-- A session that has sent two segments, of which the second is checkpoint 1. -/
def twoSent (first second : LTPDataSegment) : LTPSession :=
  { LTPSession.new 1 1 with
    redSegments := (OrdMap.empty.insert first.startByte first).insert second.startByte second
    expectedRedBytes := 10
    checkpointId := 1
    checkpoints := OrdMap.empty.insert 1 9 }

/-- A report on checkpoint 1 with at most one claim. -/
def reportOn (lowerBounds upperBounds : ℕ) (claim : Option LTPReportClaim) : LTPReportSegment :=
  { engineId := 1, sessionId := 1, checkpointId := 1, serialNumber := 40
    lowerBounds := lowerBounds, upperBounds := upperBounds
    claimCount := claim.elim 0 fun _ => 1, claimedBytes := claim.elim 0 LTPReportClaim.length
    claims := claim.elim .empty fun rc => OrdMap.empty.insert rc.offset rc }

def senderOf (s : LTPSession) : Sender := { state := .active s }

/-- A finished session of two segments, of which the second is checkpoint 1. -/
def finishedTwo : LTPSession :=
  { twoSent (sentSegment 0 4 0) (sentSegment 5 9 1) with redComplete := true }

/-- The first segment is lost; it is sent again as checkpoint 2. -/
theorem processRs_exact_lost :
    ∃ snd', processRs (senderOf finishedTwo) (reportOn 0 10 (some ⟨5, 5⟩)) = .ok snd' ∧
      (ClaimsBlock finishedTwo (reportOn 0 10 (some ⟨5, 5⟩)) →
        snd'.state = .closed false ∧ snd'.queue = (senderOf finishedTwo).queue) ∧
      (¬ ClaimsBlock finishedTwo (reportOn 0 10 (some ⟨5, 5⟩)) →
        Applied finishedTwo (reportOn 0 10 (some ⟨5, 5⟩)) (senderOf finishedTwo) snd') := by
  have hfind : ∀ k es, finishedTwo.redSegments.find? k = some es →
      (k = 0 ∧ es = sentSegment 0 4 0) ∨ (k = 5 ∧ es = sentSegment 5 9 1) := by
    intro k es hk
    simp only [finishedTwo, twoSent, OrdMap.find?_insert, OrdMap.find?_empty] at hk
    split_ifs at hk with h₁ h₂
    · cases hk
      exact Or.inr ⟨h₁, rfl⟩
    · cases hk
      exact Or.inl ⟨h₂, rfl⟩
  apply processRs_exact _ _ _ rfl rfl
  · constructor
    · constructor
      · intro k ds hk
        rcases hfind k ds hk with ⟨rfl, rfl⟩ | ⟨rfl, rfl⟩ <;> rfl
      · intro k ds hk
        rcases hfind k ds hk with ⟨rfl, rfl⟩ | ⟨rfl, rfl⟩ <;> rfl
      · intro k ds hk
        rcases hfind k ds hk with ⟨rfl, rfl⟩ | ⟨rfl, rfl⟩ <;> decide
      · intro k l ds es hk hl hlt
        rcases hfind k ds hk with ⟨rfl, rfl⟩ | ⟨rfl, rfl⟩ <;>
          rcases hfind l es hl with ⟨rfl, rfl⟩ | ⟨rfl, rfl⟩ <;> revert hlt <;> decide
    · intro k ds hk
      rcases hfind k ds hk with ⟨rfl, rfl⟩ | ⟨rfl, rfl⟩ <;> rfl
  · constructor
    · exact ⟨by decide, show 10 ≤ 10 from le_rfl⟩
    · decide
    · intro k es hk rc hrc
      have hrc' : rc = ⟨5, 5⟩ := List.mem_singleton.mp hrc
      subst hrc'
      rcases hfind k es hk with ⟨rfl, rfl⟩ | ⟨rfl, rfl⟩ <;>
        exact ⟨fun h => by revert h; decide, fun h => by revert h; decide⟩
    · intro k es hk hckpt _ _ _
      rcases hfind k es hk with ⟨rfl, rfl⟩ | ⟨rfl, rfl⟩
      · cases hckpt
      · exact ⟨⟨5, 5⟩, List.mem_singleton_self _, by decide, by decide⟩
    · intro k es hk _ hstop
      rcases hfind k es hk with ⟨rfl, rfl⟩ | ⟨rfl, rfl⟩ <;> revert hstop <;> decide
  · rfl
  · intro _ _ rc hrc hlen
    cases hrc
    cases hlen
  · decide

/-- A segment that was queued before becomes the checkpoint although the report does not queue it;
a report on a whole block removes another checkpoint as well; a segment across the lower bound is
sent again. -/
theorem processRs_inexact :
    (∃ snd', processRs (senderOf (twoSent (sentSegment 0 4 0) (sentSegment 5 9 0).setQueuedToSend))
        (reportOn 0 10 none) = .ok snd' ∧ snd'.queue = [(0, false)] ∧
      (snd'.redSegments.find? 5).map (·.isCheckpoint) = some true) ∧
    (∃ snd', processRs (senderOf { twoSent (sentSegment 0 4 7) (sentSegment 5 9 1) with
        redComplete := true }) (reportOn 0 10 (some ⟨0, 10⟩)) = .ok snd' ∧
      snd'.redSegments.find? 0 = none) ∧
    ∃ snd', processRs (senderOf (twoSent (sentSegment 0 4 0) (sentSegment 5 9 1)))
        (reportOn 3 10 (some ⟨2, 5⟩)) = .ok snd' ∧ snd'.queue = [(0, true)] := by
  refine ⟨?_, ?_, ?_⟩ <;> decide +kernel

end Dtnme.Ltp
