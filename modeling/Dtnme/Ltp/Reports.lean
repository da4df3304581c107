import Dtnme.Bundling.Sdnv
import Dtnme.Ltp.Reception

/-! # Report segments

What the receiver answers to a checkpoint: report segments over consecutive bounds, whose
claims are the contiguous blocks cut to those bounds. A report is closed early once the
estimate of its encoded size reaches the preferred segment size.
-/

namespace Dtnme.Ltp
open Library Bundling Runs

variable {s : LTPSession} {S : Set ℕ}

/-! ## The reports of a session -/

/-- The report segment constructor; the claims keep their absolute offsets until encoded. -/
def LTPReportSegment.new (s : LTPSession) (checkpointId lowerBounds upperBounds claimedBytes : ℕ)
    (claimMap : OrdMap ℕ LTPReportClaim) : LTPReportSegment :=
  { engineId := s.engineId, sessionId := s.sessionId, segmentType := .rs
    checkpointId := checkpointId, serialNumber := u64 (s.reportSerialNumber + 1)
    lowerBounds := lowerBounds, upperBounds := upperBounds
    claimCount := claimMap.size, claimedBytes := claimedBytes, claims := claimMap }

/-- A new report takes the next serial number and is stored under it. -/
def LTPSession.addReport (s : LTPSession) (rptseg : LTPReportSegment) : LTPSession :=
  { s with
    reportSerialNumber := rptseg.serialNumber
    reportSegments := s.reportSegments.insert rptseg.serialNumber rptseg }

def LTPSession.addReports (s : LTPSession) (reports : List LTPReportSegment) : LTPSession :=
  reports.foldl LTPSession.addReport s

/-- `claim_map[rc->Offset()] = rc`. -/
def addClaim (claimMap : OrdMap ℕ LTPReportClaim) (offset length : ℕ) :
    OrdMap ℕ LTPReportClaim :=
  claimMap.insert offset ⟨offset, length⟩

/-! ## The loop over the blocks -/

/-- The local variables of the loop, and the session that it adds reports to. -/
structure ReportLoop where
  session : LTPSession
  newClaim : Bool
  claimStart : ℕ
  claimLength : ℕ
  nextClaimStart : ℕ
  estSegSize : ℤ
  rptLowerBounds : ℕ
  rptUpperBounds : ℕ
  segBytesClaimed : ℕ
  totalBytesClaimed : ℕ
  claimMap : OrdMap ℕ LTPReportClaim

/-- The bytes set aside for a report without claims. -/
def reservedOverhead (segsize : ℤ) : ℤ := if 60 < segsize then 40 else 0

/-- The variables before the loop. The leading contiguous bytes start the first claim. -/
def ReportLoop.init (s : LTPSession) (lowerBounds : ℕ) (segsize : ℤ) : ReportLoop :=
  let leading := u64Sub s.firstContiguousBytes lowerBounds
  if lowerBounds < s.firstContiguousBytes then
    ⟨s, false, lowerBounds, leading, u64 (lowerBounds + leading), reservedOverhead segsize,
      lowerBounds, s.firstContiguousBytes, leading, 0, .empty⟩
  else ⟨s, true, 0, 0, 0, reservedOverhead segsize, lowerBounds, lowerBounds, 0, 0, .empty⟩

/-- A new claim from the part of a block above the lower bound; the byte count takes the
whole block. -/
def ReportLoop.startClaim (st : ReportLoop) (blockStart blockLen : ℕ) : ReportLoop :=
  let claimStart := if blockStart < st.rptLowerBounds then st.rptLowerBounds else blockStart
  let claimLength :=
    if blockStart < st.rptLowerBounds then u64Sub blockLen (u64Sub st.rptLowerBounds blockStart)
    else blockLen
  { st with
    newClaim := false
    claimStart := claimStart
    claimLength := claimLength
    segBytesClaimed := u64 (st.segBytesClaimed + blockLen)
    nextClaimStart := u64 (claimStart + claimLength)
    rptUpperBounds := u64 (claimStart + claimLength) }

def ReportLoop.extendClaim (st : ReportLoop) (blockLen : ℕ) : ReportLoop :=
  let claimLength := u64 (st.claimLength + blockLen)
  { st with
    claimLength := claimLength
    segBytesClaimed := u64 (st.segBytesClaimed + blockLen)
    nextClaimStart := u64 (st.claimStart + claimLength)
    rptUpperBounds := u64 (st.claimStart + claimLength) }

/-- Save off the claim in progress and add it to the estimate, an `int32_t`. -/
def ReportLoop.saveClaim (st : ReportLoop) : ReportLoop :=
  let sdnvSize := encodingLen (u64Sub st.claimStart st.rptLowerBounds) + encodingLen st.claimLength
  { st with
    claimMap := addClaim st.claimMap st.claimStart st.claimLength
    estSegSize := i32 (u32OfInt (st.estSegSize + sdnvSize)) }

/-- The report ends at the checkpoint if its claims reach beyond it. -/
def ReportLoop.cutUpper (st : ReportLoop) (chkptUpperBounds : ℕ) : ReportLoop :=
  if chkptUpperBounds < st.rptUpperBounds then
    { st with
      segBytesClaimed := u64Sub st.segBytesClaimed (u64Sub st.rptUpperBounds chkptUpperBounds)
      rptUpperBounds := chkptUpperBounds }
  else st

def ReportLoop.report (st : ReportLoop) (chkpt : ℕ) : LTPReportSegment :=
  .new st.session chkpt st.rptLowerBounds st.rptUpperBounds st.segBytesClaimed st.claimMap

/-- Close out the report and start the next one where it ends. -/
def ReportLoop.closeReport (st : ReportLoop) (chkpt : ℕ) (segsize : ℤ) : ReportLoop :=
  { st with
    session := st.session.addReport (st.report chkpt)
    totalBytesClaimed := u64 (st.totalBytesClaimed + st.segBytesClaimed)
    claimMap := .empty
    rptLowerBounds := st.rptUpperBounds
    estSegSize := reservedOverhead segsize }

def ReportLoop.noClaim (st : ReportLoop) : ReportLoop :=
  { st with newClaim := true, claimStart := 0, claimLength := 0, nextClaimStart := 0 }

/-- The loop from an iterator on. After a gap the iterator is backed up, so that the block
starts a claim of its own. -/
def reportLoop (chkpt chkptUpperBounds : ℕ) (segsize : ℤ) :
    ℕ → List (ℕ × ℕ) → ReportLoop → Except Fault ReportLoop
  | 0, _, _ => .error .noReturn
  | _ + 1, [], st => .ok st
  | fuel + 1, (blockStart, blockStop) :: rest, st =>
    let blockLen := u64 (u64Sub blockStop blockStart + 1)
    if blockStop < st.rptLowerBounds then reportLoop chkpt chkptUpperBounds segsize fuel rest st
    else if st.newClaim then
      if blockStart < chkptUpperBounds then
        reportLoop chkpt chkptUpperBounds segsize fuel rest (st.startClaim blockStart blockLen)
      else .ok st
    else if chkptUpperBounds ≤ blockStart then .ok st
    else if st.nextClaimStart = blockStart then
      reportLoop chkpt chkptUpperBounds segsize fuel rest (st.extendClaim blockLen)
    else
      let st := st.saveClaim
      if segsize ≤ st.estSegSize then
        let st := (st.cutUpper chkptUpperBounds).closeReport chkpt segsize
        if chkptUpperBounds = st.rptUpperBounds then .ok { st with newClaim := true }
        else
          reportLoop chkpt chkptUpperBounds segsize fuel ((blockStart, blockStop) :: rest) st.noClaim
      else
        reportLoop chkpt chkptUpperBounds segsize fuel ((blockStart, blockStop) :: rest) st.noClaim

/-- Each block is looked at twice at most: to end a claim and to start one. -/
def reportFuel (blocks : List (ℕ × ℕ)) : ℕ := 2 * blocks.length + 2

/-- After the loop: the claim in progress is cut at the checkpoint and reported. -/
def finishReport (chkpt chkptUpperBounds : ℕ) (st : ReportLoop) : Except Fault (ℕ × LTPSession) :=
  if st.newClaim then .ok (st.totalBytesClaimed, st.session)
  else
    let overage := u64Sub st.rptUpperBounds chkptUpperBounds
    let cut := decide (chkptUpperBounds < st.rptUpperBounds)
    if cut && !decide (overage < st.claimLength) then .error .assertFailed
    else
      let claimLength := if cut then u64Sub st.claimLength overage else st.claimLength
      let st := st.cutUpper chkptUpperBounds
      let st := { st with claimMap := addClaim st.claimMap st.claimStart claimLength }
      .ok (u64 (st.totalBytesClaimed + st.segBytesClaimed), st.session.addReport (st.report chkpt))

/-- One report over `[0, upperBounds)` with one claim for all of it. -/
def reportAll (s : LTPSession) (chkpt upperBounds : ℕ) : ℕ × LTPSession :=
  (upperBounds,
    s.addReport (.new s chkpt 0 upperBounds upperBounds (addClaim .empty 0 upperBounds)))

/-- The bytes claimed and the session with its new reports. -/
def generateReportSegments (s : LTPSession) (chkpt lowerBounds chkptUpperBounds : ℕ)
    (segsize : ℤ) : Except Fault (ℕ × LTPSession) :=
  if s.redComplete ∧ s.redBytesReceived = s.expectedRedBytes then
    .ok (reportAll s chkpt s.redBytesReceived)
  else if chkptUpperBounds ≤ s.firstContiguousBytes then .ok (reportAll s chkpt chkptUpperBounds)
  else do
    let findLowerBound :=
      if lowerBounds < s.firstContiguousBytes then s.firstContiguousBytes else lowerBounds
    let blocks := s.redContigBlocks.fromBefore findLowerBound
    let st ← reportLoop chkpt chkptUpperBounds segsize (reportFuel blocks) blocks
      (.init s lowerBounds segsize)
    finishReport chkpt chkptUpperBounds st

/-! ## Reports asked for by a checkpoint -/

/-- The lower bound that an offset starts from: the upper bound stored for the entry before. -/
def LTPSession.priorUpperBounds (s : LTPSession) (offset : ℕ) : ℕ :=
  let entry := match s.dsOffsetToUpperbounds.lowerBound? offset with
    | some (k, _) => s.dsOffsetToUpperbounds.prev? k
    | none => s.dsOffsetToUpperbounds.last?
  entry.elim 0 (·.2)

def LTPSession.noteUpperBounds (s : LTPSession) (offset upperBounds : ℕ) : LTPSession :=
  { s with dsOffsetToUpperbounds := s.dsOffsetToUpperbounds.insert offset upperBounds }

/-- The first report that is for the checkpoint or that the checkpoint answers. -/
def LTPSession.findReport (s : LTPSession) (ds : LTPDataSegment) : Option LTPReportSegment :=
  s.reportSegments.values.find? fun rptseg =>
    rptseg.checkpointId == ds.checkpointId || rptseg.serialNumber == ds.serialNumber

/-- Whether there are reports to send, the bytes they claim, and the session. -/
def haveReportSegmentsToSend (s : LTPSession) (ds : LTPDataSegment) (segsize : ℤ) :
    Except Fault (Bool × ℕ × LTPSession) := do
  let upperBounds := u64 (ds.stopByte + 1)
  let lowerBounds := s.priorUpperBounds ds.offset
  let s := s.noteUpperBounds ds.offset upperBounds
  let generate (lowerBounds : ℕ) : Except Fault (Bool × ℕ × LTPSession) := do
    let (bytesClaimed, s) ←
      generateReportSegments s ds.checkpointId lowerBounds upperBounds segsize
    pure (true, bytesClaimed, s)
  match s.findReport ds with
  | some rptseg =>
    if rptseg.checkpointId = ds.checkpointId then pure (!rptseg.isDeleted, rptseg.claimedBytes, s)
    else generate rptseg.lowerBounds
  | none => generate lowerBounds

/-! ## Exact reports -/

def LTPReportClaim.Claims (rc : LTPReportClaim) (x : ℕ) : Prop :=
  rc.offset ≤ x ∧ x < rc.offset + rc.length

/-- The claims lie inside the bounds, are disjoint, and cover what was received of them. -/
structure LTPReportSegment.Exact (rptseg : LTPReportSegment) (S : Set ℕ) : Prop where
  bounds : rptseg.lowerBounds < rptseg.upperBounds
  inside : ∀ k rc, rptseg.claims.find? k = some rc →
    rptseg.lowerBounds ≤ rc.offset ∧ rc.offset + rc.length ≤ rptseg.upperBounds
  disjoint : ∀ j k rc rc', rptseg.claims.find? j = some rc → rptseg.claims.find? k = some rc' →
    j ≠ k → ∀ x, rc.Claims x → ¬ rc'.Claims x
  exact : ∀ x, rptseg.lowerBounds ≤ x → x < rptseg.upperBounds →
    ((∃ k rc, rptseg.claims.find? k = some rc ∧ rc.Claims x) ↔ x ∈ S)

/-- The bounds follow one another from `lo` to `hi`. -/
def Tiles : List LTPReportSegment → ℕ → ℕ → Prop
  | [], lo, hi => lo = hi
  | rptseg :: reports, lo, hi => rptseg.lowerBounds = lo ∧ Tiles reports rptseg.upperBounds hi

theorem Tiles.append {reports : List LTPReportSegment} {lo hi : ℕ} {rptseg : LTPReportSegment}
    (h : Tiles reports lo hi) (hlow : rptseg.lowerBounds = hi) :
    Tiles (reports ++ [rptseg]) lo rptseg.upperBounds := by
  induction reports generalizing lo with
  | nil => exact ⟨hlow.trans h.symm, rfl⟩
  | cons r reports ih => exact ⟨h.1, ih h.2⟩

/-- The map holds the parts of the blocks inside `[l, u)`, each under its offset. -/
def Clips (f : ℕ → Option ℕ) (l u : ℕ) (m : OrdMap ℕ LTPReportClaim) : Prop :=
  ∀ k rc, m.find? k = some rc ↔ ∃ b c, f b = some c ∧ l ≤ c ∧ b < u ∧ k = max b l ∧
    rc = ⟨max b l, min (c + 1) u - max b l⟩

/-- A report over the clips of the canonical blocks is exact. -/
theorem Clips.exact {f : ℕ → Option ℕ} {rptseg : LTPReportSegment} (hf : Decomposes f S)
    (hlt : rptseg.lowerBounds < rptseg.upperBounds)
    (h : Clips f rptseg.lowerBounds rptseg.upperBounds rptseg.claims) : rptseg.Exact S where
  bounds := hlt
  inside k rc hk := by
    obtain ⟨b, c, hb, hlow, hup, -, rfl⟩ := (h k rc).mp hk
    have hbc := hf.ordered hb
    dsimp only
    omega
  disjoint j k rc rc' hj hk hjk x hx hx' := by
    obtain ⟨b, c, hb, hlow, hup, rfl, rfl⟩ := (h j rc).mp hj
    obtain ⟨b', c', hb', hlow', hup', rfl, rfl⟩ := (h k rc').mp hk
    simp only [LTPReportClaim.Claims] at hx hx'
    have heq : b = b' := hf.unique (x := x) hb hb' (by omega) (by omega) (by omega) (by omega)
    exact hjk (by rw [heq])
  exact x hlow hup := by
    rw [hf.covers]
    constructor
    · rintro ⟨k, rc, hk, hx⟩
      obtain ⟨b, c, hb, -, -, -, rfl⟩ := (h k rc).mp hk
      simp only [LTPReportClaim.Claims] at hx
      exact ⟨b, c, hb, by omega, by omega⟩
    · rintro ⟨b, c, hb, hbx, hxc⟩
      refine ⟨_, _, (h _ _).mpr ⟨b, c, hb, by omega, by omega, rfl, rfl⟩, ?_⟩
      simp only [LTPReportClaim.Claims]
      omega

/-- The map holds the blocks that start before `p` and reach `l`, cut at `l`. -/
def Saved (f : ℕ → Option ℕ) (l p : ℕ) (m : OrdMap ℕ LTPReportClaim) : Prop :=
  ∀ k rc, m.find? k = some rc ↔ ∃ b c, f b = some c ∧ l ≤ c ∧ b < p ∧ k = max b l ∧
    rc = ⟨max b l, c + 1 - max b l⟩

variable {f : ℕ → Option ℕ} {m : OrdMap ℕ LTPReportClaim} {l p q b c upper : ℕ}

theorem Saved.congr (h : Saved f l p m)
    (hpq : ∀ b c, f b = some c → l ≤ c → (b < p ↔ b < q)) : Saved f l q m := by
  intro k rc
  rw [h k rc]
  constructor
  · rintro ⟨b, c, hb, hlc, hbp, hk⟩
    exact ⟨b, c, hb, hlc, (hpq b c hb hlc).mp hbp, hk⟩
  · rintro ⟨b, c, hb, hlc, hbq, hk⟩
    exact ⟨b, c, hb, hlc, (hpq b c hb hlc).mpr hbq, hk⟩

theorem Saved.empty : Saved f l 0 .empty := by
  intro k rc
  simp

/-- The claim of the last block, cut at `u`, completes the clips. -/
theorem Saved.addClaim {u : ℕ} (hf : Decomposes f S) (h : Saved f l p m) (hp : p = b ∨ p = b + 1)
    (hb : f b = some c) (hlc : l ≤ c) (hbu : b < u) (huc : u ≤ c + 1) :
    Clips f l u (addClaim m (max b l) (u - max b l)) := by
  intro k rc
  have hother : ∀ b' c', f b' = some c' → b' < b → c' + 1 < b := fun b' c' hb' hlt =>
    hf.gap hb' hb hlt
  have hlater : ∀ b' c', f b' = some c' → b < b' → c + 1 < b' := fun b' c' hb' hlt =>
    hf.gap hb hb' hlt
  rw [Dtnme.Ltp.addClaim, OrdMap.find?_insert]
  split_ifs with hk
  · subst hk
    constructor
    · intro hrc
      cases hrc
      exact ⟨b, c, hb, hlc, hbu, rfl, by rw [Nat.min_eq_right huc]⟩
    · rintro ⟨b', c', hb', hlc', hbu', hmax, rfl⟩
      rcases lt_trichotomy b' b with hlt | heq | hlt
      · have := hother b' c' hb' hlt
        omega
      · subst heq
        rw [hb] at hb'
        cases hb'
        rw [Nat.min_eq_right huc]
      · have := hlater b' c' hb' hlt
        omega
  · rw [h k rc]
    constructor
    · rintro ⟨b', c', hb', hlc', hbp, rfl, rfl⟩
      have hne : b' ≠ b := by
        rintro rfl
        exact hk rfl
      have := hother b' c' hb' (by omega)
      exact ⟨b', c', hb', hlc', by omega, rfl, by rw [Nat.min_eq_left (by omega)]⟩
    · rintro ⟨b', c', hb', hlc', hbu', rfl, rfl⟩
      have hne : b' ≠ b := by
        rintro rfl
        exact hk rfl
      have hlt : b' < b := by
        by_contra hge
        have := hlater b' c' hb' (by omega)
        omega
      have := hother b' c' hb' hlt
      exact ⟨b', c', hb', hlc', by omega, rfl, by rw [Nat.min_eq_left (by omega)]⟩

/-- Up to the end of a block the clips are the saved blocks. -/
theorem Clips.saved (hf : Decomposes f S) (hb : f b = some c) (h : Clips f l (c + 1) m) :
    Saved f l (b + 1) m := by
  intro k rc
  rw [h k rc]
  constructor
  · rintro ⟨b', c', hb', hlc', hbu, rfl, rfl⟩
    have hle : b' ≤ b := by
      by_contra hlt
      have := hf.gap hb hb' (by omega)
      omega
    have hcc : c' ≤ c := by
      rcases hle.lt_or_eq with hlt | heq
      · have := hf.gap hb' hb hlt
        have := hf.ordered hb
        omega
      · subst heq
        rw [hb] at hb'
        cases hb'
        rfl
    exact ⟨b', c', hb', hlc', by omega, rfl, by rw [Nat.min_eq_left (by omega)]⟩
  · rintro ⟨b', c', hb', hlc', hbp, rfl, rfl⟩
    have hbc := hf.ordered hb
    have hcc : c' ≤ c := by
      rcases (Nat.lt_succ_iff.mp hbp).lt_or_eq with hlt | heq
      · have := hf.gap hb' hb hlt
        omega
      · subst heq
        rw [hb] at hb'
        cases hb'
        rfl
    exact ⟨b', c', hb', hlc', by omega, rfl, by rw [Nat.min_eq_left (by omega)]⟩

/-! ## The blocks ahead of the iterator -/

/-- The blocks that start at `q` or later, in order. -/
structure Ahead (f : ℕ → Option ℕ) (q : ℕ) (rest : List (ℕ × ℕ)) : Prop where
  sorted : rest.Pairwise (fun x y => x.1 < y.1)
  mem : ∀ b c, (b, c) ∈ rest ↔ f b = some c ∧ q ≤ b

/-- The next block, and what is ahead of it. -/
theorem Ahead.next {rest : List (ℕ × ℕ)} (h : Ahead f q ((b, c) :: rest)) :
    f b = some c ∧ q ≤ b ∧ Ahead f (b + 1) rest ∧ ∀ b' c', f b' = some c' → q ≤ b' → b ≤ b' := by
  have hsorted := List.pairwise_cons.mp h.sorted
  obtain ⟨hb, hq⟩ := (h.mem b c).mp List.mem_cons_self
  have hfirst : ∀ b' c', f b' = some c' → q ≤ b' → (b', c') = (b, c) ∨ (b', c') ∈ rest :=
    fun b' c' hb' hq' => List.mem_cons.mp ((h.mem b' c').mpr ⟨hb', hq'⟩)
  refine ⟨hb, hq, ⟨hsorted.2, fun b' c' => ⟨fun hmem => ?_, fun ⟨hb', hlt⟩ => ?_⟩⟩, ?_⟩
  · exact ⟨((h.mem b' c').mp (List.mem_cons_of_mem _ hmem)).1, hsorted.1 _ hmem⟩
  · rcases hfirst b' c' hb' (by omega) with heq | hmem
    · cases heq
      omega
    · exact hmem
  · intro b' c' hb' hq'
    rcases hfirst b' c' hb' hq' with heq | hmem
    · cases heq
      rfl
    · exact (hsorted.1 _ hmem).le

/-! ## One round of the loop -/

/-- The claim in progress is the block `[b, c]`, from the lower bound on. -/
structure Opened (f : ℕ → Option ℕ) (upper b c : ℕ) (st : ReportLoop) : Prop where
  newClaim : st.newClaim = false
  block : f b = some c
  reaches : st.rptLowerBounds ≤ c
  below : b < upper
  start : st.claimStart = max b st.rptLowerBounds
  length : st.claimLength = c + 1 - max b st.rptLowerBounds
  nextStart : st.nextClaimStart = c + 1
  upperBounds : st.rptUpperBounds = c + 1

/-- A claim is in progress. The iterator is behind its block, or still at it when the claim was
started from the leading bytes; the block may have been saved once already. -/
structure InClaim (f : ℕ → Option ℕ) (upper q b c : ℕ) (st : ReportLoop) : Prop
    extends Opened f upper b c st where
  saved : ∃ p, (p = b ∨ p = b + 1) ∧ Saved f st.rptLowerBounds p st.claimMap
  ahead : q = b + 1 ∨ (q = b ∧ c + 1 < upper)
  lower : st.rptLowerBounds < upper

/-- No claim is in progress: every block behind the iterator is saved, and the block that the
checkpoint ends in is still ahead. -/
structure NoClaim (f : ℕ → Option ℕ) (upper q : ℕ) (st : ReportLoop) : Prop where
  newClaim : st.newClaim = true
  lower : st.rptLowerBounds < upper
  saved : ∃ p ≤ q + 1, Saved f st.rptLowerBounds p st.claimMap ∧
    ∀ b c, f b = some c → st.rptLowerBounds ≤ c → b < q → b < p
  target : ∃ b c, f b = some c ∧ q ≤ b ∧ b < upper ∧ upper ≤ c + 1

@[simp] theorem ReportLoop.noClaim_claimMap (st : ReportLoop) :
    st.noClaim.claimMap = st.claimMap := rfl

@[simp] theorem ReportLoop.noClaim_rptLowerBounds (st : ReportLoop) :
    st.noClaim.rptLowerBounds = st.rptLowerBounds := rfl

@[simp] theorem ReportLoop.noClaim_newClaim (st : ReportLoop) : st.noClaim.newClaim = true := rfl

@[simp] theorem ReportLoop.noClaim_session (st : ReportLoop) :
    st.noClaim.session = st.session := rfl

variable {st : ReportLoop} {rest : List (ℕ × ℕ)}

/-- The length of a block does not wrap. -/
theorem blockLen_eq (hbc : b ≤ c) (hc : c + 1 < 2 ^ 64) :
    u64 (u64Sub c b + 1) = c + 1 - b := by
  rw [u64Sub_of_le (by omega) hbc, u64_of_lt (by omega)]
  omega

theorem opened_startClaim (hbc : b ≤ c) (hc : c + 1 < 2 ^ 64) (hb : f b = some c)
    (hlc : st.rptLowerBounds ≤ c) (hbu : b < upper) :
    Opened f upper b c (st.startClaim b (u64 (u64Sub c b + 1))) := by
  have hlen := blockLen_eq hbc hc
  have hcut : (if b < st.rptLowerBounds then
      u64Sub (c + 1 - b) (u64Sub st.rptLowerBounds b) else c + 1 - b) =
      c + 1 - max b st.rptLowerBounds := by
    split_ifs with hlt
    · rw [u64Sub_of_le (by omega) hlt.le, u64Sub_of_le (by omega) (by omega)]
      omega
    · omega
  have hstart : (if b < st.rptLowerBounds then st.rptLowerBounds else b) =
      max b st.rptLowerBounds := by
    split_ifs <;> omega
  have hsum : u64 (max b st.rptLowerBounds + (c + 1 - max b st.rptLowerBounds)) = c + 1 := by
    rw [u64_of_lt (by omega)]
    omega
  constructor
  · rfl
  · exact hb
  · exact hlc
  · exact hbu
  all_goals simp only [ReportLoop.startClaim, hlen, hstart, hcut, hsum]

theorem NoClaim.skip (h : NoClaim f upper q st) (hnext : Ahead f q ((b, c) :: rest))
    (hlt : c < st.rptLowerBounds) : NoClaim f upper (b + 1) st := by
  obtain ⟨hb, hqb, -, hfirst⟩ := hnext.next
  obtain ⟨p, hp, hsaved, hbehind⟩ := h.saved
  obtain ⟨b', c', hb', hq', hbu, hcu⟩ := h.target
  refine ⟨h.newClaim, h.lower, ⟨p, by omega, hsaved, ?_⟩, ⟨b', c', hb', ?_, hbu, hcu⟩⟩
  · intro b₁ c₁ hb₁ hlc hlt₁
    apply hbehind b₁ c₁ hb₁ hlc
    by_contra hge
    have := hfirst b₁ c₁ hb₁ (by omega)
    have heq : b₁ = b := by omega
    subst heq
    rw [hb] at hb₁
    cases hb₁
    omega
  · have hne : b' ≠ b := by
      rintro rfl
      rw [hb] at hb'
      cases hb'
      have := h.lower
      omega
    have := hfirst b' c' hb' hq'
    omega

theorem NoClaim.start (h : NoClaim f upper q st) (hf : Decomposes f S)
    (hnext : Ahead f q ((b, c) :: rest)) (hc : c + 1 < 2 ^ 64) (hlc : st.rptLowerBounds ≤ c)
    (hbu : b < upper) :
    InClaim f upper (b + 1) b c (st.startClaim b (u64 (u64Sub c b + 1))) := by
  obtain ⟨hb, hqb, -, hfirst⟩ := hnext.next
  obtain ⟨p, hp, hsaved, hbehind⟩ := h.saved
  refine ⟨opened_startClaim (hf.ordered hb) hc hb hlc hbu, ?_, Or.inl rfl, h.lower⟩
  rcases le_or_gt p b with hpb | hpb
  · refine ⟨b, Or.inl rfl, hsaved.congr fun b' c' hb' hlc' => ⟨fun hlt => by omega, fun hlt => ?_⟩⟩
    apply hbehind b' c' hb' hlc'
    by_contra hge
    have := hfirst b' c' hb' (by omega)
    omega
  · have heq : p = b + 1 := by omega
    exact ⟨p, Or.inr heq, hsaved⟩

theorem NoClaim.not_beyond (h : NoClaim f upper q st) (hnext : Ahead f q ((b, c) :: rest)) :
    b < upper := by
  obtain ⟨-, -, -, hfirst⟩ := hnext.next
  obtain ⟨b', c', hb', hq', hbu, -⟩ := h.target
  have := hfirst b' c' hb' hq'
  omega

theorem NoClaim.not_nil (h : NoClaim f upper q st) : ¬ Ahead f q [] := by
  intro hnext
  obtain ⟨b', c', hb', hq', -⟩ := h.target
  cases (hnext.mem b' c').mpr ⟨hb', hq'⟩

/-- The block at the iterator is the one in progress or starts behind a gap. -/
theorem InClaim.head {b' c' : ℕ} (h : InClaim f upper q b c st) (hf : Decomposes f S)
    (hnext : Ahead f q ((b', c') :: rest)) :
    (b' = b ∧ c' = c ∧ c + 1 < upper) ∨ c + 1 < b' := by
  obtain ⟨hb', hq, -, hfirst⟩ := hnext.next
  rcases h.ahead with hqb | ⟨hqb, hcu⟩
  · exact Or.inr (hf.gap h.block hb' (by omega))
  · have hle := hfirst b c h.block hqb.le
    rcases hle.lt_or_eq with hlt | heq
    · omega
    · subst heq
      have hcc := h.block
      rw [hb'] at hcc
      cases hcc
      exact Or.inl ⟨rfl, rfl, hcu⟩

/-- The block that the checkpoint ends in, when the claim in progress stops before. -/
theorem InClaim.target (h : InClaim f upper q b c st) (hf : Decomposes f S)
    (htarget : ∃ b c, f b = some c ∧ b < upper ∧ upper ≤ c + 1) (hcu : c + 1 < upper) :
    ∃ b' c', f b' = some c' ∧ b < b' ∧ b' < upper ∧ upper ≤ c' + 1 := by
  obtain ⟨b', c', hb', hbu, hcu'⟩ := htarget
  refine ⟨b', c', hb', ?_, hbu, hcu'⟩
  rcases lt_trichotomy b b' with hlt | heq | hlt
  · exact hlt
  · subst heq
    have hcc := h.block
    rw [hb'] at hcc
    cases hcc
    omega
  · have := hf.gap hb' h.block hlt
    have := hf.ordered h.block
    omega

/-- Once nothing below the checkpoint is left, the claim in progress reaches it. -/
theorem InClaim.reaches_upper (h : InClaim f upper q b c st) (hf : Decomposes f S)
    (htarget : ∃ b c, f b = some c ∧ b < upper ∧ upper ≤ c + 1)
    (hnone : ∀ b' c', f b' = some c' → q ≤ b' → upper ≤ b') : upper ≤ c + 1 := by
  by_contra hlt
  obtain ⟨b', c', hb', hbb, hbu, -⟩ := h.target hf htarget (by omega)
  have hq : q ≤ b + 1 := by
    rcases h.ahead with hqb | ⟨hqb, -⟩ <;> omega
  have := hnone b' c' hb' (by omega)
  omega

/-- The claim map after the claim in progress was saved. -/
theorem InClaim.clips (h : InClaim f upper q b c st) (hf : Decomposes f S) :
    Clips f st.rptLowerBounds (c + 1) st.saveClaim.claimMap := by
  obtain ⟨p, hp, hsaved⟩ := h.saved
  have hbc := hf.ordered h.block
  have hclips := hsaved.addClaim hf hp h.block h.reaches (by omega) le_rfl
  simp only [ReportLoop.saveClaim, h.start, h.length]
  exact hclips

theorem InClaim.save (h : InClaim f upper q b c st) (hf : Decomposes f S)
    (htarget : ∃ b c, f b = some c ∧ b < upper ∧ upper ≤ c + 1) (hcu : c + 1 < upper) :
    NoClaim f upper q st.saveClaim.noClaim := by
  obtain ⟨b', c', hb', hbb, hbu, hcu'⟩ := h.target hf htarget hcu
  have hq : q ≤ b + 1 ∧ b ≤ q := by
    rcases h.ahead with hqb | ⟨hqb, -⟩ <;> omega
  refine ⟨rfl, h.lower, ⟨b + 1, by omega, (h.clips hf).saved hf h.block, ?_⟩,
    ⟨b', c', hb', by omega, hbu, hcu'⟩⟩
  intro b₁ c₁ _ _ hlt
  omega

/-! ## The reports made so far -/

/-- A report ends at the checkpoint or where a run of received bytes ends. -/
def EndsAt (S : Set ℕ) (upper x : ℕ) : Prop := x = upper ∨ (x - 1 ∈ S ∧ x ∉ S)

/-- The session `t` is `s` with exact reports added that tile `[lo, x)`, all of them found under
their serial numbers. -/
structure Reported (s : LTPSession) (S : Set ℕ) (f : ℕ → Option ℕ) (upper chkpt lo x : ℕ)
    (t : LTPSession) (reports : List LTPReportSegment) : Prop where
  session : t = s.addReports reports
  tiles : Tiles reports lo x
  exact : ∀ r ∈ reports, r.checkpointId = chkpt ∧ r.Exact S
  clips : ∀ r ∈ reports, Clips f r.lowerBounds r.upperBounds r.claims
  ends : ∀ r ∈ reports, EndsAt S upper r.upperBounds
  few : lo + reports.length ≤ x
  serial : u64 t.reportSerialNumber = u64 (s.reportSerialNumber + reports.length)
  serials : ∀ r ∈ reports, ∃ i < reports.length,
    r.serialNumber = u64 (s.reportSerialNumber + (i + 1))
  stored : ∀ r ∈ reports, t.reportSegments.find? r.serialNumber = some r

theorem Reported.refl (s : LTPSession) (S : Set ℕ) (f : ℕ → Option ℕ) (upper chkpt lo : ℕ) :
    Reported s S f upper chkpt lo lo s [] where
  session := rfl
  tiles := rfl
  exact r hr := by cases hr
  clips r hr := by cases hr
  ends r hr := by cases hr
  few := le_rfl
  serial := rfl
  serials r hr := by cases hr
  stored r hr := by cases hr

/-- One more report over the clips of the blocks, made from the session as it is. -/
theorem Reported.add {chkpt lo x u claimed : ℕ} {t : LTPSession} {reports : List LTPReportSegment}
    (h : Reported s S f upper chkpt lo x t reports) (hf : Decomposes f S) (hu : u < 2 ^ 64)
    (hxu : x < u) (hclips : Clips f x u m) (hend : EndsAt S upper u) :
    ∃ reports', Reported s S f upper chkpt lo u
      (t.addReport (.new t chkpt x u claimed m)) reports' ∧ reports' ≠ [] := by
  have hexact : (LTPReportSegment.new t chkpt x u claimed m).Exact S := Clips.exact hf hxu hclips
  have hnew : (LTPReportSegment.new t chkpt x u claimed m).serialNumber =
      u64 (s.reportSerialNumber + (reports.length + 1)) := by
    have := h.serial
    change u64 (t.reportSerialNumber + 1) = _
    unfold u64 at this ⊢
    omega
  have hlen : (reports ++ [LTPReportSegment.new t chkpt x u claimed m]).length =
      reports.length + 1 := by
    simp
  refine ⟨reports ++ [.new t chkpt x u claimed m], ?_, by simp⟩
  constructor
  · rw [h.session]
    simp [LTPSession.addReports]
  · exact h.tiles.append rfl
  · intro r hr
    rcases List.mem_append.mp hr with hr | hr
    · exact h.exact r hr
    · rw [List.mem_singleton.mp hr]
      exact ⟨rfl, hexact⟩
  · intro r hr
    rcases List.mem_append.mp hr with hr | hr
    · exact h.clips r hr
    · rw [List.mem_singleton.mp hr]
      exact hclips
  · intro r hr
    rcases List.mem_append.mp hr with hr | hr
    · exact h.ends r hr
    · rw [List.mem_singleton.mp hr]
      exact hend
  · have := h.few
    omega
  · change u64 (LTPReportSegment.new t chkpt x u claimed m).serialNumber = _
    rw [hnew, hlen]
    unfold u64
    omega
  · intro r hr
    rw [hlen]
    rcases List.mem_append.mp hr with hr | hr
    · obtain ⟨i, hi, hserial⟩ := h.serials r hr
      exact ⟨i, by omega, hserial⟩
    · rw [List.mem_singleton.mp hr]
      exact ⟨reports.length, by omega, hnew⟩
  · intro r hr
    simp only [LTPSession.addReport, OrdMap.find?_insert]
    rcases List.mem_append.mp hr with hr | hr
    · rw [if_neg, h.stored r hr]
      obtain ⟨i, hi, hserial⟩ := h.serials r hr
      have := h.few
      rw [hnew, hserial]
      unfold u64
      omega
    · rw [List.mem_singleton.mp hr, if_pos rfl]

theorem cutUpper_of_le {st : ReportLoop} (h : st.rptUpperBounds ≤ upper) :
    st.cutUpper upper = st := by
  rw [ReportLoop.cutUpper, if_neg (by omega)]

theorem InClaim.cutUpper (h : InClaim f upper q b c st) (hcu : c + 1 < upper) :
    st.saveClaim.cutUpper upper = st.saveClaim := by
  apply cutUpper_of_le
  change st.rptUpperBounds ≤ upper
  rw [h.upperBounds]
  omega

/-- A report closed before the checkpoint ends with the claim that was saved last. -/
theorem InClaim.report (h : InClaim f upper q b c st) (hf : Decomposes f S) :
    st.saveClaim.rptLowerBounds < st.saveClaim.rptUpperBounds ∧
      Clips f st.saveClaim.rptLowerBounds st.saveClaim.rptUpperBounds st.saveClaim.claimMap ∧
      st.saveClaim.rptUpperBounds = c + 1 ∧ EndsAt S upper st.saveClaim.rptUpperBounds := by
  have hclips := h.clips hf
  have hup : st.saveClaim.rptUpperBounds = c + 1 := h.upperBounds
  rw [hup]
  exact ⟨Nat.lt_succ_of_le h.reaches, hclips, rfl,
    Or.inr ⟨hf.mem h.block (hf.ordered h.block) le_rfl, hf.succ_not_mem h.block⟩⟩

theorem InClaim.close (h : InClaim f upper q b c st) (hf : Decomposes f S) (chkpt : ℕ)
    (segsize : ℤ) (htarget : ∃ b c, f b = some c ∧ b < upper ∧ upper ≤ c + 1)
    (hcu : c + 1 < upper) :
    NoClaim f upper q (st.saveClaim.closeReport chkpt segsize).noClaim := by
  obtain ⟨b', c', hb', hbb, hbu, hcu'⟩ := h.target hf htarget hcu
  have hq : q ≤ b + 1 := by
    rcases h.ahead with hqb | ⟨hqb, -⟩ <;> omega
  have hlow : (st.saveClaim.closeReport chkpt segsize).rptLowerBounds = c + 1 := h.upperBounds
  refine ⟨rfl, ?_, ⟨0, by omega, Saved.empty, ?_⟩, ⟨b', c', hb', by omega, hbu, hcu'⟩⟩
  · rw [ReportLoop.noClaim_rptLowerBounds, hlow]
    exact hcu
  · intro b₁ c₁ hb₁ hlc hlt
    rw [ReportLoop.noClaim_rptLowerBounds, hlow] at hlc
    -- a block behind the iterator ends with the closed report at the latest
    exfalso
    rcases (Nat.lt_succ_iff.mp (hlt.trans_le hq)).lt_or_eq with hlt' | heq
    · have := hf.gap hb₁ h.block hlt'
      have := hf.ordered h.block
      omega
    · subst heq
      have hcc := h.block
      rw [hb₁] at hcc
      cases hcc
      omega

/-! ## The whole loop -/

/-- Where the loop stops: the claim in progress reaches the checkpoint. -/
def Stopped (s : LTPSession) (S : Set ℕ) (f : ℕ → Option ℕ) (chkpt lo upper : ℕ)
    (st : ReportLoop) : Prop :=
  ∃ q b c reports, InClaim f upper q b c st ∧ upper ≤ c + 1 ∧
    Reported s S f upper chkpt lo st.rptLowerBounds st.session reports

theorem reportLoop_run {chkpt lo : ℕ} {segsize : ℤ} (hf : Decomposes f S)
    (hword : ∀ b c, f b = some c → c + 1 < 2 ^ 64)
    (htarget : ∃ b c, f b = some c ∧ b < upper ∧ upper ≤ c + 1) {fuel : ℕ}
    {reports : List LTPReportSegment} (hahead : Ahead f q rest)
    (hrep : Reported s S f upper chkpt lo st.rptLowerBounds st.session reports)
    (hst : ((∃ b c, InClaim f upper q b c st) ∧ 2 * rest.length + 1 < fuel) ∨
      (NoClaim f upper q st ∧ 2 * rest.length < fuel)) :
    ∃ st', reportLoop chkpt upper segsize fuel rest st = .ok st' ∧
      Stopped s S f chkpt lo upper st' := by
  induction fuel generalizing rest st q reports with
  | zero => omega
  | succ fuel ih =>
    rcases rest with _ | ⟨⟨b', c'⟩, rest⟩
    · rcases hst with ⟨⟨b, c, hin⟩, -⟩ | ⟨hno, -⟩
      · refine ⟨st, rfl, q, b, c, reports, hin, ?_, hrep⟩
        apply hin.reaches_upper hf htarget
        intro b₁ c₁ hb₁ hq
        cases (hahead.mem b₁ c₁).mpr ⟨hb₁, hq⟩
      · exact absurd hahead hno.not_nil
    · obtain ⟨hb', -, hrest, hfirst⟩ := hahead.next
      rw [List.length_cons] at hst
      rcases hst with ⟨⟨b, c, hin⟩, hfuel⟩ | ⟨hno, hfuel⟩
      · have hbc := hf.ordered hin.block
        have hbc' := hf.ordered hb'
        have hreach : ¬ c' < st.rptLowerBounds := by
          have := hin.reaches
          rcases hin.head hf hahead with ⟨-, rfl, -⟩ | hgap <;> omega
        simp only [reportLoop, if_neg hreach, hin.newClaim, Bool.false_eq_true, if_false]
        by_cases hup : upper ≤ b'
        · rw [if_pos hup]
          refine ⟨st, rfl, q, b, c, reports, hin, ?_, hrep⟩
          exact hin.reaches_upper hf htarget fun b₁ c₁ hb₁ hq => hup.trans (hfirst b₁ c₁ hb₁ hq)
        · -- below the checkpoint there is a gap, or the block is the leading one
          have hcu : c + 1 < upper := by
            rcases hin.head hf hahead with ⟨-, -, hcu⟩ | hgap <;> omega
          have hnext : ¬ st.nextClaimStart = b' := by
            rw [hin.nextStart]
            rcases hin.head hf hahead with ⟨rfl, -, -⟩ | hgap <;> omega
          rw [if_neg hup, if_neg hnext, hin.cutUpper hcu]
          split_ifs with hsize hclosed
          · have hend := (hin.report hf).2.2.1
            change upper = st.saveClaim.rptUpperBounds at hclosed
            omega
          · obtain ⟨hlt, hclips, hend, hends⟩ := hin.report hf
            have hrep' : Reported s S f upper chkpt lo st.saveClaim.rptLowerBounds
              st.saveClaim.session reports := hrep
            obtain ⟨reports', hrep', -⟩ := hrep'.add hf (by rw [hend]; exact hword b c hin.block)
              hlt hclips hends
            exact ih hahead hrep'
              (Or.inr ⟨hin.close hf chkpt segsize htarget hcu, by rw [List.length_cons]; omega⟩)
          · exact ih hahead hrep
              (Or.inr ⟨hin.save hf htarget hcu, by rw [List.length_cons]; omega⟩)
      · simp only [reportLoop, hno.newClaim, if_true]
        by_cases hskip : c' < st.rptLowerBounds
        · rw [if_pos hskip]
          exact ih hrest hrep (Or.inr ⟨hno.skip hahead hskip, by omega⟩)
        · rw [if_neg hskip, if_pos (hno.not_beyond hahead)]
          exact ih hrest hrep
            (Or.inl ⟨⟨b', c', hno.start hf hahead (hword b' c' hb') (by omega)
              (hno.not_beyond hahead)⟩, by omega⟩)

@[simp] theorem ReportLoop.cutUpper_session (st : ReportLoop) :
    (st.cutUpper upper).session = st.session := by
  unfold ReportLoop.cutUpper
  split_ifs <;> rfl

@[simp] theorem ReportLoop.cutUpper_rptLowerBounds (st : ReportLoop) :
    (st.cutUpper upper).rptLowerBounds = st.rptLowerBounds := by
  unfold ReportLoop.cutUpper
  split_ifs <;> rfl

@[simp] theorem ReportLoop.cutUpper_claimMap (st : ReportLoop) :
    (st.cutUpper upper).claimMap = st.claimMap := by
  unfold ReportLoop.cutUpper
  split_ifs <;> rfl

@[simp] theorem ReportLoop.cutUpper_claimStart (st : ReportLoop) :
    (st.cutUpper upper).claimStart = st.claimStart := by
  unfold ReportLoop.cutUpper
  split_ifs <;> rfl

theorem cutUpper_rptUpperBounds (h : upper ≤ st.rptUpperBounds) :
    (st.cutUpper upper).rptUpperBounds = upper := by
  unfold ReportLoop.cutUpper
  split_ifs with hlt
  · rfl
  · exact h.antisymm' (not_lt.mp hlt)

theorem finishReport_stopped {chkpt lo : ℕ} (hf : Decomposes f S)
    (hword : ∀ b c, f b = some c → c + 1 < 2 ^ 64) (h : Stopped s S f chkpt lo upper st) :
    ∃ total t reports, finishReport chkpt upper st = .ok (total, t) ∧
      Reported s S f upper chkpt lo upper t reports ∧ reports ≠ [] := by
  obtain ⟨q, b, c, reports, hin, hcu, hrep⟩ := h
  obtain ⟨p, hp, hsaved⟩ := hin.saved
  have hb := hin.below
  have hl := hin.lower
  have hc := hword b c hin.block
  have hover : u64Sub (c + 1) upper = c + 1 - upper := u64Sub_of_le hc hcu
  have hlen : (if upper < c + 1 then
      u64Sub (c + 1 - max b st.rptLowerBounds) (c + 1 - upper)
      else c + 1 - max b st.rptLowerBounds) = upper - max b st.rptLowerBounds := by
    split_ifs with hlt
    · rw [u64Sub_of_le (by omega) (by omega)]
      omega
    · omega
  have hassert : ¬ (decide (upper < c + 1) &&
      !decide (c + 1 - upper < c + 1 - max b st.rptLowerBounds)) = true := by
    simp only [Bool.and_eq_true, decide_eq_true_eq, Bool.not_eq_true', decide_eq_false_iff_not,
      not_and, not_not]
    omega
  have hend : (st.cutUpper upper).rptUpperBounds = upper :=
    cutUpper_rptUpperBounds (hin.upperBounds.symm ▸ hcu)
  simp only [finishReport, hin.newClaim, Bool.false_eq_true, if_false, hin.upperBounds, hin.length,
    hover, if_neg hassert, decide_eq_true_eq, hlen, ReportLoop.report, hend, hin.start,
    ReportLoop.cutUpper_session, ReportLoop.cutUpper_rptLowerBounds, ReportLoop.cutUpper_claimMap,
    ReportLoop.cutUpper_claimStart]
  have hclips := hsaved.addClaim hf hp hin.block hin.reaches hb hcu
  obtain ⟨reports', hrep', hne⟩ := hrep.add hf (by omega) hl hclips (Or.inl rfl)
  exact ⟨_, _, reports', rfl, hrep', hne⟩

/-! ## The first block -/

/-- The iterator starts at a block below `k`, unless nothing is behind it. -/
theorem fromBefore_ahead (blocks : OrdMap ℕ ℕ) (k : ℕ) :
    ∃ q, Ahead blocks.find? q (blocks.fromBefore k) ∧
      ∀ b c, blocks.find? b = some c → b < q → q < k ∧ ∃ c', blocks.find? q = some c' := by
  obtain ⟨q, hfrom, hq⟩ := blocks.fromBefore_eq k
  refine ⟨q, ?_, hq⟩
  rw [hfrom]
  constructor
  · exact blocks.sorted.filter _
  · intro b c
    rw [List.mem_filter, OrdMap.find?_eq_some_iff, decide_eq_true_eq]

/-- No claim is in progress when the leading bytes stop at or before the lower bound. -/
theorem noClaim_init {lo : ℕ} {segsize : ℤ} (hfirst : ¬ lo < s.firstContiguousBytes)
    (hlo : lo < upper) (hf : Decomposes f S)
    (htarget : ∃ b c, f b = some c ∧ b < upper ∧ upper ≤ c + 1)
    (hq : ∀ b c, f b = some c → b < q → q < lo ∧ ∃ c', f q = some c') :
    NoClaim f upper q (.init s lo segsize) := by
  have hbehind : ∀ b c, f b = some c → b < q → c + 1 < lo := by
    intro b c hb hlt
    obtain ⟨hqlo, c', hc'⟩ := hq b c hb hlt
    have := hf.gap hb hc' hlt
    omega
  simp only [ReportLoop.init, if_neg hfirst]
  refine ⟨rfl, hlo, ⟨0, by omega, Saved.empty, ?_⟩, ?_⟩
  · intro b c hb hlc hlt
    have := hbehind b c hb hlt
    dsimp only at hlc
    omega
  · obtain ⟨b, c, hb, hbu, hcu⟩ := htarget
    refine ⟨b, c, hb, ?_, hbu, hcu⟩
    by_contra hlt
    have := hbehind b c hb (by omega)
    omega

/-- The leading bytes beyond the lower bound are the first claim. -/
theorem inClaim_init {lo : ℕ} {segsize : ℤ} (hfirst : lo < s.firstContiguousBytes)
    (hword : s.firstContiguousBytes < 2 ^ 64) (hupper : s.firstContiguousBytes < upper)
    (hzero : f 0 = some (s.firstContiguousBytes - 1)) :
    InClaim f upper 0 0 (s.firstContiguousBytes - 1) (.init s lo segsize) := by
  have hlead : u64Sub s.firstContiguousBytes lo = s.firstContiguousBytes - lo :=
    u64Sub_of_le hword hfirst.le
  have hsum : u64 (lo + (s.firstContiguousBytes - lo)) = s.firstContiguousBytes := by
    rw [u64_of_lt (by omega)]
    omega
  simp only [ReportLoop.init, if_pos hfirst, hlead, hsum]
  constructor
  · constructor
    · rfl
    · exact hzero
    any_goals dsimp only
    all_goals omega
  · exact ⟨0, Or.inl rfl, Saved.empty⟩
  · right
    omega
  · dsimp only
    omega

/-! ## Report generation -/

/-- The counters of a session that has received the bytes `S`. -/
structure Counted (s : LTPSession) (S : Set ℕ) : Prop where
  blocks : Decomposes s.redContigBlocks.find? S
  first : PrefixLength S s.firstContiguousBytes
  received : S.ncard = s.redBytesReceived
  expected : ∀ x ∈ S, x < s.expectedRedBytes
  word : s.expectedRedBytes < 2 ^ 64

/-- The bytes that the reports are about. -/
def reportedRange (s : LTPSession) (lowerBounds chkptUpperBounds : ℕ) : ℕ × ℕ :=
  if s.redComplete ∧ s.redBytesReceived = s.expectedRedBytes then (0, s.expectedRedBytes)
  else if chkptUpperBounds ≤ s.firstContiguousBytes then (0, chkptUpperBounds)
  else (lowerBounds, chkptUpperBounds)

/-- With as many bytes received as expected, all of them are. -/
theorem Counted.full (h : Counted s S) (heq : s.redBytesReceived = s.expectedRedBytes) (x : ℕ) :
    x ∈ S ↔ x < s.expectedRedBytes := by
  have hsub : S ⊆ Set.Iio s.expectedRedBytes := h.expected
  have hS : S = Set.Iio s.expectedRedBytes := by
    apply Set.eq_of_subset_of_ncard_le hsub
    rw [h.received, heq, Set.ncard_Iio_nat]
  rw [hS, Set.mem_Iio]

theorem Counted.first_lt (h : Counted s S) : s.firstContiguousBytes < 2 ^ 64 := by
  rcases Nat.eq_zero_or_pos s.firstContiguousBytes with hzero | hpos
  · omega
  · have := h.expected _ (h.first.1 (s.firstContiguousBytes - 1) (by omega))
    have := h.word
    omega

theorem Counted.block_zero (h : Counted s S) (hpos : 0 < s.firstContiguousBytes) :
    s.redContigBlocks.find? 0 = some (s.firstContiguousBytes - 1) := by
  rw [h.blocks.isRun_iff]
  refine ⟨by omega, fun x hx => h.first.1 x ?_, ?_, fun c hc => by omega⟩
  · have := hx.2
    omega
  · rw [Nat.sub_add_cancel hpos]
    exact h.first.2

/-- One claim for everything is exact when everything was received. -/
theorem reported_reportAll {x : ℕ} (s : LTPSession) (chkpt : ℕ) (hf : Decomposes f S)
    (hpos : 0 < x) (hword : x < 2 ^ 64) (hall : ∀ y < x, y ∈ S) (hend : EndsAt S upper x) :
    ∃ reports, Reported s S f upper chkpt 0 x (reportAll s chkpt x).2 reports ∧ reports ≠ [] := by
  apply (Reported.refl s S f upper chkpt 0).add hf hword hpos _ hend
  intro k rc
  obtain ⟨b, c, hb, hb0, hcx⟩ := hf.inside (Nat.zero_le (x - 1)) fun y _ hy => hall y (by omega)
  have hb0 : b = 0 := by omega
  subst hb0
  rw [addClaim, OrdMap.find?_insert]
  constructor
  · intro hk
    split_ifs at hk with h0
    · cases hk
      exact ⟨0, c, hb, Nat.zero_le c, hpos, by simpa using h0, by simp; omega⟩
    · simp at hk
  · rintro ⟨b', c', hb', -, hlt, rfl, rfl⟩
    have hb'0 : b' = 0 := hf.unique hb' hb le_rfl (hf.ordered hb') (Nat.zero_le b') (by omega)
    subst hb'0
    rw [hb] at hb'
    cases hb'
    simp
    omega

theorem Counted.stop_lt (h : Counted s S) (b c : ℕ) (hb : s.redContigBlocks.find? b = some c) :
    c + 1 < 2 ^ 64 := by
  have := h.expected c (h.blocks.mem hb (h.blocks.ordered hb) le_rfl)
  have := h.word
  omega

/-- The block of the last byte before the checkpoint's upper bound. -/
theorem Counted.target (h : Counted s S) (hpos : 0 < upper) (hrecv : upper - 1 ∈ S) :
    ∃ b c, s.redContigBlocks.find? b = some c ∧ b < upper ∧ upper ≤ c + 1 := by
  obtain ⟨b, c, hb, hbu, hcu⟩ := (h.blocks.covers _).mp hrecv
  exact ⟨b, c, hb, by omega, by omega⟩

theorem reportLoop_stopped (h : Counted s S) (chkpt lo : ℕ) (segsize : ℤ) (hlt : lo < upper)
    (hrecv : upper - 1 ∈ S) (hleading : s.firstContiguousBytes < upper) {k : ℕ}
    (hk : k = if lo < s.firstContiguousBytes then s.firstContiguousBytes else lo) :
    ∃ st, reportLoop chkpt upper segsize (reportFuel (s.redContigBlocks.fromBefore k))
        (s.redContigBlocks.fromBefore k) (.init s lo segsize) = .ok st ∧
      Stopped s S s.redContigBlocks.find? chkpt lo upper st := by
  have htarget := h.target (by omega) hrecv
  obtain ⟨q, hahead, hq⟩ := fromBefore_ahead s.redContigBlocks k
  have hinit : (ReportLoop.init s lo segsize).session = s ∧
      (ReportLoop.init s lo segsize).rptLowerBounds = lo := by
    unfold ReportLoop.init
    dsimp only
    split_ifs <;> exact ⟨rfl, rfl⟩
  have hrep : Reported s S s.redContigBlocks.find? upper chkpt lo
      (ReportLoop.init s lo segsize).rptLowerBounds (ReportLoop.init s lo segsize).session [] := by
    rw [hinit.1, hinit.2]
    exact .refl s S _ upper chkpt lo
  apply reportLoop_run h.blocks h.stop_lt htarget hahead hrep
  · by_cases hlead : lo < s.firstContiguousBytes
    · rw [if_pos hlead] at hk
      subst hk
      have hzero := h.block_zero (by omega)
      -- the block in front of the first gap is the leading one
      have hq0 : q = 0 := by
        by_contra hne
        obtain ⟨hqf, c', hc'⟩ := hq 0 _ hzero (by omega)
        have := h.blocks.gap hzero hc' (by omega)
        omega
      subst hq0
      exact Or.inl ⟨⟨0, _, inClaim_init hlead h.first_lt hleading hzero⟩,
        by unfold reportFuel; omega⟩
    · rw [if_neg hlead] at hk
      subst hk
      exact Or.inr ⟨noClaim_init hlead hlt h.blocks htarget hq, by unfold reportFuel; omega⟩

theorem generateReportSegments_reported (h : Counted s S) (chkpt lo : ℕ) (segsize : ℤ)
    (hlt : lo < upper) (hrecv : upper - 1 ∈ S) :
    ∃ total t reports, generateReportSegments s chkpt lo upper segsize = .ok (total, t) ∧
      Reported s S s.redContigBlocks.find? upper chkpt (reportedRange s lo upper).1
        (reportedRange s lo upper).2 t reports ∧ reports ≠ [] := by
  have hword := h.word
  have hlast := h.expected _ hrecv
  unfold generateReportSegments reportedRange
  by_cases hfull : s.redComplete ∧ s.redBytesReceived = s.expectedRedBytes
  · obtain ⟨reports, hrep, hne⟩ := reported_reportAll s chkpt h.blocks
      (show 0 < s.expectedRedBytes by omega) hword (fun x hx => (h.full hfull.2 x).mpr hx)
      (Or.inr ⟨(h.full hfull.2 _).mpr (by omega), fun hx => by
        have := (h.full hfull.2 _).mp hx
        omega⟩)
    rw [if_pos hfull, if_pos hfull, hfull.2]
    exact ⟨_, _, reports, rfl, hrep, hne⟩
  by_cases hleading : upper ≤ s.firstContiguousBytes
  · obtain ⟨reports, hrep, hne⟩ := reported_reportAll s chkpt h.blocks
      (show 0 < upper by omega) (by omega) (fun x hx => h.first.1 x (by omega)) (Or.inl rfl)
    rw [if_neg hfull, if_neg hfull, if_pos hleading, if_pos hleading]
    exact ⟨_, _, reports, rfl, hrep, hne⟩
  · rw [if_neg hfull, if_neg hfull, if_neg hleading, if_neg hleading]
    obtain ⟨st, hst, hstop⟩ := reportLoop_stopped h chkpt lo segsize hlt hrecv (by omega) rfl
    obtain ⟨total, t, reports, hfin, hrep, hne⟩ := finishReport_stopped h.blocks h.stop_lt hstop
    refine ⟨total, t, reports, ?_, hrep, hne⟩
    dsimp only
    rw [hst]
    exact hfin

/-- The reports tile the reported range, every claim is inside its report, the claims of a report
are disjoint, and exactly the received bytes of its bounds are claimed. -/
theorem generateReportSegments_exact (s : LTPSession) (S : Set ℕ) (h : Counted s S)
    (chkpt lowerBounds chkptUpperBounds : ℕ) (segsize : ℤ) (hlt : lowerBounds < chkptUpperBounds)
    (hrecv : chkptUpperBounds - 1 ∈ S) :
    ∃ total reports,
      generateReportSegments s chkpt lowerBounds chkptUpperBounds segsize =
        .ok (total, s.addReports reports) ∧
      reports ≠ [] ∧
      Tiles reports (reportedRange s lowerBounds chkptUpperBounds).1
        (reportedRange s lowerBounds chkptUpperBounds).2 ∧
      ∀ r ∈ reports, r.checkpointId = chkpt ∧ r.Exact S ∧
        (s.addReports reports).reportSegments.find? r.serialNumber = some r := by
  obtain ⟨total, t, reports, hgen, hrep, hne⟩ :=
    generateReportSegments_reported h chkpt lowerBounds segsize hlt hrecv
  have ht := hrep.session
  subst ht
  exact ⟨total, reports, hgen, hne, hrep.tiles, fun r hr =>
    ⟨(hrep.exact r hr).1, (hrep.exact r hr).2, hrep.stored r hr⟩⟩

/-- A session that has received two blocks, at 2 and at 8. -/
def twoBlocks : LTPSession :=
  { LTPSession.new 1 1 with
    redContigBlocks := (OrdMap.empty.insert 2 4).insert 8 9
    redBytesReceived := 5
    expectedRedBytes := 10 }

theorem counted_twoBlocks : Counted twoBlocks {x | (2 ≤ x ∧ x ≤ 4) ∨ (8 ≤ x ∧ x ≤ 9)} := by
  have hfind : ∀ b c, twoBlocks.redContigBlocks.find? b = some c ↔
      (b = 8 ∧ c = 9) ∨ (b = 2 ∧ c = 4) := by
    intro b c
    simp only [twoBlocks, OrdMap.find?_insert, OrdMap.find?_empty]
    split_ifs <;> simp [*, eq_comm]
  constructor
  · constructor
    · intro b c hb
      rcases (hfind b c).mp hb with ⟨rfl, rfl⟩ | ⟨rfl, rfl⟩ <;> decide
    · intro b c b' c' hb hb'
      rcases (hfind b c).mp hb with ⟨rfl, rfl⟩ | ⟨rfl, rfl⟩ <;>
        rcases (hfind b' c').mp hb' with ⟨rfl, rfl⟩ | ⟨rfl, rfl⟩ <;> decide
    · intro x
      simp only [hfind, Set.mem_ofPred_eq]
      constructor
      · rintro (⟨h₁, h₂⟩ | ⟨h₁, h₂⟩)
        · exact ⟨2, 4, Or.inr ⟨rfl, rfl⟩, h₁, h₂⟩
        · exact ⟨8, 9, Or.inl ⟨rfl, rfl⟩, h₁, h₂⟩
      · rintro ⟨b, c, ⟨rfl, rfl⟩ | ⟨rfl, rfl⟩, h₁, h₂⟩ <;> omega
  · refine ⟨fun x hx => absurd hx (Nat.not_lt_zero x), ?_⟩
    simp [twoBlocks, LTPSession.new]
  · have hset : {x | (2 ≤ x ∧ x ≤ 4) ∨ (8 ≤ x ∧ x ≤ 9)} = (({2, 3, 4, 8, 9} : Finset ℕ) : Set ℕ) := by
      ext x
      simp only [Set.mem_ofPred_eq, Finset.coe_insert, Finset.coe_singleton, Set.mem_insert_iff,
        Set.mem_singleton_iff]
      omega
    rw [hset, Set.ncard_coe_finset]
    decide
  · rintro x (⟨-, hx⟩ | ⟨-, hx⟩) <;> simp only [twoBlocks] <;> omega
  · simp [twoBlocks]

/-- With a segment size of 1 every claim gets a report of its own. -/
theorem generateReportSegments_exact_small :
    ∃ total reports, generateReportSegments twoBlocks 7 3 9 1 =
        .ok (total, twoBlocks.addReports reports) ∧ reports ≠ [] ∧
      Tiles reports (reportedRange twoBlocks 3 9).1 (reportedRange twoBlocks 3 9).2 ∧
      ∀ r ∈ reports, r.checkpointId = 7 ∧
        r.Exact {x | (2 ≤ x ∧ x ≤ 4) ∨ (8 ≤ x ∧ x ≤ 9)} ∧
        (twoBlocks.addReports reports).reportSegments.find? r.serialNumber = some r :=
  generateReportSegments_exact twoBlocks _ counted_twoBlocks 7 3 9 1 (by decide) (by simp)

example : (generateReportSegments twoBlocks 7 3 9 1).map
    (fun r => r.2.reportSegments.values.map
      (fun rptseg => (rptseg.lowerBounds, rptseg.upperBounds, rptseg.claims.values))) =
    .ok [(3, 5, [⟨3, 2⟩]), (5, 9, [⟨8, 1⟩])] := by decide +kernel

end Dtnme.Ltp
