import Dtnme.Ltp.ReportReceipt
import Dtnme.Ltp.Reports
import Dtnme.Ltp.RoundTrip

/-! # Several reports on one checkpoint

The report segments that answer one checkpoint may arrive in any order. The one that reaches
the end of the checkpoint marks it as claimed, and reports on a marked checkpoint are ignored:
the group is applied as a whole, in whatever order, if that one comes last.
-/

namespace Dtnme.Ltp
open Library Runs

variable {s : LTPSession} {r : LTPReportSegment} {reports : List LTPReportSegment} {c : ℕ}
  {snd snd' : Sender} {es ds : LTPDataSegment} {k : ℕ}

/-- The reports of one checkpoint, in the order in which they arrive: each fits the segments of
the session, their ranges are apart and cut no segment, and none of them claims everything. -/
structure Group (s : LTPSession) (c : ℕ) (reports : List LTPReportSegment) : Prop where
  segments : Outgoing s.redSegments
  checkpoint : ∀ r ∈ reports, r.checkpointId = c
  fits : ∀ r ∈ reports, Conforms s.redSegments r
  uncut : ∀ r ∈ reports, ∀ k es, s.redSegments.find? k = some es →
    Uncut es r.lowerBounds ∧ Uncut es r.upperBounds
  apart : reports.Pairwise fun r r' => r.upperBounds ≤ r'.lowerBounds ∨ r'.upperBounds ≤ r.lowerBounds
  part : ∀ r ∈ reports, claimsWholeSession s r = false

/-- The report is not ignored as one on an unknown or already claimed checkpoint. -/
def NotDiscarded (snd : Sender) (r : LTPReportSegment) : Prop :=
  ∀ t, snd.state = .active t → 0 ≤ t.findCheckpointStopByte r.checkpointId

/-- Only the last report may reach the end of the checkpoint. -/
def EndsLast (upper : ℕ) : List LTPReportSegment → Prop
  | [] => True
  | r :: reports => (reports = [] ∨ r.upperBounds ≠ upper) ∧ EndsLast upper reports

/-- The segments that the group removes and queues. -/
structure GroupApplied (s : LTPSession) (reports : List LTPReportSegment) (snd snd' : Sender) :
    Prop where
  removed : ∀ k es, s.redSegments.find? k = some es → es.isDeleted = false →
    (snd'.redSegments.find? k = none ↔ ∃ r ∈ reports, Removed r es)
  absent : ∀ k, s.redSegments.find? k = none → snd'.redSegments.find? k = none
  queue : ∃ q, snd'.queue = snd.queue ++ q ∧ (q.map Prod.fst).Nodup ∧
    ∀ k, k ∈ q.map Prod.fst ↔ ∃ es, s.redSegments.find? k = some es ∧
      (∃ r ∈ reports, Unclaimed r es) ∧ es.queuedToSend = false

/-! ## One report of the group -/

/-- The segment has the range of another one. -/
structure SameRange (es ds : LTPDataSegment) : Prop where
  start : ds.startByte = es.startByte
  stop : ds.stopByte = es.stopByte
  offset : ds.offset = es.offset
  length : ds.payloadLength = es.payloadLength

theorem SameRange.refl (es : LTPDataSegment) : SameRange es es := ⟨rfl, rfl, rfl, rfl⟩

/-- Where a segment left in the session comes from. -/
theorem Applied.origin (h : Applied s r snd snd') (hk : snd'.redSegments.find? k = some ds) :
    ∃ es, s.redSegments.find? k = some es ∧ (ds = es ∨ (Unclaimed r es ∧ SameRange es ds ∧
      (ds.isCheckpoint = true → ds.checkpointId = u64 (s.checkpointId + 1)))) := by
  cases hold : s.redSegments.find? k with
  | none =>
    rw [h.absent k hold] at hk
    cases hk
  | some es =>
    refine ⟨es, rfl, ?_⟩
    cases hdel : es.isDeleted with
    | true =>
      rcases h.dropped k es hold hdel with heq | heq <;> rw [heq] at hk <;> cases hk
      exact Or.inl rfl
    | false =>
      by_cases hrem : Removed r es
      · rw [h.removed k es hold hdel hrem] at hk
        cases hk
      by_cases hun : Unclaimed r es
      · by_cases hlast : LastUnclaimed s.redSegments r k es
        · rw [(h.checkpoint k es hlast).1] at hk
          cases hk
          exact Or.inr ⟨hun, ⟨rfl, rfl, rfl, rfl⟩, fun _ => rfl⟩
        · rw [h.again k es hold hun hlast] at hk
          cases hk
          refine Or.inr ⟨hun, ⟨rfl, rfl, rfl, rfl⟩, fun hckpt => ?_⟩
          exact absurd (hun.2.2.2.symm.trans hckpt) Bool.false_ne_true
      · rw [h.untouched k es hold hdel hrem hun] at hk
        cases hk
        exact Or.inl rfl

/-- A segment that is sent again stays in the session with its range. -/
theorem Applied.unclaimed (h : Applied s r snd snd') (hk : s.redSegments.find? k = some es)
    (hun : Unclaimed r es) :
    ∃ ds, snd'.redSegments.find? k = some ds ∧ SameRange es ds ∧ ds.isDeleted = false := by
  by_cases hlast : LastUnclaimed s.redSegments r k es
  · exact ⟨_, (h.checkpoint k es hlast).1, ⟨rfl, rfl, rfl, rfl⟩, hun.1⟩
  · exact ⟨_, h.again k es hk hun hlast, ⟨rfl, rfl, rfl, rfl⟩, hun.1⟩

theorem SameRange.touches (h : SameRange es ds) (r : LTPReportSegment) :
    Touches r ds ↔ Touches r es := by
  simp only [Touches, h.start, h.stop]

theorem SameRange.claimed (h : SameRange es ds) (lower : ℕ) (claims : List LTPReportClaim) :
    Claimed lower claims ds ↔ Claimed lower claims es := by
  simp only [Claimed, h.start, h.stop]

/-- A claimed segment lies in the range of the report. -/
theorem Claimed.touches (hconf : Conforms s.redSegments r) (hk : s.redSegments.find? k = some es)
    (hm : Outgoing s.redSegments) (hc : Claimed r.lowerBounds r.claims.values es) :
    Touches r es := by
  have hord := hm.nonempty hk
  rw [← hm.keyed hk] at hord
  obtain ⟨hlow, hup⟩ := hc.above hconf.ascending hord
  exact ⟨by omega, by omega, hlow⟩

/-- No segment is in the ranges of two reports that are apart. -/
theorem not_touches_both {r' : LTPReportSegment}
    (hcut : Uncut es r.lowerBounds ∧ Uncut es r.upperBounds)
    (hapart : r.upperBounds ≤ r'.lowerBounds ∨ r'.upperBounds ≤ r.lowerBounds)
    (h : Touches r es) (h' : Touches r' es) : False := by
  obtain ⟨hlt, hstart, hstop⟩ := h
  obtain ⟨hlt', hstart', hstop'⟩ := h'
  have hup := hcut.2 hstart
  rcases hapart with hle | hle
  · omega
  · have := hcut.1 (by omega)
    omega

/-- A group without the report that was processed is a group of the session that is left. -/
theorem Group.tail {t : LTPSession} (h : Group s c (r :: reports)) (happ : Applied s r snd snd')
    (hactive : snd'.state = .active t) (hcont : Continues s r t) (hc : c ≤ s.checkpointId)
    (hword : s.checkpointId + 1 < 2 ^ 64) : Group t c reports := by
  have hred : snd'.redSegments = t.redSegments := by
    simp only [Sender.redSegments, hactive]
  have horigin : ∀ k ds, t.redSegments.find? k = some ds → ∃ es,
      s.redSegments.find? k = some es ∧ SameRange es ds ∧
        (ds = es ∨ (ds.isCheckpoint = true → ds.checkpointId ≠ c)) := by
    intro k ds hk
    obtain ⟨es, hes, hcases⟩ := happ.origin (hred.symm ▸ hk)
    refine ⟨es, hes, ?_⟩
    rcases hcases with rfl | ⟨-, hsame, hckpt⟩
    · exact ⟨.refl ds, Or.inl rfl⟩
    · refine ⟨hsame, Or.inr fun his => ?_⟩
      rw [hckpt his, u64_of_lt hword]
      omega
  have hseg := h.segments
  constructor
  · constructor
    · constructor
      · intro k ds hk
        obtain ⟨es, hes, hsame, -⟩ := horigin k ds hk
        rw [hsame.start, hseg.keyed hes]
      · intro k ds hk
        obtain ⟨es, hes, hsame, -⟩ := horigin k ds hk
        rw [hsame.length, hsame.stop, hseg.length hes]
      · intro k ds hk
        obtain ⟨es, hes, hsame, -⟩ := horigin k ds hk
        rw [hsame.stop]
        exact hseg.nonempty hes
      · intro k l ds ds' hk hl hlt
        obtain ⟨es, hes, hsame, -⟩ := horigin k ds hk
        obtain ⟨es', hes', -⟩ := horigin l ds' hl
        rw [hsame.stop]
        exact hseg.apart hes hes' hlt
    · intro k ds hk
      obtain ⟨es, hes, hsame, -⟩ := horigin k ds hk
      rw [hsame.offset, hseg.offset hes]
  · exact fun r' hr' => h.checkpoint r' (List.mem_cons_of_mem _ hr')
  · intro r' hr'
    have hmem := List.mem_cons_of_mem r hr'
    have hconf := h.fits r' hmem
    refine ⟨hconf.ascending, hconf.word, ?_, ?_, ?_⟩
    · intro k ds hk rc hrc
      obtain ⟨es, hes, hsame, -⟩ := horigin k ds hk
      simp only [Uncut, hsame.start, hsame.stop]
      exact hconf.aligned k es hes rc hrc
    · intro k ds hk hckpt hid hlow hup
      obtain ⟨es, hes, hsame, heq | hne⟩ := horigin k ds hk
      · subst heq
        exact hconf.own k ds hes hckpt hid hlow hup
      · exact absurd (hid.trans (h.checkpoint r' hmem)) (hne hckpt)
    · intro k ds hk hstart hstop
      obtain ⟨es, hes, hsame, -⟩ := horigin k ds hk
      rw [hsame.start] at hstart
      rw [hsame.stop] at hstop
      have := (h.uncut r' hmem k es hes).2 hstart
      omega
  · intro r' hr' k ds hk
    obtain ⟨es, hes, hsame, -⟩ := horigin k ds hk
    simp only [Uncut, hsame.start, hsame.stop]
    exact h.uncut r' (List.mem_cons_of_mem _ hr') k es hes
  · exact (List.pairwise_cons.mp h.apart).2
  · intro r' hr'
    have := h.part r' (List.mem_cons_of_mem _ hr')
    simp only [claimsWholeSession, hcont.complete, hcont.expected] at this ⊢
    exact this

/-- A report of the group is applied, and leaves the session open or nothing in it. -/
theorem Group.step (h : Group s c (r :: reports)) (hactive : snd.state = .active s)
    (hup : snd.startShuttingDown = false) (hknown : 0 ≤ s.findCheckpointStopByte c) :
    ∃ snd', processRs snd r = .ok snd' ∧ Applied s r snd snd' ∧ snd'.startShuttingDown = false ∧
      ((∃ t, snd'.state = .active t ∧ Continues s r t) ∨ snd'.state = .closed false) := by
  have hid := h.checkpoint r List.mem_cons_self
  unfold processRs
  rw [hactive]
  simp only [h.part r List.mem_cons_self, Bool.false_eq_true, if_false]
  rw [if_neg (by rw [hid]; omega)]
  exact applyReport_applied h.segments (h.fits r List.mem_cons_self) hup

/-- The reports behind the first are not about its segments. -/
theorem Group.apart_head (h : Group s c (r :: reports)) {r' : LTPReportSegment} (hr' : r' ∈ reports)
    (hk : s.redSegments.find? k = some es) (ht : Touches r es) : ¬ Touches r' es :=
  fun ht' => not_touches_both (h.uncut r List.mem_cons_self k es hk)
    ((List.pairwise_cons.mp h.apart).1 r' hr') ht ht'

theorem Removed.touches (h : Group s c reports) (hr : r ∈ reports)
    (hk : s.redSegments.find? k = some es) (hrem : Removed r es) : Touches r es :=
  Claimed.touches (h.fits r hr) hk h.segments hrem.1

/-- Nothing is left of a session that was closed. -/
theorem redSegments_closed {cancelled : Bool} (h : snd.state = .closed cancelled) :
    snd.redSegments = .empty := by
  simp only [Sender.redSegments, h]

/-- Reports on a completed session are only acknowledged. -/
theorem run_processRs_closed (h : snd.state = .closed false) (reports : List LTPReportSegment) :
    ∃ snd', run processRs snd reports = .ok snd' ∧ snd'.state = .closed false ∧
      snd'.queue = snd.queue ∧ Meets processRs NotDiscarded snd reports := by
  induction reports generalizing snd with
  | nil => exact ⟨snd, rfl, h, rfl, trivial⟩
  | cons r reports ih =>
    have hstep : processRs snd r = .ok (snd.acknowledge r) := by
      unfold processRs
      rw [h]
    have hacked : (snd.acknowledge r).state = .closed false := h
    obtain ⟨snd', hrun, hclosed, hqueue, hmeets⟩ := ih hacked
    refine ⟨snd', ?_, hclosed, hqueue, ?_, ?_⟩
    · simp only [run, hstep]
      exact hrun
    · intro t ht
      rw [h] at ht
      cases ht
    · rw [hstep]
      exact hmeets

/-! ## The group as a whole -/

/-- A report on a session with nothing left applies the rest of the group as well. -/
theorem GroupApplied.of_closed {snd₁ : Sender} (h : Group s c (r :: reports))
    (happ : Applied s r snd snd₁) (hclosed : snd₁.state = .closed false)
    (hclosed' : snd'.state = .closed false) (hqueue : snd'.queue = snd₁.queue) :
    GroupApplied s (r :: reports) snd snd' := by
  have hrem : ∀ k es, s.redSegments.find? k = some es → es.isDeleted = false → Removed r es := by
    intro k es hk hdel
    by_contra hnot
    have hgone : snd₁.redSegments.find? k = none := by
      rw [redSegments_closed hclosed]
      rfl
    by_cases hun : Unclaimed r es
    · by_cases hlast : LastUnclaimed s.redSegments r k es
      · rw [(happ.checkpoint k es hlast).1] at hgone
        cases hgone
      · rw [happ.again k es hk hun hlast] at hgone
        cases hgone
    · rw [happ.untouched k es hk hdel hnot hun] at hgone
      cases hgone
  constructor
  · intro k es hk hdel
    rw [redSegments_closed hclosed']
    exact ⟨fun _ => ⟨r, List.mem_cons_self, hrem k es hk hdel⟩, fun _ => rfl⟩
  · intro k _
    rw [redSegments_closed hclosed']
    rfl
  · obtain ⟨q, hq, hnodup, hmem, -⟩ := happ.queue
    refine ⟨q, by rw [hqueue, hq], hnodup, fun k => (hmem k).trans ?_⟩
    constructor
    · rintro ⟨es, hk, hun, hqueued⟩
      exact absurd (hrem k es hk hun.1).1 hun.2.2.1
    · rintro ⟨es, hk, ⟨r', hr', hun⟩, hqueued⟩
      have hr := hrem k es hk hun.1
      rcases List.mem_cons.mp hr' with heq | hmem'
      · subst heq
        exact absurd hr.1 hun.2.2.1
      · exact absurd hun.2.1 (h.apart_head hmem' hk (Removed.touches h List.mem_cons_self hk hr))

/-- The first report and the rest of the group together. -/
theorem GroupApplied.cons {snd₁ : Sender} {t : LTPSession} (h : Group s c (r :: reports))
    (happ : Applied s r snd snd₁) (hactive : snd₁.state = .active t)
    (hrest : GroupApplied t reports snd₁ snd') : GroupApplied s (r :: reports) snd snd' := by
  have hred : snd₁.redSegments = t.redSegments := by
    simp only [Sender.redSegments, hactive]
  have hlater : ∀ r' ∈ reports, ∀ k es, s.redSegments.find? k = some es → Touches r es →
      ¬ Touches r' es := fun r' hr' k es hk ht => h.apart_head hr' hk ht
  have htouch : ∀ r' ∈ reports, ∀ k es, s.redSegments.find? k = some es → Removed r' es →
      Touches r' es := fun r' hr' k es hk => Removed.touches h (List.mem_cons_of_mem _ hr') hk
  constructor
  · intro k es hk hdel
    by_cases hrem : Removed r es
    · have hgone := happ.removed k es hk hdel hrem
      rw [hred] at hgone
      exact ⟨fun _ => ⟨r, List.mem_cons_self, hrem⟩, fun _ => hrest.absent k hgone⟩
    by_cases hun : Unclaimed r es
    · obtain ⟨ds, hds, hsame, hdel'⟩ := happ.unclaimed hk hun
      rw [hred] at hds
      rw [hrest.removed k ds hds hdel']
      constructor
      · rintro ⟨r', hr', hrem'⟩
        have hc := (hsame.claimed _ _).mp hrem'.1
        exact absurd (Claimed.touches (h.fits r' (List.mem_cons_of_mem _ hr')) hk h.segments hc)
          (hlater r' hr' k es hk hun.2.1)
      · rintro ⟨r', hr', hrem'⟩
        rcases List.mem_cons.mp hr' with heq | hmem
        · subst heq
          exact absurd hrem' hrem
        · exact absurd (htouch r' hmem k es hk hrem') (hlater r' hmem k es hk hun.2.1)
    · have hkept := happ.untouched k es hk hdel hrem hun
      rw [hred] at hkept
      rw [hrest.removed k es hkept hdel]
      simp only [List.mem_cons, exists_eq_or_imp, hrem, false_or]
  · intro k hk
    have hgone := happ.absent k hk
    rw [hred] at hgone
    exact hrest.absent k hgone
  · obtain ⟨q₁, hq₁, hnodup₁, hmem₁, -⟩ := happ.queue
    obtain ⟨q₂, hq₂, hnodup₂, hmem₂⟩ := hrest.queue
    -- what the rest of the group queues is as the first report found it
    have hsame : ∀ k, k ∈ q₂.map Prod.fst ↔ ∃ es, s.redSegments.find? k = some es ∧
        (∃ r' ∈ reports, Unclaimed r' es) ∧ es.queuedToSend = false := by
      intro k
      rw [hmem₂]
      constructor
      · rintro ⟨ds, hds, ⟨r', hr', hun⟩, hqueued⟩
        obtain ⟨es, hes, rfl | ⟨hun₁, hrange, -⟩⟩ := happ.origin (hred.symm ▸ hds)
        · exact ⟨ds, hes, ⟨r', hr', hun⟩, hqueued⟩
        · exact absurd ((hrange.touches r').mp hun.2.1) (hlater r' hr' k es hes hun₁.2.1)
      · rintro ⟨es, hes, ⟨r', hr', hun⟩, hqueued⟩
        have hnot : ¬ Touches r es := fun ht => hlater r' hr' k es hes ht hun.2.1
        have hkept := happ.untouched k es hes hun.1
          (fun hrem => hnot (Removed.touches h List.mem_cons_self hes hrem))
          (fun hun₁ => hnot hun₁.2.1)
        rw [hred] at hkept
        exact ⟨es, hkept, ⟨r', hr', hun⟩, hqueued⟩
    refine ⟨q₁ ++ q₂, by rw [hq₂, hq₁, List.append_assoc], ?_, fun k => ?_⟩
    · rw [List.map_append, List.nodup_append]
      refine ⟨hnodup₁, hnodup₂, ?_⟩
      rintro j hj₁ j' hj₂ rfl
      obtain ⟨es, hes, hun, -⟩ := (hmem₁ j).mp hj₁
      obtain ⟨es', hes', ⟨r', hr', hun'⟩, -⟩ := (hsame j).mp hj₂
      rw [hes] at hes'
      cases hes'
      exact hlater r' hr' j es hes hun.2.1 hun'.2.1
    · rw [List.map_append, List.mem_append, hmem₁, hsame]
      constructor
      · rintro (⟨es, hes, hun, hqueued⟩ | ⟨es, hes, ⟨r', hr', hun⟩, hqueued⟩)
        · exact ⟨es, hes, ⟨r, List.mem_cons_self, hun⟩, hqueued⟩
        · exact ⟨es, hes, ⟨r', List.mem_cons_of_mem _ hr', hun⟩, hqueued⟩
      · rintro ⟨es, hes, ⟨r', hr', hun⟩, hqueued⟩
        rcases List.mem_cons.mp hr' with heq | hmem
        · subst heq
          exact Or.inl ⟨es, hes, hun, hqueued⟩
        · exact Or.inr ⟨es, hes, ⟨r', hmem, hun⟩, hqueued⟩

/-- With no report left nothing changes. -/
theorem GroupApplied.nil (hactive : snd.state = .active s) : GroupApplied s [] snd snd where
  removed k es hk _ := by
    simp [Sender.redSegments, hactive, hk]
  absent k hk := by
    simp [Sender.redSegments, hactive, hk]
  queue := ⟨[], by simp, by simp, fun k => by simp⟩

/-- The stop byte of the checkpoint after one report. -/
theorem findCheckpointStopByte_noteReported (hid : r.checkpointId = c) {stop : ℕ}
    (hstop : s.findCheckpointStopByte c = stop) (hword : stop + 1 < 2 ^ 64) :
    (s.noteReported r).findCheckpointStopByte c =
      if r.upperBounds = stop + 1 then -99 else (stop : ℤ) := by
  have hnext : u64OfInt ((stop : ℤ) + 1) = stop + 1 := by
    unfold u64OfInt
    omega
  unfold LTPSession.noteReported
  rw [hid, hstop, hnext]
  by_cases hup : r.upperBounds = stop + 1
  · rw [if_pos hup.symm, if_pos hup]
    simp [LTPSession.findCheckpointStopByte, LTPSession.flagCheckpointAsClaimed]
  · rw [if_neg (Ne.symm hup), if_neg hup, hstop]

/-- The report that reaches the end of the checkpoint comes last: the whole group is applied. And
if the whole group is applied to a session that stays open, then that report comes last. -/
theorem processRs_group (stop : ℕ) (hgroup : Group s c reports) (hactive : snd.state = .active s)
    (hup : snd.startShuttingDown = false) (hstop : s.findCheckpointStopByte c = stop)
    (hword : stop + 1 < 2 ^ 64) (hc : c ≤ s.checkpointId)
    (hids : s.checkpointId + reports.length < 2 ^ 64) :
    (EndsLast (stop + 1) reports → ∃ snd', run processRs snd reports = .ok snd' ∧
        GroupApplied s reports snd snd' ∧ Meets processRs NotDiscarded snd reports) ∧
      ∀ snd' t, run processRs snd reports = .ok snd' → snd'.state = .active t →
        Meets processRs NotDiscarded snd reports → EndsLast (stop + 1) reports := by
  induction reports generalizing s snd with
  | nil =>
    exact ⟨fun _ => ⟨snd, rfl, .nil hactive, trivial⟩, fun _ _ _ _ _ => trivial⟩
  | cons r reports ih =>
    have hidr := hgroup.checkpoint r List.mem_cons_self
    rw [List.length_cons] at hids
    obtain ⟨snd₁, hstep, happ, hup₁, hstate⟩ := hgroup.step hactive hup (by rw [hstop]; omega)
    have hrun : run processRs snd (r :: reports) = run processRs snd₁ reports := by
      simp only [run, hstep]
    have hmeets : Meets processRs NotDiscarded snd (r :: reports) ↔
        Meets processRs NotDiscarded snd₁ reports := by
      simp only [Meets, hstep, and_iff_right_iff_imp]
      intro _ t ht
      rw [hactive] at ht
      cases ht
      rw [hidr, hstop]
      omega
    rw [hrun, hmeets]
    rcases hstate with ⟨t, hactive₁, hcont⟩ | hclosed
    · obtain ⟨hle, hle', hsame⟩ := hcont.ids (by omega)
      have hnote := hsame c hc
      rw [findCheckpointStopByte_noteReported hidr hstop hword] at hnote
      have htail := hgroup.tail happ hactive₁ hcont hc (by omega)
      by_cases hend : r.upperBounds = stop + 1
      · rw [if_pos hend] at hnote
        cases reports with
        | nil =>
          exact ⟨fun _ => ⟨snd₁, rfl, .cons hgroup happ hactive₁ (.nil hactive₁), trivial⟩,
            fun _ _ _ _ _ => ⟨Or.inl rfl, trivial⟩⟩
        | cons r' reports =>
          refine ⟨fun hlast => ?_, fun snd' t' _ _ hnd => ?_⟩
          · rcases hlast.1 with hnil | hne
            · cases hnil
            · exact absurd hend hne
          · have := hnd.1 t hactive₁
            rw [hgroup.checkpoint r' (List.mem_cons_of_mem _ List.mem_cons_self), hnote] at this
            omega
      · rw [if_neg hend] at hnote
        obtain ⟨hforth, hback⟩ := ih htail hactive₁ hup₁ hnote (by omega) (by omega)
        refine ⟨fun hlast => ?_, fun snd' t' hr ht hnd => ⟨Or.inr hend, hback snd' t' hr ht hnd⟩⟩
        obtain ⟨snd', hr, hrest, hnd⟩ := hforth hlast.2
        exact ⟨snd', hr, .cons hgroup happ hactive₁ hrest, hnd⟩
    · obtain ⟨snd', hr, hclosed', hqueue, hnd⟩ := run_processRs_closed hclosed reports
      refine ⟨fun _ => ⟨snd', hr, .of_closed hgroup happ hclosed hclosed' hqueue, hnd⟩, ?_⟩
      intro snd'' t hr' ht
      rw [hr] at hr'
      cases hr'
      rw [hclosed'] at ht
      cases ht

/-! ## The group that a receiver generates -/

/-- A report as it comes out of the decoder. -/
def LTPReportSegment.received (rs : LTPReportSegment) : LTPReportSegment :=
  { engineId := rs.engineId, sessionId := rs.sessionId, segmentType := .rs
    checkpointId := rs.checkpointId, serialNumber := rs.serialNumber
    lowerBounds := rs.lowerBounds, upperBounds := rs.upperBounds, claimCount := rs.claimCount
    claimedBytes := rs.claims.values.foldl (fun n rc => u64 (n + rc.length)) 0
    claims := relativeClaims rs.lowerBounds rs.claims.values }

theorem entries_relativeClaims {lower : ℕ} {l : List LTPReportClaim}
    {m : OrdMap ℕ LTPReportClaim} (hl : l.Pairwise fun a b => a.offset < b.offset)
    (hlow : ∀ rc ∈ l, lower ≤ rc.offset)
    (hm : ∀ p ∈ m.entries, ∀ rc ∈ l, p.1 < rc.offset - lower) :
    (l.foldl (fun m rc => m.insert (rc.offset - lower) (rc.relative lower)) m).entries =
      m.entries ++ l.map fun rc => (rc.offset - lower, rc.relative lower) := by
  induction l generalizing m with
  | nil => simp
  | cons rc l ih =>
    obtain ⟨hfirst, hl⟩ := List.pairwise_cons.mp hl
    have hlast := OrdMap.entries_insert_last (v := rc.relative lower)
      fun p hp => hm p hp rc List.mem_cons_self
    rw [List.foldl_cons, ih hl (fun rc' hrc' => hlow rc' (List.mem_cons_of_mem _ hrc')), hlast]
    · simp
    · intro p hp rc' hrc'
      rw [hlast, List.mem_append] at hp
      have hlt := hfirst rc' hrc'
      have := hlow rc List.mem_cons_self
      rcases hp with hp | hp
      · exact hm p hp rc' (List.mem_cons_of_mem _ hrc')
      · rw [List.mem_singleton.mp hp]
        dsimp only
        omega

theorem values_relativeClaims {lower : ℕ} {l : List LTPReportClaim}
    (hl : l.Pairwise fun a b => a.offset < b.offset) (hlow : ∀ rc ∈ l, lower ≤ rc.offset) :
    (relativeClaims lower l).values = l.map (·.relative lower) := by
  rw [OrdMap.values, relativeClaims, entries_relativeClaims hl hlow fun p hp => by cases hp]
  simp [OrdMap.empty]

variable {S : Set ℕ} {f : ℕ → Option ℕ} {m : OrdMap ℕ LTPReportClaim} {l u upper : ℕ}

/-- A clip and the block that it is cut from. -/
theorem Clips.mem_values (h : Clips f l u m) {rc : LTPReportClaim} (hrc : rc ∈ m.values) :
    ∃ b c, f b = some c ∧ l ≤ c ∧ b < u ∧ rc = ⟨max b l, min (c + 1) u - max b l⟩ := by
  obtain ⟨⟨k, rc'⟩, hmem, rfl⟩ := List.mem_map.mp hrc
  obtain ⟨b, c, hb, hlc, hbu, -, heq⟩ := (h k rc').mp (OrdMap.find?_eq_some_iff.mpr hmem)
  exact ⟨b, c, hb, hlc, hbu, heq⟩

/-- The clips end before the next one starts. -/
theorem Clips.pairwise (h : Clips f l u m) (hf : Decomposes f S) :
    m.values.Pairwise fun a b => a.offset + a.length ≤ b.offset ∧ a.offset < b.offset := by
  rw [OrdMap.values, List.pairwise_map]
  refine m.sorted.imp_of_mem fun {p p'} hp hp' hlt => ?_
  obtain ⟨b, c, hb, hlc, hbu, hk, heq⟩ := (h p.1 p.2).mp (OrdMap.find?_eq_some_iff.mpr hp)
  obtain ⟨b', c', hb', hlc', hbu', hk', heq'⟩ := (h p'.1 p'.2).mp (OrdMap.find?_eq_some_iff.mpr hp')
  rw [heq, heq']
  dsimp only
  have hbb : b < b' := by omega
  have := hf.gap hb hb' hbb
  have := hf.ordered hb
  omega

theorem ascending_relative {hi : ℕ} {claims : List LTPReportClaim}
    (hpair : claims.Pairwise fun a b => a.offset + a.length ≤ b.offset ∧ a.offset < b.offset)
    (hin : ∀ rc ∈ claims, l ≤ rc.offset ∧ u ≤ rc.offset ∧ rc.offset + rc.length ≤ hi)
    (hu : u ≤ hi) : Ascending l u (claims.map (·.relative l)) hi := by
  induction claims generalizing u with
  | nil => exact hu
  | cons rc claims ih =>
    obtain ⟨hfirst, hpair⟩ := List.pairwise_cons.mp hpair
    obtain ⟨hlow, hulow, hhi⟩ := hin rc List.mem_cons_self
    have hsum : l + (rc.relative l).offset = rc.offset := by
      simp only [LTPReportClaim.relative]
      omega
    refine ⟨by rw [hsum]; exact hulow, ?_⟩
    rw [hsum]
    apply ih hpair
    · intro rc' hrc'
      obtain ⟨hlow', -, hhi'⟩ := hin rc' (List.mem_cons_of_mem _ hrc')
      exact ⟨hlow', (hfirst rc' hrc').1, hhi'⟩
    · exact hhi

/-- The segment was received as a whole or not at all. -/
def Whole (S : Set ℕ) (es : LTPDataSegment) : Prop :=
  (∀ x, es.startByte ≤ x → x ≤ es.stopByte → x ∈ S) ∨
    ∀ x, es.startByte ≤ x → x ≤ es.stopByte → x ∉ S

/-- Where received bytes begin or end no segment is cut. -/
theorem Whole.uncut (h : Whole S es) {x : ℕ} (hx : (x - 1 ∈ S ∧ x ∉ S) ∨ (x - 1 ∉ S ∧ x ∈ S)) :
    Uncut es x := by
  intro hstart
  by_contra hstop
  rcases h with hall | hnone
  · rcases hx with ⟨-, hnot⟩ | ⟨hnot, -⟩
    · exact hnot (hall x (by omega) (by omega))
    · exact hnot (hall (x - 1) (by omega) (by omega))
  · rcases hx with ⟨hin, -⟩ | ⟨-, hin⟩
    · exact hnone (x - 1) (by omega) (by omega) hin
    · exact hnone x (by omega) (by omega) hin

theorem uncut_zero (es : LTPDataSegment) : Uncut es 0 := fun h => absurd h (Nat.not_lt_zero _)

/-- The clips cut no segment that their bounds do not cut. -/
theorem Clips.aligned (h : Clips f l u m) (hf : Decomposes f S) (hw : Whole S es)
    (hl : Uncut es l) (hu : Uncut es u) (hlu : l < u) :
    Aligned l (m.values.map (·.relative l)) es := by
  intro rc' hrc'
  obtain ⟨rc, hrc, rfl⟩ := List.mem_map.mp hrc'
  obtain ⟨b, c, hb, hlc, hbu, rfl⟩ := h.mem_values hrc
  have hbc := hf.ordered hb
  have hstart : l + (LTPReportClaim.relative l ⟨max b l, min (c + 1) u - max b l⟩).offset =
      max b l := by
    simp only [LTPReportClaim.relative]
    omega
  rw [hstart]
  constructor
  · rcases le_total b l with hle | hle
    · rw [max_eq_right hle]
      exact hl
    · rw [max_eq_left hle]
      cases b with
      | zero => exact uncut_zero es
      | succ b =>
        exact hw.uncut (Or.inr ⟨hf.pred_not_mem hb rfl, hf.mem hb le_rfl hbc⟩)
  · have hend : max b l + (LTPReportClaim.relative l ⟨max b l, min (c + 1) u - max b l⟩).length =
        min (c + 1) u := by
      simp only [LTPReportClaim.relative]
      omega
    rw [hend]
    rcases le_total (c + 1) u with hle | hle
    · rw [min_eq_left hle]
      exact hw.uncut (Or.inl ⟨hf.mem hb hbc le_rfl, hf.succ_not_mem hb⟩)
    · rw [min_eq_right hle]
      exact hu

/-- A segment that was received is claimed by the report over its range. -/
theorem Clips.claimed (h : Clips f l u m) (hf : Decomposes f S) (hlu : l < u)
    (hord : es.startByte ≤ es.stopByte)
    (hall : ∀ x, es.startByte ≤ x → x ≤ es.stopByte → x ∈ S) (hlow : l ≤ es.startByte)
    (hup : es.stopByte < u) : Claimed l (m.values.map (·.relative l)) es := by
  obtain ⟨b, c, hb, hbs, hsc⟩ := hf.inside hord hall
  have hfind := (h _ _).mpr ⟨b, c, hb, by omega, by omega, rfl, rfl⟩
  have hmem : (⟨max b l, min (c + 1) u - max b l⟩ : LTPReportClaim) ∈ m.values :=
    List.mem_map.mpr ⟨_, OrdMap.find?_eq_some_iff.mp hfind, rfl⟩
  refine ⟨_, List.mem_map.mpr ⟨_, hmem, rfl⟩, ?_, ?_⟩ <;>
  · simp only [LTPReportClaim.relative]
    omega

/-- The bounds of a tiling: its parts are apart, and each starts where it or another one ends. -/
theorem Tiles.bounds {lo hi : ℕ} (h : Tiles reports lo hi)
    (hlt : ∀ r ∈ reports, r.lowerBounds < r.upperBounds) :
    lo ≤ hi ∧ (∀ r ∈ reports, lo ≤ r.lowerBounds ∧ r.upperBounds ≤ hi ∧
      (r.lowerBounds = lo ∨ ∃ r' ∈ reports, r.lowerBounds = r'.upperBounds)) ∧
      reports.Pairwise fun r r' => r.upperBounds ≤ r'.lowerBounds := by
  induction reports generalizing lo with
  | nil => exact ⟨h.le, fun r hr => absurd hr List.not_mem_nil, List.Pairwise.nil⟩
  | cons r reports ih =>
    obtain ⟨hlow, hrest⟩ := h
    obtain ⟨hle, hin, hpair⟩ := ih hrest fun r' hr' => hlt r' (List.mem_cons_of_mem _ hr')
    have hr := hlt r List.mem_cons_self
    refine ⟨by omega, fun r' hr' => ?_, List.pairwise_cons.mpr ⟨fun r' hr' => (hin r' hr').1, hpair⟩⟩
    rcases List.mem_cons.mp hr' with heq | hmem
    · subst heq
      exact ⟨hlow.ge, hle, Or.inl hlow⟩
    · obtain ⟨h₁, h₂, h₃⟩ := hin r' hmem
      refine ⟨by omega, h₂, Or.inr ?_⟩
      rcases h₃ with heq | ⟨r'', hr'', heq⟩
      · exact ⟨r, List.mem_cons_self, heq⟩
      · exact ⟨r'', List.mem_cons_of_mem _ hr'', heq⟩

/-- The session that a report with these bounds answers: its segments were received as a whole or
not at all, the bounds cut none of them, and its checkpoint ends at the upper bound. -/
structure Answered (s : LTPSession) (S : Set ℕ) (c lower upper : ℕ) : Prop where
  segments : Outgoing s.redSegments
  whole : ∀ k es, s.redSegments.find? k = some es → Whole S es
  uncutLower : ∀ k es, s.redSegments.find? k = some es → Uncut es lower
  uncutUpper : ∀ k es, s.redSegments.find? k = some es → Uncut es upper
  own : ∀ k es, s.redSegments.find? k = some es → es.isCheckpoint = true → es.checkpointId = c →
    es.stopByte + 1 = upper
  inside : upper ≤ s.expectedRedBytes

theorem size_relativeClaims {lower : ℕ} {claims : OrdMap ℕ LTPReportClaim}
    (h : (relativeClaims lower claims.values).values = claims.values.map (·.relative lower)) :
    (relativeClaims lower claims.values).size = claims.values.length := by
  have := congrArg List.length h
  rw [List.length_map, OrdMap.values, List.length_map] at this
  exact this

/-- In a list of two or more that are apart, each has another one before or behind it. -/
theorem exists_apart (h : reports.Pairwise fun r r' => r.upperBounds ≤ r'.lowerBounds)
    (hlen : 2 ≤ reports.length) (hr : r ∈ reports) :
    ∃ r' ∈ reports, r.upperBounds ≤ r'.lowerBounds ∨ r'.upperBounds ≤ r.lowerBounds := by
  cases reports with
  | nil => cases hr
  | cons r₁ reports =>
    obtain ⟨hfirst, -⟩ := List.pairwise_cons.mp h
    rcases List.mem_cons.mp hr with heq | hmem
    · subst heq
      cases reports with
      | nil => simp at hlen
      | cons r₂ reports =>
        exact ⟨r₂, by simp, Or.inl (hfirst r₂ List.mem_cons_self)⟩
    · exact ⟨r₁, List.mem_cons_self, Or.inr (hfirst r hmem)⟩

section
variable {sr t : LTPSession} {lo hi lower : ℕ} (hrep : Reported sr S f upper c lo hi t reports)

include hrep in
/-- No bound of the reports cuts a segment: each is the lower or the upper end of the answer, or ends a
part that was received. -/
theorem Reported.uncut (hs : Answered s S c lower upper)
    (hlo : ∀ k es, s.redSegments.find? k = some es → Uncut es lo) :
    ∀ r ∈ reports, ∀ k es, s.redSegments.find? k = some es →
      Uncut es r.lowerBounds ∧ Uncut es r.upperBounds := by
  obtain ⟨-, hbounds, -⟩ := hrep.tiles.bounds fun r hr => (hrep.exact r hr).2.bounds
  intro r hr k es hk
  have hend : ∀ r' ∈ reports, Uncut es r'.upperBounds := by
    intro r' hr'
    rcases hrep.ends r' hr' with heq | hedge
    · rw [heq]
      exact hs.uncutUpper k es hk
    · exact (hs.whole k es hk).uncut (Or.inl hedge)
  refine ⟨?_, hend r hr⟩
  rcases (hbounds r hr).2.2 with heq | ⟨r', hr', heq⟩
  · rw [heq]
    exact hlo k es hk
  · rw [heq]
    exact hend r' hr'

include hrep in
theorem Reported.values (hf : Decomposes f S) : ∀ r ∈ reports, r.received.claims.values =
    r.claims.values.map (·.relative r.lowerBounds) := by
  intro r hr
  have hclips := hrep.clips r hr
  apply values_relativeClaims
  · exact (hclips.pairwise hf).imp fun hab => hab.2
  · intro rc hrc
    obtain ⟨b, c', -, -, -, rfl⟩ := hclips.mem_values hrc
    exact le_max_right b _

include hrep in
/-- Each report fits the segments as it arrives. -/
theorem Reported.conforms (hf : Decomposes f S) (hs : Answered s S c lower upper)
    (hlo : ∀ k es, s.redSegments.find? k = some es → Uncut es lo) (hhi : hi < 2 ^ 64)
    (hcovers : upper - 1 ∈ S) (hr : r ∈ reports) :
    Conforms s.redSegments r.received := by
  obtain ⟨-, hbounds, -⟩ := hrep.tiles.bounds fun r hr => (hrep.exact r hr).2.bounds
  have huncut := hrep.uncut hs hlo r hr
  have hvalues := hrep.values hf r hr
  have hlt := (hrep.exact r hr).2.bounds
  have hclips := hrep.clips r hr
  have hord : ∀ k es, s.redSegments.find? k = some es → es.startByte ≤ es.stopByte := by
    intro k es hk
    rw [hs.segments.keyed hk]
    exact hs.segments.nonempty hk
  constructor
  · rw [hvalues]
    apply ascending_relative (hclips.pairwise hf)
    · intro rc hrc
      obtain ⟨b, c', hb, hlc, hbu, rfl⟩ := hclips.mem_values hrc
      have := hf.ordered hb
      change r.lowerBounds ≤ _ ∧ r.lowerBounds ≤ _ ∧ _ ≤ r.upperBounds
      dsimp only
      omega
    · exact hlt.le
  · exact (hbounds r hr).2.1.trans_lt hhi
  · intro k es hk
    rw [hvalues]
    exact hclips.aligned hf (hs.whole k es hk) (huncut k es hk).1 (huncut k es hk).2 hlt
  · intro k es hk hckpt hid hlow hup
    rw [hvalues]
    have hstop := hs.own k es hk hckpt (hid.trans (hrep.exact r hr).1)
    -- the checkpoint holds the last byte of the answer, which was received, and so it is whole
    have hall : ∀ x, es.startByte ≤ x → x ≤ es.stopByte → x ∈ S := by
      rcases hs.whole k es hk with hall | hnone
      · exact hall
      · refine absurd hcovers (hnone (upper - 1) ?_ ?_)
        · have := hord k es hk
          omega
        · omega
    have hlow' : r.lowerBounds ≤ es.startByte := by
      by_contra hlt'
      have := (huncut k es hk).1 (by omega)
      have hlow : r.lowerBounds ≤ es.stopByte := hlow
      omega
    exact hclips.claimed hf hlt (hord k es hk) hall hlow' hup
  · intro k es hk hstart hstop
    have := (huncut k es hk).2 hstart
    have hstop : r.upperBounds ≤ es.stopByte := hstop
    omega

include hrep in
/-- One of several reports does not claim the whole session: its lone claim is too short. -/
theorem Reported.part (hf : Decomposes f S) (hhi : hi < 2 ^ 64) (hin : hi ≤ s.expectedRedBytes)
    (hlen : 2 ≤ reports.length) (hr : r ∈ reports) : claimsWholeSession s r.received = false := by
  obtain ⟨-, hbounds, hpair⟩ := hrep.tiles.bounds fun r hr => (hrep.exact r hr).2.bounds
  rw [← Bool.not_eq_true]
  intro hwhole
  simp only [claimsWholeSession, Bool.and_eq_true, beq_iff_eq] at hwhole
  obtain ⟨⟨⟨-, hzero⟩, hsize⟩, hbytes⟩ := hwhole
  have hzero : r.lowerBounds = 0 := hzero
  have hlt := (hrep.exact r hr).2.bounds
  -- the report starts the tiling and does not end it
  have hshort : r.upperBounds < hi := by
    obtain ⟨r', hr', hle | hle⟩ := exists_apart hpair hlen hr
    · have := (hrep.exact r' hr').2.bounds
      have := (hbounds r' hr').2.1
      omega
    · have := (hrep.exact r' hr').2.bounds
      omega
  have hlen1 : r.claims.values.length = 1 := by
    rw [← size_relativeClaims (hrep.values hf r hr)]
    exact hsize
  obtain ⟨rc, hrc⟩ := List.length_eq_one_iff.mp hlen1
  have hmem : rc ∈ r.claims.values := by simp [hrc]
  obtain ⟨b, c', hb, hlc, hbu, rfl⟩ := (hrep.clips r hr).mem_values hmem
  have hsum : r.received.claimedBytes =
      u64 (0 + (min (c' + 1) r.upperBounds - max b r.lowerBounds)) := by
    simp only [LTPReportSegment.received, hrc, List.foldl_cons, List.foldl_nil]
  rw [hsum, u64_of_lt (by omega)] at hbytes
  omega

end

/-- The reports of a receiver, as they arrive, are a group for the session that they answer. -/
theorem Reported.group {sr t : LTPSession} {lo hi lower : ℕ} (hf : Decomposes f S)
    (hrep : Reported sr S f upper c lo hi t reports) (hs : Answered s S c lower upper)
    (hlo : ∀ k es, s.redSegments.find? k = some es → Uncut es lo) (hhi : hi < 2 ^ 64)
    (hin : hi ≤ s.expectedRedBytes) (hcovers : upper - 1 ∈ S) (hlen : 2 ≤ reports.length) :
    Group s c (reports.map (·.received)) where
  segments := hs.segments
  checkpoint := by
    rw [List.forall_mem_map]
    exact fun r hr => (hrep.exact r hr).1
  fits := by
    rw [List.forall_mem_map]
    exact fun r hr => hrep.conforms hf hs hlo hhi hcovers hr
  uncut := by
    rw [List.forall_mem_map]
    exact hrep.uncut hs hlo
  apart := by
    obtain ⟨-, -, hpair⟩ := hrep.tiles.bounds fun r hr => (hrep.exact r hr).2.bounds
    rw [List.pairwise_map]
    exact hpair.imp fun hle => Or.inl hle
  part := by
    rw [List.forall_mem_map]
    exact fun r hr => hrep.part hf hhi hin hlen hr

theorem Group.perm {order : List LTPReportSegment} (h : Group s c reports)
    (hperm : order.Perm reports) : Group s c order where
  segments := h.segments
  checkpoint r hr := h.checkpoint r (hperm.mem_iff.mp hr)
  fits r hr := h.fits r (hperm.mem_iff.mp hr)
  uncut r hr := h.uncut r (hperm.mem_iff.mp hr)
  apart := (hperm.pairwise_iff fun hab => hab.symm).mpr h.apart
  part r hr := h.part r (hperm.mem_iff.mp hr)

theorem GroupApplied.perm {order : List LTPReportSegment} (h : GroupApplied s order snd snd')
    (hperm : order.Perm reports) : GroupApplied s reports snd snd' where
  removed k es hk hdel := by
    simp only [h.removed k es hk hdel, hperm.mem_iff]
  absent := h.absent
  queue := by
    obtain ⟨q, hq, hnodup, hmem⟩ := h.queue
    refine ⟨q, hq, hnodup, fun k => ?_⟩
    simp only [hmem, hperm.mem_iff]

/-- A block that was received as a whole is answered by a single report. -/
theorem length_reports_of_full {sr t : LTPSession} {total lower lo hi : ℕ} {segsize : ℤ}
    (hfull : sr.redComplete ∧ sr.redBytesReceived = sr.expectedRedBytes)
    (hgen : generateReportSegments sr c lower upper segsize = .ok (total, t))
    (hrep : Reported sr S f upper c lo hi t reports) (hhi : hi < 2 ^ 64) : reports.length ≤ 1 := by
  unfold generateReportSegments at hgen
  rw [if_pos hfull] at hgen
  have ht : (reportAll sr c sr.redBytesReceived).2 = t := congrArg Prod.snd (Except.ok.inj hgen)
  have hserial := hrep.serial
  rw [← ht] at hserial
  have hnext : u64 (u64 (sr.reportSerialNumber + 1)) =
      u64 (sr.reportSerialNumber + reports.length) := hserial
  have := hrep.few
  unfold u64 at hnext
  omega

/-- The reports that a receiver generates for a checkpoint, as several, are applied in any order
in which the one that ends at the checkpoint comes last; and in no other order as long as the
session stays open. -/
theorem processRs_any_order (sr s : LTPSession) (S : Set ℕ) (hcount : Counted sr S)
    (c lower upper : ℕ) (segsize : ℤ) (hlt : lower < upper) (hrecv : upper - 1 ∈ S)
    (hs : Answered s S c lower upper) (snd : Sender) (hactive : snd.state = .active s)
    (hup : snd.startShuttingDown = false)
    (hstop : s.findCheckpointStopByte c = ((upper - 1 : ℕ) : ℤ)) (hc : c ≤ s.checkpointId) :
    ∃ total reports, generateReportSegments sr c lower upper segsize =
        .ok (total, sr.addReports reports) ∧
      (2 ≤ reports.length → s.checkpointId + reports.length < 2 ^ 64 →
        ∀ order, order.Perm (reports.map (·.received)) →
          (EndsLast upper order → ∃ snd', run processRs snd order = .ok snd' ∧
            GroupApplied s (reports.map (·.received)) snd snd' ∧
            Meets processRs NotDiscarded snd order) ∧
          ∀ snd' t, run processRs snd order = .ok snd' → snd'.state = .active t →
            Meets processRs NotDiscarded snd order → EndsLast upper order) := by
  obtain ⟨total, t, reports, hgen, hrep, -⟩ :=
    generateReportSegments_reported hcount c lower segsize hlt hrecv
  have ht := hrep.session
  refine ⟨total, reports, ht ▸ hgen, fun hlen hids order hperm => ?_⟩
  have hword := hcount.word
  have hlast := hcount.expected _ hrecv
  have hgroup : Group s c (reports.map (·.received)) := by
    by_cases hfull : sr.redComplete ∧ sr.redBytesReceived = sr.expectedRedBytes
    · have hshort := length_reports_of_full hfull hgen hrep (by
        rw [reportedRange, if_pos hfull]
        exact hword)
      omega
    · rw [reportedRange, if_neg hfull] at hrep
      split_ifs at hrep with hlead
      · exact hrep.group hcount.blocks hs (fun _ es _ => uncut_zero es) (by dsimp only; omega)
          hs.inside hrecv hlen
      · exact hrep.group hcount.blocks hs hs.uncutLower (by dsimp only; omega) hs.inside hrecv
          hlen
  have hids' : s.checkpointId + order.length < 2 ^ 64 := by
    rw [hperm.length_eq, List.length_map]
    exact hids
  obtain ⟨hforth, hback⟩ := processRs_group (upper - 1) (hgroup.perm hperm) hactive hup hstop
    (by omega) hc hids'
  rw [Nat.sub_add_cancel (by omega)] at hforth hback
  refine ⟨fun hends => ?_, hback⟩
  obtain ⟨snd', hrun, happ, hmeets⟩ := hforth hends
  exact ⟨snd', hrun, happ.perm hperm, hmeets⟩

/-- A session that has sent four segments, of which the last is checkpoint 1. -/
def fourSent : LTPSession :=
  { LTPSession.new 1 1 with
    redSegments := (((OrdMap.empty.insert 0 (sentSegment 0 1 0)).insert 2 (sentSegment 2 4 0)).insert
      5 (sentSegment 5 7 0)).insert 8 (sentSegment 8 9 1)
    expectedRedBytes := 10
    checkpointId := 1
    checkpoints := OrdMap.empty.insert 1 9 }

theorem find?_fourSent (h : fourSent.redSegments.find? k = some es) :
    (k = 0 ∧ es = sentSegment 0 1 0) ∨ (k = 2 ∧ es = sentSegment 2 4 0) ∨
      (k = 5 ∧ es = sentSegment 5 7 0) ∨ (k = 8 ∧ es = sentSegment 8 9 1) := by
  simp only [fourSent, OrdMap.find?_insert, OrdMap.find?_empty] at h
  split_ifs at h with h₁ h₂ h₃ h₄ <;> cases h <;> simp [*]

/-- The receiver of the four segments has the second and the last of them. -/
theorem answered_fourSent :
    Answered fourSent {x | (2 ≤ x ∧ x ≤ 4) ∨ (8 ≤ x ∧ x ≤ 9)} 1 0 10 := by
  constructor
  · constructor
    · constructor
      · intro k ds hk
        rcases find?_fourSent hk with ⟨rfl, rfl⟩ | ⟨rfl, rfl⟩ | ⟨rfl, rfl⟩ | ⟨rfl, rfl⟩ <;> rfl
      · intro k ds hk
        rcases find?_fourSent hk with ⟨rfl, rfl⟩ | ⟨rfl, rfl⟩ | ⟨rfl, rfl⟩ | ⟨rfl, rfl⟩ <;> rfl
      · intro k ds hk
        rcases find?_fourSent hk with ⟨rfl, rfl⟩ | ⟨rfl, rfl⟩ | ⟨rfl, rfl⟩ | ⟨rfl, rfl⟩ <;> decide
      · intro k l ds es hk hl hlt
        rcases find?_fourSent hk with ⟨rfl, rfl⟩ | ⟨rfl, rfl⟩ | ⟨rfl, rfl⟩ | ⟨rfl, rfl⟩ <;>
          rcases find?_fourSent hl with ⟨rfl, rfl⟩ | ⟨rfl, rfl⟩ | ⟨rfl, rfl⟩ | ⟨rfl, rfl⟩ <;>
            revert hlt <;> decide
    · intro k ds hk
      rcases find?_fourSent hk with ⟨rfl, rfl⟩ | ⟨rfl, rfl⟩ | ⟨rfl, rfl⟩ | ⟨rfl, rfl⟩ <;> rfl
  · intro k es hk
    rcases find?_fourSent hk with ⟨rfl, rfl⟩ | ⟨rfl, rfl⟩ | ⟨rfl, rfl⟩ | ⟨rfl, rfl⟩
    · right
      intro x _ hx hin
      simp only [sentSegment, Set.mem_ofPred_eq] at hx hin
      omega
    · exact Or.inl fun x h₁ h₂ => Or.inl ⟨h₁, h₂⟩
    · right
      intro x hlow hx hin
      simp only [sentSegment, Set.mem_ofPred_eq] at hlow hx hin
      omega
    · exact Or.inl fun x h₁ h₂ => Or.inr ⟨h₁, h₂⟩
  · exact fun k es _ => uncut_zero es
  · intro k es hk _
    rcases find?_fourSent hk with ⟨rfl, rfl⟩ | ⟨rfl, rfl⟩ | ⟨rfl, rfl⟩ | ⟨rfl, rfl⟩ <;> decide
  · intro k es hk hckpt _
    rcases find?_fourSent hk with ⟨rfl, rfl⟩ | ⟨rfl, rfl⟩ | ⟨rfl, rfl⟩ | ⟨rfl, rfl⟩ <;>
      revert hckpt <;> decide
  · decide

theorem processRs_any_order_two :
    ∃ total reports, generateReportSegments twoBlocks 1 0 10 1 =
        .ok (total, twoBlocks.addReports reports) ∧
      (2 ≤ reports.length → fourSent.checkpointId + reports.length < 2 ^ 64 →
        ∀ order, order.Perm (reports.map (·.received)) →
          (EndsLast 10 order → ∃ snd', run processRs (senderOf fourSent) order = .ok snd' ∧
            GroupApplied fourSent (reports.map (·.received)) (senderOf fourSent) snd' ∧
            Meets processRs NotDiscarded (senderOf fourSent) order) ∧
          ∀ snd' t, run processRs (senderOf fourSent) order = .ok snd' → snd'.state = .active t →
            Meets processRs NotDiscarded (senderOf fourSent) order → EndsLast 10 order) :=
  processRs_any_order twoBlocks fourSent _ counted_twoBlocks 1 0 10 1 (by decide) (by simp)
    answered_fourSent _ rfl rfl (by decide) (by decide)

/-- The two reports of the receiver, in order and the other way round: the first then comes too
late, and its claim on the second segment is ignored. -/
theorem processRs_out_of_order :
    ∃ p, generateReportSegments twoBlocks 1 0 10 1 = .ok p ∧
      (∃ snd', run processRs (senderOf fourSent) (p.2.reportSegments.values.map (·.received)) =
          .ok snd' ∧ snd'.redSegments.find? 2 = none ∧ snd'.queue = [(0, true), (5, true)]) ∧
      ∃ snd', run processRs (senderOf fourSent)
          (p.2.reportSegments.values.map (·.received)).reverse = .ok snd' ∧
        snd'.redSegments.find? 2 ≠ none ∧ snd'.queue = [(5, true)] := by
  decide +kernel

end Dtnme.Ltp
