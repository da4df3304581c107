import Dtnme.Ltp.Inbound

/-! # What a receiver claims

Whatever bounds a checkpoint asks for, even where the lower one is not below the upper one, the claims
of the reports on it are bytes that were received.
-/

namespace Dtnme.Ltp
open Library Runs

variable {s t : LTPSession} {S S' : Set ℕ} {m : OrdMap ℕ LTPReportClaim} {lower offset length : ℕ}

/-- A call that returns does so in each of its parts. -/
theorem returns_of_bind {α β : Type} {x : Except Fault α} {f : α → Except Fault β} {b : β}
    (h : x >>= f = .ok b) : ∃ a, x = .ok a ∧ f a = .ok b := by
  cases x with
  | error e => cases h
  | ok a => exact ⟨a, rfl, h⟩

/-- The bytes of a range were received. -/
structure Backed (S : Set ℕ) (offset length : ℕ) : Prop where
  word : offset + length < 2 ^ 64
  received : ∀ x, offset ≤ x → x < offset + length → x ∈ S

/-- The claims are kept under their offsets, and are received bytes from the lower bound on. -/
def SoundClaims (S : Set ℕ) (lower : ℕ) (m : OrdMap ℕ LTPReportClaim) : Prop :=
  ∀ k rc, m.find? k = some rc → rc.offset = k ∧ lower ≤ k ∧ Backed S k rc.length

def SoundReport (S : Set ℕ) (rptseg : LTPReportSegment) : Prop :=
  SoundClaims S rptseg.lowerBounds rptseg.claims

theorem Backed.mono (h : Backed S offset length) (hS : S ⊆ S') : Backed S' offset length :=
  ⟨h.word, fun x hlo hhi => hS (h.received x hlo hhi)⟩

theorem Backed.shorten (h : Backed S offset length) {length' : ℕ} (hle : length' ≤ length) :
    Backed S offset length' :=
  ⟨by have := h.word; omega, fun x hlo hhi => h.received x hlo (by omega)⟩

theorem SoundClaims.empty : SoundClaims S lower .empty := by
  intro k rc hk
  simp at hk

theorem SoundClaims.mono (h : SoundClaims S lower m) (hS : S ⊆ S') : SoundClaims S' lower m := by
  intro k rc hk
  obtain ⟨hoff, hlow, hback⟩ := h k rc hk
  exact ⟨hoff, hlow, hback.mono hS⟩

theorem SoundClaims.add (h : SoundClaims S lower m) (hlow : lower ≤ offset)
    (hback : Backed S offset length) : SoundClaims S lower (addClaim m offset length) := by
  intro k rc hk
  rw [addClaim, OrdMap.find?_insert] at hk
  split_ifs at hk with heq
  · cases hk
    subst heq
    exact ⟨rfl, hlow, hback⟩
  · exact h k rc hk

/-! ## The loop -/

/-- The reports made so far, the claims of the next one and the claim in progress are sound. -/
structure SoundLoop (s : LTPSession) (S : Set ℕ) (st : ReportLoop) : Prop where
  session : ∃ reports, st.session = s.addReports reports ∧ ∀ r ∈ reports, SoundReport S r
  claims : SoundClaims S st.rptLowerBounds st.claimMap
  claim : st.newClaim = false → st.rptLowerBounds ≤ st.claimStart ∧
    Backed S st.claimStart st.claimLength ∧ st.nextClaimStart = st.claimStart + st.claimLength

variable {st st' : ReportLoop} {b c : ℕ}

theorem addReports_append (s : LTPSession) (reports : List LTPReportSegment) (r : LTPReportSegment) :
    s.addReports (reports ++ [r]) = (s.addReports reports).addReport r := by
  simp [LTPSession.addReports]

theorem SoundLoop.init (h : Counted s S) (lowerBounds : ℕ) (segsize : ℤ) :
    SoundLoop s S (.init s lowerBounds segsize) := by
  have hword := h.first_lt
  unfold ReportLoop.init
  dsimp only
  split_ifs with hlt
  · have hleading : u64Sub s.firstContiguousBytes lowerBounds = s.firstContiguousBytes - lowerBounds :=
      u64Sub_of_le hword hlt.le
    have hback : Backed S lowerBounds (s.firstContiguousBytes - lowerBounds) :=
      ⟨by omega, fun x _ hx => h.first.1 x (by omega)⟩
    rw [hleading]
    exact ⟨⟨[], rfl, by simp⟩, .empty, fun _ => ⟨le_rfl, hback, u64_of_lt hback.word⟩⟩
  · exact ⟨⟨[], rfl, by simp⟩, .empty, fun hnew => by cases hnew⟩

theorem SoundLoop.startClaim (h : SoundLoop s S st) (hbc : b ≤ c) (hc : c + 1 < 2 ^ 64)
    (hblock : ∀ x, b ≤ x → x ≤ c → x ∈ S) (hlow : st.rptLowerBounds ≤ c) :
    SoundLoop s S (st.startClaim b (u64 (u64Sub c b + 1))) := by
  rw [blockLen_eq hbc hc]
  refine ⟨h.session, h.claims, fun _ => ?_⟩
  unfold ReportLoop.startClaim
  dsimp only
  split_ifs with hlt
  · have hskip : u64Sub st.rptLowerBounds b = st.rptLowerBounds - b := u64Sub_of_le (by omega) hlt.le
    have hlen : u64Sub (c + 1 - b) (st.rptLowerBounds - b) = c + 1 - st.rptLowerBounds := by
      rw [u64Sub_of_le (by omega) (by omega)]
      omega
    have hback : Backed S st.rptLowerBounds (c + 1 - st.rptLowerBounds) :=
      ⟨by omega, fun x hlo hhi => hblock x (by omega) (by omega)⟩
    rw [hskip, hlen]
    exact ⟨le_rfl, hback, u64_of_lt hback.word⟩
  · have hback : Backed S b (c + 1 - b) := ⟨by omega, fun x hlo hhi => hblock x hlo (by omega)⟩
    exact ⟨not_lt.mp hlt, hback, u64_of_lt hback.word⟩

theorem SoundLoop.extendClaim (h : SoundLoop s S st) (hnew : st.newClaim = false) (hbc : b ≤ c)
    (hc : c + 1 < 2 ^ 64) (hblock : ∀ x, b ≤ x → x ≤ c → x ∈ S) (hnext : st.nextClaimStart = b) :
    SoundLoop s S (st.extendClaim (u64 (u64Sub c b + 1))) := by
  obtain ⟨hlow, hback, hstop⟩ := h.claim hnew
  rw [blockLen_eq hbc hc]
  refine ⟨h.session, h.claims, fun _ => ?_⟩
  unfold ReportLoop.extendClaim
  dsimp only
  have hlen : u64 (st.claimLength + (c + 1 - b)) = st.claimLength + (c + 1 - b) := u64_of_lt (by omega)
  have hback' : Backed S st.claimStart (st.claimLength + (c + 1 - b)) := by
    refine ⟨by omega, fun x hlo hhi => ?_⟩
    by_cases hx : x < st.claimStart + st.claimLength
    · exact hback.received x hlo hx
    · exact hblock x (by omega) (by omega)
  rw [hlen]
  exact ⟨hlow, hback', u64_of_lt hback'.word⟩

theorem SoundLoop.saveClaim (h : SoundLoop s S st) (hnew : st.newClaim = false) :
    SoundLoop s S st.saveClaim := by
  obtain ⟨hlow, hback, -⟩ := h.claim hnew
  exact ⟨h.session, h.claims.add hlow hback, h.claim⟩

theorem SoundLoop.noClaim (h : SoundLoop s S st) : SoundLoop s S st.noClaim :=
  ⟨h.session, h.claims, fun hnew => by cases hnew⟩

theorem SoundLoop.cutUpper (h : SoundLoop s S st) (upper : ℕ) : SoundLoop s S (st.cutUpper upper) := by
  unfold ReportLoop.cutUpper
  split_ifs
  · exact ⟨h.session, h.claims, h.claim⟩
  · exact h

theorem SoundLoop.addReport (h : SoundLoop s S st) (chkpt : ℕ) :
    ∃ reports, st.session.addReport (st.report chkpt) = s.addReports reports ∧
      ∀ r ∈ reports, SoundReport S r := by
  obtain ⟨reports, hreports, hsound⟩ := h.session
  refine ⟨reports ++ [st.report chkpt], ?_, ?_⟩
  · rw [addReports_append, hreports]
  · intro r hr
    rcases List.mem_append.mp hr with hr | hr
    · exact hsound r hr
    · rw [List.mem_singleton.mp hr]
      exact h.claims

/-- A report that is closed leaves no claim in progress behind. -/
theorem SoundLoop.closeReport (h : SoundLoop s S st) (chkpt : ℕ) (segsize : ℤ) :
    SoundLoop s S { st.closeReport chkpt segsize with newClaim := true } ∧
      SoundLoop s S (st.closeReport chkpt segsize).noClaim := by
  have hreport := h.addReport chkpt
  exact ⟨⟨hreport, .empty, fun hnew => by cases hnew⟩, ⟨hreport, .empty, fun hnew => by cases hnew⟩⟩

theorem reportLoop_sound (hcount : Counted s S) (chkpt upper : ℕ) (segsize : ℤ) {fuel : ℕ}
    {blocks : List (ℕ × ℕ)} (hblocks : ∀ p ∈ blocks, s.redContigBlocks.find? p.1 = some p.2)
    (h : SoundLoop s S st) (hrun : reportLoop chkpt upper segsize fuel blocks st = .ok st') :
    SoundLoop s S st' := by
  induction fuel generalizing blocks st with
  | zero => cases hrun
  | succ fuel ih =>
    cases blocks with
    | nil =>
      cases hrun
      exact h
    | cons p rest =>
      obtain ⟨b, c⟩ := p
      have hb := hblocks _ List.mem_cons_self
      have hrest := fun q hq => hblocks q (List.mem_cons_of_mem _ hq)
      have hbc := hcount.blocks.ordered hb
      have hc := hcount.stop_lt b c hb
      have hblock : ∀ x, b ≤ x → x ≤ c → x ∈ S := fun x hlo hhi => hcount.blocks.mem hb hlo hhi
      unfold reportLoop at hrun
      dsimp only at hrun
      split_ifs at hrun with hbelow hnew hstart hbeyond hnext hlong hend
      · exact ih hrest h hrun
      · exact ih hrest (h.startClaim hbc hc hblock (not_lt.mp hbelow)) hrun
      · cases hrun
        exact h
      · cases hrun
        exact h
      · exact ih hrest (h.extendClaim (by simpa using hnew) hbc hc hblock hnext) hrun
      · cases hrun
        exact (((h.saveClaim (by simpa using hnew)).cutUpper upper).closeReport chkpt segsize).1
      · exact ih hblocks
          (((h.saveClaim (by simpa using hnew)).cutUpper upper).closeReport chkpt segsize).2 hrun
      · exact ih hblocks (h.saveClaim (by simpa using hnew)).noClaim hrun

/-- The claim in progress goes to the last report, or a beginning of it. -/
theorem SoundLoop.lastReport (h : SoundLoop s S st) (hnew : st.newClaim = false)
    (hlen : length ≤ st.claimLength) (chkpt upper : ℕ) :
    ∃ reports, (st.cutUpper upper).session.addReport
        (({ st.cutUpper upper with
            claimMap := addClaim (st.cutUpper upper).claimMap (st.cutUpper upper).claimStart length } :
          ReportLoop).report chkpt) = s.addReports reports ∧
      ∀ r ∈ reports, SoundReport S r := by
  obtain ⟨hlow, hback, -⟩ := h.claim hnew
  have hcut := h.cutUpper upper
  have hsame : (st.cutUpper upper).rptLowerBounds = st.rptLowerBounds ∧
      (st.cutUpper upper).claimStart = st.claimStart := by
    unfold ReportLoop.cutUpper
    split_ifs <;> exact ⟨rfl, rfl⟩
  have hloop : SoundLoop s S { st.cutUpper upper with
      claimMap := addClaim (st.cutUpper upper).claimMap (st.cutUpper upper).claimStart length } := by
    refine ⟨hcut.session, hcut.claims.add ?_ ?_, hcut.claim⟩
    · rw [hsame.1, hsame.2]
      exact hlow
    · rw [hsame.2]
      exact hback.shorten hlen
  exact hloop.addReport chkpt

theorem finishReport_sound (chkpt upper : ℕ) {total : ℕ} (h : SoundLoop s S st)
    (hrun : finishReport chkpt upper st = .ok (total, t)) :
    ∃ reports, t = s.addReports reports ∧ ∀ r ∈ reports, SoundReport S r := by
  unfold finishReport at hrun
  dsimp only at hrun
  split_ifs at hrun with hnew hfail hcut
  · cases hrun
    exact h.session
  · cases hrun
    have hword := (h.claim (by simpa using hnew)).2.1.word
    have hover : u64Sub st.rptUpperBounds upper < st.claimLength := by
      simpa [hcut] using hfail
    obtain ⟨reports, hreports, hsound⟩ := h.lastReport (by simpa using hnew)
      (u64Sub_of_le (by omega) hover.le ▸ Nat.sub_le _ _) chkpt upper
    exact ⟨reports, hreports, hsound⟩
  · cases hrun
    obtain ⟨reports, hreports, hsound⟩ := h.lastReport (by simpa using hnew) le_rfl chkpt upper
    exact ⟨reports, hreports, hsound⟩

/-- Every claim of a generated report was received. -/
theorem generateReportSegments_sound (h : Counted s S) {chkpt lowerBounds upper total : ℕ}
    {segsize : ℤ} (hrun : generateReportSegments s chkpt lowerBounds upper segsize = .ok (total, t)) :
    ∃ reports, t = s.addReports reports ∧ ∀ r ∈ reports, SoundReport S r := by
  have hall (x : ℕ) (hword : x < 2 ^ 64) (hx : ∀ y < x, y ∈ S) :
      ∃ reports, (reportAll s chkpt x).2 = s.addReports reports ∧ ∀ r ∈ reports, SoundReport S r := by
    refine ⟨_, (addReports_append s [] _).symm, ?_⟩
    intro r hr
    rw [List.nil_append, List.mem_singleton] at hr
    rw [hr]
    exact SoundClaims.empty.add le_rfl ⟨by omega, fun y _ hy => hx y (by omega)⟩
  have hblocks (k : ℕ) : ∀ p ∈ s.redContigBlocks.fromBefore k,
      s.redContigBlocks.find? p.1 = some p.2 := by
    intro p hp
    obtain ⟨q, heq, -⟩ := s.redContigBlocks.fromBefore_eq k
    rw [heq] at hp
    exact OrdMap.find?_eq_some_iff.mpr (List.mem_of_mem_filter hp)
  unfold generateReportSegments at hrun
  by_cases hfull : s.redComplete ∧ s.redBytesReceived = s.expectedRedBytes
  · rw [if_pos hfull] at hrun
    obtain rfl : (reportAll s chkpt _).2 = t := congrArg Prod.snd (Except.ok.inj hrun)
    apply hall
    · have := h.word
      omega
    · intro y hy
      exact (h.full hfull.2 y).mpr (by omega)
  rw [if_neg hfull] at hrun
  by_cases hleading : upper ≤ s.firstContiguousBytes
  · rw [if_pos hleading] at hrun
    obtain rfl : (reportAll s chkpt _).2 = t := congrArg Prod.snd (Except.ok.inj hrun)
    apply hall
    · have := h.first_lt
      omega
    · intro y hy
      exact h.first.1 y (by omega)
  · rw [if_neg hleading] at hrun
    dsimp only at hrun
    obtain ⟨st, hloop, hfinish⟩ := returns_of_bind hrun
    exact finishReport_sound chkpt upper (reportLoop_sound h chkpt upper segsize (hblocks _)
      (.init h lowerBounds segsize) hloop) hfinish

end Dtnme.Ltp
