import Dtnme.Bundling.AcsRecord
import Dtnme.Library.Transition

/-! # The runs of one pending signal

Custody ids come in any order, and the pending signal goes out at any time. After each event
its entries list the maximal runs of the ids that were added and not sent, with the
redundant fields in step.
-/

namespace Dtnme.Bundling
open Library Runs

/-! ## Entries and maximal runs -/

/-- The right edge before an entry, zero for the first one. -/
def prevRightEdge (m : OrdMap ℕ AcsEntry) (k : ℕ) : ℕ :=
  match m.prev? k with
  | none => 0
  | some (_, e) => e.leftEdge + e.lengthOfFill - 1

/-- The entries of a pending signal are the maximal runs of a set, and the lengths fit. -/
structure ListsRuns (pacs : PendingAcs) (S : Finset ℕ) : Prop where
  keyed : ∀ k e, pacs.acsEntryMap.find? k = some e → e.leftEdge = k
  runs : ∀ a b, (∃ e, pacs.acsEntryMap.find? a = some e ∧ a + e.lengthOfFill = b + 1) ↔
    IsRun (S : Set ℕ) a b
  diff : ∀ k e, pacs.acsEntryMap.find? k = some e →
    e.diffToPrevRightEdge = k - prevRightEdge pacs.acsEntryMap k
  size : ∀ k e, pacs.acsEntryMap.find? k = some e →
    e.sdnvLength = encodingLen e.diffToPrevRightEdge + encodingLen e.lengthOfFill
  payload : pacs.acsPayloadLength = pacs.acsEntryMap.sum (·.sdnvLength)

variable {pacs : PendingAcs} {S : Finset ℕ} {c : ℕ}

theorem EntriesOf.prevRightEdge_eq {m : OrdMap ℕ AcsEntry} (h : EntriesOf m S) {k : ℕ} {e : AcsEntry}
    (hf : m.find? k = some e) : prevRightEdge m k = below S k := by
  rw [prevRightEdge]
  cases hprev : m.prev? k with
  | none => exact (h.below_first (OrdMap.prev?_eq_none hprev)).symm
  | some p =>
    obtain ⟨j, p⟩ := p
    obtain ⟨hp, hjk, hnone⟩ := OrdMap.prev?_eq_some hprev
    have hgap := h.gap hp hf hjk
    simp only
    rw [h.below_prev hp hjk hnone (by omega), h.keyed hp]

theorem Represents.listsRuns (h : Represents pacs S) : ListsRuns pacs S where
  keyed k e hf := h.entries.keyed hf
  runs a b := by
    rw [← h.entries.blocks.isRun_iff]
    constructor
    · rintro ⟨e, hf, hb⟩
      rw [h.entries.rightEdges_eq hf, Option.some.injEq]
      omega
    · intro hb
      obtain ⟨e, hf, hedge⟩ := Option.map_eq_some_iff.mp hb
      have hkey := h.entries.keyed hf
      have hlen := (h.entries.entry hf).2
      exact ⟨e, hf, by omega⟩
  diff k e hf := by rw [h.entries.prevRightEdge_eq hf, h.entries.diff hf]
  size k e hf := by rw [h.entries.diff hf, h.entries.size hf]
  payload := h.payload

/-! ## What was added and what was sent -/

/-- The id that an event adds. -/
def addedId : AcsEvent → Option ℕ
  | .addBundleToAcs _ _ _ custodyId => some custodyId
  | .addBibeBundleToAcs _ _ _ _ transmissionId => some transmissionId
  | _ => none

def addedIds (events : List AcsEvent) : Finset ℕ := (events.filterMap addedId).toFinset

/-- The ids of the signals that went out. -/
def sentIds (posted : List AcsSignal) : Finset ℕ := posted.toFinset.biUnion AcsSignal.ids

theorem mem_sentIds {posted : List AcsSignal} {x : ℕ} :
    x ∈ sentIds posted ↔ ∃ s ∈ posted, x ∈ s.ids := by
  simp only [sentIds, Finset.mem_biUnion, List.mem_toFinset]

theorem sentIds_append (posted signals : List AcsSignal) :
    sentIds (posted ++ signals) = sentIds posted ∪ sentIds signals := by
  ext x
  simp only [Finset.mem_union, mem_sentIds, List.mem_append, or_and_right, exists_or]

theorem addedIds_append (past : List AcsEvent) (e : AcsEvent) :
    addedIds (past ++ [e]) = (addedId e).elim (addedIds past) (insert · (addedIds past)) := by
  ext x
  cases h : addedId e with
  | none => simp [addedIds, List.filterMap_append, h]
  | some c => simp [addedIds, List.filterMap_append, h]

/-- What is left is what was not sent. -/
theorem Settles.represents {next next' : ℕ} {all new : Finset ℕ} {signals : List AcsSignal}
    {pacs' : PendingAcs} (h : Settles next pacs all new signals pacs' next') :
    Represents pacs' (all \ sentIds signals) ∧ sentIds signals ⊆ all := by
  rcases h.split with ⟨hun, hrep, -⟩ | ⟨sent, kept, s, rfl, hfor, rfl, hdisj, -, hrep, -⟩
  · have hnone : sentIds signals = ∅ := by
      rw [Finset.eq_empty_iff_forall_notMem]
      intro x hx
      obtain ⟨s, hs, hx⟩ := mem_sentIds.mp hx
      rw [(hun s hs).2.2] at hx
      exact absurd hx (Finset.notMem_empty x)
    rw [hnone, Finset.sdiff_empty]
    exact ⟨hrep, Finset.empty_subset _⟩
  · have hone : sentIds [s] = sent := by
      rw [sentIds, List.toFinset_cons, List.toFinset_nil, insert_empty_eq, Finset.singleton_biUnion,
        hfor.ids_eq]
    rw [hone, Finset.union_sdiff_left, Finset.sdiff_eq_self_of_disjoint hdisj.symm]
    exact ⟨hrep, Finset.subset_union_left⟩

/-! ## One pending signal -/

section

variable (eidMatch : String → String → Bool) (custodyEid : String) (succeeded : Bool) (reason : UInt8)

/-- The events of a run: additions to one pending signal, timers and new parameters. -/
def ForOne : AcsEvent → Prop
  | .addBundleToAcs custodyEid' succeeded' reason' custodyId =>
    custodyEid' = custodyEid ∧ succeeded' = succeeded ∧ reason' = reason ∧
      1 ≤ custodyId ∧ custodyId < 2 ^ 64
  | .addBibeBundleToAcs .. => False
  | _ => True

/-- The pending signal of a key, an empty one if there is none. -/
def pendingAt (d : BundleDaemonACS) (key : String) : PendingAcs :=
  (d.pendingAcsMap.find? key).getD {}

/-- An addition leaves a pending signal whose signal fits an `int`. -/
def LeavesRoom (d : BundleDaemonACS) : AcsEvent → Prop
  | .addBundleToAcs custodyEid succeeded reason custodyId =>
    ∀ pacs ∈ d.pendingAcsMap.find? (acsKey custodyEid succeeded reason),
      newLength pacs custodyId + 2 < 2 ^ 31
  | .addBibeBundleToAcs _ custodyEid success reason transmissionId =>
    ∀ pacs ∈ d.pendingAcsMap.find? (acsKey custodyEid success reason),
      newLength pacs transmissionId + 2 < 2 ^ 31
  | _ => True

instance (d : BundleDaemonACS) (e : AcsEvent) : Decidable (LeavesRoom d e) := by
  cases e <;> unfold LeavesRoom <;> infer_instance

/-- One pending signal stands for what was added and not sent. -/
structure Tracks (d : BundleDaemonACS) (past : List AcsEvent) : Prop where
  alone : ∀ key ≠ acsKey custodyEid succeeded reason, d.pendingAcsMap.find? key = none
  version : ∀ pacs, d.pendingAcsMap.find? (acsKey custodyEid succeeded reason) = some pacs →
    pacs.bpVersion = 6
  fits : Fits (pendingAt d (acsKey custodyEid succeeded reason))
  represents : Represents (pendingAt d (acsKey custodyEid succeeded reason))
    (addedIds past \ sentIds d.posted)
  sent : sentIds d.posted ⊆ addedIds past

variable {eidMatch custodyEid succeeded reason} {d : BundleDaemonACS} {past : List AcsEvent}

/-- An event on the pending signal adds at most one id. -/
theorem Tracks.settle (h : Tracks custodyEid succeeded reason d past) {e : AcsEvent}
    {new : Finset ℕ} {pacs : PendingAcs} {signals : List AcsSignal} {pacs' : PendingAcs}
    {next next' : ℕ} (hversion : pacs.bpVersion = 6)
    (hadd : addedIds (past ++ [e]) = new ∪ addedIds past) (hnew : Disjoint new (addedIds past))
    (hs : Settles next pacs (new ∪ (addedIds past \ sentIds d.posted)) new signals pacs' next') :
    Tracks custodyEid succeeded reason
      { d with pendingAcsMap := d.pendingAcsMap.insert (acsKey custodyEid succeeded reason) pacs'
               nextPacsid := next', posted := d.posted ++ signals } (past ++ [e]) := by
  have hat : pendingAt { d with
      pendingAcsMap := d.pendingAcsMap.insert (acsKey custodyEid succeeded reason) pacs'
      nextPacsid := next', posted := d.posted ++ signals } (acsKey custodyEid succeeded reason) =
        pacs' := by simp [pendingAt]
  obtain ⟨hrep, hsub⟩ := hs.represents
  refine ⟨?_, ?_, ?_, ?_, ?_⟩
  · intro key hkey
    simp only
    rw [OrdMap.find?_insert, if_neg hkey]
    exact h.alone key hkey
  · intro p hp
    simp only [OrdMap.find?_insert, if_pos] at hp
    cases hp
    exact hs.head.bpVersion.trans hversion
  · rw [hat]
    exact hs.fits
  · have hleft : (new ∪ addedIds past) \ (sentIds d.posted ∪ sentIds signals) =
        (new ∪ (addedIds past \ sentIds d.posted)) \ sentIds signals := by
      rw [← Finset.sup_eq_union (s := sentIds d.posted), ← sdiff_sdiff_left,
        Finset.union_sdiff_distrib new, Finset.sdiff_eq_self_of_disjoint (hnew.mono_right h.sent)]
    rw [hat, hadd, sentIds_append, hleft]
    exact hrep
  · rw [hadd, sentIds_append]
    refine Finset.union_subset (h.sent.trans Finset.subset_union_right) (hsub.trans ?_)
    exact Finset.union_subset_union subset_rfl Finset.sdiff_subset

/-- A new pending signal takes any id. -/
theorem newLength_empty (hmap : pacs.acsEntryMap = .empty) (hlen : pacs.acsPayloadLength = 0)
    (hc : c < 2 ^ 64) : newLength pacs c + 2 < 2 ^ 31 := by
  have hten := encodingLen_le_ten hc
  have hlower : pacs.acsEntryMap.lowerBound? c = none := by
    rw [hmap]
    rfl
  have hlast : pacs.acsEntryMap.last? = none := by
    rw [hmap]
    rfl
  simp only [newLength, determineAcsChanges, hlower, determineAtEnd, hlast, hlen]
  push_cast
  omega

/-- The pending signal that an addition works on: the one of the key, or a new one. -/
inductive WorksOn (d : BundleDaemonACS) (key : String) (fresh : PendingAcs) : PendingAcs → ℕ → Prop
  | found {p : PendingAcs} (h : d.pendingAcsMap.find? key = some p) : WorksOn d key fresh p d.nextPacsid
  | created (h : d.pendingAcsMap.find? key = none) :
      WorksOn d key fresh { fresh with pacsId := d.nextPacsid } (u32 (d.nextPacsid + 1))

/-- An addition to the pending signal of a key. -/
theorem addCustodyId_pendingFor (eidMatch : String → String → Bool) {d : BundleDaemonACS}
    {key : String} {fresh : PendingAcs} (hfresh : Represents fresh ∅ ∧ fresh.bpVersion = 6)
    (hsome : ∀ pacs, d.pendingAcsMap.find? key = some pacs →
      Represents pacs S ∧ pacs.bpVersion = 6 ∧ Fits pacs ∧ newLength pacs c + 2 < 2 ^ 31)
    (hnone : d.pendingAcsMap.find? key = none → S = ∅) (hc : c ∉ S) (hid : 1 ≤ c ∧ c < 2 ^ 64) :
    ∃ pacs next signals pacs' next', WorksOn d key fresh pacs next ∧ pacs.bpVersion = 6 ∧
      addCustodyId eidMatch (pendingFor d key fresh).1 key (pendingFor d key fresh).2 c = .ok
        { d with pendingAcsMap := d.pendingAcsMap.insert key pacs', nextPacsid := next'
                 posted := d.posted ++ signals } ∧
      Settles next pacs (insert c S) {c} signals pacs' next' := by
  obtain ⟨hrep, hversion⟩ := hfresh
  rw [pendingFor]
  cases hf : d.pendingAcsMap.find? key with
  | none =>
    obtain rfl := hnone hf
    have hmap := hrep.map_of_empty
    have hlen := hrep.payload_eq_zero_iff.mpr rfl
    have hnew : Represents { fresh with pacsId := d.nextPacsid } ∅ := hrep.congr rfl rfl rfl
    obtain ⟨signals, pacs', next', hok, hs⟩ := addCustodyId_settles eidMatch
      { d with nextPacsid := u32 (d.nextPacsid + 1) } key hnew
      hversion (by simp [Fits, hlen]) hc hid (newLength_empty hmap hlen hid.2)
    exact ⟨_, _, signals, pacs', next', .created hf, hversion, hok, hs⟩
  | some pacs =>
    obtain ⟨hrep, hversion, hfits, hroom⟩ := hsome pacs hf
    obtain ⟨signals, pacs', next', hok, hs⟩ :=
      addCustodyId_settles eidMatch d key hrep hversion hfits hc hid hroom
    exact ⟨pacs, _, signals, pacs', next', .found hf, hversion, hok, hs⟩

theorem represents_fresh (custodyEid : String) (succeeded : Bool) (reason : ℕ) :
    Represents { custodyEid, succeeded, reason, bpVersion := 6 } ∅ :=
  ⟨EntriesOf.empty, rfl, (u32_of_lt (show 0 < 2 ^ 32 by norm_num)).symm⟩

/-- `handle_add_bundle_to_acs` on the pending signal. -/
theorem Tracks.addBundle (h : Tracks custodyEid succeeded reason d past)
    (hid : 1 ≤ c ∧ c < 2 ^ 64) (hc : c ∉ addedIds past)
    (hroom : LeavesRoom d (.addBundleToAcs custodyEid succeeded reason c)) :
    ∃ d', handleAddBundleToAcs eidMatch d custodyEid succeeded reason c = .ok d' ∧
      Tracks custodyEid succeeded reason d'
        (past ++ [.addBundleToAcs custodyEid succeeded reason c]) := by
  obtain ⟨pacs, next, signals, pacs', next', -, hversion, hok, hs⟩ :=
    addCustodyId_pendingFor (S := addedIds past \ sentIds d.posted) eidMatch
      ⟨represents_fresh custodyEid succeeded reason.toNat, rfl⟩
      (fun pacs hf => by
        have hat : pendingAt d (acsKey custodyEid succeeded reason) = pacs := by
          rw [pendingAt, hf, Option.getD_some]
        exact ⟨hat ▸ h.represents, h.version pacs hf, hat ▸ h.fits, hroom pacs hf⟩)
      (fun hf => by
        have hat : pendingAt d (acsKey custodyEid succeeded reason) = {} := by
          rw [pendingAt, hf, Option.getD_none]
        exact (hat ▸ h.represents).payload_eq_zero_iff.mp rfl)
      (fun hm => hc (Finset.mem_sdiff.mp hm).1) hid
  rw [Finset.insert_eq] at hs
  refine ⟨_, hok, h.settle hversion ?_ (Finset.disjoint_singleton_left.mpr hc) hs⟩
  rw [addedIds_append]
  exact Finset.insert_eq c _

/-- `handle_acs_expired` on the pending signal, or with no effect. -/
theorem Tracks.expired (h : Tracks custodyEid succeeded reason d past) (key : String) (pacsId : ℕ) :
    ∃ d', handleAcsExpired d key pacsId = .ok d' ∧
      Tracks custodyEid succeeded reason d' (past ++ [.acsExpired key pacsId]) := by
  have hadd : addedIds (past ++ [.acsExpired key pacsId]) = addedIds past := addedIds_append _ _
  have hsame : Tracks custodyEid succeeded reason d (past ++ [.acsExpired key pacsId]) :=
    ⟨h.alone, h.version, h.fits, hadd ▸ h.represents, hadd ▸ h.sent⟩
  rw [handleAcsExpired]
  cases hf : d.pendingAcsMap.find? key with
  | none => exact ⟨d, rfl, hsame⟩
  | some pacs =>
    simp only
    split_ifs with hpacs
    · exact ⟨d, rfl, hsame⟩
    · have hkey : key = acsKey custodyEid succeeded reason := by
        by_contra hne
        rw [h.alone key hne] at hf
        cases hf
      subst hkey
      have hrep := h.represents
      have hfits := h.fits
      rw [pendingAt, hf, Option.getD_some] at hrep hfits
      obtain ⟨signals, pacs', next', hok, hs⟩ :=
        generateAcs_settles hrep (h.version pacs hf) hfits d.nextPacsid
      rw [hok]
      rw [← Finset.empty_union (addedIds past \ sentIds d.posted)] at hs
      exact ⟨_, rfl, h.settle (h.version pacs hf) (hadd.trans (Finset.empty_union _).symm)
        (Finset.disjoint_empty_left _) hs⟩

/-- An event that adds nothing and leaves the pending signals alone. -/
theorem Tracks.other (h : Tracks custodyEid succeeded reason d past) {d' : BundleDaemonACS}
    {e : AcsEvent} (he : addedId e = none) (hmap : d'.pendingAcsMap = d.pendingAcsMap)
    (hposted : d'.posted = d.posted) : Tracks custodyEid succeeded reason d' (past ++ [e]) := by
  have hadd : addedIds (past ++ [e]) = addedIds past := by
    rw [addedIds_append, he]
    rfl
  have hat : pendingAt d' (acsKey custodyEid succeeded reason) =
      pendingAt d (acsKey custodyEid succeeded reason) := by rw [pendingAt, hmap, pendingAt]
  refine ⟨?_, ?_, ?_, ?_, ?_⟩
  · rw [hmap]
    exact h.alone
  · rw [hmap]
    exact h.version
  · rw [hat]
    exact h.fits
  · rw [hat, hadd, hposted]
    exact h.represents
  · rw [hadd, hposted]
    exact h.sent

/-- One event of a run. -/
theorem Tracks.step (h : Tracks custodyEid succeeded reason d past) {e : AcsEvent}
    (hone : ForOne custodyEid succeeded reason e) (hroom : LeavesRoom d e)
    (hnew : ∀ c ∈ addedId e, c ∉ addedIds past) :
    ∃ d', acsStep eidMatch d e = .ok d' ∧ Tracks custodyEid succeeded reason d' (past ++ [e]) := by
  cases e with
  | addBundleToAcs custodyEid' succeeded' reason' custodyId =>
    obtain ⟨rfl, rfl, rfl, hid⟩ := hone
    exact h.addBundle hid (hnew custodyId rfl) hroom
  | addBibeBundleToAcs => exact hone.elim
  | acsExpired key pacsId => exact h.expired key pacsId
  | setRouteAcsParams arp => exact ⟨_, rfl, h.other rfl rfl rfl⟩
  | deleteRouteAcsParams endpoint => exact ⟨_, rfl, h.other rfl rfl rfl⟩
  | setDefaultParams acsDelay acsSize => exact ⟨_, rfl, h.other rfl rfl rfl⟩

theorem Tracks.start (hmap : d.pendingAcsMap = .empty) (hposted : d.posted = []) :
    Tracks custodyEid succeeded reason d [] := by
  have hat : pendingAt d (acsKey custodyEid succeeded reason) = {} := by
    rw [pendingAt, hmap, OrdMap.find?_empty, Option.getD_none]
  refine ⟨fun key _ => ?_, fun pacs hf => ?_, ?_, ?_, ?_⟩
  · rw [hmap, OrdMap.find?_empty]
  · rw [hmap, OrdMap.find?_empty] at hf
    cases hf
  · rw [hat]
    simp [Fits]
  · rw [hat, hposted]
    exact ⟨EntriesOf.empty, rfl, (u32_of_lt (show 0 < 2 ^ 32 by norm_num)).symm⟩
  · rw [hposted]
    exact subset_rfl

/-- The ids of a list that begins another one are new if the ids of that one are distinct. -/
theorem addedId_new {past events : List AcsEvent} {e : AcsEvent}
    (hdistinct : (events.filterMap addedId).Nodup) (hpre : past ++ [e] <+: events) {c : ℕ}
    (hc : c ∈ addedId e) : c ∉ addedIds past := by
  have hsub := ((hpre.sublist).filterMap addedId).nodup hdistinct
  rw [List.filterMap_append, List.nodup_append] at hsub
  intro hm
  have hm' := List.mem_toFinset.mp hm
  refine hsub.2.2 c hm' c ?_ rfl
  simp only [List.filterMap_cons, List.filterMap_nil]
  rw [Option.mem_def.mp hc]
  exact List.mem_cons_self

/-- A whole run. -/
theorem tracks_run {events : List AcsEvent} (hmap : d.pendingAcsMap = .empty)
    (hposted : d.posted = []) (hone : ∀ e ∈ events, ForOne custodyEid succeeded reason e)
    (hdistinct : (events.filterMap addedId).Nodup)
    (hroom : Meets (acsStep eidMatch) LeavesRoom d events) :
    ∃ d', run (acsStep eidMatch) d events = .ok d' ∧
      Tracks custodyEid succeeded reason d' events :=
  run_invariant_prefix (Tracks custodyEid succeeded reason)
    (fun _ _ _ hpre hinv hp => hinv.step hp.2 hp.1 fun _ hc => addedId_new hdistinct hpre hc)
    (Tracks.start hmap hposted) (hroom.and_forall hone)

/-- After every event the entries are the maximal runs of the ids that were added and not sent, and
no assertion fails. The count of the ids wraps at 2^32. -/
theorem acsStep_run_listsRuns {events : List AcsEvent} (hmap : d.pendingAcsMap = .empty)
    (hposted : d.posted = []) (hone : ∀ e ∈ events, ForOne custodyEid succeeded reason e)
    (hdistinct : (events.filterMap addedId).Nodup)
    (hroom : Meets (acsStep eidMatch) LeavesRoom d events) (n : ℕ) :
    ∃ d', run (acsStep eidMatch) d (events.take n) = .ok d' ∧
      ListsRuns (pendingAt d' (acsKey custodyEid succeeded reason))
        (addedIds (events.take n) \ sentIds d'.posted) ∧
      (pendingAt d' (acsKey custodyEid succeeded reason)).numCustodyIds =
        (addedIds (events.take n) \ sentIds d'.posted).card % 2 ^ 32 := by
  have hsub := (List.take_sublist n events).filterMap addedId
  obtain ⟨d', hrun, htracks⟩ := tracks_run hmap hposted
    (fun e he => hone e (List.mem_of_mem_take he)) (hsub.nodup hdistinct) (hroom.take n)
  refine ⟨d', hrun, htracks.represents.listsRuns, ?_⟩
  rw [htracks.represents.count]
  unfold u32
  rfl

end

/-- The third id joins the other two, and a timer sends the three. -/
def joinedEvents : List AcsEvent :=
  [.addBundleToAcs "ipn:1.0" true 0 5, .addBundleToAcs "ipn:1.0" true 0 3,
    .addBundleToAcs "ipn:1.0" true 0 4, .acsExpired (acsKey "ipn:1.0" true 0) 0,
    .addBundleToAcs "ipn:1.0" true 0 9]

theorem acsStep_run_listsRuns_joined :
    ∃ d', run (acsStep fun _ _ => false) {} (joinedEvents.take 5) = .ok d' ∧
      ListsRuns (pendingAt d' (acsKey "ipn:1.0" true 0))
        (addedIds (joinedEvents.take 5) \ sentIds d'.posted) ∧
      (pendingAt d' (acsKey "ipn:1.0" true 0)).numCustodyIds =
        (addedIds (joinedEvents.take 5) \ sentIds d'.posted).card % 2 ^ 32 :=
  acsStep_run_listsRuns rfl rfl (by simp [joinedEvents, ForOne]) (by decide) (by decide +kernel) 5

/-! ## Runs without a size limit -/

/-- Carrying out a plan changes the entries and their lengths only. -/
theorem applyAcsChanges_frame {ch : AcsChanges} {pacs' : PendingAcs}
    (h : applyAcsChanges pacs ch c = .ok pacs') :
    pacs'.acsSize = pacs.acsSize ∧ pacs'.paramsRevision = pacs.paramsRevision := by
  rw [applyAcsChanges] at h
  split_ifs at h
  · cases h
    exact ⟨rfl, rfl⟩
  · cases h
    exact ⟨rfl, rfl⟩
  · cases h
    exact ⟨rfl, rfl⟩

/-- With no size limit, and no parameters that lower the delay, nothing is sent. -/
theorem sendIfTriggered_unlimited (eidMatch : String → String → Bool) {d : BundleDaemonACS}
    (hd : d.acsSize = 0 ∧ d.acsRouteParamsList = []) (pacs : PendingAcs) (hsize : pacs.acsSize = 0)
    (hrev : pacs.paramsRevision = d.acsParamsRevision ∨ pacs.acsDelay = 0) (delta : ℤ) :
    ∃ delay, sendIfTriggered eidMatch d pacs delta = .ok ([],
      { pacs with paramsRevision := d.acsParamsRevision, acsDelay := delay, acsSize := 0 },
      d.nextPacsid) := by
  obtain ⟨hlimit, hroutes⟩ := hd
  by_cases hcur : pacs.paramsRevision = d.acsParamsRevision
  · refine ⟨pacs.acsDelay, ?_⟩
    have hsame : { pacs with paramsRevision := d.acsParamsRevision, acsSize := 0 } = pacs := by
      rw [← hcur, ← hsize]
    rw [hsame]
    simp [sendIfTriggered, getAcsParamsForEndpoint, hcur, triggers, hsize]
  · have hdelay := hrev.resolve_left hcur
    refine ⟨d.acsDelay, ?_⟩
    simp [sendIfTriggered, getAcsParamsForEndpoint, hcur, triggers, hdelay, hroutes, bestMatch, hlimit]

/-- An addition with no size limit. -/
theorem addCustodyId_unlimited (eidMatch : String → String → Bool) {d : BundleDaemonACS} (key : String)
    (hd : d.acsSize = 0 ∧ d.acsRouteParamsList = []) (hsize : pacs.acsSize = 0)
    (hrev : pacs.paramsRevision = d.acsParamsRevision ∨ pacs.acsDelay = 0)
    (h : Represents pacs S) (hc : c ∉ S) (hid : 1 ≤ c ∧ c < 2 ^ 64)
    (hroom : pacs.acsPayloadLength + 11 < 2 ^ 32) :
    ∃ pacs', addCustodyId eidMatch d key pacs c = .ok
        { d with pendingAcsMap := d.pendingAcsMap.insert key pacs' } ∧
      Represents pacs' (insert c S) ∧ SameHead pacs pacs' ∧
      pacs'.pacsId = pacs.pacsId ∧ pacs'.acsSize = 0 ∧ pacs'.paramsRevision = d.acsParamsRevision := by
  rw [addCustodyId]
  rcases determineAcsChanges_spec h.entries hc hid with ⟨ch, hdet, hp⟩ |
    ⟨m', delta, hdet, hentries, hsum, hneg⟩
  · obtain ⟨delay, hsend⟩ := sendIfTriggered_unlimited eidMatch hd pacs hsize hrev ch.delta
    have hrep : Represents { pacs with
        paramsRevision := d.acsParamsRevision, acsDelay := delay, acsSize := 0 } S := h.congr rfl rfl rfl
    have hupdate : SameHead pacs { pacs with
        paramsRevision := d.acsParamsRevision, acsDelay := delay, acsSize := 0 } := ⟨rfl, rfl, rfl, rfl⟩
    have happly : ∃ pacs', applyAcsChanges { pacs with
        paramsRevision := d.acsParamsRevision, acsDelay := delay, acsSize := 0 } ch c = .ok pacs' ∧
        SameHead pacs pacs' ∧ Represents pacs' (insert c S) ∧ pacs'.pacsId = pacs.pacsId := by
      by_cases hempty : S = ∅
      · subst hempty
        obtain ⟨pacs', hok, hhead, -, hrep', hpacs⟩ := applyAcsChanges_empty hrep hp.op hid
        exact ⟨pacs', hok, hupdate.trans hhead, hrep', hpacs⟩
      · have hfew := hp.few
        obtain ⟨pacs', hok, hhead, -, hrep', hpacs⟩ :=
          applyAcsChanges_planned hrep hp hc hempty (by simp only; omega)
        exact ⟨pacs', hok, hupdate.trans hhead, hrep', hpacs⟩
    obtain ⟨pacs', hok, hhead, hrep', hpacs⟩ := happly
    obtain ⟨hsize', hrev'⟩ := applyAcsChanges_frame hok
    refine ⟨pacs', ?_, hrep', hhead, hpacs, hsize', hrev'⟩
    simp only [hdet, bind, Except.bind, hsend, hok, List.append_nil]
  · have hlen : u32OfInt (pacs.acsPayloadLength + delta) = m'.sum (·.sdnvLength) := by
      have := h.payload
      unfold u32OfInt
      omega
    obtain ⟨delay, hsend⟩ := sendIfTriggered_unlimited eidMatch hd
      { pacs with acsEntryMap := m', numCustodyIds := u32 (pacs.numCustodyIds + 1)
                  acsPayloadLength := u32OfInt (pacs.acsPayloadLength + delta) } hsize hrev 0
    refine ⟨{ pacs with
        acsEntryMap := m', numCustodyIds := u32 (pacs.numCustodyIds + 1)
        acsPayloadLength := u32OfInt (pacs.acsPayloadLength + delta)
        paramsRevision := d.acsParamsRevision, acsDelay := delay, acsSize := 0 }, ?_,
      ⟨hentries, hlen, ?_⟩, ⟨rfl, rfl, rfl, rfl⟩, rfl, rfl, rfl⟩
    · simp only [hdet, bind, Except.bind, hsend, applyAcsChanges_noop, List.append_nil]
    · rw [h.count, Finset.card_insert_of_notMem hc, u32_u32_add]

/-- Additions of numbered ids. -/
def additions (id : ℕ → ℕ) (n : ℕ) : List AcsEvent :=
  (List.range n).map fun i => .addBundleToAcs "ipn:1.0" true 0 (id i)

/-- The pending signal with no size limit. -/
structure Unlimited (d : BundleDaemonACS) (S : Finset ℕ) : Prop where
  limit : d.acsSize = 0 ∧ d.acsRouteParamsList = []
  posted : d.posted = []
  revision : d.acsParamsRevision = 1
  record : (S = ∅ ∧ d.pendingAcsMap = .empty ∧ d.nextPacsid = 0) ∨
    ∃ pacs, d.pendingAcsMap.find? (acsKey "ipn:1.0" true 0) = some pacs ∧ Represents pacs S ∧
      pacs.bpVersion = 6 ∧ pacs.custodyEid = "ipn:1.0" ∧ pacs.pacsId = 0 ∧ pacs.acsSize = 0 ∧
      pacs.paramsRevision = 1

theorem Unlimited.add (eidMatch : String → String → Bool) {d : BundleDaemonACS} (h : Unlimited d S)
    (hc : c ∉ S) (hid : 1 ≤ c ∧ c < 2 ^ 64)
    (hsmall : ∀ pacs, Represents pacs S → pacs.acsPayloadLength + 11 < 2 ^ 32) :
    ∃ d', acsStep eidMatch d (.addBundleToAcs "ipn:1.0" true 0 c) = .ok d' ∧
      Unlimited d' (insert c S) := by
  rw [acsStep, handleAddBundleToAcs, pendingFor]
  rcases h.record with ⟨rfl, hmap, hnext⟩ | ⟨pacs, hf, hrep, hversion, heid, hpacs, hsize, hrev⟩
  · have hf : d.pendingAcsMap.find? (acsKey "ipn:1.0" true 0) = none := by
      rw [hmap, OrdMap.find?_empty]
    rw [hf]
    have hrep : Represents { pacsId := d.nextPacsid, custodyEid := "ipn:1.0", succeeded := true
                             reason := (0 : UInt8).toNat, bpVersion := 6 } ∅ :=
      (represents_fresh "ipn:1.0" true 0).congr rfl rfl rfl
    obtain ⟨pacs', hok, hrep', hhead, hpacs, hsize, hrev⟩ := addCustodyId_unlimited eidMatch
      (d := { d with nextPacsid := u32 (d.nextPacsid + 1) }) (acsKey "ipn:1.0" true 0) h.limit rfl
      (Or.inr rfl) hrep hc hid (by norm_num)
    exact ⟨_, hok, h.limit, h.posted, h.revision, Or.inr ⟨pacs', by simp, hrep', hhead.bpVersion,
      hhead.custodyEid, hpacs.trans hnext, hsize, hrev.trans h.revision⟩⟩
  · rw [hf]
    obtain ⟨pacs', hok, hrep', hhead, hpacs', hsize', hrev'⟩ := addCustodyId_unlimited eidMatch
      (acsKey "ipn:1.0" true 0) h.limit hsize (Or.inl (hrev.trans h.revision.symm)) hrep hc hid
      (hsmall pacs hrep)
    exact ⟨_, hok, h.limit, h.posted, h.revision, Or.inr ⟨pacs', by simp, hrep',
      hhead.bpVersion.trans hversion, hhead.custodyEid.trans heid, hpacs'.trans hpacs, hsize',
      hrev'.trans h.revision⟩⟩

/-- A run of additions with no size limit. -/
theorem unlimited_run (eidMatch : String → String → Bool) {id : ℕ → ℕ} (hinj : id.Injective) {n : ℕ}
    (hid : ∀ i < n, 1 ≤ id i ∧ id i < 2 ^ 64)
    (hsmall : ∀ i < n, ∀ pacs, Represents pacs ((Finset.range i).image id) →
      pacs.acsPayloadLength + 11 < 2 ^ 32) :
    ∃ d, run (acsStep eidMatch) { acsSize := 0 } (additions id n) = .ok d ∧
      Unlimited d ((Finset.range n).image id) := by
  induction n with
  | zero => exact ⟨_, rfl, ⟨rfl, rfl⟩, rfl, rfl, Or.inl ⟨rfl, rfl, rfl⟩⟩
  | succ n ih =>
    obtain ⟨d, hrun, hd⟩ := ih (fun i hi => hid i (by omega)) fun i hi => hsmall i (by omega)
    have hnew : id n ∉ (Finset.range n).image id := by
      rw [Finset.mem_image]
      rintro ⟨i, hi, heq⟩
      rw [hinj heq] at hi
      exact Finset.notMem_range_self hi
    obtain ⟨d', hstep, hd'⟩ := hd.add eidMatch hnew (hid n (by omega)) (hsmall n (by omega))
    refine ⟨d', ?_, ?_⟩
    · rw [additions, List.range_succ, List.map_append, run_append]
      simp only [List.map_cons, List.map_nil]
      rw [← additions, hrun]
      simp only [Except.bind, run, hstep]
    · rw [Finset.range_add_one, Finset.image_insert]
      exact hd'

/-- Consecutive ids take one entry. -/
theorem Represents.payload_of_consecutive {n : ℕ} (h : Represents pacs ((Finset.range n).image (· + 1))) :
    pacs.acsPayloadLength ≤ 20 := by
  have hfirst : ∀ k e, pacs.acsEntryMap.find? k = some e → k = 1 := by
    intro k e hf
    obtain ⟨i, hi, rfl⟩ := Finset.mem_image.mp (h.entries.left_mem hf)
    by_contra hne
    have hprev : i ∈ (Finset.range n).image (· + 1) := by
      have := Finset.mem_range.mp hi
      exact Finset.mem_image.mpr ⟨i - 1, Finset.mem_range.mpr (by omega), by omega⟩
    have := h.entries.before_lt hf hprev (by omega)
    omega
  rw [h.payload]
  cases hf : pacs.acsEntryMap.find? 1 with
  | none =>
    have hempty : pacs.acsEntryMap = .empty := by
      ext1 k
      cases hk : pacs.acsEntryMap.find? k with
      | none => rfl
      | some e =>
        rw [hfirst k e hk, hf] at hk
        cases hk
    rw [hempty, OrdMap.sum_empty]
    omega
  | some e =>
    have hempty : pacs.acsEntryMap.erase 1 = .empty := by
      ext1 k
      rw [OrdMap.find?_erase, OrdMap.find?_empty]
      split_ifs with hk
      · rfl
      · cases hk' : pacs.acsEntryMap.find? k with
        | none => rfl
        | some e' => exact absurd (hfirst k e' hk') hk
    have hbound := h.entries.bound hf
    have h₁ := encodingLen_le_ten (show 1 - below ((Finset.range n).image (· + 1)) 1 < 2 ^ 64 by omega)
    have h₂ := encodingLen_le_ten (show e.lengthOfFill < 2 ^ 64 by omega)
    rw [OrdMap.sum_erase (·.sdnvLength) hf, hempty, OrdMap.sum_empty, h.entries.size hf]
    omega

theorem addedIds_additions (id : ℕ → ℕ) (n : ℕ) :
    addedIds (additions id n) = (Finset.range n).image id := by
  ext x
  simp [addedIds, additions, addedId]

/-- Without a size limit the count of the ids is zero after 2^32 of them, and the signal of 2^30 ids
with gaps between them is not built. -/
theorem acsStep_run_not_listsRuns :
    (∃ d, run (acsStep fun _ _ => false) { acsSize := 0 } (additions (· + 1) (2 ^ 32)) = .ok d ∧
      (addedIds (additions (· + 1) (2 ^ 32)) \ sentIds d.posted).card = 2 ^ 32 ∧
      (pendingAt d (acsKey "ipn:1.0" true 0)).numCustodyIds = 0) ∧
    run (acsStep fun _ _ => false) { acsSize := 0 }
      (additions (2 * · + 2) (2 ^ 30) ++ [.acsExpired (acsKey "ipn:1.0" true 0) 0]) =
        .error .panic := by
  constructor
  · obtain ⟨d, hrun, hd⟩ := unlimited_run (fun _ _ => false) (add_left_injective 1)
      (n := 2 ^ 32) (fun i hi => by omega) fun i _ pacs hrep => by
        have := hrep.payload_of_consecutive
        omega
    have hcard : ((Finset.range (2 ^ 32)).image (· + 1)).card = 2 ^ 32 := by
      rw [Finset.card_image_of_injective _ (add_left_injective 1), Finset.card_range]
    refine ⟨d, hrun, ?_, ?_⟩
    · rw [addedIds_additions, hd.posted, show sentIds [] = ∅ from rfl, Finset.sdiff_empty, hcard]
    · rcases hd.record with ⟨hempty, -⟩ | ⟨pacs, hf, hrep, -⟩
      · rw [hempty] at hcard
        cases hcard
      · rw [pendingAt, hf, Option.getD_some, hrep.count, hcard]
        unfold u32
        norm_num
  · have heven : ∀ i < 2 ^ 31, ∀ pacs, Represents pacs (evenIds i) → pacs.acsPayloadLength = 2 * i :=
      fun i hi pacs hrep => hrep.payload_unique (represents_evenAcs "ipn:1.0" (by omega))
    obtain ⟨d, hrun, hd⟩ : ∃ d, run (acsStep fun _ _ => false) { acsSize := 0 }
        (additions (2 * · + 2) (2 ^ 30)) = .ok d ∧ Unlimited d (evenIds (2 ^ 30)) :=
      unlimited_run (fun _ _ => false) (fun a b hab => by simpa using hab) (fun i hi => by omega)
        fun i hi pacs hrep => by
          rw [heven i (by omega) pacs hrep]
          omega
    rcases hd.record with ⟨hempty, -⟩ | ⟨pacs, hf, hrep, hversion, heid, hpacs, -⟩
    · have hcard := card_evenIds (2 ^ 30)
      rw [hempty] at hcard
      cases hcard
    · have hlen := heven (2 ^ 30) (by norm_num) pacs hrep
      rw [run_append, hrun]
      have hseven : ¬ pacs.bpVersion = 7 := by
        rw [hversion]
        decide
      simp only [Except.bind, run, acsStep, handleAcsExpired, hf, hpacs, generateAcs, if_neg hseven]
      rw [if_neg (by simp), if_neg (by omega),
        Represents.create_of_long (by rw [heid]; decide) (by omega) (by omega)]
      rfl

end Dtnme.Bundling
