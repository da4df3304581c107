import Dtnme.Bundling.Acs
import Dtnme.Library.Transition

/-! # Custody ids that are added again

A custody id that a run of the pending signal covers is found again only by the left edge of the
run. Any other one is taken for a new id, and is counted and entered once more.
-/

namespace Dtnme.Bundling
open Library

/-- Some run covers the id. -/
def PendingAcs.Covers (pacs : PendingAcs) (id : ℕ) : Prop :=
  ∃ k e, pacs.acsEntryMap.find? k = some e ∧ k ≤ id ∧ id < k + e.lengthOfFill

/-- Entries are under their left edges, and the count is a word. -/
structure PendingAcs.Keyed (pacs : PendingAcs) : Prop where
  keyed : ∀ k e, pacs.acsEntryMap.find? k = some e → e.leftEdge = k
  count : pacs.numCustodyIds < 2 ^ 32

structure SameEntries (pacs pacs' : PendingAcs) : Prop where
  map : pacs'.acsEntryMap = pacs.acsEntryMap
  payload : pacs'.acsPayloadLength = pacs.acsPayloadLength
  count : pacs'.numCustodyIds = pacs.numCustodyIds

section

variable {pacs pacs' : PendingAcs} {m : OrdMap ℕ AcsEntry} {ch : AcsChanges} {id : ℕ}

theorem SameEntries.keyed (h : SameEntries pacs pacs') (hk : pacs.Keyed) : pacs'.Keyed :=
  ⟨by rw [h.map]; exact hk.keyed, by rw [h.count]; exact hk.count⟩

/-! ## Each part of an addition -/

theorem lowerBound?_of_find? {e : AcsEntry} (h : m.find? id = some e) :
    m.lowerBound? id = some (id, e) := by
  cases hb : m.lowerBound? id with
  | none => exact absurd (OrdMap.lowerBound?_eq_none hb id le_rfl) (by simp [h])
  | some p =>
    obtain ⟨j, v⟩ := p
    obtain ⟨hj, hle, hfirst⟩ := OrdMap.lowerBound?_eq_some hb
    obtain hlt | rfl := hle.lt_or_eq
    · exact absurd (hfirst id le_rfl hlt) (by simp [h])
    · rw [h] at hj
      rw [Option.some.inj hj]

theorem fillGap_count {changes : AcsChanges} {key : ℕ} {entry : AcsEntry}
    (h : fillGap pacs id key entry = .ok (pacs', changes)) :
    pacs'.numCustodyIds = u32 (pacs.numCustodyIds + 1) ∧ changes = {} := by
  unfold fillGap at h
  cases hp : pacs.acsEntryMap.prev? key with
  | none => simp [hp] at h
  | some p =>
    simp only [hp] at h
    split_ifs at h
    cases h
    exact ⟨rfl, rfl⟩

/-- Only the left edge of a run is recognized. -/
theorem determineAcsChanges_new (hk : pacs.Keyed) (hcov : pacs.Covers id)
    (hnone : pacs.acsEntryMap.find? id = none) (h : determineAcsChanges pacs id = .ok (pacs', ch)) :
    (pacs'.numCustodyIds = u32 (pacs.numCustodyIds + 1) ∧ ch = {}) ∨
      (pacs' = pacs ∧ ch.aeOp ≠ .noop) := by
  unfold determineAcsChanges at h
  cases hb : pacs.acsEntryMap.lowerBound? id with
  | none =>
    rw [hb] at h
    cases h
    refine Or.inr ⟨rfl, ?_⟩
    unfold determineAtEnd
    cases pacs.acsEntryMap.last? with
    | none => simp
    | some p =>
      dsimp only
      split_ifs <;> simp
  | some p =>
    obtain ⟨key, entry⟩ := p
    obtain ⟨hf, -, -⟩ := OrdMap.lowerBound?_eq_some hb
    have hne : id ≠ entry.leftEdge := by
      rintro rfl
      rw [hk.keyed _ _ hf, hf] at hnone
      cases hnone
    simp only [hb, hne, if_false] at h
    split_ifs at h
    · exact Or.inl (fillGap_count h)
    · cases h
      exact Or.inr ⟨rfl, by simp [planPrepend]⟩
    · refine Or.inr ?_
      cases hplan : planExtend pacs id key entry with
      | error e => simp [hplan, Except.map] at h
      | ok changes =>
        simp only [hplan, Except.map, Except.ok.injEq, Prod.mk.injEq] at h
        obtain ⟨rfl, rfl⟩ := h
        refine ⟨rfl, ?_⟩
        unfold planExtend at hplan
        cases hprev : pacs.acsEntryMap.prev? key with
        | none => simp [hprev] at hplan
        | some q =>
          simp only [hprev] at hplan
          split_ifs at hplan
          cases hplan
          simp
    · cases h
      exact Or.inr ⟨rfl, by simp [planInsert]⟩

theorem getAcsParamsForEndpoint_entries (eidMatch : String → String → Bool) (d : BundleDaemonACS)
    (pacs : PendingAcs) : SameEntries pacs (getAcsParamsForEndpoint eidMatch d pacs).2 := by
  unfold getAcsParamsForEndpoint
  split_ifs
  · exact ⟨rfl, rfl, rfl⟩
  · cases bestMatch eidMatch pacs.custodyEid d.acsRouteParamsList with
    | none => exact ⟨rfl, rfl, rfl⟩
    | some => exact ⟨rfl, rfl, rfl⟩

/-- The pending signal goes out before the change is made: for its new size, or for a lowered delay. -/
def GoesOutFirst (eidMatch : String → String → Bool) (d : BundleDaemonACS) (pacs : PendingAcs)
    (delta : ℤ) : Prop :=
  triggers (getAcsParamsForEndpoint eidMatch d pacs).2 delta
    (getAcsParamsForEndpoint eidMatch d pacs).1 pacs.acsDelay = true

theorem sendIfTriggered_stays {eidMatch : String → String → Bool} {d : BundleDaemonACS} {delta : ℤ}
    (h : ¬ GoesOutFirst eidMatch d pacs delta) : ∃ updated,
      sendIfTriggered eidMatch d pacs delta = .ok ([], updated, d.nextPacsid) ∧
        SameEntries pacs updated :=
  ⟨_, by rw [sendIfTriggered]; exact if_neg h, getAcsParamsForEndpoint_entries eidMatch d pacs⟩

/-- What was taken for a new id is counted, or starts a pending signal. -/
theorem applyAcsChanges_new (hop : ch.aeOp ≠ .noop) (h : applyAcsChanges pacs ch id = .ok pacs') :
    (pacs.acsPayloadLength = 0 ∧ (pacs'.acsEntryMap.find? id).isSome) ∨
      (pacs.acsPayloadLength ≠ 0 ∧ pacs'.numCustodyIds = u32 (pacs.numCustodyIds + 1)) := by
  rw [applyAcsChanges, if_neg hop] at h
  split_ifs at h with hpay
  · cases h
    refine Or.inl ⟨hpay, ?_⟩
    dsimp only [addAcsEntry]
    split_ifs with hf
    · exact hf
    · simp
  · cases h
    exact Or.inr ⟨hpay, rfl⟩

/-! ## Entries are under their left edges -/

/-- What a run keeps, whatever the entries say. -/
def EntriesKeyed (m : OrdMap ℕ AcsEntry) : Prop := ∀ k e, m.find? k = some e → e.leftEdge = k

theorem EntriesKeyed.insert (h : EntriesKeyed m) {k : ℕ} {e : AcsEntry} (he : e.leftEdge = k) :
    EntriesKeyed (m.insert k e) := by
  intro j e' hf
  rw [OrdMap.find?_insert] at hf
  split at hf
  · cases hf
    omega
  · exact h j e' hf

theorem EntriesKeyed.erase (h : EntriesKeyed m) (k : ℕ) : EntriesKeyed (m.erase k) := by
  intro j e hf
  rw [OrdMap.find?_erase] at hf
  split at hf
  · cases hf
  · exact h j e hf

theorem EntriesKeyed.addAcsEntry (h : EntriesKeyed m) (leftEdge diff sdnvLen : ℕ) :
    EntriesKeyed (addAcsEntry m leftEdge diff sdnvLen) := by
  unfold Bundling.addAcsEntry
  split
  · exact h
  · exact h.insert rfl

theorem EntriesKeyed.updateEntry (h : EntriesKeyed m) (key : Option ℕ) {f : AcsEntry → AcsEntry}
    (hf : ∀ e, (f e).leftEdge = e.leftEdge) : EntriesKeyed (updateEntry m key f) := by
  unfold Bundling.updateEntry
  cases key with
  | none => exact h
  | some k =>
    cases hk : m.find? k with
    | none => simpa [hk] using h
    | some e =>
      simp only [hk]
      exact h.insert ((hf e).trans (h k e hk))

theorem EntriesKeyed.applyToMap (h : EntriesKeyed m) (ch : AcsChanges) (id : ℕ) :
    EntriesKeyed (applyToMap m ch id) := by
  have hnext {m' : OrdMap ℕ AcsEntry} (h' : EntriesKeyed m') : EntriesKeyed (updateNext m' ch) :=
    h'.updateEntry _ fun _ => rfl
  unfold Bundling.applyToMap
  cases ch.aeOp with
  | noop => exact h
  | insertFirstEntry | insertEntry | insertEntryAtEnd => exact hnext (h.addAcsEntry _ _ _)
  | extendEntry => exact hnext (h.updateEntry _ fun _ => rfl)
  | prependEntry =>
    simp only [prependEntry]
    cases ch.entry with
    | none => exact h
    | some k =>
      cases hk : m.find? k with
      | none => simpa [hk] using h
      | some e =>
        simp only [hk]
        exact (h.erase k).insert rfl

theorem u32_lt (n : ℕ) : u32 n < 2 ^ 32 := by
  unfold u32
  omega

theorem fillGap_keyed (hk : pacs.Keyed) {key : ℕ} {entry : AcsEntry}
    (h : fillGap pacs id key entry = .ok (pacs', ch)) : pacs'.Keyed := by
  unfold fillGap at h
  cases hp : pacs.acsEntryMap.prev? key with
  | none => simp [hp] at h
  | some p =>
    obtain ⟨j, prev⟩ := p
    have hprev := hk.keyed j prev (OrdMap.prev?_eq_some hp).1
    simp only [hp] at h
    split_ifs at h
    cases h
    refine ⟨EntriesKeyed.erase (EntriesKeyed.insert hk.keyed ?_) key, u32_lt _⟩
    exact hprev

/-- Only a filled gap changes the entries while the addition is planned. -/
theorem determineAcsChanges_keyed (hk : pacs.Keyed)
    (h : determineAcsChanges pacs id = .ok (pacs', ch)) : pacs'.Keyed := by
  unfold determineAcsChanges at h
  cases hb : pacs.acsEntryMap.lowerBound? id with
  | none =>
    rw [hb] at h
    cases h
    exact hk
  | some p =>
    simp only [hb] at h
    split_ifs at h
    · cases h
      exact hk
    · exact fillGap_keyed hk h
    · cases h
      exact hk
    · cases hplan : planExtend pacs id p.1 p.2 with
      | error e => simp [hplan, Except.map] at h
      | ok changes =>
        rw [hplan] at h
        cases h
        exact hk
    · cases h
      exact hk

/-- The pending signal that stays, or an empty one. -/
theorem generateAcs_keyed (hk : pacs.Keyed) {next next' : ℕ} {signals : List AcsSignal}
    (h : generateAcs pacs next = .ok (signals, pacs', next')) : pacs'.Keyed := by
  have hcleared (pacsId : ℕ) : (pacs.clear pacsId).Keyed :=
    ⟨by simp [PendingAcs.clear], by simp [PendingAcs.clear]⟩
  rw [generateAcs] at h
  split_ifs at h
  · cases h
    exact hk
  all_goals dsimp only at h
  · cases hc : createBibeCustodySignal pacs with
    | none =>
      rw [hc] at h
      cases h
      exact hk
    | some signal =>
      rw [hc] at h
      cases h
      exact hcleared _
  · cases hc : createAggregateCustodySignal pacs with
    | error e =>
      rw [hc] at h
      cases h
    | ok created =>
      rw [hc] at h
      cases created with
      | none =>
        cases h
        exact hk
      | some signal =>
        cases h
        exact hcleared _

theorem applyAcsChanges_keyed (hk : pacs.Keyed) (h : applyAcsChanges pacs ch id = .ok pacs') :
    pacs'.Keyed := by
  unfold applyAcsChanges at h
  split_ifs at h
  · cases h
    exact hk
  · cases h
    exact ⟨EntriesKeyed.addAcsEntry hk.keyed _ _ _, show 1 < 2 ^ 32 by decide⟩
  · cases h
    exact ⟨EntriesKeyed.applyToMap hk.keyed _ _, u32_lt _⟩

end

/-! ## Runs -/

section

variable {eidMatch : String → String → Bool} {d d' : BundleDaemonACS} {key : String}
  {pacs : PendingAcs} {id : ℕ}

/-- An addition is planned, sent if need be, and carried out. -/
theorem addCustodyId_ok (h : addCustodyId eidMatch d key pacs id = .ok d') :
    ∃ planned ch signals sent next result,
      determineAcsChanges pacs id = .ok (planned, ch) ∧
      sendIfTriggered eidMatch d planned ch.delta = .ok (signals, sent, next) ∧
      applyAcsChanges sent ch id = .ok result ∧
      d'.pendingAcsMap = d.pendingAcsMap.insert key result := by
  unfold addCustodyId at h
  cases hplan : determineAcsChanges pacs id with
  | error e => simp [hplan, bind, Except.bind] at h
  | ok planned =>
    obtain ⟨planned, ch⟩ := planned
    simp only [hplan, bind, Except.bind] at h
    cases hsend : sendIfTriggered eidMatch d planned ch.delta with
    | error e => simp [hsend] at h
    | ok sent =>
      obtain ⟨signals, sent, next⟩ := sent
      simp only [hsend] at h
      cases happly : applyAcsChanges sent ch id with
      | error e => simp [happly] at h
      | ok result =>
        simp only [happly, Except.ok.injEq] at h
        subst h
        exact ⟨planned, ch, signals, sent, next, result, rfl, hsend, happly, rfl⟩

/-- All pending signals are keyed. -/
def AllKeyed (d : BundleDaemonACS) : Prop :=
  ∀ key pacs, d.pendingAcsMap.find? key = some pacs → pacs.Keyed

theorem AllKeyed.insert (h : AllKeyed d) (hp : pacs.Keyed)
    (hmap : d'.pendingAcsMap = d.pendingAcsMap.insert key pacs) : AllKeyed d' := by
  intro key' pacs' hf
  rw [hmap, OrdMap.find?_insert] at hf
  split at hf
  · cases hf
    exact hp
  · exact h key' pacs' hf

theorem addCustodyId_keyed (h : AllKeyed d) (hp : pacs.Keyed)
    (hadd : addCustodyId eidMatch d key pacs id = .ok d') : AllKeyed d' := by
  obtain ⟨planned, ch, signals, sent, next, result, hplan, hsend, happly, hmap⟩ :=
    addCustodyId_ok hadd
  have hplanned := determineAcsChanges_keyed hp hplan
  have hparams := (getAcsParamsForEndpoint_entries eidMatch d planned).keyed hplanned
  have hsent : sent.Keyed := by
    simp only [sendIfTriggered] at hsend
    split_ifs at hsend
    · exact generateAcs_keyed hparams hsend
    · cases hsend
      exact hparams
  exact h.insert (applyAcsChanges_keyed hsent happly) hmap

theorem pendingFor_keyed (h : AllKeyed d) (key : String) (fresh : PendingAcs)
    (hfresh : fresh.Keyed) :
    AllKeyed (pendingFor d key fresh).1 ∧ (pendingFor d key fresh).2.Keyed := by
  unfold pendingFor
  cases hf : d.pendingAcsMap.find? key with
  | none => exact ⟨h, hfresh.keyed, hfresh.count⟩
  | some pacs => exact ⟨h, h key pacs hf⟩

theorem acsStep_keyed {e : AcsEvent} (h : AllKeyed d) (hstep : acsStep eidMatch d e = .ok d') :
    AllKeyed d' := by
  cases e with
  | addBundleToAcs custodyEid succeeded reason custodyId =>
    have hpending := pendingFor_keyed h (acsKey custodyEid succeeded reason)
      { custodyEid, succeeded, reason := reason.toNat, bpVersion := 6 } ⟨by simp, by simp⟩
    exact addCustodyId_keyed hpending.1 hpending.2 hstep
  | addBibeBundleToAcs bpVersion custodyEid success reason transmissionId =>
    have hpending := pendingFor_keyed h (acsKey custodyEid success reason)
      { succeeded := success, reason := reason.toNat, bpVersion } ⟨by simp, by simp⟩
    exact addCustodyId_keyed hpending.1 hpending.2 hstep
  | acsExpired key pacsId =>
    simp only [acsStep, handleAcsExpired] at hstep
    cases hf : d.pendingAcsMap.find? key with
    | none =>
      simp only [hf] at hstep
      cases hstep
      exact h
    | some pacs =>
      simp only [hf] at hstep
      split_ifs at hstep
      · cases hstep
        exact h
      · cases hgen : generateAcs pacs d.nextPacsid with
        | error e => simp [hgen, Except.map] at hstep
        | ok sent =>
          obtain ⟨signals, sent, next⟩ := sent
          rw [hgen] at hstep
          cases hstep
          exact h.insert (generateAcs_keyed (h key pacs hf) hgen) rfl
  | setRouteAcsParams | deleteRouteAcsParams | setDefaultParams =>
    cases hstep
    exact h

theorem acsStep_run_keyed {d₀ : BundleDaemonACS} {events : List AcsEvent}
    (hstart : d₀.pendingAcsMap = .empty) (hrun : run (acsStep eidMatch) d₀ events = .ok d) :
    AllKeyed d := by
  refine run_ok_invariant (fun d _ => AllKeyed d) (fun _ _ _ _ _ h => acsStep_keyed h) ?_ hrun
  intro key pacs hf
  simp [hstart] at hf

/-- The entries of the pending signal of a key, its length and its count stay as they are. -/
def Unchanged (d d' : BundleDaemonACS) (key : String) : Prop :=
  ∃ pacs pacs', d.pendingAcsMap.find? key = some pacs ∧ d'.pendingAcsMap.find? key = some pacs' ∧
    SameEntries pacs pacs'

/-- A covered id changes nothing if it is a left edge, and only then. -/
theorem addCustodyId_unchanged_iff (hp : pacs.Keyed) (hf : d.pendingAcsMap.find? key = some pacs)
    (hcov : pacs.Covers id)
    (hstays : ∀ planned ch, determineAcsChanges pacs id = .ok (planned, ch) →
      ¬ GoesOutFirst eidMatch d planned ch.delta) :
    (∃ d', addCustodyId eidMatch d key pacs id = .ok d' ∧ Unchanged d d' key) ↔
      (pacs.acsEntryMap.find? id).isSome := by
  constructor
  · rintro ⟨d', hadd, pacs₀, pacs', hf₀, hf', hsame⟩
    obtain ⟨planned, ch, signals, sent, next, result, hplan, hsend, happly, hmap⟩ :=
      addCustodyId_ok hadd
    obtain ⟨updated, hupdated, hentries⟩ := sendIfTriggered_stays (hstays planned ch hplan)
    rw [hmap, OrdMap.find?_insert, if_pos rfl] at hf'
    rw [hf] at hf₀
    cases hf₀
    cases hf'
    cases hsend.symm.trans hupdated
    by_contra hnew
    have hnone := Option.not_isSome_iff_eq_none.mp hnew
    have hcount := hsame.count
    have hword := hp.count
    obtain ⟨hincr, rfl⟩ | ⟨rfl, hop⟩ := determineAcsChanges_new hp hcov hnone hplan
    · cases happly
      have hstill := hentries.count
      unfold u32 at hincr
      omega
    · obtain ⟨-, hfound⟩ | ⟨-, hincr⟩ := applyAcsChanges_new hop happly
      · rw [hsame.map] at hfound
        exact hnew hfound
      · rw [hentries.count] at hincr
        unfold u32 at hincr
        omega
  · intro hfound
    obtain ⟨e, he⟩ := Option.isSome_iff_exists.mp hfound
    have hplan : determineAcsChanges pacs id = .ok (pacs, {}) := by
      rw [determineAcsChanges, lowerBound?_of_find? he]
      simp [hp.keyed id e he]
    obtain ⟨updated, hsend, hentries⟩ := sendIfTriggered_stays (hstays pacs {} hplan)
    refine ⟨{ d with pendingAcsMap := d.pendingAcsMap.insert key updated, posted := d.posted ++ [] },
      ?_, pacs, updated, hf, ?_, hentries⟩
    · simp only [addCustodyId, hplan, hsend, bind, Except.bind, applyAcsChanges, if_true]
    · simp

/-- In every reachable state a covered id that is added again, and before which nothing goes out,
changes nothing exactly if it is the left edge of a run. -/
theorem handleAddBundleToAcs_again_iff (eidMatch : String → String → Bool) (d₀ d : BundleDaemonACS)
    (events : List AcsEvent) (hstart : d₀.pendingAcsMap = .empty)
    (hrun : run (acsStep eidMatch) d₀ events = .ok d) (custodyEid : String) (succeeded : Bool)
    (reason : UInt8) (id : ℕ) (pacs : PendingAcs)
    (hf : d.pendingAcsMap.find? (acsKey custodyEid succeeded reason) = some pacs)
    (hcov : pacs.Covers id)
    (hstays : ∀ planned ch, determineAcsChanges pacs id = .ok (planned, ch) →
      ¬ GoesOutFirst eidMatch d planned ch.delta) :
    (∃ d', handleAddBundleToAcs eidMatch d custodyEid succeeded reason id = .ok d' ∧
        Unchanged d d' (acsKey custodyEid succeeded reason)) ↔
      (pacs.acsEntryMap.find? id).isSome := by
  have hkeyed := acsStep_run_keyed hstart hrun _ pacs hf
  rw [handleAddBundleToAcs, pendingFor, hf]
  exact addCustodyId_unchanged_iff hkeyed hf hcov hstays

/-- Two custody ids of one run. -/
def addedTwice : List AcsEvent :=
  [.addBundleToAcs "ipn:1.0" true 0 5, .addBundleToAcs "ipn:1.0" true 0 6]

theorem handleAddBundleToAcs_again_left :
    ∃ d pacs, run (acsStep fun _ _ => false) {} addedTwice = .ok d ∧
      d.pendingAcsMap.find? (acsKey "ipn:1.0" true 0) = some pacs ∧ pacs.Covers 5 ∧
      ((∃ d', handleAddBundleToAcs (fun _ _ => false) d "ipn:1.0" true 0 5 = .ok d' ∧
          Unchanged d d' (acsKey "ipn:1.0" true 0)) ↔ (pacs.acsEntryMap.find? 5).isSome) := by
  obtain ⟨d, hrun, hfill, hstays⟩ : ∃ d, run (acsStep fun _ _ => false) {} addedTwice = .ok d ∧
      ((d.pendingAcsMap.find? (acsKey "ipn:1.0" true 0)).bind fun pacs =>
        (pacs.acsEntryMap.find? 5).map (·.lengthOfFill)) = some 2 ∧
      (d.pendingAcsMap.find? (acsKey "ipn:1.0" true 0)).all (fun pacs =>
        (determineAcsChanges pacs 5).toOption.all fun planned =>
          !triggers (getAcsParamsForEndpoint (fun _ _ => false) d planned.1).2 planned.2.delta
            (getAcsParamsForEndpoint (fun _ _ => false) d planned.1).1 planned.1.acsDelay) = true := by
    decide +kernel
  cases hf : d.pendingAcsMap.find? (acsKey "ipn:1.0" true 0) with
  | none => simp [hf] at hfill
  | some pacs =>
    simp only [hf, Option.bind_some, Option.map_eq_some_iff] at hfill
    obtain ⟨e, he, hlen⟩ := hfill
    have hcov : pacs.Covers 5 := ⟨5, e, he, le_rfl, by omega⟩
    refine ⟨d, pacs, hrun, hf, hcov, ?_⟩
    refine handleAddBundleToAcs_again_iff _ {} d addedTwice rfl hrun "ipn:1.0" true 0 5 pacs hf hcov ?_
    intro planned ch hplan
    simpa [hf, hplan, Except.toOption, GoesOutFirst] using hstays

/-- The right edge of the run is counted again, and entered. -/
theorem handleAddBundleToAcs_again_right :
    ∃ d, run (acsStep fun _ _ => false) {} addedTwice = .ok d ∧
      ((d.pendingAcsMap.find? (acsKey "ipn:1.0" true 0)).map fun pacs =>
        (fillsOf pacs.acsEntryMap, pacs.acsPayloadLength, pacs.numCustodyIds)) =
          some ([(5, 2)], 2, 2) ∧
      ∃ d', handleAddBundleToAcs (fun _ _ => false) d "ipn:1.0" true 0 6 = .ok d' ∧
        d'.posted = d.posted ∧
        ((d'.pendingAcsMap.find? (acsKey "ipn:1.0" true 0)).map fun pacs =>
          (fillsOf pacs.acsEntryMap, pacs.acsPayloadLength, pacs.numCustodyIds)) =
            some ([(5, 2), (6, 1)], 4, 3) := by
  decide +kernel

end

end Dtnme.Bundling
