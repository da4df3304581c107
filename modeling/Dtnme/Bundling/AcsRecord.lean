import Dtnme.Bundling.AcsSignal

/-! # One event on one pending signal

A pending signal stands for a set of custody ids. An addition puts its id into the set. A
signal that goes out takes the ids of the set with it, all of them or all but the new one,
and leaves the rest to a pending signal under the next `pacs_id`.
-/

namespace Dtnme.Bundling
open Library

/-! ## The ids of a signal -/

/-- The ids of fills. -/
def fillIds (fills : List (ℕ × ℕ)) : Finset ℕ :=
  fills.toFinset.biUnion (fun fill => Finset.Ico fill.1 (fill.1 + fill.2))

/-- The ids that a receiver of the signal reads in it. -/
def AcsSignal.ids (signal : AcsSignal) : Finset ℕ :=
  match parseAggregateCustodySignal signal.payload with
  | none => ∅
  | some data => fillIds data.entries.values

variable {pacs : PendingAcs} {S : Finset ℕ} {c : ℕ}

theorem mem_fillIds {fills : List (ℕ × ℕ)} {x : ℕ} :
    x ∈ fillIds fills ↔ ∃ fill ∈ fills, fill.1 ≤ x ∧ x < fill.1 + fill.2 := by
  simp only [fillIds, Finset.mem_biUnion, List.mem_toFinset, Finset.mem_Ico]

theorem EntriesOf.fillIds_fillsOf {m : OrdMap ℕ AcsEntry} (h : EntriesOf m S) :
    fillIds (fillsOf m) = S := by
  ext x
  rw [mem_fillIds]
  constructor
  · rintro ⟨fill, hfill, hlow, hhigh⟩
    simp only [fillsOf, OrdMap.values, List.map_map, List.mem_map, Function.comp] at hfill
    obtain ⟨⟨k, e⟩, he, rfl⟩ := hfill
    have hf := OrdMap.find?_eq_some_iff.mpr he
    rw [h.keyed hf] at hlow hhigh
    exact h.mem hf hlow hhigh
  · intro hx
    obtain ⟨k, e, hf, hlow, hhigh⟩ := h.covered hx
    refine ⟨(e.leftEdge, e.lengthOfFill), ?_, ?_⟩
    · simp only [fillsOf, OrdMap.values, List.map_map, List.mem_map, Function.comp]
      exact ⟨(k, e), OrdMap.find?_eq_some_iff.mp hf, rfl⟩
    · rw [h.keyed hf]
      exact ⟨hlow, hhigh⟩

/-- The set determines the entries. -/
theorem EntriesOf.unique {m m' : OrdMap ℕ AcsEntry} (h : EntriesOf m S) (h' : EntriesOf m' S) :
    m = m' := by
  have hle : ∀ {m m' : OrdMap ℕ AcsEntry}, EntriesOf m S → EntriesOf m' S → ∀ k e,
      m.find? k = some e → m'.find? k = some e := by
    intro m m' h h' k e hf
    have hrun := h.blocks.isRun_iff.mp (h.rightEdges_eq hf)
    obtain ⟨e', hf', -⟩ := Option.map_eq_some_iff.mp (h'.blocks.isRun_iff.mpr hrun)
    have hedge := (h'.rightEdges_eq hf').symm.trans (h'.blocks.isRun_iff.mpr hrun)
    obtain ⟨he, hlen⟩ := h.entry hf
    obtain ⟨he', hlen'⟩ := h'.entry hf'
    rw [Option.some.injEq] at hedge
    rw [hf', he, he', show e'.lengthOfFill = e.lengthOfFill by omega]
  ext1 k
  apply Option.ext
  intro e
  exact ⟨hle h h' k e, hle h' h k e⟩

/-- A receiver reads the ids of the pending signal. -/
theorem Represents.signalOf_ids (h : Represents pacs S) (hne : S.Nonempty) :
    (signalOf pacs).ids = S := by
  obtain ⟨m, hparse, hvalues⟩ := h.parse_payload hne
  rw [AcsSignal.ids, signalOf, hparse]
  simp only
  rw [hvalues, h.entries.fillIds_fillsOf]

/-! ## Empty and not empty -/

namespace Represents

/-- No bytes, no ids. -/
theorem payload_eq_zero_iff (h : Represents pacs S) : pacs.acsPayloadLength = 0 ↔ S = ∅ := by
  rw [h.payload]
  constructor
  · intro hzero
    by_contra hne
    obtain ⟨x, hx⟩ := Finset.nonempty_of_ne_empty hne
    obtain ⟨k, e, hf, -⟩ := h.entries.covered hx
    have hsum := OrdMap.sum_erase (·.sdnvLength) hf
    have hsize := h.entries.size hf
    have hpos := encodingLen_pos e.lengthOfFill
    omega
  · rintro rfl
    have hnone : ∀ k, pacs.acsEntryMap.find? k = OrdMap.empty.find? k := by
      intro k
      cases hf : pacs.acsEntryMap.find? k with
      | none => rfl
      | some e => exact absurd (h.entries.left_mem hf) (by simp)
    rw [OrdMap.ext hnone, OrdMap.sum_empty]

theorem map_of_empty (h : Represents pacs ∅) : pacs.acsEntryMap = .empty := by
  ext1 k
  cases hf : pacs.acsEntryMap.find? k with
  | none => rfl
  | some e => exact absurd (h.entries.left_mem hf) (by simp)

theorem clear (pacs : PendingAcs) (pacsId : ℕ) : Represents (pacs.clear pacsId) ∅ :=
  ⟨EntriesOf.empty, rfl, (u32_of_lt (show 0 < 2 ^ 32 by norm_num)).symm⟩

theorem payload_unique {pacs' : PendingAcs} (h : Represents pacs S) (h' : Represents pacs' S) :
    pacs.acsPayloadLength = pacs'.acsPayloadLength := by
  rw [h.payload, h'.payload, h.entries.unique h'.entries]

/-- New parameters do not touch the ids. -/
theorem congr {pacs' : PendingAcs} (h : Represents pacs S) (hmap : pacs'.acsEntryMap = pacs.acsEntryMap)
    (hlen : pacs'.acsPayloadLength = pacs.acsPayloadLength)
    (hnum : pacs'.numCustodyIds = pacs.numCustodyIds) : Represents pacs' S :=
  ⟨hmap ▸ h.entries, by rw [hlen, hmap]; exact h.payload, hnum.trans h.count⟩

end Represents

/-! ## Generation -/

/-- What an event leaves of a pending signal: its head, and room for the signal to be built. -/
structure SameHead (pacs pacs' : PendingAcs) : Prop where
  custodyEid : pacs'.custodyEid = pacs.custodyEid
  succeeded : pacs'.succeeded = pacs.succeeded
  reason : pacs'.reason = pacs.reason
  bpVersion : pacs'.bpVersion = pacs.bpVersion

theorem SameHead.trans {pacs₁ pacs₂ : PendingAcs} (h : SameHead pacs pacs₁) (h' : SameHead pacs₁ pacs₂) :
    SameHead pacs pacs₂ :=
  ⟨h'.custodyEid.trans h.custodyEid, h'.succeeded.trans h.succeeded, h'.reason.trans h.reason,
    h'.bpVersion.trans h.bpVersion⟩

/-- The signal fits the `int` that holds its length. -/
def Fits (pacs : PendingAcs) : Prop := pacs.acsPayloadLength + 2 < 2 ^ 31

/-- Nothing goes out, except bundles without destination for a null custodian. -/
def Unsent (pacs : PendingAcs) (signals : List AcsSignal) : Prop :=
  ∀ s ∈ signals, pacs.custodyEid = nullEid ∧ s.dest = none ∧ s.ids = ∅

/-- A signal to the custodian with some of the ids. -/
structure SignalFor (pacs : PendingAcs) (ids : Finset ℕ) (s : AcsSignal) : Prop where
  dest : s.dest = some pacs.custodyEid
  custodian : pacs.custodyEid ≠ nullEid
  parsed : ∃ data, parseAggregateCustodySignal s.payload = some data ∧
    data.succeeded = pacs.succeeded ∧ data.reason = pacs.reason % 2 ^ 7
  ids_eq : s.ids = ids
  nonempty : ids.Nonempty

/-- All ids stay, or one signal takes them except for some of the new ones. -/
structure Settles (next : ℕ) (pacs : PendingAcs) (all new : Finset ℕ) (signals : List AcsSignal)
    (pacs' : PendingAcs) (next' : ℕ) : Prop where
  head : SameHead pacs pacs'
  fits : Fits pacs'
  split : (Unsent pacs signals ∧ Represents pacs' all ∧ pacs'.pacsId = pacs.pacsId ∧ next' = next) ∨
    (∃ sent kept s, signals = [s] ∧ SignalFor pacs sent s ∧ sent ∪ kept = all ∧ Disjoint sent kept ∧
      kept ⊆ new ∧ Represents pacs' kept ∧ pacs'.pacsId = next ∧ next' = u32 (next + 1))

theorem Represents.signalFor (h : Represents pacs S) (hne : S.Nonempty)
    (heid : pacs.custodyEid ≠ nullEid) : SignalFor pacs S (signalOf pacs) := by
  obtain ⟨m, hparse, -⟩ := h.parse_payload hne
  exact ⟨rfl, heid, ⟨_, hparse, rfl, rfl⟩, h.signalOf_ids hne, hne⟩

/-- `generate_acs` on a pending signal of BPv6. -/
theorem generateAcs_settles (h : Represents pacs S) (hversion : pacs.bpVersion = 6)
    (hfits : Fits pacs) (next : ℕ) :
    ∃ signals pacs' next', generateAcs pacs next = .ok (signals, pacs', next') ∧
      Settles next pacs S ∅ signals pacs' next' := by
  have hseven : ¬ pacs.bpVersion = 7 := by
    rw [hversion]
    decide
  by_cases hempty : S = ∅
  · refine ⟨[], pacs, next, ?_, ⟨rfl, rfl, rfl, rfl⟩, hfits, Or.inl ⟨by simp [Unsent], h, rfl, rfl⟩⟩
    rw [generateAcs, if_pos (h.payload_eq_zero_iff.mpr hempty)]
  · have hne := Finset.nonempty_of_ne_empty hempty
    rw [generateAcs, if_neg (mt h.payload_eq_zero_iff.mp hempty)]
    simp only [if_neg hseven]
    by_cases heid : pacs.custodyEid = nullEid
    · refine ⟨[{ bpVersion := 6, succeeded := pacs.succeeded, reason := pacs.reason }], pacs, next, ?_,
        ⟨rfl, rfl, rfl, rfl⟩, hfits, Or.inl ⟨?_, h, rfl, rfl⟩⟩
      · rw [createAggregateCustodySignal, if_pos heid]
        rfl
      · intro s hs
        rw [List.mem_singleton] at hs
        rw [hs]
        exact ⟨heid, rfl, rfl⟩
    · refine ⟨[signalOf pacs], pacs.clear next, u32 (next + 1), ?_, ⟨rfl, rfl, rfl, rfl⟩, ?_, Or.inr ⟨S, ∅, signalOf pacs, rfl,
        h.signalFor hne heid, by simp, by simp, by simp, Represents.clear pacs next, rfl, rfl⟩⟩
      · rw [h.create_eq heid hfits]
        rfl
      · simp [Fits, PendingAcs.clear]

/-! ## Addition -/

/-- An empty pending signal starts over with the id. -/
theorem applyAcsChanges_empty (h : Represents pacs ∅) {ch : AcsChanges} (hop : ch.aeOp ≠ .noop)
    (hid : 1 ≤ c ∧ c < 2 ^ 64) :
    ∃ pacs', applyAcsChanges pacs ch c = .ok pacs' ∧ SameHead pacs pacs' ∧ Fits pacs' ∧
      Represents pacs' {c} ∧ pacs'.pacsId = pacs.pacsId := by
  have hmap := h.map_of_empty
  have hzero := h.payload_eq_zero_iff.mpr rfl
  have hentry : entryAt (insert c ∅) c 1 = ⟨c, c, 1, encodingLen c + 1⟩ := by
    rw [entryAt_one, below_eq (r := 0) (by simp) (Or.inl rfl), Nat.sub_zero]
  have hentries := EntriesOf.empty.insertAtEnd hid (by simp)
  rw [hentry, insert_empty_eq] at hentries
  refine ⟨{ pacs with
      acsEntryMap := OrdMap.empty.insert c ⟨c, c, 1, encodingLen c + 1⟩
      acsPayloadLength := encodingLen c + 1, numCustodyIds := 1 }, ?_, ⟨rfl, rfl, rfl, rfl⟩, ?_,
    ⟨hentries, ?_, ?_⟩, rfl⟩
  · rw [applyAcsChanges, if_neg hop, if_pos hzero, hmap, if_neg (by simp [OrdMap.size, OrdMap.empty])]
    rfl
  · have := encodingLen_le_ten hid.2
    simp only [Fits]
    omega
  · rw [OrdMap.sum_insert _ (by simp), OrdMap.sum_empty, Nat.add_zero]
  · rw [Finset.card_singleton, u32_of_lt (by norm_num)]

/-- A plan is carried out on a pending signal that is not empty. -/
theorem applyAcsChanges_planned (h : Represents pacs S) {ch : AcsChanges}
    (hp : Planned pacs.acsEntryMap S c ch) (hc : c ∉ S) (hne : S ≠ ∅)
    (hroom : pacs.acsPayloadLength + ch.delta < 2 ^ 32) :
    ∃ pacs', applyAcsChanges pacs ch c = .ok pacs' ∧ SameHead pacs pacs' ∧
      pacs'.acsPayloadLength = pacs.acsPayloadLength + ch.delta ∧
      Represents pacs' (insert c S) ∧ pacs'.pacsId = pacs.pacsId := by
  have hsize := hp.size
  rw [← h.payload] at hsize
  have hlen : u32OfInt (pacs.acsPayloadLength + ch.delta) =
      (applyToMap pacs.acsEntryMap ch c).sum (·.sdnvLength) := by
    unfold u32OfInt
    omega
  refine ⟨{ pacs with
      acsEntryMap := applyToMap pacs.acsEntryMap ch c
      numCustodyIds := u32 (pacs.numCustodyIds + 1)
      acsPayloadLength := u32OfInt (pacs.acsPayloadLength + ch.delta) }, ?_,
    ⟨rfl, rfl, rfl, rfl⟩, ?_, ⟨hp.entries, hlen, ?_⟩, rfl⟩
  · rw [applyAcsChanges, if_neg hp.op, if_neg (mt h.payload_eq_zero_iff.mp hne)]
  · simp only
    rw [hlen, hsize]
  · rw [h.count, Finset.card_insert_of_notMem hc, u32_u32_add]

/-- The length that the pending signal would have with one more id. -/
def newLength (pacs : PendingAcs) (c : ℕ) : ℤ :=
  match determineAcsChanges pacs c with
  | .ok (pacs, changes) => pacs.acsPayloadLength + changes.delta
  | .error _ => 0

theorem getAcsParamsForEndpoint_keeps (eidMatch : String → String → Bool) (d : BundleDaemonACS)
    (pacs : PendingAcs) :
    (getAcsParamsForEndpoint eidMatch d pacs).2.acsEntryMap = pacs.acsEntryMap ∧
      (getAcsParamsForEndpoint eidMatch d pacs).2.acsPayloadLength = pacs.acsPayloadLength ∧
      (getAcsParamsForEndpoint eidMatch d pacs).2.numCustodyIds = pacs.numCustodyIds ∧
      (getAcsParamsForEndpoint eidMatch d pacs).2.pacsId = pacs.pacsId ∧
      SameHead pacs (getAcsParamsForEndpoint eidMatch d pacs).2 := by
  unfold getAcsParamsForEndpoint
  split_ifs
  · exact ⟨rfl, rfl, rfl, rfl, rfl, rfl, rfl, rfl⟩
  · split
    · exact ⟨rfl, rfl, rfl, rfl, rfl, rfl, rfl, rfl⟩
    · exact ⟨rfl, rfl, rfl, rfl, rfl, rfl, rfl, rfl⟩

/-- An empty plan is carried out by doing nothing. -/
theorem applyAcsChanges_noop (pacs : PendingAcs) (c : ℕ) : applyAcsChanges pacs {} c = .ok pacs := by
  rw [applyAcsChanges, if_pos rfl]

namespace Settles

variable {pacs₁ pacs₂ : PendingAcs} {next next' : ℕ} {all new : Finset ℕ} {signals : List AcsSignal}

/-- Only the head and the `pacs_id` of the pending signal before matter. -/
theorem of_head (h : Settles next pacs₁ all new signals pacs₂ next') (hhead : SameHead pacs pacs₁)
    (hpacs : pacs₁.pacsId = pacs.pacsId) : Settles next pacs all new signals pacs₂ next' := by
  obtain ⟨heid, hsucc, hreason, hversion⟩ := hhead
  refine ⟨⟨h.head.custodyEid.trans heid, h.head.succeeded.trans hsucc, h.head.reason.trans hreason,
    h.head.bpVersion.trans hversion⟩, h.fits, ?_⟩
  rcases h.split with ⟨hun, hrep, hid, hnext⟩ | ⟨sent, kept, s, hs, hfor, hrest⟩
  · exact Or.inl ⟨fun s hs => heid ▸ hun s hs, hrep, hid.trans hpacs, hnext⟩
  · obtain ⟨hdest, hcust, hparsed, hids, hne⟩ := hfor
    rw [heid] at hdest hcust
    rw [hsucc, hreason] at hparsed
    exact Or.inr ⟨sent, kept, s, hs, ⟨hdest, hcust, hparsed, hids, hne⟩, hrest⟩

theorem mono {new' : Finset ℕ} (h : Settles next pacs₁ all new signals pacs₂ next')
    (hnew : new ⊆ new') : Settles next pacs₁ all new' signals pacs₂ next' := by
  refine ⟨h.head, h.fits, h.split.imp id ?_⟩
  rintro ⟨sent, kept, s, hs, hfor, hall, hdisj, hkept, hrest⟩
  exact ⟨sent, kept, s, hs, hfor, hall, hdisj, hkept.trans hnew, hrest⟩

/-- The id that was planned for joins what is left. -/
theorem apply_planned {ch : AcsChanges} (h : Settles next pacs₁ S ∅ signals pacs₂ next')
    (hrep : Represents pacs₁ S) (hp : Planned pacs₁.acsEntryMap S c ch) (hc : c ∉ S)
    (hid : 1 ≤ c ∧ c < 2 ^ 64) (hroom : pacs₁.acsPayloadLength + ch.delta + 2 < 2 ^ 31) :
    ∃ pacs', applyAcsChanges pacs₂ ch c = .ok pacs' ∧
      Settles next pacs₁ (insert c S) {c} signals pacs' next' := by
  rcases h.split with ⟨hun, hrep₂, hpacs, hnext⟩ | ⟨sent, kept, s, hs, hfor, hall, hdisj, hkept,
    hrep₂, hpacs, hnext⟩
  · have happly : ∃ pacs', applyAcsChanges pacs₂ ch c = .ok pacs' ∧ SameHead pacs₂ pacs' ∧
        Fits pacs' ∧ Represents pacs' (insert c S) ∧ pacs'.pacsId = pacs₂.pacsId := by
      by_cases hempty : S = ∅
      · subst hempty
        simpa using applyAcsChanges_empty hrep₂ hp.op hid
      · rw [hrep.entries.unique hrep₂.entries] at hp
        rw [hrep.payload_unique hrep₂] at hroom
        obtain ⟨pacs', hok, hhead, hnew, hrest⟩ :=
          applyAcsChanges_planned hrep₂ hp hc hempty (by omega)
        refine ⟨pacs', hok, hhead, ?_, hrest⟩
        unfold Fits
        omega
    obtain ⟨pacs', hok, hhead, hfits, hrep', hpacs'⟩ := happly
    exact ⟨pacs', hok, h.head.trans hhead, hfits, Or.inl ⟨hun, hrep', hpacs'.trans hpacs, hnext⟩⟩
  · obtain rfl := Finset.subset_empty.mp hkept
    rw [Finset.union_empty] at hall
    subst hall
    obtain ⟨pacs', hok, hhead, hfits, hrep', hpacs'⟩ := applyAcsChanges_empty hrep₂ hp.op hid
    refine ⟨pacs', hok, h.head.trans hhead, hfits, Or.inr ⟨sent, {c}, s, hs, hfor, ?_, ?_,
      subset_rfl, hrep', hpacs'.trans hpacs, hnext⟩⟩
    · rw [Finset.union_comm, Finset.insert_eq]
    · rwa [Finset.disjoint_singleton_right]

end Settles

/-- The pending signal is sent first if its size or its delay says so. -/
theorem sendIfTriggered_settles (eidMatch : String → String → Bool) (d : BundleDaemonACS)
    (h : Represents pacs S) (hversion : pacs.bpVersion = 6) (hfits : Fits pacs) (delta : ℤ) :
    ∃ signals pacs' next', sendIfTriggered eidMatch d pacs delta = .ok (signals, pacs', next') ∧
      Settles d.nextPacsid pacs S ∅ signals pacs' next' := by
  obtain ⟨hmap, hlen, hnum, hid, hhead⟩ := getAcsParamsForEndpoint_keeps eidMatch d pacs
  have hrep := h.congr hmap hlen hnum
  have hfits' : Fits (getAcsParamsForEndpoint eidMatch d pacs).2 := by
    rw [Fits, hlen]
    exact hfits
  simp only [sendIfTriggered]
  split_ifs
  · obtain ⟨signals, pacs', next', hgen, hsettles⟩ := generateAcs_settles hrep
      (hhead.bpVersion.trans hversion) hfits' d.nextPacsid
    exact ⟨signals, pacs', next', hgen, hsettles.of_head hhead hid⟩
  · exact ⟨[], _, _, rfl, hhead, hfits', Or.inl ⟨by simp [Unsent], hrep, hid, rfl⟩⟩

/-- One addition to one pending signal. -/
theorem addCustodyId_settles (eidMatch : String → String → Bool) (d : BundleDaemonACS) (key : String)
    (h : Represents pacs S) (hversion : pacs.bpVersion = 6) (hfits : Fits pacs) (hc : c ∉ S)
    (hid : 1 ≤ c ∧ c < 2 ^ 64) (hroom : newLength pacs c + 2 < 2 ^ 31) :
    ∃ signals pacs' next', addCustodyId eidMatch d key pacs c = .ok
        { d with pendingAcsMap := d.pendingAcsMap.insert key pacs', nextPacsid := next'
                 posted := d.posted ++ signals } ∧
      Settles d.nextPacsid pacs (insert c S) {c} signals pacs' next' := by
  rcases determineAcsChanges_spec h.entries hc hid with ⟨ch, hdet, hp⟩ |
    ⟨m', delta, hdet, hentries, hsum, hneg⟩
  · rw [newLength, hdet] at hroom
    obtain ⟨signals, pacs₂, next', hgen, hsettles⟩ := sendIfTriggered_settles eidMatch d h hversion hfits ch.delta
    obtain ⟨pacs', happly, hend⟩ := hsettles.apply_planned h hp hc hid hroom
    refine ⟨signals, pacs', next', ?_, hend⟩
    simp only [addCustodyId, hdet, bind, Except.bind, hgen, happly]
  · have hlen : u32OfInt (pacs.acsPayloadLength + delta) = m'.sum (·.sdnvLength) := by
      have := h.payload
      have := hfits
      unfold Fits at this
      unfold u32OfInt
      omega
    have hrep : Represents { pacs with
        acsEntryMap := m', numCustodyIds := u32 (pacs.numCustodyIds + 1)
        acsPayloadLength := u32OfInt (pacs.acsPayloadLength + delta) } (insert c S) := by
      refine ⟨hentries, hlen, ?_⟩
      rw [h.count, Finset.card_insert_of_notMem hc, u32_u32_add]
    have hfits' : Fits { pacs with
        acsEntryMap := m', numCustodyIds := u32 (pacs.numCustodyIds + 1)
        acsPayloadLength := u32OfInt (pacs.acsPayloadLength + delta) } := by
      have := h.payload
      unfold Fits at hfits ⊢
      simp only
      omega
    obtain ⟨signals, pacs', next', hgen, hsettles⟩ :=
      sendIfTriggered_settles eidMatch d hrep hversion hfits' 0
    refine ⟨signals, pacs', next', ?_,
      (hsettles.of_head (show SameHead pacs _ from ⟨rfl, rfl, rfl, rfl⟩) rfl).mono (by simp)⟩
    simp only [addCustodyId, hdet, bind, Except.bind, hgen, applyAcsChanges_noop]

end Dtnme.Bundling
