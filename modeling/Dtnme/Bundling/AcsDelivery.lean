import Dtnme.Bundling.AcsRuns

/-! # Custody ids on their way to the custodian

Ids for any number of custodians, outcomes and reasons, from BPv6 and BPv7. An id is either in
the pending signal of its key or in one signal to its custodian. A pending signal that
`add_bibe_bundle_to_acs` creates has no custodian, and its ids never arrive.
-/

namespace Dtnme.Bundling
open Library

/-! ## Keys -/

theorem digitChar_inj {a b : ℕ} (ha : a < 16) (hb : b < 16) (h : Nat.digitChar a = Nat.digitChar b) :
    a = b := by
  have hall : ∀ a < 16, ∀ b < 16, Nat.digitChar a = Nat.digitChar b → a = b := by decide
  exact hall a ha b hb h

/-- A key determines custodian, outcome and reason. -/
theorem acsKey_inj {e₁ e₂ : String} {f₁ f₂ : Bool} {r₁ r₂ : UInt8}
    (h : acsKey e₁ f₁ r₁ = acsKey e₂ f₂ r₂) : e₁ = e₂ ∧ f₁ = f₂ ∧ r₁ = r₂ := by
  have hlist := congrArg String.toList h
  simp only [acsKey, String.toList_append, String.toList_ofList, ← List.append_assoc] at hlist
  obtain ⟨hfront, hdigits⟩ := List.append_inj' hlist rfl
  have hreason : r₁ = r₂ := by
    simp only [List.cons.injEq, and_true] at hdigits
    have hlt₁ := r₁.toNat_lt
    have hlt₂ := r₂.toNat_lt
    have hhigh := digitChar_inj (by omega) (by omega) hdigits.1
    have hlow := digitChar_inj (by omega) (by omega) hdigits.2
    exact UInt8.toNat_inj.mp (by omega)
  cases f₁ <;> cases f₂
  · exact ⟨String.toList_inj.mp (List.append_inj' hfront rfl).1, rfl, hreason⟩
  · have hlast := congrArg (fun l => l.reverse.take 2) hfront
    simp at hlast
  · have hlast := congrArg (fun l => l.reverse.take 2) hfront
    simp at hlast
  · exact ⟨String.toList_inj.mp (List.append_inj' hfront rfl).1, rfl, hreason⟩

/-! ## What was added for whom -/

/-- Custodian, outcome, reason and id of an addition. -/
def addition : AcsEvent → Option (String × Bool × UInt8 × ℕ)
  | .addBundleToAcs custodyEid succeeded reason custodyId =>
    some (custodyEid, succeeded, reason, custodyId)
  | .addBibeBundleToAcs _ custodyEid success reason transmissionId =>
    some (custodyEid, success, reason, transmissionId)
  | _ => none

/-- The ids added for a custodian with an outcome and a reason. -/
def addedFor (custodyEid : String) (succeeded : Bool) (reason : UInt8) (past : List AcsEvent) :
    Finset ℕ :=
  (past.filterMap fun e => (addition e).bind fun a =>
    if a.1 = custodyEid ∧ a.2.1 = succeeded ∧ a.2.2.1 = reason then some a.2.2.2 else none).toFinset

variable {E E' : String} {f f' : Bool} {r r' : UInt8} {c : ℕ} {past : List AcsEvent} {e : AcsEvent}

theorem mem_addedFor : c ∈ addedFor E f r past ↔ ∃ e ∈ past, addition e = some (E, f, r, c) := by
  simp only [addedFor, List.mem_toFinset, List.mem_filterMap, Option.bind_eq_some_iff]
  refine exists_congr fun e => and_congr_right fun _ => ?_
  constructor
  · rintro ⟨⟨E', f', r', c'⟩, he, h⟩
    split_ifs at h with hsame
    obtain ⟨rfl, rfl, rfl⟩ := hsame
    cases h
    exact he
  · intro he
    exact ⟨_, he, by simp⟩

theorem addedFor_append_none (he : addition e = none) :
    addedFor E f r (past ++ [e]) = addedFor E f r past := by
  ext c
  simp [mem_addedFor, he]

theorem addedFor_append_self (he : addition e = some (E, f, r, c)) :
    addedFor E f r (past ++ [e]) = {c} ∪ addedFor E f r past := by
  ext x
  simp only [mem_addedFor, List.mem_append, List.mem_singleton, or_and_right, exists_or,
    exists_eq_left, he, Option.some.injEq, Prod.mk.injEq, true_and, Finset.mem_union,
    Finset.mem_singleton]
  rw [or_comm, eq_comm]

theorem addedFor_append_other (he : addition e = some (E, f, r, c)) (hne : (E, f, r) ≠ (E', f', r')) :
    addedFor E' f' r' (past ++ [e]) = addedFor E' f' r' past := by
  ext x
  simp only [mem_addedFor, List.mem_append, List.mem_singleton, or_and_right, exists_or,
    exists_eq_left, he, Option.some.injEq, Prod.mk.injEq, or_iff_left_iff_imp]
  rintro ⟨rfl, rfl, rfl, rfl⟩
  exact absurd rfl hne

/-- The ids in the signals to a custodian. -/
def sentTo (custodyEid : String) (posted : List AcsSignal) : Finset ℕ :=
  sentIds (posted.filter fun s => s.dest = some custodyEid)

theorem mem_sentTo {posted : List AcsSignal} :
    c ∈ sentTo E posted ↔ ∃ s ∈ posted, s.dest = some E ∧ c ∈ s.ids := by
  simp only [sentTo, mem_sentIds, List.mem_filter, decide_eq_true_eq, and_assoc]

theorem sentTo_append (posted signals : List AcsSignal) :
    sentTo E (posted ++ signals) = sentTo E posted ∪ sentTo E signals := by
  rw [sentTo, List.filter_append, sentIds_append]
  rfl

/-! ## Every id in one place -/

/-- A pending signal of BPv6 with its custodian. -/
structure Addressed (next : ℕ) (E : String) (f : Bool) (r : UInt8) (pacs : PendingAcs) : Prop where
  custodyEid : pacs.custodyEid = E
  custodian : E ≠ nullEid
  succeeded : pacs.succeeded = f
  reason : pacs.reason = r.toNat
  bpVersion : pacs.bpVersion = 6
  fits : Fits pacs
  pacsId : pacs.pacsId < next

/-- A signal to a custodian with ids that were added for it. -/
structure SignalTo (E : String) (f : Bool) (r : UInt8) (ids : Finset ℕ) (s : AcsSignal) : Prop where
  dest : s.dest = some E
  parsed : ∃ data, parseAggregateCustodySignal s.payload = some data ∧ data.succeeded = f ∧
    data.reason = r.toNat % 2 ^ 7
  nonempty : s.ids.Nonempty
  added : s.ids ⊆ ids

/-- The pending signals and the signals that went out share the ids that were added. -/
structure Delivers (d : BundleDaemonACS) (past : List AcsEvent) : Prop where
  keyed : ∀ key pacs, d.pendingAcsMap.find? key = some pacs →
    ∃ E f r, key = acsKey E f r ∧ Addressed d.nextPacsid E f r pacs
  pending : ∀ E f r, Represents (pendingAt d (acsKey E f r)) (addedFor E f r past \ sentTo E d.posted)
  posted : ∀ s ∈ d.posted, ∃ E f r, SignalTo E f r (addedFor E f r past) s
  once : d.posted.Pairwise fun s t => s.dest = t.dest → Disjoint s.ids t.ids
  apart : ∀ E f r f' r', (f, r) ≠ (f', r') →
    Disjoint (addedFor E f r past) (addedFor E f' r' past)

variable {d : BundleDaemonACS} {pacs pacs' : PendingAcs} {next next' : ℕ} {new : Finset ℕ}
  {signals : List AcsSignal}

theorem Delivers.addressed (h : Delivers d past)
    (hf : d.pendingAcsMap.find? (acsKey E f r) = some pacs) : Addressed d.nextPacsid E f r pacs := by
  obtain ⟨E', f', r', hkey, haddr⟩ := h.keyed _ pacs hf
  obtain ⟨rfl, rfl, rfl⟩ := acsKey_inj hkey
  exact haddr

/-- What went out to a custodian was added for it. -/
theorem Delivers.sentTo_added (h : Delivers d past) (hc : c ∈ sentTo E d.posted) :
    ∃ f r, c ∈ addedFor E f r past := by
  obtain ⟨s, hs, hdest, hids⟩ := mem_sentTo.mp hc
  obtain ⟨E', f, r, hto⟩ := h.posted s hs
  rw [hto.dest, Option.some.injEq] at hdest
  subst hdest
  exact ⟨f, r, hto.added hids⟩

/-- The signals of an event on a pending signal with a custodian. -/
theorem Settles.cases {all : Finset ℕ} (hs : Settles next pacs all new signals pacs' next')
    (haddr : Addressed next E f r pacs) :
    (signals = [] ∧ Represents pacs' all ∧ pacs'.pacsId = pacs.pacsId ∧ next' = next) ∨
    (∃ sent kept s, signals = [s] ∧ s.ids = sent ∧ SignalTo E f r sent s ∧ sent ∪ kept = all ∧
      Disjoint sent kept ∧ kept ⊆ new ∧ Represents pacs' kept ∧ pacs'.pacsId = next ∧
      next' = u32 (next + 1)) := by
  rcases hs.split with ⟨hun, hrest⟩ | ⟨sent, kept, s, hsig, hfor, hrest⟩
  · refine Or.inl ⟨?_, hrest⟩
    rw [List.eq_nil_iff_forall_not_mem]
    intro s hs
    exact haddr.custodian (haddr.custodyEid ▸ (hun s hs).1)
  · refine Or.inr ⟨sent, kept, s, hsig, hfor.ids_eq, ⟨?_, ?_, ?_, ?_⟩, hrest⟩
    · rw [hfor.dest, haddr.custodyEid]
    · obtain ⟨data, hdata, hsucc, hreason⟩ := hfor.parsed
      exact ⟨data, hdata, hsucc.trans haddr.succeeded, hreason.trans (by rw [haddr.reason])⟩
    · rw [hfor.ids_eq]
      exact hfor.nonempty
    · rw [hfor.ids_eq]

theorem SignalTo.mono {ids ids' : Finset ℕ} {s : AcsSignal} (h : SignalTo E f r ids s)
    (hids : ids ⊆ ids') : SignalTo E f r ids' s :=
  ⟨h.dest, h.parsed, h.nonempty, h.added.trans hids⟩

/-- The ids of the signals of one event. -/
theorem Settles.sentTo_eq {all : Finset ℕ} (hs : Settles next pacs all new signals pacs' next')
    (haddr : Addressed next E f r pacs) : sentTo E signals = sentIds signals := by
  rw [sentTo]
  congr 1
  rw [List.filter_eq_self]
  intro s hmem
  rcases hs.cases haddr with ⟨rfl, -⟩ | ⟨sent, kept, t, rfl, -, hto, -⟩
  · cases hmem
  · rw [List.mem_singleton.mp hmem, decide_eq_true_eq]
    exact hto.dest

theorem Settles.sentTo_other {all : Finset ℕ} (hs : Settles next pacs all new signals pacs' next')
    (haddr : Addressed next E f r pacs) (hne : E' ≠ E) : sentTo E' signals = ∅ := by
  rw [Finset.eq_empty_iff_forall_notMem]
  intro x hx
  obtain ⟨s, hmem, hdest, -⟩ := mem_sentTo.mp hx
  rcases hs.cases haddr with ⟨rfl, -⟩ | ⟨sent, kept, t, rfl, -, hto, -⟩
  · cases hmem
  · rw [List.mem_singleton.mp hmem, hto.dest, Option.some.injEq] at hdest
    exact hne hdest.symm

theorem Delivers.disjoint_sentTo (h : Delivers d past) (hnew : ∀ f r, Disjoint new (addedFor E f r past)) :
    Disjoint new (sentTo E d.posted) := by
  rw [Finset.disjoint_left]
  intro x hx hsent
  obtain ⟨f, r, hadd⟩ := h.sentTo_added hsent
  exact Finset.disjoint_left.mp (hnew f r) hx hadd

theorem pendingAt_insert_self (d : BundleDaemonACS) (key : String) (pacs : PendingAcs) (next : ℕ)
    (posted : List AcsSignal) :
    pendingAt { d with pendingAcsMap := d.pendingAcsMap.insert key pacs
                       nextPacsid := next, posted := posted } key = pacs := by
  simp [pendingAt]

theorem pendingAt_insert_other (d : BundleDaemonACS) {key key' : String} (hne : key' ≠ key)
    (pacs : PendingAcs) (next : ℕ) (posted : List AcsSignal) :
    pendingAt { d with pendingAcsMap := d.pendingAcsMap.insert key pacs
                       nextPacsid := next, posted := posted } key' = pendingAt d key' := by
  simp [pendingAt, hne]

section
variable (h : Delivers d past) (haddr : Addressed next E f r pacs)
  (hself : addedFor E f r (past ++ [e]) = new ∪ addedFor E f r past)
  (hother : ∀ E' f' r', (E, f, r) ≠ (E', f', r') →
    addedFor E' f' r' (past ++ [e]) = addedFor E' f' r' past)
  (hnew : ∀ f' r', Disjoint new (addedFor E f' r' past))
  (hs : Settles next pacs (new ∪ (addedFor E f r past \ sentTo E d.posted)) new signals pacs' next')

include haddr hs in
theorem Settles.next_le (hwrap : next + 1 < 2 ^ 32) : pacs'.pacsId < next' ∧ next ≤ next' := by
  rcases hs.cases haddr with ⟨-, -, hpacs, rfl⟩ | ⟨-, -, -, -, -, -, -, -, -, -, hpacs, rfl⟩
  · exact ⟨hpacs ▸ haddr.pacsId, le_rfl⟩
  · rw [hpacs, u32_of_lt hwrap]
    omega

include h haddr hself hother hnew hs in
/-- What is pending afterwards is what was added and not sent. -/
theorem Delivers.settle_pending (E' : String) (f' : Bool) (r' : UInt8) :
    Represents (pendingAt { d with pendingAcsMap := d.pendingAcsMap.insert (acsKey E f r) pacs'
                                   nextPacsid := next', posted := d.posted ++ signals }
        (acsKey E' f' r'))
      (addedFor E' f' r' (past ++ [e]) \ sentTo E' (d.posted ++ signals)) := by
  have hdisj := h.disjoint_sentTo hnew
  obtain ⟨hrep, hsub⟩ := hs.represents
  by_cases hkey : (E, f, r) = (E', f', r')
  · cases hkey
    rw [pendingAt_insert_self, hself, sentTo_append, hs.sentTo_eq haddr]
    have hleft : (new ∪ addedFor E f r past) \ (sentTo E d.posted ∪ sentIds signals) =
        (new ∪ (addedFor E f r past \ sentTo E d.posted)) \ sentIds signals := by
      rw [← Finset.sup_eq_union (s := sentTo E d.posted), ← sdiff_sdiff_left,
        Finset.union_sdiff_distrib new, Finset.sdiff_eq_self_of_disjoint hdisj]
    rw [hleft]
    exact hrep
  · have hne : acsKey E' f' r' ≠ acsKey E f r := by
      intro heq
      obtain ⟨rfl, rfl, rfl⟩ := acsKey_inj heq
      exact hkey rfl
    rw [pendingAt_insert_other d hne, hother E' f' r' hkey, sentTo_append]
    have hsame : addedFor E' f' r' past \ (sentTo E' d.posted ∪ sentTo E' signals) =
        addedFor E' f' r' past \ sentTo E' d.posted := by
      by_cases hE : E' = E
      · subst hE
        -- the signal takes ids of another outcome or reason
        rw [hs.sentTo_eq haddr, ← Finset.sup_eq_union, ← sdiff_sdiff_left]
        apply Finset.sdiff_eq_self_of_disjoint
        refine Finset.disjoint_of_subset_right hsub ?_
        rw [Finset.disjoint_union_right]
        refine ⟨((hnew f' r').mono_right Finset.sdiff_subset).symm, ?_⟩
        exact (h.apart E' f' r' f r fun heq => hkey (by rw [heq])).mono Finset.sdiff_subset
          Finset.sdiff_subset
      · rw [hs.sentTo_other haddr hE, Finset.union_empty]
    rw [hsame]
    exact h.pending E' f' r'

include h haddr hnew hs in
/-- No id goes out to a custodian twice. -/
theorem Delivers.settle_once :
    (d.posted ++ signals).Pairwise fun s t => s.dest = t.dest → Disjoint s.ids t.ids := by
  have hdisj := h.disjoint_sentTo hnew
  obtain ⟨-, hsub⟩ := hs.represents
  rw [List.pairwise_append]
  refine ⟨h.once, ?_, ?_⟩
  · rcases hs.cases haddr with ⟨rfl, -⟩ | ⟨sent, kept, t, rfl, -⟩
    · exact List.Pairwise.nil
    · exact List.pairwise_singleton _ _
  · intro s hmem t ht hdest
    have htE : t.dest = some E := by
      rcases hs.cases haddr with ⟨rfl, -⟩ | ⟨sent, kept, u, rfl, -, hto, -⟩
      · cases ht
      · rw [List.mem_singleton.mp ht, hto.dest]
    have hsE : s.ids ⊆ sentTo E d.posted := fun x hx =>
      mem_sentTo.mpr ⟨s, hmem, hdest.trans htE, hx⟩
    have hids : t.ids ⊆ new ∪ (addedFor E f r past \ sentTo E d.posted) :=
      fun x hx => hsub (mem_sentIds.mpr ⟨t, ht, hx⟩)
    refine Finset.disjoint_of_subset_left hsE (Finset.disjoint_of_subset_right hids ?_)
    rw [Finset.disjoint_union_right]
    exact ⟨hdisj.symm, Finset.disjoint_sdiff⟩

include h hself hother hnew in
theorem Delivers.settle_apart (E' : String) (f₁ : Bool) (r₁ : UInt8) (f₂ : Bool) (r₂ : UInt8)
    (hne : (f₁, r₁) ≠ (f₂, r₂)) :
    Disjoint (addedFor E' f₁ r₁ (past ++ [e])) (addedFor E' f₂ r₂ (past ++ [e])) := by
  by_cases h₁ : (E, f, r) = (E', f₁, r₁)
  · cases h₁
    rw [hself, hother E f₂ r₂ (by simpa using hne), Finset.disjoint_union_left]
    exact ⟨hnew f₂ r₂, h.apart E f r f₂ r₂ hne⟩
  · by_cases h₂ : (E, f, r) = (E', f₂, r₂)
    · cases h₂
      rw [hself, hother E f₁ r₁ h₁, Finset.disjoint_union_right]
      exact ⟨(hnew f₁ r₁).symm, h.apart E f₁ r₁ f r hne⟩
    · rw [hother E' f₁ r₁ h₁, hother E' f₂ r₂ h₂]
      exact h.apart E' f₁ r₁ f₂ r₂ hne

end

/-- An event on the pending signal of a key keeps every id in one place. -/
theorem Delivers.settle (h : Delivers d past) (haddr : Addressed next E f r pacs)
    (hnext : d.nextPacsid ≤ next) (hwrap : next + 1 < 2 ^ 32)
    (hself : addedFor E f r (past ++ [e]) = new ∪ addedFor E f r past)
    (hother : ∀ E' f' r', (E, f, r) ≠ (E', f', r') →
      addedFor E' f' r' (past ++ [e]) = addedFor E' f' r' past)
    (hnew : ∀ f' r', Disjoint new (addedFor E f' r' past))
    (hs : Settles next pacs (new ∪ (addedFor E f r past \ sentTo E d.posted)) new signals pacs' next') :
    Delivers { d with pendingAcsMap := d.pendingAcsMap.insert (acsKey E f r) pacs'
                      nextPacsid := next', posted := d.posted ++ signals } (past ++ [e]) where
  keyed key p hp := by
    have hgrow := hs.next_le haddr hwrap
    rw [OrdMap.find?_insert] at hp
    split_ifs at hp with hkey
    · cases hp
      exact ⟨E, f, r, hkey, hs.head.custodyEid.trans haddr.custodyEid, haddr.custodian,
        hs.head.succeeded.trans haddr.succeeded, hs.head.reason.trans haddr.reason,
        hs.head.bpVersion.trans haddr.bpVersion, hs.fits, hgrow.1⟩
    · obtain ⟨E', f', r', hkey', ha⟩ := h.keyed key p hp
      refine ⟨E', f', r', hkey', ha.custodyEid, ha.custodian, ha.succeeded, ha.reason, ha.bpVersion,
        ha.fits, ?_⟩
      exact lt_of_lt_of_le ha.pacsId (hnext.trans hgrow.2)
  pending := h.settle_pending haddr hself hother hnew hs
  posted s hmem := by
    rcases List.mem_append.mp hmem with hmem | hmem
    · obtain ⟨E', f', r', hto⟩ := h.posted s hmem
      refine ⟨E', f', r', hto.mono fun x hx => ?_⟩
      obtain ⟨e', he', hadd⟩ := mem_addedFor.mp hx
      exact mem_addedFor.mpr ⟨e', List.mem_append_left _ he', hadd⟩
    · rcases hs.cases haddr with ⟨rfl, -⟩ | ⟨sent, kept, t, rfl, -, hto, hall, -⟩
      · cases hmem
      · rw [List.mem_singleton.mp hmem]
        refine ⟨E, f, r, hto.mono ?_⟩
        rw [hself]
        refine (Finset.subset_union_left.trans hall.subset).trans ?_
        exact Finset.union_subset_union subset_rfl Finset.sdiff_subset
  once := h.settle_once haddr hnew hs
  apart := h.settle_apart hself hother hnew

/-! ## Steps and runs -/

/-- The ids of a pending signal. -/
def pendingIds (pacs : PendingAcs) : Finset ℕ := fillIds (fillsOf pacs.acsEntryMap)

theorem Represents.pendingIds_eq {S : Finset ℕ} (h : Represents pacs S) : pendingIds pacs = S :=
  h.entries.fillIds_fillsOf

/-- Nothing goes out, or one signal that leaves nothing but new ids to a pending signal with a
`pacs_id` that was drawn now and that no pending signal had. -/
def Clears (d d' : BundleDaemonACS) (key : String) (new : Finset ℕ) : Prop :=
  d'.posted = d.posted ∨ ∃ s pacs, d'.posted = d.posted ++ [s] ∧
    d'.pendingAcsMap.find? key = some pacs ∧ pendingIds pacs ⊆ new ∧ Disjoint s.ids (pendingIds pacs) ∧
    d.nextPacsid ≤ pacs.pacsId ∧ pacs.pacsId < d'.nextPacsid ∧
    ∀ key' pacs', d.pendingAcsMap.find? key' = some pacs' → pacs'.pacsId ≠ pacs.pacsId

theorem Delivers.clears (h : Delivers d past) {all : Finset ℕ} (haddr : Addressed next E f r pacs)
    (hnext : d.nextPacsid ≤ next) (hwrap : next + 1 < 2 ^ 32)
    (hs : Settles next pacs all new signals pacs' next') :
    Clears d { d with pendingAcsMap := d.pendingAcsMap.insert (acsKey E f r) pacs'
                      nextPacsid := next', posted := d.posted ++ signals } (acsKey E f r) new := by
  rcases hs.cases haddr with ⟨rfl, -⟩ | ⟨sent, kept, s, rfl, hids, -, -, hdisj, hkept, hrep, hpacs, hnext'⟩
  · exact Or.inl (List.append_nil _)
  · refine Or.inr ⟨s, pacs', rfl, by simp, ?_, ?_, ?_, ?_, ?_⟩
    · rw [hrep.pendingIds_eq]
      exact hkept
    · rw [hrep.pendingIds_eq, hids]
      exact hdisj
    · rw [hpacs]
      exact hnext
    · simp only
      rw [hpacs, hnext', u32_of_lt hwrap]
      omega
    · intro key' p hp
      obtain ⟨E', f', r', -, ha⟩ := h.keyed key' p hp
      have := ha.pacsId
      omega

/-- The condition: every addition has a custodian and a custody id, a BPv7 addition finds a pending
signal of its key, the signal stays short enough, and the `pacs_id` counter does not wrap. -/
def Regular (d : BundleDaemonACS) (e : AcsEvent) : Prop :=
  LeavesRoom d e ∧ d.nextPacsid + 2 < 2 ^ 32 ∧
    match e with
    | .addBundleToAcs custodyEid _ _ custodyId =>
      custodyEid ≠ nullEid ∧ 1 ≤ custodyId ∧ custodyId < 2 ^ 64
    | .addBibeBundleToAcs _ custodyEid success reason transmissionId =>
      (d.pendingAcsMap.find? (acsKey custodyEid success reason)).isSome ∧
        1 ≤ transmissionId ∧ transmissionId < 2 ^ 64
    | _ => True

instance (d : BundleDaemonACS) : ∀ e, Decidable (Regular d e)
  | .addBundleToAcs custodyEid succeeded reason custodyId =>
    inferInstanceAs (Decidable (LeavesRoom d (.addBundleToAcs custodyEid succeeded reason custodyId) ∧
      d.nextPacsid + 2 < 2 ^ 32 ∧ custodyEid ≠ nullEid ∧ 1 ≤ custodyId ∧ custodyId < 2 ^ 64))
  | .addBibeBundleToAcs bpVersion custodyEid success reason transmissionId =>
    inferInstanceAs (Decidable
      (LeavesRoom d (.addBibeBundleToAcs bpVersion custodyEid success reason transmissionId) ∧
        d.nextPacsid + 2 < 2 ^ 32 ∧
        (d.pendingAcsMap.find? (acsKey custodyEid success reason)).isSome ∧
          1 ≤ transmissionId ∧ transmissionId < 2 ^ 64))
  | .acsExpired key pacsId =>
    inferInstanceAs (Decidable (LeavesRoom d (.acsExpired key pacsId) ∧ d.nextPacsid + 2 < 2 ^ 32 ∧
      True))
  | .setRouteAcsParams arp =>
    inferInstanceAs (Decidable (LeavesRoom d (.setRouteAcsParams arp) ∧ d.nextPacsid + 2 < 2 ^ 32 ∧
      True))
  | .deleteRouteAcsParams endpoint =>
    inferInstanceAs (Decidable (LeavesRoom d (.deleteRouteAcsParams endpoint) ∧
      d.nextPacsid + 2 < 2 ^ 32 ∧ True))
  | .setDefaultParams acsDelay acsSize =>
    inferInstanceAs (Decidable (LeavesRoom d (.setDefaultParams acsDelay acsSize) ∧
      d.nextPacsid + 2 < 2 ^ 32 ∧ True))

/-- The key that an event is about. -/
def eventKey : AcsEvent → String
  | .addBundleToAcs custodyEid succeeded reason _ => acsKey custodyEid succeeded reason
  | .addBibeBundleToAcs _ custodyEid success reason _ => acsKey custodyEid success reason
  | .acsExpired key _ => key
  | _ => ""

/-- What an event does in a run. -/
def Keeps (d : BundleDaemonACS) (past : List AcsEvent) (e : AcsEvent) (d' : BundleDaemonACS) : Prop :=
  Delivers d' (past ++ [e]) ∧ Clears d d' (eventKey e) (addedId e).toFinset

variable {eidMatch : String → String → Bool}

/-- An addition to a pending signal that is there. -/
theorem Delivers.addTo (h : Delivers d past) (he : addition e = some (E, f, r, c))
    (hnew : ∀ f r, c ∉ addedFor E f r past) (hid : 1 ≤ c ∧ c < 2 ^ 64)
    (hf : d.pendingAcsMap.find? (acsKey E f r) = some pacs) (hroom : newLength pacs c + 2 < 2 ^ 31)
    (hwrap : d.nextPacsid + 2 < 2 ^ 32) :
    ∃ d', addCustodyId eidMatch d (acsKey E f r) pacs c = .ok d' ∧ Delivers d' (past ++ [e]) ∧
      Clears d d' (acsKey E f r) {c} := by
  have haddr := h.addressed hf
  have hrep := h.pending E f r
  rw [pendingAt, hf, Option.getD_some] at hrep
  obtain ⟨signals, pacs', next', hok, hs⟩ := addCustodyId_settles eidMatch d (acsKey E f r) hrep
    haddr.bpVersion haddr.fits (fun hm => hnew f r (Finset.mem_sdiff.mp hm).1) hid hroom
  rw [Finset.insert_eq] at hs
  refine ⟨_, hok, h.settle haddr le_rfl (by omega) (addedFor_append_self he)
    (fun E' f' r' hne => addedFor_append_other he hne)
    (fun f' r' => Finset.disjoint_singleton_left.mpr (hnew f' r')) hs, ?_⟩
  exact h.clears haddr le_rfl (by omega) hs

/-- `handle_add_bundle_to_acs` creates the pending signal if there is none. -/
theorem Delivers.addBundle (h : Delivers d past) (hE : E ≠ nullEid)
    (hnew : ∀ f r, c ∉ addedFor E f r past) (hid : 1 ≤ c ∧ c < 2 ^ 64)
    (hroom : LeavesRoom d (.addBundleToAcs E f r c)) (hwrap : d.nextPacsid + 2 < 2 ^ 32) :
    ∃ d', handleAddBundleToAcs eidMatch d E f r c = .ok d' ∧
      Delivers d' (past ++ [.addBundleToAcs E f r c]) ∧ Clears d d' (acsKey E f r) {c} := by
  rw [handleAddBundleToAcs, pendingFor]
  cases hf : d.pendingAcsMap.find? (acsKey E f r) with
  | some pacs => exact h.addTo rfl hnew hid hf (hroom pacs hf) hwrap
  | none =>
    have hempty : addedFor E f r past \ sentTo E d.posted = ∅ := by
      have hrep := h.pending E f r
      rw [pendingAt, hf, Option.getD_none] at hrep
      exact hrep.payload_eq_zero_iff.mp rfl
    have hrep : Represents { pacsId := d.nextPacsid, custodyEid := E, succeeded := f
                             reason := r.toNat, bpVersion := 6 } ∅ :=
      (represents_fresh E f r.toNat).congr rfl rfl rfl
    obtain ⟨signals, pacs', next', hok, hs⟩ := addCustodyId_settles eidMatch
      { d with nextPacsid := u32 (d.nextPacsid + 1) } (acsKey E f r) hrep rfl (by simp [Fits])
      (Finset.notMem_empty c) hid (newLength_empty rfl rfl hid.2)
    have hnext : u32 (d.nextPacsid + 1) = d.nextPacsid + 1 := u32_of_lt (by omega)
    simp only [hnext] at hs
    have haddr : Addressed (d.nextPacsid + 1) E f r
        { pacsId := d.nextPacsid, custodyEid := E, succeeded := f, reason := r.toNat, bpVersion := 6 } :=
      ⟨rfl, hE, rfl, rfl, rfl, by simp [Fits], Nat.lt_succ_self _⟩
    rw [Finset.insert_eq, ← hempty] at hs
    refine ⟨_, hok, h.settle haddr (by omega) (by omega) (addedFor_append_self rfl)
      (fun E' f' r' hne => addedFor_append_other rfl hne)
      (fun f' r' => Finset.disjoint_singleton_left.mpr (hnew f' r')) hs, ?_⟩
    exact h.clears haddr (by omega) (by omega) hs

/-- An event that adds nothing and leaves the pending signals alone. -/
theorem Delivers.other (h : Delivers d past) {d' : BundleDaemonACS} (he : addition e = none)
    (hmap : d'.pendingAcsMap = d.pendingAcsMap) (hposted : d'.posted = d.posted)
    (hnext : d'.nextPacsid = d.nextPacsid) : Delivers d' (past ++ [e]) := by
  have hadd : ∀ E f r, addedFor E f r (past ++ [e]) = addedFor E f r past :=
    fun E f r => addedFor_append_none he
  refine ⟨?_, ?_, ?_, ?_, ?_⟩
  · rw [hmap, hnext]
    exact h.keyed
  · intro E f r
    rw [pendingAt, hmap, hadd, hposted]
    exact h.pending E f r
  · intro s hs
    rw [hposted] at hs
    obtain ⟨E, f, r, hto⟩ := h.posted s hs
    exact ⟨E, f, r, hadd E f r ▸ hto⟩
  · rw [hposted]
    exact h.once
  · intro E f r f' r' hne
    rw [hadd, hadd]
    exact h.apart E f r f' r' hne

/-- `handle_acs_expired`. -/
theorem Delivers.expired (h : Delivers d past) (hwrap : d.nextPacsid + 2 < 2 ^ 32) (key : String)
    (pacsId : ℕ) :
    ∃ d', handleAcsExpired d key pacsId = .ok d' ∧ Delivers d' (past ++ [.acsExpired key pacsId]) ∧
      Clears d d' key ∅ := by
  rw [handleAcsExpired]
  cases hf : d.pendingAcsMap.find? key with
  | none => exact ⟨d, rfl, h.other rfl rfl rfl rfl, Or.inl rfl⟩
  | some pacs =>
    simp only
    split_ifs
    · exact ⟨d, rfl, h.other rfl rfl rfl rfl, Or.inl rfl⟩
    · obtain ⟨E, f, r, rfl, haddr⟩ := h.keyed key pacs hf
      have hrep := h.pending E f r
      rw [pendingAt, hf, Option.getD_some] at hrep
      obtain ⟨signals, pacs', next', hok, hs⟩ :=
        generateAcs_settles hrep haddr.bpVersion haddr.fits d.nextPacsid
      rw [hok]
      rw [← Finset.empty_union (addedFor E f r past \ sentTo E d.posted)] at hs
      refine ⟨_, rfl, h.settle haddr le_rfl (by omega) ?_ (fun E' f' r' _ => addedFor_append_none rfl)
        (fun f' r' => Finset.disjoint_empty_left _) hs, h.clears haddr le_rfl (by omega) hs⟩
      rw [addedFor_append_none rfl, Finset.empty_union]

/-- One event of a run. -/
theorem Delivers.step (h : Delivers d past) (hreg : Regular d e)
    (hnew : ∀ E f r c, addition e = some (E, f, r, c) → ∀ f' r', c ∉ addedFor E f' r' past) :
    ∃ d', acsStep eidMatch d e = .ok d' ∧ Keeps d past e d' := by
  obtain ⟨hroom, hwrap, hcase⟩ := hreg
  cases e with
  | addBundleToAcs custodyEid succeeded reason custodyId =>
    exact h.addBundle hcase.1 (hnew _ _ _ _ rfl) hcase.2 hroom hwrap
  | addBibeBundleToAcs bpVersion custodyEid success reason transmissionId =>
    obtain ⟨pacs, hf⟩ := Option.isSome_iff_exists.mp hcase.1
    rw [acsStep, addBibeBundleToAcs, pendingFor, hf]
    exact h.addTo rfl (hnew _ _ _ _ rfl) hcase.2 hf (hroom pacs hf) hwrap
  | acsExpired key pacsId => exact h.expired hwrap key pacsId
  | setRouteAcsParams arp => exact ⟨_, rfl, h.other rfl rfl rfl rfl, Or.inl rfl⟩
  | deleteRouteAcsParams endpoint => exact ⟨_, rfl, h.other rfl rfl rfl rfl, Or.inl rfl⟩
  | setDefaultParams acsDelay acsSize => exact ⟨_, rfl, h.other rfl rfl rfl rfl, Or.inl rfl⟩

theorem Delivers.start (hmap : d.pendingAcsMap = .empty) (hposted : d.posted = []) : Delivers d [] := by
  refine ⟨?_, ?_, ?_, ?_, ?_⟩
  · intro key pacs hf
    rw [hmap, OrdMap.find?_empty] at hf
    cases hf
  · intro E f r
    rw [pendingAt, hmap, OrdMap.find?_empty, hposted]
    exact ⟨EntriesOf.empty, rfl, (u32_of_lt (show 0 < 2 ^ 32 by norm_num)).symm⟩
  · rw [hposted]
    simp
  · rw [hposted]
    exact List.Pairwise.nil
  · intro E f r f' r' _
    exact Finset.disjoint_empty_left _

/-- Custodian and id of an addition. -/
def custodyPair (e : AcsEvent) : Option (String × ℕ) := (addition e).map fun a => (a.1, a.2.2.2)

/-- In a list with distinct ids for each custodian, an addition is new. -/
theorem addition_new {events : List AcsEvent} (hdistinct : (events.filterMap custodyPair).Nodup)
    (hpre : past ++ [e] <+: events) (he : addition e = some (E, f, r, c)) (f' : Bool) (r' : UInt8) :
    c ∉ addedFor E f' r' past := by
  have hsub := ((hpre.sublist).filterMap custodyPair).nodup hdistinct
  rw [List.filterMap_append, List.nodup_append] at hsub
  intro hm
  obtain ⟨e', he', hadd⟩ := mem_addedFor.mp hm
  refine hsub.2.2 (E, c) (List.mem_filterMap.mpr ⟨e', he', ?_⟩) (E, c)
    (List.mem_filterMap.mpr ⟨e, List.mem_singleton.mpr rfl, ?_⟩) rfl
  · rw [custodyPair, hadd, Option.map_some]
  · rw [custodyPair, he, Option.map_some]

/-- The signals to a custodian with an id. -/
def carriers (E : String) (c : ℕ) (posted : List AcsSignal) : List AcsSignal :=
  posted.filter fun s => s.dest = some E ∧ c ∈ s.ids

/-- An id is in the pending signal of its key and in no signal to its custodian, or in exactly one
signal to its custodian and no longer pending. -/
def InOnePlace (d : BundleDaemonACS) (past : List AcsEvent) (E : String) (f : Bool) (r : UInt8)
    (c : ℕ) : Prop :=
  (c ∈ pendingIds (pendingAt d (acsKey E f r)) ∧ carriers E c d.posted = []) ∨
  (c ∉ pendingIds (pendingAt d (acsKey E f r)) ∧
    ∃ s, carriers E c d.posted = [s] ∧ SignalTo E f r (addedFor E f r past) s)

theorem Delivers.inOnePlace (h : Delivers d past) (hc : c ∈ addedFor E f r past) :
    InOnePlace d past E f r c := by
  rw [InOnePlace, (h.pending E f r).pendingIds_eq]
  have hmem : ∀ s, s ∈ carriers E c d.posted ↔ s ∈ d.posted ∧ s.dest = some E ∧ c ∈ s.ids := by
    intro s
    rw [carriers, List.mem_filter, decide_eq_true_eq]
  by_cases hsent : c ∈ sentTo E d.posted
  · refine Or.inr ⟨fun hm => (Finset.mem_sdiff.mp hm).2 hsent, ?_⟩
    have honce : (carriers E c d.posted).Pairwise fun s t => s.dest = t.dest → Disjoint s.ids t.ids :=
      h.once.filter _
    cases hlist : carriers E c d.posted with
    | nil =>
      obtain ⟨s, hs, hrest⟩ := mem_sentTo.mp hsent
      have := (hmem s).mpr ⟨hs, hrest⟩
      rw [hlist] at this
      cases this
    | cons s rest =>
      obtain ⟨hs, hdest, hids⟩ := (hmem s).mp (by rw [hlist]; exact List.mem_cons_self)
      cases rest with
      | nil =>
        refine ⟨s, rfl, ?_⟩
        obtain ⟨E', f', r', hto⟩ := h.posted s hs
        rw [hto.dest, Option.some.injEq] at hdest
        subst hdest
        by_cases hkey : (f', r') = (f, r)
        · cases hkey
          exact hto
        · exact absurd hc (Finset.disjoint_left.mp (h.apart E' f' r' f r hkey) (hto.added hids))
      | cons t rest =>
        obtain ⟨-, hdest', hids'⟩ := (hmem t).mp (by rw [hlist]; simp)
        rw [hlist, List.pairwise_cons] at honce
        have := honce.1 t List.mem_cons_self (hdest.trans hdest'.symm)
        exact absurd hids' (Finset.disjoint_left.mp this hids)
  · refine Or.inl ⟨Finset.mem_sdiff.mpr ⟨hc, hsent⟩, ?_⟩
    rw [List.eq_nil_iff_forall_not_mem]
    intro s hs
    obtain ⟨hs, hrest⟩ := (hmem s).mp hs
    exact hsent (mem_sentTo.mpr ⟨s, hs, hrest⟩)

theorem delivers_run {events : List AcsEvent} (hmap : d.pendingAcsMap = .empty)
    (hposted : d.posted = []) (hdistinct : (events.filterMap custodyPair).Nodup)
    (hregular : Meets (acsStep eidMatch) Regular d events) :
    ∃ d', run (acsStep eidMatch) d events = .ok d' ∧ Delivers d' events := by
  refine run_invariant_prefix Delivers (fun s past e hpre hinv hp => ?_) (Delivers.start hmap hposted)
    hregular
  obtain ⟨s', hs', hkeeps, -⟩ := hinv.step hp fun E f r c he => addition_new hdistinct hpre he
  exact ⟨s', hs', hkeeps⟩

/-- In a run whose BPv7 additions find a pending signal, every id is in one place at each point, every
signal goes to the custodian whose ids it carries, and it clears its pending signal. -/
theorem acsStep_run_delivers {events : List AcsEvent} (hmap : d.pendingAcsMap = .empty)
    (hposted : d.posted = []) (hdistinct : (events.filterMap custodyPair).Nodup)
    (hregular : Meets (acsStep eidMatch) Regular d events) (n : ℕ) :
    ∃ d', run (acsStep eidMatch) d (events.take n) = .ok d' ∧
      (∀ E f r, ∀ c ∈ addedFor E f r (events.take n), InOnePlace d' (events.take n) E f r c) ∧
      (∀ s ∈ d'.posted, ∃ E f r, SignalTo E f r (addedFor E f r (events.take n)) s) ∧
      ∀ e, events[n]? = some e → ∃ d'', acsStep eidMatch d' e = .ok d'' ∧
        Clears d' d'' (eventKey e) (addedId e).toFinset := by
  have hsub := (List.take_sublist n events).filterMap custodyPair
  obtain ⟨d', hrun, hinv⟩ := delivers_run hmap hposted (hsub.nodup hdistinct) (hregular.take n)
  refine ⟨d', hrun, fun E f r c hc => hinv.inOnePlace hc, hinv.posted, fun e he => ?_⟩
  have hpre : events.take n ++ [e] <+: events := by
    obtain ⟨hlt, rfl⟩ := List.getElem?_eq_some_iff.mp he
    rw [List.take_concat_get']
    exact List.take_prefix _ _
  obtain ⟨d'', hstep, -, hclears⟩ := hinv.step (hregular.at_index hrun he)
    fun E f r c hadd => addition_new hdistinct hpre hadd
  exact ⟨d'', hstep, hclears⟩

/-- Two custodians, and a BPv7 addition to a pending signal of BPv6. -/
def mixedEvents : List AcsEvent :=
  [.addBundleToAcs "ipn:1.0" true 0 5, .addBibeBundleToAcs 7 "ipn:1.0" true 0 6,
    .addBundleToAcs "ipn:2.0" false 4 5, .acsExpired (acsKey "ipn:1.0" true 0) 0]

theorem acsStep_run_delivers_mixed :
    ∃ d', run (acsStep fun _ _ => false) {} (mixedEvents.take 3) = .ok d' ∧
      (∀ E f r, ∀ c ∈ addedFor E f r (mixedEvents.take 3), InOnePlace d' (mixedEvents.take 3) E f r c) ∧
      (∀ s ∈ d'.posted, ∃ E f r, SignalTo E f r (addedFor E f r (mixedEvents.take 3)) s) ∧
      ∀ e, mixedEvents[3]? = some e → ∃ d'', acsStep (fun _ _ => false) d' e = .ok d'' ∧
        Clears d' d'' (eventKey e) (addedId e).toFinset :=
  acsStep_run_delivers rfl rfl (by decide) (by decide +kernel) 3

/-- A pending signal that BPv7 created goes out without destination or ids, and stays pending. -/
theorem acsStep_run_not_delivers :
    ∃ d, run (acsStep fun _ _ => false) {} ([.addBibeBundleToAcs 7 "ipn:1.0" true 0 1,
        .acsExpired (acsKey "ipn:1.0" true 0) 0] : List AcsEvent) = .ok d ∧
      d.posted.map (fun s => (s.dest, s.payload)) = [(none, [])] ∧
      pendingIds (pendingAt d (acsKey "ipn:1.0" true 0)) = {1} ∧
      (pendingAt d (acsKey "ipn:1.0" true 0)).pacsId = 0 := by
  decide +kernel

end Dtnme.Bundling
