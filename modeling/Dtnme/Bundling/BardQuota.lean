import Dtnme.Bundling.BardCounters

/-! # Quotas of internal storage

A convergence layer asks the restaging daemon before it accepts a bundle, and the bundle daemon tells
it later that the bundle was accepted, in any interleaving for different bundles. A query reserves no
space under a quota, so what was approved and is not accepted yet has to fit the quota by other means.
-/

namespace Dtnme.Bundling
open Library

namespace Bard

variable {e : Site} {B : Finset ℕ} {s t u : Bard}

/-! ## What a query decides -/

/-- Whether internal storage is open for a bundle by one of its keys. -/
def letsIn (e : Site) (s : Bard) (p : ℕ × Bool) : Bool :=
  match s.quotaMap.find? (e.key p) with
  | some r => s.acceptsInternal e r p
  | none => true

/-- Nothing changed that an internal quota is checked with. -/
structure Quiet (e : Site) (s t : Bard) : Prop where
  quotaMap : t.quotaMap = s.quotaMap
  usages : ∀ k r, s.quotaMap.find? k = some r → t.usages r = s.usages r
  amount : ∀ p a, s.quotaMap.find? (e.key p) ≠ none → t.amount a p = s.amount a p
  inuse : t.amount .inuseInternal = s.amount .inuseInternal
  link : t.restageLinkName = s.restageLinkName

theorem Quiet.refl (e : Site) (s : Bard) : Quiet e s s :=
  ⟨rfl, fun _ _ _ => rfl, fun _ _ _ => rfl, rfl, rfl⟩

theorem Quiet.trans (h : Quiet e s t) (h' : Quiet e t u) : Quiet e s u where
  quotaMap := h'.quotaMap.trans h.quotaMap
  usages := fun k r hr => (h'.usages k r (h.quotaMap ▸ hr)).trans (h.usages k r hr)
  amount := fun p a hp => (h'.amount p a (h.quotaMap ▸ hp)).trans (h.amount p a hp)
  inuse := h'.inuse.trans h.inuse
  link := h'.link.trans h.link

theorem Quiet.letsIn (h : Quiet e s t) (p : ℕ × Bool) : t.letsIn e p = s.letsIn e p := by
  unfold Bard.letsIn
  rw [h.quotaMap]
  cases hq : s.quotaMap.find? (e.key p) with
  | none => rfl
  | some r =>
    simp only [acceptsInternal]
    rw [h.usages _ r hq, h.amount p _ (by rw [hq]; nofun)]

theorem Exact.newRecord_quiet (h : Exact e B s) (k : String) (v : Usage) :
    Quiet e s (s.newRecord k v) where
  quotaMap := rfl
  usages := fun j r hr => Function.update_of_ne (h.below j r (h.shared j r hr)).ne ..
  amount := fun _ _ _ => rfl
  inuse := rfl
  link := rfl

theorem Exact.findOrCreate_quiet (h : Exact e B s) (k : String) :
    Quiet e s (s.findOrCreate k).1 := by
  unfold Bard.findOrCreate
  split
  · exact Quiet.refl e s
  · exact h.newRecord_quiet k {}

/-- The record of a key without a quota is not one of `quota_map_`. -/
theorem Exact.setAccount_quiet (h : Exact e B s) {p : ℕ × Bool} {r : ℕ} {a : Account} (c : Tally)
    (n : ℕ) (hq : s.quotaMap.find? (e.key p) = none) (hr : s.usageMap.find? (e.key p) = some r)
    (ha : a ≠ .inuseInternal) : Quiet e s (s.setAccount r a p c n) where
  quotaMap := rfl
  usages := by
    intro k q hk
    apply Function.update_of_ne
    rintro rfl
    rw [h.apart k _ q (h.shared k q hk) hr, hq] at hk
    cases hk
  amount := by
    intro q a' hk
    by_cases ha' : a' = a
    · rw [ha', amount_setAccount_self]
      apply Function.update_of_ne
      rintro rfl
      exact hk hq
    · rw [amount_setAccount_of_ne ha']
  inuse := amount_setAccount_of_ne ha.symm
  link := rfl

theorem Kept.queryInternal_quiet (h : Kept e B s) (p : ℕ × Bool) :
    Quiet e s (s.queryAcceptBundleIntoInternalStorage e p false).1 ∧
      (s.queryAcceptBundleIntoInternalStorage e p false).2 = s.letsIn e p := by
  unfold queryAcceptBundleIntoInternalStorage Bard.letsIn
  cases hq : s.quotaMap.find? (e.key p) with
  | some r => simp [Quiet.refl]
  | none =>
    obtain ⟨t, r, ht, hk, hr, -, hmap, -⟩ := h.findOrCreate (e.key p)
    have hquiet := h.findOrCreate_quiet (e.key p)
    rw [ht] at hquiet
    simp only [ht, and_true]
    apply hquiet.trans
    unfold Bard.reserve
    split_ifs
    · exact hk.setAccount_quiet _ _ (hmap ▸ hq) hr (by decide)
    · exact Quiet.refl e t

/-- Both checks of a query, which reserves nothing. -/
theorem Kept.queryBoth_cases (h : Kept e B s) (hB : e.Fits B) {b : ℕ} (hb : b ∈ B)
    (links : List RestageLink) (next : Bard → Bard × Bool) :
    ∃ t, Quiet e s t ∧ Kept e B t ∧
      ((∀ side, s.letsIn e (b, side) = true) ∧ s.queryBoth e links b false next = next t ∨
        (∃ side, s.letsIn e (b, side) = false) ∧ ∃ side, s.queryBoth e links b false next =
          t.queryAcceptBundleIntoExternalStorage e links (b, side)) := by
  have hdst := h.queryInternal hB (p := (b, false)) hb false
  have hsrc := hdst.queryInternal hB (p := (b, true)) hb false
  obtain ⟨hq, hout⟩ := h.queryInternal_quiet (b, false)
  obtain ⟨hq', hout'⟩ := hdst.queryInternal_quiet (b, true)
  rw [hq.letsIn] at hout'
  refine ⟨_, hq.trans hq', hsrc, ?_⟩
  unfold Bard.queryBoth
  dsimp only
  rw [hout, hout']
  cases hd : s.letsIn e (b, false) with
  | false => exact .inr ⟨⟨false, hd⟩, false, rfl⟩
  | true =>
    cases hs : s.letsIn e (b, true) with
    | false => exact .inr ⟨⟨true, hs⟩, true, rfl⟩
    | true =>
      refine .inl ⟨fun side => ?_, rfl⟩
      cases side
      · exact hd
      · exact hs

/-- The second check decides as the first one, as nothing was reserved in between. -/
theorem Kept.query_cases (h : Kept e B s) (hB : e.Fits B) {b : ℕ} (hb : b ∈ B)
    (links : List RestageLink) :
    ∃ t, Quiet e s t ∧ Kept e B t ∧
      ((∀ side, s.letsIn e (b, side) = true) ∧ s.queryAcceptBundle e links b = (t, true) ∨
        (∃ side, s.letsIn e (b, side) = false) ∧ ∃ side, s.queryAcceptBundle e links b =
          t.queryAcceptBundleIntoExternalStorage e links (b, side)) := by
  unfold Bard.queryAcceptBundle
  obtain ⟨t, hq, hk, ⟨hin, heq⟩ | hout⟩ := h.queryBoth_cases hB hb links
    fun s => s.queryBoth e links b false fun s => (s, true)
  · obtain ⟨t', hq', hk', ⟨_, heq'⟩ | ⟨⟨side, hside⟩, _⟩⟩ := hk.queryBoth_cases hB hb links
      fun s => (s, true)
    · exact ⟨t', hq.trans hq', hk', .inl ⟨hin, heq.trans heq'⟩⟩
    · rw [hq.letsIn, hin side] at hside
      cases hside
  · exact ⟨t, hq, hk, .inr hout⟩

/-! ## Quotas -/

/-- The internal quota of a key, without limits if there is none. -/
def quotaOf (s : Bard) (k : String) : Tally :=
  ((s.quotaMap.find? k).map fun r => (s.usages r).quota.internal).getD {}

/-- Quotas are the same, and what is in use. -/
structure Steady (s t : Bard) : Prop where
  quota : ∀ k, t.quotaOf k = s.quotaOf k
  inuse : t.amount .inuseInternal = s.amount .inuseInternal

theorem Quiet.steady (h : Quiet e s t) : Steady s t where
  quota := by
    intro k
    unfold quotaOf
    rw [h.quotaMap]
    cases hq : s.quotaMap.find? k with
    | none => rfl
    | some r => simp only [Option.map_some, h.usages k r hq]
  inuse := h.inuse

theorem Steady.trans (h : Steady s t) (h' : Steady t u) : Steady s u :=
  ⟨fun k => (h'.quota k).trans (h.quota k), h'.inuse.trans h.inuse⟩

theorem quotaOf_setAccount (r : ℕ) (a : Account) (p : ℕ × Bool) (c : Tally) (n : ℕ) (k : String) :
    (s.setAccount r a p c n).quotaOf k = s.quotaOf k := by
  unfold quotaOf
  change ((s.quotaMap.find? k).map fun q => (Function.update s.usages r _ q).quota.internal).getD {} = _
  congr 2
  funext q
  by_cases hq : q = r
  · rw [hq, Function.update_self]
  · rw [Function.update_of_ne hq]

theorem steady_reserve (s : Bard) (r : ℕ) {a : Account} (p : ℕ × Bool) (n : ℕ)
    (ha : a ≠ .inuseInternal) : Steady s (s.reserve r a p n) := by
  unfold Bard.reserve
  split_ifs
  · exact ⟨quotaOf_setAccount r a p _ n, amount_setAccount_of_ne ha.symm⟩
  · exact ⟨fun _ => rfl, rfl⟩

theorem reserve_restageLinkName (s : Bard) (r : ℕ) (a : Account) (p : ℕ × Bool) (n : ℕ) :
    (s.reserve r a p n).restageLinkName = s.restageLinkName := by
  unfold Bard.reserve
  split_ifs
  · rfl
  · rfl

/-- A link that was found has a name. -/
theorem Site.findRestageLinkInGoodState_ne (e : Site) {links : List RestageLink}
    {linkName found : String} (h : e.findRestageLinkInGoodState links linkName = some found) :
    found ≠ "" := by
  unfold Site.findRestageLinkInGoodState at h
  dsimp only at h
  split_ifs at h with honline hpool
  · cases hl : links.find? (·.name = linkName) with
    | none => simp [hl] at honline
    | some l =>
      cases h
      have hname := List.find?_some hl
      rw [← of_decide_eq_true hname]
      exact l.named
  · obtain ⟨l, -, rfl⟩ := Option.map_eq_some_iff.mp h
    exact l.named

/-- A bundle for external storage has a link. -/
theorem queryExternal_steady (e : Site) (s : Bard) (links : List RestageLink) (p : ℕ × Bool) :
    Steady s (s.queryAcceptBundleIntoExternalStorage e links p).1 ∧
      (∀ b, b ≠ p.1 → (s.queryAcceptBundleIntoExternalStorage e links p).1.restageLinkName b =
        s.restageLinkName b) ∧
      ((s.queryAcceptBundleIntoExternalStorage e links p).2 = true →
        (s.queryAcceptBundleIntoExternalStorage e links p).1.restageLinkName p.1 ≠ "") := by
  unfold queryAcceptBundleIntoExternalStorage
  cases hq : s.quotaMap.find? (e.key p) with
  | none => exact ⟨⟨fun _ => rfl, rfl⟩, fun _ _ => rfl, nofun⟩
  | some r =>
    dsimp only
    cases hx : s.acceptsExternal e links r p with
    | none => exact ⟨⟨fun _ => rfl, rfl⟩, fun _ _ => rfl, nofun⟩
    | some linkName =>
      have hsteady := steady_reserve s r p (e.payloadLen p.1) (a := .reservedExternal) (by decide)
      refine ⟨⟨hsteady.quota, hsteady.inuse⟩, fun b hb => ?_, fun _ => ?_⟩
      · refine (Function.update_of_ne hb ..).trans ?_
        rw [reserve_restageLinkName]
      · simp only [acceptsExternal] at hx
        split_ifs at hx
        change Function.update (s.reserve r .reservedExternal p (e.payloadLen p.1)).restageLinkName
          p.1 linkName p.1 ≠ ""
        rw [Function.update_self]
        exact e.findRestageLinkInGoodState_ne hx

/-- Quotas are the same, and the links of other bundles. -/
structure Elsewhere (b : ℕ) (s t : Bard) : Prop where
  quota : ∀ k, t.quotaOf k = s.quotaOf k
  link : ∀ c, c ≠ b → t.restageLinkName c = s.restageLinkName c

theorem Elsewhere.trans {b : ℕ} (h : Elsewhere b s t) (h' : Elsewhere b t u) : Elsewhere b s u :=
  ⟨fun k => (h'.quota k).trans (h.quota k), fun c hc => (h'.link c hc).trans (h.link c hc)⟩

theorem elsewhere_reverse {r : ℕ} {a : Account} {p : ℕ × Bool} (h : s.reverse r a p = .ok t)
    (b : ℕ) : Elsewhere b s t := by
  unfold Bard.reverse at h
  split_ifs at h
  · simp only [bind, Except.bind, require] at h
    split_ifs at h
    cases h
    exact ⟨quotaOf_setAccount r a p _ 0, fun _ _ => rfl⟩
  · cases h
    exact ⟨fun _ => rfl, fun _ _ => rfl⟩

theorem Kept.elsewhere_acceptedBy (h : Kept e B s) {p : ℕ × Bool}
    (ht : s.bundleAcceptedBy e p = .ok t) : Elsewhere p.1 s t := by
  have hquiet := h.findOrCreate_quiet (e.key p)
  unfold Bard.bundleAcceptedBy at ht
  cases h₁ : (s.findOrCreate (e.key p)).1.reverse (s.findOrCreate (e.key p)).2 .reservedInternal p with
  | error f =>
    simp only [bind, Except.bind, h₁] at ht
    cases ht
  | ok s₁ =>
    cases h₂ : s₁.reverse (s.findOrCreate (e.key p)).2 .reservedExternal p with
    | error f =>
      simp only [bind, Except.bind, h₁, h₂] at ht
      cases ht
    | ok s₂ =>
      simp only [bind, Except.bind, h₁, h₂] at ht
      cases ht
      have hbefore : Elsewhere p.1 s s₂ :=
        (Elsewhere.trans ⟨hquiet.steady.quota, fun c _ => congrFun hquiet.link c⟩
          (elsewhere_reverse h₁ p.1)).trans (elsewhere_reverse h₂ p.1)
      apply hbefore.trans
      exact ⟨quotaOf_setAccount _ _ _ _ _, fun c hc => Function.update_of_ne hc ..⟩

theorem Kept.elsewhere_accepted (h : Kept e B s) (hB : e.Fits B) {b : ℕ} (hb : b ∈ B)
    (hfree : ∀ side, s.amount .inuseInternal (b, side) = 0) (ht : s.bundleAccepted e b = .ok t) :
    Elsewhere b s t := by
  obtain ⟨s₁, h₁, hk₁, -⟩ := h.bundleAcceptedBy hB (p := (b, false)) hb (hfree false)
  simp only [Bard.bundleAccepted, bind, Except.bind, h₁] at ht
  exact (h.elsewhere_acceptedBy h₁).trans (hk₁.elsewhere_acceptedBy (p := (b, true)) ht)

/-! ## Interleavings -/

/-- The bundles that were asked for, and those of them that were approved for internal storage and
are not accepted yet. -/
structure Traffic where
  bard : Bard
  queried : Finset ℕ := ∅
  approved : Finset ℕ := ∅

inductive Event
  | query (b : ℕ) (links : List RestageLink)
  | accepted (b : ℕ)

namespace Traffic

/-- Approved for internal storage is what has no restage link. -/
def answered (t : Traffic) (b : ℕ) (answer : Bard × Bool) : Traffic where
  bard := answer.1
  queried := insert b t.queried
  approved :=
    if answer.2 = true ∧ answer.1.restageLinkName b = "" then insert b t.approved else t.approved

def step (e : Site) (t : Traffic) : Event → Except Fault Traffic
  | .query b links => .ok (t.answered b (t.bard.queryAcceptBundle e links b))
  | .accepted b => do
    let s ← t.bard.bundleAccepted e b
    pure { t with bard := s, approved := t.approved.erase b }

/-- A bundle is asked for once, and accepted after it was approved. -/
def Allowed (t : Traffic) : Event → Prop
  | .query b _ => b ∉ t.queried
  | .accepted b => b ∈ t.approved

end Traffic

/-- What is in use of a key is within its quota. -/
def Within (s : Bard) (k : String) : Prop := (s.quotaOf k).Allows (s.tallyOf .inuseInternal k)

/-- What is in use, or will be if the bundles `A` are accepted. -/
def promised (e : Site) (s : Bard) (A : Finset ℕ) (p : ℕ × Bool) : ℕ :=
  if p.1 ∈ A then e.payloadLen p.1 else s.amount .inuseInternal p

namespace Traffic

/-- A query that finds internal storage open comes when the bundle fits the quota, together with
what is in use and with the approved bundles. -/
def StepFits (e : Site) (B : Finset ℕ) (k : String) (t : Traffic) : Event → Prop
  | .query b _ => (∀ side, t.bard.letsIn e (b, side) = true) → (t.bard.quotaOf k).Allows
      (Library.tally e.key (promised e t.bard (insert b t.approved)) (B ×ˢ Finset.univ) k)
  | .accepted _ => True

/-- The bundles `I` come in; they are not in use before they are accepted. -/
structure Sound (e : Site) (B I : Finset ℕ) (t : Traffic) : Prop where
  kept : Kept e B t.bard
  approved : ∀ b ∈ t.approved, b ∈ t.queried ∧ b ∈ I ∧ ∀ side, t.bard.amount .inuseInternal (b, side) = 0
  incoming : ∀ b ∈ I, b ∉ t.queried → t.bard.restageLinkName b = "" ∧
    ∀ side, t.bard.amount .inuseInternal (b, side) = 0

def outlook (e : Site) (t : Traffic) : ℕ × Bool → ℕ := promised e t.bard t.approved

variable {I : Finset ℕ} {v w : Traffic}

theorem Sound.answered (h : Sound e B I v) {b : ℕ} (hb : b ∈ I) (hnew : b ∉ v.queried)
    {answer : Bard × Bool} (hk : Kept e B answer.1)
    (hsame : answer.1.amount .inuseInternal = v.bard.amount .inuseInternal)
    (hlink : ∀ c, c ≠ b → answer.1.restageLinkName c = v.bard.restageLinkName c) :
    Sound e B I (v.answered b answer) := by
  have hold : ∀ c ∈ v.approved, c ∈ insert b v.queried ∧ c ∈ I ∧
      ∀ side, answer.1.amount .inuseInternal (c, side) = 0 := by
    intro c hc
    obtain ⟨hq, hI, hfree⟩ := h.approved c hc
    rw [hsame]
    exact ⟨Finset.mem_insert_of_mem hq, hI, hfree⟩
  constructor
  case kept => exact hk
  case approved =>
    intro c hc
    simp only [Traffic.answered] at hc
    split_ifs at hc
    · rcases Finset.mem_insert.mp hc with rfl | hc
      · refine ⟨Finset.mem_insert_self _ _, hb, ?_⟩
        change ∀ side, answer.1.amount .inuseInternal (c, side) = 0
        rw [hsame]
        exact (h.incoming c hb hnew).2
      · exact hold c hc
    · exact hold c hc
  case incoming =>
    intro c hc hcq
    have hne : c ≠ b := fun hcb => hcq (hcb ▸ Finset.mem_insert_self _ _)
    obtain ⟨hl, hfree⟩ := h.incoming c hc fun hq => hcq (Finset.mem_insert_of_mem hq)
    change answer.1.restageLinkName c = "" ∧ ∀ side, answer.1.amount .inuseInternal (c, side) = 0
    rw [hlink c hne, hsame]
    exact ⟨hl, hfree⟩

/-- What a query does: it approves the bundle if both checks let it in. -/
theorem Sound.query (h : Sound e B I v) (hB : e.Fits B) (hI : I ⊆ B) {b : ℕ} (hb : b ∈ I)
    (hnew : b ∉ v.queried) (links : List RestageLink) :
    ∃ w, v.step e (.query b links) = .ok w ∧ Sound e B I w ∧ Steady v.bard w.bard ∧
      w.approved = if ∀ side, v.bard.letsIn e (b, side) = true then insert b v.approved
        else v.approved := by
  obtain ⟨s, hquiet, hk, ⟨hin, heq⟩ | ⟨⟨side, hside⟩, side', heq⟩⟩ :=
    h.kept.query_cases hB (hI hb) links
  · refine ⟨v.answered b (s, true), ?_, ?_, hquiet.steady, ?_⟩
    · rw [Traffic.step, heq]
    · exact h.answered hb hnew hk hquiet.inuse fun c _ => congrFun hquiet.link c
    · rw [if_pos hin]
      apply if_pos
      exact ⟨rfl, (congrFun hquiet.link b).trans (h.incoming b hb hnew).1⟩
  · obtain ⟨hsteady, hother, hnamed⟩ := queryExternal_steady e s links (b, side')
    refine ⟨_, by rw [Traffic.step, heq], ?_, hquiet.steady.trans hsteady, ?_⟩
    · apply h.answered hb hnew (hk.queryExternal hB (p := (b, side')) (hI hb) links)
      · exact hsteady.inuse.trans hquiet.inuse
      · intro c hc
        exact (hother c hc).trans (congrFun hquiet.link c)
    · rw [if_neg fun hin => by rw [hin side] at hside; cases hside]
      apply if_neg
      rintro ⟨hokay, hempty⟩
      exact hnamed hokay hempty

/-- What an acceptance does: the bundle was promised, and now it is in use. -/
theorem Sound.accepted (h : Sound e B I v) (hB : e.Fits B) (hI : I ⊆ B) {b : ℕ}
    (hb : b ∈ v.approved) : ∃ w, v.step e (.accepted b) = .ok w ∧ Sound e B I w ∧
      (∀ k, w.bard.quotaOf k = v.bard.quotaOf k) ∧ w.outlook e = v.outlook e := by
  obtain ⟨hq, hbI, hfree⟩ := h.approved b hb
  obtain ⟨s, hs, hk, hamount⟩ := h.kept.bundleAccepted hB (hI hbI) hfree
  have helse := h.kept.elsewhere_accepted hB (hI hbI) hfree hs
  refine ⟨{ v with bard := s, approved := v.approved.erase b }, ?_, ?_, ?_, ?_⟩
  · simp only [Traffic.step, bind, Except.bind, hs]
    rfl
  · constructor
    case kept => exact hk
    case approved =>
      intro c hc
      obtain ⟨hne, hc⟩ := Finset.mem_erase.mp hc
      obtain ⟨hq, hcI, hfree⟩ := h.approved c hc
      refine ⟨hq, hcI, fun side => ?_⟩
      rw [hamount]
      exact (if_neg hne).trans (hfree side)
    case incoming =>
      intro c hc hcq
      have hne : c ≠ b := fun hcb => hcq (hcb ▸ hq)
      obtain ⟨hl, hfree⟩ := h.incoming c hc hcq
      constructor
      · exact (helse.link c hne).trans hl
      · intro side
        rw [hamount]
        exact (if_neg hne).trans (hfree side)
  · exact helse.quota
  · funext p
    simp only [outlook, promised, hamount, Finset.mem_erase]
    by_cases hp : p.1 = b
    · simp [hp, hb]
    · simp [hp]

/-! ## Runs -/

/-- What is in use or promised is within the quota. -/
def Room (e : Site) (B : Finset ℕ) (k : String) (v : Traffic) : Prop :=
  (v.bard.quotaOf k).Allows (Library.tally e.key (v.outlook e) (B ×ˢ Finset.univ) k)

theorem Sound.within (h : Sound e B I v) {k : String} (hroom : v.Room e B k) :
    Within v.bard k := by
  unfold Within
  rw [h.kept.tally]
  refine tally_allows_mono (fun p => ?_) hroom
  simp only [outlook, promised]
  split_ifs
  · exact h.kept.amount_le _ p
  · exact le_refl _

/-- The bundles of an event. -/
def Comes (I : Finset ℕ) : Event → Prop
  | .query b _ => b ∈ I
  | .accepted _ => True

/-- Promises are kept by every step. It leaves room if it meets the condition, and only then. -/
structure Next (e : Site) (B : Finset ℕ) (i : Event) (v w : Traffic) : Prop where
  quota : ∀ k, w.bard.quotaOf k = v.bard.quotaOf k
  outlook : ∀ p, v.outlook e p ≤ w.outlook e p
  room : ∀ k, v.Room e B k → v.StepFits e B k i → w.Room e B k
  fits : ∀ k, w.Room e B k → v.StepFits e B k i

theorem Sound.step (h : Sound e B I v) (hB : e.Fits B) (hI : I ⊆ B) {i : Event}
    (hcomes : Comes I i) (hok : v.Allowed i) :
    ∃ w, v.step e i = .ok w ∧ Sound e B I w ∧ Next e B i v w := by
  cases i with
  | query b links =>
    obtain ⟨w, hw, hsound, hsteady, happroved⟩ := h.query hB hI hcomes hok links
    refine ⟨w, hw, hsound, ?_⟩
    have hfree := (h.incoming b hcomes hok).2
    by_cases hin : ∀ side, v.bard.letsIn e (b, side) = true
    · rw [if_pos hin] at happroved
      have hlook : w.outlook e = promised e v.bard (insert b v.approved) := by
        funext p
        simp only [outlook, promised, happroved, hsteady.inuse]
      have hroom : ∀ k, w.Room e B k ↔ v.StepFits e B k (.query b links) := by
        intro k
        simp only [Room, StepFits, hlook, hsteady.quota, hin, implies_true, forall_const]
      refine ⟨hsteady.quota, fun p => ?_, fun k _ => (hroom k).mpr, fun k => (hroom k).mp⟩
      rw [hlook]
      simp only [outlook, promised]
      split_ifs with hp hp'
      · exact le_refl _
      · exact absurd (Finset.mem_insert_of_mem hp) hp'
      · exact h.kept.amount_le _ p
      · exact le_refl _
    · rw [if_neg hin] at happroved
      have hlook : w.outlook e = v.outlook e := by
        funext p
        simp only [outlook, promised, happroved, hsteady.inuse]
      refine ⟨hsteady.quota, fun p => by rw [hlook], fun k hroom _ => ?_, fun k _ hall => ?_⟩
      · unfold Room
        rw [hlook, hsteady.quota]
        exact hroom
      · exact absurd hall hin
  | accepted b =>
    obtain ⟨w, hw, hsound, hquota, hlook⟩ := h.accepted hB hI hok
    refine ⟨w, hw, hsound, hquota, fun p => by rw [hlook], fun k hroom _ => ?_, fun _ _ => trivial⟩
    unfold Room
    rw [hlook, hquota]
    exact hroom

/-- A run that begins with a sound state does not fault, and what is promised grows. -/
theorem Sound.run (h : Sound e B I v) (hB : e.Fits B) (hI : I ⊆ B) {events : List Event}
    (hcomes : ∀ i ∈ events, Comes I i) (hok : Meets (Traffic.step e) Allowed v events) :
    ∃ w, Library.run (Traffic.step e) v events = .ok w ∧ Sound e B I w ∧
      (∀ k, w.bard.quotaOf k = v.bard.quotaOf k) ∧ ∀ p, v.outlook e p ≤ w.outlook e p := by
  have hmeets := hok.and_forall hcomes
  exact run_invariant (fun w _ => Sound e B I w ∧ (∀ k, w.bard.quotaOf k = v.bard.quotaOf k) ∧
      ∀ p, v.outlook e p ≤ w.outlook e p)
    (fun w _ i ⟨hw, hquota, hlook⟩ ⟨hi, hcomes⟩ => by
      obtain ⟨w', hw', hsound, hnext⟩ := hw.step hB hI hcomes hi
      exact ⟨w', hw', hsound, fun k => (hnext.quota k).trans (hquota k),
        fun p => (hlook p).trans (hnext.outlook p)⟩)
    ⟨h, fun _ => rfl, fun _ => le_refl _⟩ hmeets

/-- Room is left if every query meets the condition. -/
theorem Sound.room (h : Sound e B I v) (hB : e.Fits B) (hI : I ⊆ B) {events : List Event}
    (hcomes : ∀ i ∈ events, Comes I i) (hok : Meets (Traffic.step e) Allowed v events) {k : String}
    (hroom : v.Room e B k) (hfits : Meets (Traffic.step e) (StepFits e B k) v events) :
    ∃ w, Library.run (Traffic.step e) v events = .ok w ∧ Sound e B I w ∧ w.Room e B k :=
  run_invariant (fun w _ => Sound e B I w ∧ w.Room e B k)
    (fun w _ i ⟨hw, hroom⟩ ⟨⟨hi, hfits⟩, hcomes⟩ => by
      obtain ⟨w', hw', hsound, hnext⟩ := hw.step hB hI hcomes hi
      exact ⟨w', hw', hsound, hnext.room k hroom hfits⟩)
    ⟨h, hroom⟩ ((hok.and hfits).and_forall hcomes)

/-- If there is room at the end of a run, every query met the condition. -/
theorem Sound.meets_fits (h : Sound e B I v) (hB : e.Fits B) (hI : I ⊆ B) {events : List Event}
    (hcomes : ∀ i ∈ events, Comes I i) (hok : Meets (Traffic.step e) Allowed v events) {k : String}
    (hrun : Library.run (Traffic.step e) v events = .ok w) (hroom : w.Room e B k) :
    Meets (Traffic.step e) (StepFits e B k) v events := by
  induction events generalizing v with
  | nil => trivial
  | cons i events ih =>
    obtain ⟨hi, hok⟩ := hok
    have hcomes' : ∀ j ∈ events, Comes I j := fun j hj => hcomes j (List.mem_cons_of_mem _ hj)
    obtain ⟨v', hv', hsound, hnext⟩ := h.step hB hI (hcomes i List.mem_cons_self) hi
    rw [hv'] at hok
    simp only [Library.run, hv'] at hrun
    obtain ⟨w', hw', hsound', hquota, hlook⟩ := hsound.run hB hI hcomes' hok
    cases hw'.symm.trans hrun
    have hroom' : v'.Room e B k := by
      unfold Room
      rw [← hquota]
      exact tally_allows_mono hlook hroom
    refine ⟨hnext.fits k hroom', ?_⟩
    rw [hv']
    exact ih hsound hcomes' hok hrun

/-- In a run that meets the condition a quota is never exceeded; and the condition is met in a run
that never exceeds it, if at its end all approved bundles are accepted. -/
theorem quota_enforced (e : Site) (hB : e.Fits B) (hI : I ⊆ B) {s : Bard} (hs : Kept e B s)
    (hfresh : ∀ b ∈ I, s.restageLinkName b = "" ∧ ∀ side, s.amount .inuseInternal (b, side) = 0)
    {events : List Event} (hcomes : ∀ i ∈ events, Comes I i)
    (hok : Meets (Traffic.step e) Allowed { bard := s } events) {k : String} (hk : Within s k) :
    (Meets (Traffic.step e) (StepFits e B k) { bard := s } events →
      ∀ n, ∃ w, Library.run (Traffic.step e) { bard := s } (events.take n) = .ok w ∧
        Within w.bard k) ∧
    ((∀ w, Library.run (Traffic.step e) { bard := s } events = .ok w → w.approved = ∅) →
      (∀ n, ∃ w, Library.run (Traffic.step e) { bard := s } (events.take n) = .ok w ∧
        Within w.bard k) →
      Meets (Traffic.step e) (StepFits e B k) { bard := s } events) := by
  have hsound : Sound e B I { bard := s } :=
    ⟨hs, fun b hb => absurd hb (Finset.notMem_empty b), fun b hb _ => hfresh b hb⟩
  have hroom (w : Traffic) (hw : Kept e B w.bard) (hnone : w.approved = ∅) :
      w.Room e B k ↔ Within w.bard k := by
    have hlook : w.outlook e = w.bard.amount .inuseInternal := by
      funext p
      simp [outlook, promised, hnone]
    rw [Room, Within, hlook, hw.tally]
  constructor
  · intro hfits n
    obtain ⟨w, hw, hsound', hroom'⟩ := hsound.room hB hI
      (fun i hi => hcomes i (List.mem_of_mem_take hi)) (hok.take n) ((hroom _ hs rfl).mpr hk)
      (hfits.take n)
    exact ⟨w, hw, hsound'.within hroom'⟩
  · intro hdone hwithin
    obtain ⟨w, hw, hk'⟩ := hwithin events.length
    rw [List.take_length] at hw
    obtain ⟨w', hw', hsound', -⟩ := hsound.run hB hI hcomes hok
    cases hw.symm.trans hw'
    exact hsound.meets_fits hB hI hcomes hok hw ((hroom w hsound'.kept (hdone w hw)).mpr hk')

instance (t : Traffic) (i : Event) : Decidable (t.Allowed i) :=
  match i with
  | .query b _ => inferInstanceAs (Decidable (b ∉ t.queried))
  | .accepted b => inferInstanceAs (Decidable (b ∈ t.approved))

instance (B : Finset ℕ) (k : String) (t : Traffic) (i : Event) : Decidable (t.StepFits e B k i) :=
  match i with
  | .query b _ => inferInstanceAs (Decidable ((∀ side, t.bard.letsIn e (b, side) = true) →
      (t.bard.quotaOf k).Allows
        (Library.tally e.key (promised e t.bard (insert b t.approved)) (B ×ˢ Finset.univ) k)))
  | .accepted _ => inferInstanceAs (Decidable True)

instance (s : Bard) (k : String) : Decidable (Within s k) :=
  inferInstanceAs (Decidable ((s.quotaOf k).Allows (s.tallyOf .inuseInternal k)))

instance (i : Event) : Decidable (Comes I i) :=
  match i with
  | .query b _ => inferInstanceAs (Decidable (b ∈ I))
  | .accepted _ => inferInstanceAs (Decidable True)

/-- One bundle is allowed for the node. -/
def oneAllowed : Bard := ({} : Bard).bardcmdAddQuota .dst .dtn "//node" { internal := ⟨1, 0⟩ }

theorem kept_oneAllowed (B : Finset ℕ) : Kept oneDestination B oneAllowed :=
  (kept_empty _ B).bardcmdAddQuota ..

/-- The second bundle is asked for when the first one is in use, and refused. -/
theorem quota_enforced_one_by_one : ∃ w, Library.run (Traffic.step oneDestination)
    { bard := oneAllowed } ([.query 0 [], .accepted 0, .query 1 []].take 3) = .ok w ∧
      Within w.bard (makeKey .dst .dtn "//node") :=
  (quota_enforced (B := {0, 1}) (I := {0, 1}) oneDestination (by change _ < _; decide +kernel)
    (by decide) (kept_oneAllowed _) (by decide +kernel) (by decide +kernel) (by decide +kernel)
    (by decide +kernel)).1 (by decide +kernel) 3

/-- Two bundles are approved before one of them is accepted. -/
theorem quota_exceeded :
    Meets (Traffic.step oneDestination) Allowed { bard := oneAllowed }
        [.query 0 [], .query 1 [], .accepted 0, .accepted 1] ∧
      Within oneAllowed (makeKey .dst .dtn "//node") ∧
      ∃ w, Library.run (Traffic.step oneDestination) { bard := oneAllowed }
          [.query 0 [], .query 1 [], .accepted 0, .accepted 1] = .ok w ∧
        ¬ Within w.bard (makeKey .dst .dtn "//node") := by
  decide +kernel

end Traffic

end Bard

end Dtnme.Bundling
