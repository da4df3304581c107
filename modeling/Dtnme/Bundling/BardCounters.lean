import Dtnme.Bundling.Bard

/-! # The counters of the restaging daemon

Every counter of a key is the tally of what the bundles of that key record for it. A step keeps this,
if it does not accept a bundle that is in use already, and if the quotas that are loaded do not replace
a record which bundles are counted in.
-/

namespace Dtnme.Bundling
open Library

namespace Bard

/-! ## Keys and amounts -/

theorem makeKey_ne (scheme scheme' : NamingScheme) (nodename nodename' : String) :
    makeKey .src scheme nodename ≠ makeKey .dst scheme' nodename' := by
  intro h
  have := congrArg (fun s => s.toList.head?) h
  simp [makeKey] at this

theorem Site.key_src_ne_dst (e : Site) (b c : ℕ) : e.key (b, true) ≠ e.key (c, false) := by
  simp only [Site.key, makeBardNodeStorageUsageKey, if_true, Bool.false_eq_true, if_false]
  split <;> split <;> exact makeKey_ne _ _ _ _

/-- The bundles are small enough to be counted, together with one block more for each of them. -/
def Site.Fits (e : Site) (B : Finset ℕ) : Prop :=
  ∑ b ∈ B, (e.payloadLength b + e.blockSize) < 2 ^ 64

variable {e : Site} {B : Finset ℕ} {s : Bard}

theorem Site.Fits.lt (h : e.Fits B) {b : ℕ} (hb : b ∈ B) :
    e.payloadLength b + e.blockSize < 2 ^ 64 :=
  (Finset.single_le_sum (f := fun b => e.payloadLength b + e.blockSize)
    (fun _ _ => Nat.zero_le _) hb).trans_lt h

theorem Site.Fits.payloadLen_eq (h : e.Fits B) {b : ℕ} (hb : b ∈ B) :
    e.payloadLen b = e.blockSize * ((e.payloadLength b + e.blockSize) / e.blockSize) := by
  have hlt := h.lt hb
  rw [Site.payloadLen, u64_of_lt hlt, u64_of_lt ((Nat.mul_div_le _ _).trans_lt hlt)]

theorem Site.Fits.payloadLen_pos (h : e.Fits B) {b : ℕ} (hb : b ∈ B) : 0 < e.payloadLen b := by
  rw [h.payloadLen_eq hb]
  apply Nat.mul_pos e.blockSize_pos
  exact Nat.div_pos (Nat.le_add_left _ _) e.blockSize_pos

/-- The bundles of a key are counted once. -/
theorem Site.sum_key_le (e : Site) (B : Finset ℕ) (f : ℕ → ℕ) (k : String) :
    ∑ p ∈ B ×ˢ Finset.univ with e.key p = k, f p.1 ≤ ∑ b ∈ B, f b := by
  rw [Finset.sum_filter, Finset.sum_product]
  apply Finset.sum_le_sum
  intro b _
  simp only [Fintype.sum_bool]
  by_cases hsrc : e.key (b, true) = k
  · have hdst : e.key (b, false) ≠ k := fun h => e.key_src_ne_dst b b (hsrc.trans h.symm)
    simp [hsrc, hdst]
  · simp only [hsrc, if_false]
    split_ifs <;> omega

theorem Site.Fits.sum_payloadLen_lt (h : e.Fits B) (k : String) :
    ∑ p ∈ B ×ˢ Finset.univ with e.key p = k, e.payloadLen p.1 < 2 ^ 64 := by
  apply (e.sum_key_le B e.payloadLen k).trans_lt
  apply lt_of_le_of_lt _ h
  apply Finset.sum_le_sum
  intro b hb
  rw [h.payloadLen_eq hb]
  exact Nat.mul_div_le _ _

/-! ## The invariant -/

/-- The counter of a key; without a record nothing was counted. -/
def tallyOf (s : Bard) (a : Account) (k : String) : Tally :=
  ((s.usageMap.find? k).map fun r => (s.usages r).tally a).getD {}

/-- The counters are exact, over the bundles `B`, and the maps share one record for each key. -/
structure Exact (e : Site) (B : Finset ℕ) (s : Bard) : Prop where
  amount : ∀ a p, s.amount a p ≠ 0 → p.1 ∈ B ∧ s.amount a p = e.payloadLen p.1
  tally : ∀ a k, s.tallyOf a k = Library.tally e.key (s.amount a) (B ×ˢ Finset.univ) k
  shared : ∀ k r, s.quotaMap.find? k = some r → s.usageMap.find? k = some r
  apart : ∀ k k' r, s.usageMap.find? k = some r → s.usageMap.find? k' = some r → k = k'
  below : ∀ k r, s.usageMap.find? k = some r → r < s.next

/-- Before quotas were loaded no record says that it is in the data store. -/
def Unstored (s : Bard) : Prop :=
  s.started = false → ∀ k r, s.usageMap.find? k = some r → (s.usages r).quotaInDatastore = false

theorem exact_empty (e : Site) (B : Finset ℕ) : Exact e B {} where
  amount := fun _ _ h => absurd rfl h
  tally := fun _ k => (tally_zero k fun _ _ => rfl).symm
  shared := nofun
  apart := nofun
  below := nofun

/-! ## Records -/

theorem tallyOf_eq {a : Account} {k : String} {r : ℕ} (h : s.usageMap.find? k = some r) :
    s.tallyOf a k = (s.usages r).tally a := by
  simp [tallyOf, h]

theorem tallyOf_setUsage {r : ℕ} {u : Usage} (h : u.tally = (s.usages r).tally) (a : Account)
    (k : String) : (s.setUsage r u).tallyOf a k = s.tallyOf a k := by
  unfold tallyOf
  change ((s.usageMap.find? k).map fun q => (Function.update s.usages r u q).tally a).getD {} = _
  congr 2
  funext q
  by_cases hq : q = r
  · rw [hq, Function.update_self, h]
  · rw [Function.update_of_ne hq]

theorem Exact.setUsage (h : Exact e B s) {r : ℕ} {u : Usage} (hu : u.tally = (s.usages r).tally) :
    Exact e B (s.setUsage r u) where
  amount := h.amount
  tally := fun a k => (tallyOf_setUsage hu a k).trans (h.tally a k)
  shared := h.shared
  apart := h.apart
  below := h.below

theorem Unstored.setUsage (h : Unstored s) {r : ℕ} {u : Usage}
    (hu : s.started = false → (∃ k, s.usageMap.find? k = some r) → u.quotaInDatastore = false) :
    Unstored (s.setUsage r u) := by
  intro hs k q hq
  change (Function.update s.usages r u q).quotaInDatastore = false
  by_cases hqr : q = r
  · rw [hqr, Function.update_self]
    exact hu hs ⟨k, hqr ▸ hq⟩
  · rw [Function.update_of_ne hqr]
    exact h hs k q hq

/-- A new record, under a key that nothing is counted in. -/
theorem Exact.newRecord (h : Exact e B s) {k : String} {u : Usage}
    (hk : s.quotaMap.find? k = none) (hzero : ∀ a, s.tallyOf a k = {}) (hu : u.tally = fun _ => {}) :
    Exact e B (s.newRecord k u) := by
  have hfind : ∀ j, (s.newRecord k u).usageMap.find? j =
      if j = k then some s.next else s.usageMap.find? j := fun j => OrdMap.find?_insert ..
  constructor
  case amount => exact h.amount
  case tally =>
    intro a j
    change _ = Library.tally e.key (s.amount a) _ j
    rw [← h.tally a j]
    simp only [tallyOf, hfind]
    split_ifs with hj
    · rw [hj, ← tallyOf, hzero a]
      change (Function.update s.usages s.next u s.next).tally a = {}
      rw [Function.update_self, hu]
    · cases hr : s.usageMap.find? j with
      | none => rfl
      | some r =>
        change (Function.update s.usages s.next u r).tally a = (s.usages r).tally a
        rw [Function.update_of_ne (h.below j r hr).ne]
  case shared =>
    intro j r hr
    have hj : j ≠ k := by
      rintro rfl
      exact absurd hr (by rw [show (s.newRecord j u).quotaMap = s.quotaMap from rfl, hk]; nofun)
    rw [hfind, if_neg hj]
    exact h.shared j r hr
  case apart =>
    intro j j' r hj hj'
    rw [hfind] at hj hj'
    split_ifs at hj hj' with h₁ h₂ h₂
    · exact h₁.trans h₂.symm
    · exact absurd (h.below j' r hj') (by cases hj; exact lt_irrefl _)
    · exact absurd (h.below j r hj) (by cases hj'; exact lt_irrefl _)
    · exact h.apart j j' r hj hj'
  case below =>
    intro j r hr
    change r < s.next + 1
    rw [hfind] at hr
    split_ifs at hr with hj
    · cases hr
      exact Nat.lt_succ_self _
    · exact (h.below j r hr).trans (Nat.lt_succ_self _)

theorem Unstored.newRecord (h : Unstored s) (hE : Exact e B s) (k : String) {u : Usage}
    (hu : u.quotaInDatastore = false) : Unstored (s.newRecord k u) := by
  intro hs j r hr
  change (Function.update s.usages s.next u r).quotaInDatastore = false
  rw [show (s.newRecord k u).usageMap.find? j = _ from OrdMap.find?_insert ..] at hr
  split_ifs at hr with hj
  · cases hr
    rw [Function.update_self, hu]
  · rw [Function.update_of_ne (hE.below j r hr).ne]
    exact h hs j r hr

theorem Exact.quotaMap_none (h : Exact e B s) {k : String} (hk : s.usageMap.find? k = none) :
    s.quotaMap.find? k = none := by
  cases hq : s.quotaMap.find? k with
  | none => rfl
  | some r => rw [h.shared k r hq] at hk; cases hk

/-- The invariant of all steps. -/
structure Kept (e : Site) (B : Finset ℕ) (s : Bard) : Prop extends Exact e B s where
  unstored : Unstored s

theorem kept_empty (e : Site) (B : Finset ℕ) : Kept e B {} := ⟨exact_empty e B, fun _ => nofun⟩

theorem Kept.findOrCreate (h : Kept e B s) (k : String) :
    ∃ t r, s.findOrCreate k = (t, r) ∧ Kept e B t ∧ t.usageMap.find? k = some r ∧
      t.amount = s.amount ∧ t.quotaMap = s.quotaMap ∧ t.started = s.started := by
  unfold Bard.findOrCreate
  cases hk : s.usageMap.find? k with
  | some r => exact ⟨s, r, rfl, h, hk, rfl, rfl, rfl⟩
  | none =>
    refine ⟨_, _, rfl, ⟨?_, h.unstored.newRecord h.toExact k rfl⟩, ?_, rfl, rfl, rfl⟩
    · exact h.newRecord (h.quotaMap_none hk) (fun a => by simp [tallyOf, hk]) rfl
    · exact (OrdMap.find?_insert ..).trans (if_pos rfl)

/-! ## Counting -/

section
variable {r : ℕ} {a : Account} {p : ℕ × Bool} {t : Tally} {n : ℕ}

theorem amount_setAccount_self :
    (s.setAccount r a p t n).amount a = Function.update (s.amount a) p n :=
  Function.update_self ..

theorem amount_setAccount_of_ne {a' : Account} (h : a' ≠ a) :
    (s.setAccount r a p t n).amount a' = s.amount a' :=
  Function.update_of_ne h ..

theorem tallyOf_setAccount_self {k : String} (hk : s.usageMap.find? k = some r) :
    (s.setAccount r a p t n).tallyOf a k = t := by
  rw [tallyOf_eq (s := s.setAccount r a p t n) hk]
  change (Function.update s.usages r _ r).tally a = t
  rw [Function.update_self]
  exact Function.update_self ..

theorem Exact.tallyOf_setAccount_of_ne (h : Exact e B s) {k : String}
    (hk : s.usageMap.find? k = some r) {a' : Account} {k' : String} (hne : a' ≠ a ∨ k' ≠ k) :
    (s.setAccount r a p t n).tallyOf a' k' = s.tallyOf a' k' := by
  unfold tallyOf
  change ((s.usageMap.find? k').map fun q => (Function.update s.usages r _ q).tally a').getD {} = _
  cases hk' : s.usageMap.find? k' with
  | none => rfl
  | some q =>
    change (Function.update s.usages r _ q).tally a' = (s.usages q).tally a'
    by_cases hq : q = r
    · have ha : a' ≠ a := hne.resolve_right fun hkk => hkk (h.apart k' k r (hq ▸ hk') hk)
      rw [hq, Function.update_self]
      exact Function.update_of_ne ha ..
    · rw [Function.update_of_ne hq]

/-- A counter that follows an amount. -/
theorem Kept.setAccount (h : Kept e B s) (hr : s.usageMap.find? (e.key p) = some r)
    (hn : n ≠ 0 → p.1 ∈ B ∧ n = e.payloadLen p.1)
    (ht : t = Library.tally e.key (Function.update (s.amount a) p n) (B ×ˢ Finset.univ) (e.key p)) :
    Kept e B (s.setAccount r a p t n) := by
  constructor
  case toExact =>
    refine ⟨?_, ?_, h.shared, h.apart, h.below⟩
    · intro a' q hq
      by_cases ha : a' = a
      · rw [ha, amount_setAccount_self] at hq ⊢
        by_cases hqp : q = p
        · rw [hqp, Function.update_self] at hq ⊢
          exact hn hq
        · rw [Function.update_of_ne hqp] at hq ⊢
          exact h.amount a q hq
      · rw [amount_setAccount_of_ne ha] at hq ⊢
        exact h.amount a' q hq
    · intro a' k
      by_cases ha : a' = a
      · rw [ha, amount_setAccount_self]
        by_cases hk : e.key p = k
        · rw [← hk, tallyOf_setAccount_self hr, ht]
        · rw [h.tallyOf_setAccount_of_ne hr (.inr (Ne.symm hk)), h.tally, tally_update_of_ne n hk]
      · rw [amount_setAccount_of_ne ha, h.tallyOf_setAccount_of_ne hr (.inl ha), h.tally]
  case unstored =>
    exact h.unstored.setUsage fun hs ⟨k, hk⟩ => h.unstored hs k r hk

theorem Exact.amount_le (h : Exact e B s) (a : Account) (q : ℕ × Bool) :
    s.amount a q ≤ e.payloadLen q.1 := by
  by_cases hz : s.amount a q = 0
  · rw [hz]
    exact Nat.zero_le _
  · exact (h.amount a q hz).2.le

/-- There is room to count a bundle that is not counted. -/
theorem Exact.tally_room (h : Exact e B s) (hB : e.Fits B) (hp : p.1 ∈ B) (ha : s.amount a p = 0) :
    let t := s.tallyOf a (e.key p)
    t.count + 1 < 2 ^ 64 ∧ t.total + e.payloadLen p.1 < 2 ^ 64 := by
  intro t
  have hmem : p ∈ B ×ˢ Finset.univ := Finset.mem_product.mpr ⟨hp, Finset.mem_univ _⟩
  have hpos := hB.payloadLen_pos hp
  have hplus := tally_update_self e.key hmem ha hpos.ne'
  rw [← h.tally] at hplus
  have hbound : ∀ q, Function.update (s.amount a) p (e.payloadLen p.1) q ≤ e.payloadLen q.1 := by
    intro q
    by_cases hq : q = p
    · rw [hq, Function.update_self]
    · rw [Function.update_of_ne hq]
      exact h.amount_le a q
  have htotal := (tally_total_le e.key (B ×ˢ Finset.univ) hbound (e.key p)).trans_lt (hB.sum_payloadLen_lt (e.key p))
  have hcount := tally_count_le e.key
    (Function.update (s.amount a) p (e.payloadLen p.1)) (B ×ˢ Finset.univ) (e.key p)
  rw [hplus] at htotal hcount
  exact ⟨hcount.trans_lt htotal, htotal⟩

theorem Kept.charge (h : Kept e B s) (hB : e.Fits B) (hr : s.usageMap.find? (e.key p) = some r)
    (hp : p.1 ∈ B) (ha : s.amount a p = 0) : Kept e B (s.charge r a p (e.payloadLen p.1)) := by
  have hroom := h.tally_room hB hp ha
  rw [tallyOf_eq hr] at hroom
  apply h.setAccount hr fun _ => ⟨hp, rfl⟩
  have hmem : p ∈ B ×ˢ Finset.univ := Finset.mem_product.mpr ⟨hp, Finset.mem_univ _⟩
  rw [tally_update_self e.key hmem ha (hB.payloadLen_pos hp).ne', ← h.tally, tallyOf_eq hr,
    u64_of_lt hroom.1, u64_of_lt hroom.2]
  rfl

theorem Kept.reserve (h : Kept e B s) (hB : e.Fits B) (hr : s.usageMap.find? (e.key p) = some r)
    (hp : p.1 ∈ B) : Kept e B (s.reserve r a p (e.payloadLen p.1)) := by
  unfold Bard.reserve
  split_ifs with ha
  · apply h.charge hB hr hp
    by_contra hne
    exact ha (h.amount a p hne).2
  · exact h

/-- What was counted can be reversed out. -/
theorem Kept.reverse (h : Kept e B s) (hB : e.Fits B) (hr : s.usageMap.find? (e.key p) = some r) :
    ∃ t, s.reverse r a p = .ok t ∧ Kept e B t ∧ t.usageMap = s.usageMap ∧
      ∀ a', a' ≠ a → t.amount a' = s.amount a' := by
  unfold Bard.reverse
  by_cases ha : s.amount a p = 0
  · rw [if_neg (by omega)]
    exact ⟨s, rfl, h, rfl, fun _ _ => rfl⟩
  · obtain ⟨hp, hn⟩ := h.amount a p ha
    have hmem : p ∈ B ×ˢ Finset.univ := Finset.mem_product.mpr ⟨hp, Finset.mem_univ _⟩
    have hclear := tally_clear e.key hmem ha
    rw [← h.tally, tallyOf_eq hr] at hclear
    have htotal := tally_total_le e.key (B ×ˢ Finset.univ) (h.amount_le a) (e.key p)
    have hcount := tally_count_le e.key (s.amount a) (B ×ˢ Finset.univ)
      (e.key p)
    have hlt := hB.sum_payloadLen_lt (e.key p)
    rw [← h.tally, tallyOf_eq hr] at htotal hcount
    have hcount' := congrArg Tally.count hclear
    have htotal' := congrArg Tally.total hclear
    simp only [Tally.plus] at hcount' htotal'
    rw [if_pos (Nat.pos_of_ne_zero ha), require_of (by omega), require_of (by omega)]
    refine ⟨_, rfl, ?_, rfl, fun a' ha' => amount_setAccount_of_ne ha'⟩
    apply h.setAccount hr (fun h0 => absurd rfl h0)
    rw [u64Sub_of_le (by omega) (by omega), u64Sub_of_le (by omega) (by omega), hcount', htotal']
    simp

end

theorem Kept.setRestage (h : Kept e B s) (p : ℕ × Bool) (linkName : String) :
    Kept e B (s.setRestage p linkName) :=
  ⟨⟨h.amount, h.tally, h.shared, h.apart, h.below⟩, h.unstored⟩

theorem Kept.clearRestageLinkName (h : Kept e B s) (b : ℕ) : Kept e B (s.clearRestageLinkName b) :=
  ⟨⟨h.amount, h.tally, h.shared, h.apart, h.below⟩, h.unstored⟩

theorem Kept.setInuseExternal (h : Kept e B s) (r : ℕ) (t : Tally) :
    Kept e B (s.setInuseExternal r t) :=
  ⟨h.toExact.setUsage rfl, h.unstored.setUsage fun hs ⟨k, hk⟩ => h.unstored hs k r hk⟩

/-! ## Queries -/

theorem Kept.queryInternal (h : Kept e B s) (hB : e.Fits B) {p : ℕ × Bool} (hp : p.1 ∈ B)
    (reserveSpace : Bool) : Kept e B (s.queryAcceptBundleIntoInternalStorage e p reserveSpace).1 := by
  unfold queryAcceptBundleIntoInternalStorage
  cases hq : s.quotaMap.find? (e.key p) with
  | some r =>
    dsimp only
    split_ifs
    · exact h.reserve hB (h.shared _ _ hq) hp
    · exact h
  | none =>
    obtain ⟨t, r, ht, hk, hr, -⟩ := h.findOrCreate (e.key p)
    simp only [ht]
    exact hk.reserve hB hr hp

theorem Kept.queryExternal (h : Kept e B s) (hB : e.Fits B) {p : ℕ × Bool} (hp : p.1 ∈ B)
    (links : List RestageLink) : Kept e B (s.queryAcceptBundleIntoExternalStorage e links p).1 := by
  unfold queryAcceptBundleIntoExternalStorage
  cases hq : s.quotaMap.find? (e.key p) with
  | some r =>
    dsimp only
    cases s.acceptsExternal e links r p with
    | some linkName => exact (h.reserve hB (h.shared _ _ hq) hp).setRestage p linkName
    | none => exact h
  | none => exact h

theorem Kept.queryBoth (h : Kept e B s) (hB : e.Fits B) {b : ℕ} (hb : b ∈ B)
    (links : List RestageLink) (reserveSpace : Bool) {next : Bard → Bard × Bool}
    (hnext : ∀ t, Kept e B t → Kept e B (next t).1) :
    Kept e B (s.queryBoth e links b reserveSpace next).1 := by
  have hdst := h.queryInternal hB (p := (b, false)) hb reserveSpace
  have hsrc := hdst.queryInternal hB (p := (b, true)) hb reserveSpace
  unfold Bard.queryBoth
  dsimp only
  split_ifs
  · exact hsrc.queryExternal hB hb links
  · exact hsrc.queryExternal hB hb links
  · exact hnext _ hsrc

theorem Kept.queryAcceptBundle (h : Kept e B s) (hB : e.Fits B) {b : ℕ} (hb : b ∈ B)
    (links : List RestageLink) : Kept e B (s.queryAcceptBundle e links b).1 :=
  h.queryBoth hB hb links false fun _ ht => ht.queryBoth hB hb links false fun _ hu => hu

theorem Kept.queryAcceptBundleInternalStorageOnly (h : Kept e B s) (hB : e.Fits B) {b : ℕ}
    (hb : b ∈ B) : Kept e B (s.queryAcceptBundleInternalStorageOnly e b).1 :=
  (h.queryInternal hB (p := (b, false)) hb true).queryInternal hB (p := (b, true)) hb true

/-! ## Bundles that were accepted, restaged or deleted -/

theorem Kept.bundleAcceptedBy (h : Kept e B s) (hB : e.Fits B) {p : ℕ × Bool} (hp : p.1 ∈ B)
    (hfree : s.amount .inuseInternal p = 0) : ∃ t, s.bundleAcceptedBy e p = .ok t ∧ Kept e B t ∧
      t.amount .inuseInternal =
        Function.update (s.amount .inuseInternal) p (e.payloadLen p.1) := by
  obtain ⟨s₁, r, h₁, hk₁, hr₁, ha₁, -⟩ := h.findOrCreate (e.key p)
  obtain ⟨s₂, h₂, hk₂, hm₂, ha₂⟩ := hk₁.reverse (a := .reservedInternal) hB hr₁
  obtain ⟨s₃, h₃, hk₃, hm₃, ha₃⟩ := hk₂.reverse (a := .reservedExternal) hB (hm₂ ▸ hr₁)
  have hsame : s₃.amount .inuseInternal = s.amount .inuseInternal := by
    rw [ha₃ _ (by decide), ha₂ _ (by decide), ha₁]
  have hk₄ := (hk₃.clearRestageLinkName p.1).charge (a := .inuseInternal) (r := r) (p := p) hB
    (hm₃ ▸ hm₂ ▸ hr₁) hp ((congrFun hsame p).trans hfree)
  refine ⟨_, ?_, hk₄, ?_⟩
  · simp only [Bard.bundleAcceptedBy, h₁, bind, Except.bind, h₂, h₃]
    rfl
  · rw [← hsame]
    exact amount_setAccount_self

theorem Kept.bundleAccepted (h : Kept e B s) (hB : e.Fits B) {b : ℕ} (hb : b ∈ B)
    (hfree : ∀ side, s.amount .inuseInternal (b, side) = 0) :
    ∃ t, s.bundleAccepted e b = .ok t ∧ Kept e B t ∧ t.amount .inuseInternal =
      fun p => if p.1 = b then e.payloadLen b else s.amount .inuseInternal p := by
  obtain ⟨s₁, h₁, hk₁, ha₁⟩ := h.bundleAcceptedBy hB (p := (b, false)) hb (hfree false)
  obtain ⟨s₂, h₂, hk₂, ha₂⟩ := hk₁.bundleAcceptedBy hB (p := (b, true)) hb (by
    rw [ha₁, Function.update_of_ne (by simp)]
    exact hfree true)
  refine ⟨s₂, ?_, hk₂, ?_⟩
  · simp only [Bard.bundleAccepted, h₁, bind, Except.bind, h₂]
  · funext ⟨c, side⟩
    rw [ha₂, ha₁]
    by_cases hc : c = b <;> cases side <;> simp [hc]

theorem Kept.bundleRestagedBy (h : Kept e B s) (hB : e.Fits B) (p : ℕ × Bool) (diskUsage : ℕ) :
    ∃ t, s.bundleRestagedBy e p diskUsage = .ok t ∧ Kept e B t := by
  obtain ⟨s₁, r, h₁, hk₁, hr₁, -⟩ := h.findOrCreate (e.key p)
  obtain ⟨s₂, h₂, hk₂, -⟩ := hk₁.reverse (a := .reservedExternal) hB hr₁
  simp only [Bard.bundleRestagedBy, h₁, bind, Except.bind, h₂]
  split_ifs
  · exact ⟨_, rfl, (hk₂.clearRestageLinkName p.1).setInuseExternal r _⟩
  · exact ⟨_, rfl, hk₂.clearRestageLinkName p.1⟩

theorem Kept.bundleRestaged (h : Kept e B s) (hB : e.Fits B) (b diskUsage : ℕ) :
    ∃ t, s.bundleRestaged e b diskUsage = .ok t ∧ Kept e B t := by
  obtain ⟨s₁, h₁, hk₁⟩ := h.bundleRestagedBy hB (b, false) diskUsage
  obtain ⟨s₂, h₂, hk₂⟩ := hk₁.bundleRestagedBy hB (b, true) diskUsage
  refine ⟨s₂, ?_, hk₂⟩
  simp only [Bard.bundleRestaged, h₁, bind, Except.bind, h₂]

theorem Kept.restagedBundleDeleted (h : Kept e B s) (quotaType : QuotaType) (scheme : NamingScheme)
    (nodename : String) (diskUsage : ℕ) :
    Kept e B (s.restagedBundleDeleted quotaType scheme nodename diskUsage) := by
  unfold Bard.restagedBundleDeleted
  split
  · exact h
  · exact h.setInuseExternal _ _

theorem Kept.bundleDeletedBy (h : Kept e B s) (hB : e.Fits B) (p : ℕ × Bool) :
    ∃ t, s.bundleDeletedBy e p = .ok t ∧ Kept e B t := by
  obtain ⟨s₁, r, h₁, hk₁, hr₁, -⟩ := h.findOrCreate (e.key p)
  obtain ⟨s₂, h₂, hk₂, hm₂, -⟩ := hk₁.reverse (a := .reservedInternal) hB hr₁
  obtain ⟨s₃, h₃, hk₃, hm₃, -⟩ := hk₂.reverse (a := .reservedExternal) hB (hm₂ ▸ hr₁)
  obtain ⟨s₄, h₄, hk₄, -⟩ := (hk₃.clearRestageLinkName p.1).reverse (a := .inuseInternal) (p := p)
    (r := r) hB (hm₃ ▸ hm₂ ▸ hr₁)
  refine ⟨s₄, ?_, hk₄⟩
  simp only [Bard.bundleDeletedBy, h₁, bind, Except.bind, h₂, h₃, h₄]

theorem Kept.bundleDeleted (h : Kept e B s) (hB : e.Fits B) (b : ℕ) :
    ∃ t, s.bundleDeleted e b = .ok t ∧ Kept e B t := by
  obtain ⟨s₁, h₁, hk₁⟩ := h.bundleDeletedBy hB (b, false)
  obtain ⟨s₂, h₂, hk₂⟩ := hk₁.bundleDeletedBy hB (b, true)
  refine ⟨s₂, ?_, hk₂⟩
  simp only [Bard.bundleDeleted, h₁, bind, Except.bind, h₂]

/-! ## Quotas -/

/-- A quota for a key with a record. -/
theorem Exact.insertQuota (h : Exact e B s) {k : String} {r : ℕ} (hr : s.usageMap.find? k = some r) :
    Exact e B { s with quotaMap := s.quotaMap.insert k r } := by
  refine ⟨h.amount, h.tally, ?_, h.apart, h.below⟩
  intro j q hq
  rw [OrdMap.find?_insert] at hq
  split_ifs at hq with hj
  · rw [hj, ← hq]
    exact hr
  · exact h.shared j q hq

theorem Exact.setQuota (h : Exact e B s) (r : ℕ) (q : Quota) (stored : Bool) :
    Exact e B (s.setQuota r q stored) := h.setUsage rfl

theorem Kept.setQuota (h : Kept e B s) {r : ℕ} (q : Quota) {d : Bool}
    (hd : s.started = false → (∃ k, s.usageMap.find? k = some r) → d = false) :
    Kept e B (s.setQuota r q d) :=
  ⟨h.toExact.setQuota r q d, h.unstored.setUsage hd⟩

theorem Kept.quotaRecord (h : Kept e B s) (k : String) :
    ∃ t r, s.quotaRecord k = (t, r) ∧ Kept e B t ∧ t.usageMap.find? k = some r := by
  unfold Bard.quotaRecord
  cases hk : s.quotaMap.find? k with
  | some r => exact ⟨s, r, rfl, h, h.shared k r hk⟩
  | none =>
    obtain ⟨t, r, ht, hkept, hr, -⟩ := h.findOrCreate k
    simp only [ht]
    exact ⟨_, r, rfl, ⟨hkept.toExact.insertQuota hr, hkept.unstored⟩, hr⟩

theorem Kept.bardcmdAddQuota (h : Kept e B s) (quotaType : QuotaType) (scheme : NamingScheme)
    (nodename : String) (q : Quota) : Kept e B (s.bardcmdAddQuota quotaType scheme nodename q) := by
  unfold Bard.bardcmdAddQuota
  split_ifs
  · obtain ⟨t, r, ht, hkept, -⟩ := h.quotaRecord (makeKey quotaType scheme nodename)
    simp only [ht]
    apply hkept.setQuota q
    intro hs ⟨k, hk⟩
    rw [hs, hkept.unstored hs k r hk]
    rfl
  · exact h

theorem Kept.bardcmdDeleteQuota (h : Kept e B s) (quotaType : QuotaType) (scheme : NamingScheme)
    (nodename : String) : Kept e B (s.bardcmdDeleteQuota quotaType scheme nodename) := by
  unfold Bard.bardcmdDeleteQuota
  split_ifs
  · dsimp only
    split
    case h_1 r hr =>
      have hset := h.setQuota (r := r) {} (d := !s.started && (s.usages r).quotaInDatastore)
        fun hs ⟨k, hk⟩ => by rw [h.unstored hs k r hk, Bool.and_false]
      refine ⟨⟨hset.amount, hset.tally, ?_, hset.apart, hset.below⟩, hset.unstored⟩
      intro k q hq
      rw [OrdMap.find?_erase] at hq
      split_ifs at hq
      exact h.shared k q hq
    case h_2 => exact h
  · exact h

/-! ## The quotas of the data store -/

/-- Nothing is counted in the record that a loaded quota replaces. -/
def Loadable (s : Bard) (k : String) : Prop :=
  s.quotaMap.find? k = none → ∀ a, s.tallyOf a k = {}

theorem Exact.loadOne (h : Exact e B s) {p : String × Quota} (hp : s.Loadable p.1)
    (hnew : ∀ r, s.quotaMap.find? p.1 = some r → (s.usages r).quotaInDatastore = false) :
    ∃ t, s.loadOne p = .ok t ∧ Exact e B t ∧ ∀ k, k ≠ p.1 → (s.Loadable k → t.Loadable k) ∧
      ((∀ r, s.quotaMap.find? k = some r → (s.usages r).quotaInDatastore = false) →
        ∀ r, t.quotaMap.find? k = some r → (t.usages r).quotaInDatastore = false) := by
  unfold Bard.loadOne
  cases hk : s.quotaMap.find? p.1 with
  | some r =>
    simp only [require_of (hnew r hk)]
    have hE := h.setQuota r p.2 true
    refine ⟨_, rfl, hE, fun k hne => ⟨?_, ?_⟩⟩
    · intro hload hnone a
      exact (hE.tally a k).trans ((h.tally a k).symm.trans (hload hnone a))
    · intro hold q hq
      have hqr : q ≠ r := fun hqr => hne (h.apart k p.1 q (h.shared k q hq) (hqr ▸ h.shared p.1 r hk))
      change (Function.update s.usages r _ q).quotaInDatastore = false
      rw [Function.update_of_ne hqr]
      exact hold q hq
  | none =>
    have hE := (h.newRecord (u := { quota := p.2, quotaInDatastore := true }) hk (hp hk) rfl).insertQuota
      ((OrdMap.find?_insert ..).trans (if_pos rfl))
    refine ⟨_, rfl, hE, fun k hne => ⟨?_, ?_⟩⟩
    · intro hload hnone a
      rw [OrdMap.find?_insert, if_neg hne] at hnone
      exact (hE.tally a k).trans ((h.tally a k).symm.trans (hload hnone a))
    · intro hold q hq
      rw [OrdMap.find?_insert, if_neg hne] at hq
      change (Function.update s.usages s.next _ q).quotaInDatastore = false
      rw [Function.update_of_ne (h.below k q (h.shared k q hq)).ne]
      exact hold q hq

theorem Exact.loadLoop (h : Exact e B s) {l : List (String × Quota)}
    (hl : l.Pairwise (fun p q => p.1 < q.1)) (hload : ∀ p ∈ l, s.Loadable p.1)
    (hnew : ∀ p ∈ l, ∀ r, s.quotaMap.find? p.1 = some r → (s.usages r).quotaInDatastore = false) :
    ∃ t, loadLoop l s = .ok t ∧ Exact e B t := by
  induction l generalizing s with
  | nil => exact ⟨s, rfl, h⟩
  | cons p l ih =>
    obtain ⟨hp, hl⟩ := List.pairwise_cons.mp hl
    obtain ⟨t, ht, hE, hrest⟩ := h.loadOne (hload p List.mem_cons_self) (hnew p List.mem_cons_self)
    obtain ⟨u, hu, hE⟩ := ih hE hl
      (fun q hq => (hrest q.1 (hp q hq).ne').1 (hload q (List.mem_cons_of_mem _ hq)))
      (fun q hq => (hrest q.1 (hp q hq).ne').2 (hnew q (List.mem_cons_of_mem _ hq)))
    refine ⟨u, ?_, hE⟩
    simp only [Bard.loadLoop, ht, bind, Except.bind, hu]

theorem Exact.storeAll (h : Exact e B s) : Exact e B s.storeAll := by
  unfold Bard.storeAll
  generalize s.quotaMap.entries = l
  induction l generalizing s with
  | nil => exact h
  | cons p l ih => exact ih (h.setQuota p.2 _ true)

theorem Kept.loadSavedQuotas (h : Kept e B s) (hs : s.started = false) {stored : OrdMap String Quota}
    (hload : ∀ p ∈ stored.entries, s.Loadable p.1) :
    ∃ t, s.loadSavedQuotas stored = .ok t ∧ Exact e B t := by
  obtain ⟨t, ht, hE⟩ := h.loadLoop stored.sorted hload
    fun p _ r hr => h.unstored hs p.1 r (h.shared p.1 r hr)
  refine ⟨t.storeAll, ?_, hE.storeAll⟩
  simp only [Bard.loadSavedQuotas, bind, Except.bind, ht]
  rfl

/-! ## Runs -/

/-- A bundle is accepted if it is not in use, and quotas are loaded once, none of them into the
record of a key that has no quota but in which bundles are counted. -/
def StepOk (s : Bard) : Op → Prop
  | .accepted b => ∀ side, s.amount .inuseInternal (b, side) = 0
  | .load stored => s.started = false ∧ ∀ p ∈ stored.entries, s.Loadable p.1
  | _ => True

theorem Kept.step (h : Kept e B s) (hB : e.Fits B) {op : Op} (hop : ∀ b ∈ op.bundle?, b ∈ B)
    (hok : s.StepOk op) : ∃ t, step e s op = .ok t ∧ Kept e B t := by
  cases op with
  | query b links => exact ⟨_, rfl, h.queryAcceptBundle hB (hop b rfl) links⟩
  | queryInternalStorageOnly b =>
    exact ⟨_, rfl, h.queryAcceptBundleInternalStorageOnly hB (hop b rfl)⟩
  | accepted b =>
    obtain ⟨t, ht, hk, -⟩ := h.bundleAccepted hB (hop b rfl) hok
    exact ⟨t, ht, hk⟩
  | restaged b diskUsage => exact h.bundleRestaged hB b diskUsage
  | restagedBundleDeleted quotaType scheme nodename diskUsage =>
    exact ⟨_, rfl, h.restagedBundleDeleted quotaType scheme nodename diskUsage⟩
  | deleted b => exact h.bundleDeleted hB b
  | addQuota quotaType scheme nodename q =>
    exact ⟨_, rfl, h.bardcmdAddQuota quotaType scheme nodename q⟩
  | unlimitedQuota quotaType scheme nodename =>
    exact ⟨_, rfl, h.bardcmdAddQuota quotaType scheme nodename {}⟩
  | deleteQuota quotaType scheme nodename =>
    exact ⟨_, rfl, h.bardcmdDeleteQuota quotaType scheme nodename⟩
  | load stored =>
    obtain ⟨t, ht, hE⟩ := h.loadSavedQuotas hok.1 hok.2
    refine ⟨{ t with started := true }, ?_, ⟨hE.amount, hE.tally, hE.shared, hE.apart, hE.below⟩, nofun⟩
    simp only [Bard.step, bind, Except.bind, ht]
    rfl

/-- In every state of a run that meets the condition the counters are exact. -/
theorem run_exact (e : Site) {B : Finset ℕ} (hB : e.Fits B) {ops : List Op}
    (hops : ∀ op ∈ ops, ∀ b ∈ op.bundle?, b ∈ B) (hok : Meets (step e) StepOk {} ops) (n : ℕ) :
    ∃ s, run (step e) {} (ops.take n) = .ok s ∧ Exact e B s := by
  have hmeets := (hok.take n).and_forall fun op hop => hops op (List.mem_of_mem_take hop)
  obtain ⟨s, hrun, hs⟩ := run_invariant (fun s _ => Kept e B s)
    (fun s _ op hs hop => hs.step hB hop.2 hop.1) (kept_empty e B) hmeets
  exact ⟨s, hrun, hs.toExact⟩

instance (s : Bard) (op : Op) : Decidable (s.StepOk op) :=
  match op with
  | .accepted b => inferInstanceAs (Decidable (∀ side, s.amount .inuseInternal (b, side) = 0))
  | .load stored => inferInstanceAs (Decidable (s.started = false ∧ ∀ p ∈ stored.entries,
      s.quotaMap.find? p.1 = none → ∀ a, s.tallyOf a p.1 = {}))
  | .query .. | .queryInternalStorageOnly _ | .restaged .. | .restagedBundleDeleted .. | .deleted _
  | .addQuota .. | .unlimitedQuota .. | .deleteQuota .. => inferInstanceAs (Decidable True)

/-- Bundles of 100 bytes for one node, each from a node of its own. -/
def oneDestination : Site where
  payloadLength := fun _ => 100
  source := fun b => { scheme := .ipn, nodeNum := b + 1 }
  dest := fun _ => { scheme := .dtn, ssp := "//node" }

/-- The stored quota of that node. -/
def storedQuota : OrdMap String Quota :=
  OrdMap.empty.insert (makeKey .dst .dtn "//node") { internal := ⟨1, 0⟩, restageLinkName := "restage" }

/-- A bundle is in use when the stored quota is loaded over one that was configured. The next bundle
is restaged, and a third one goes to external storage, too, but is kept after all. -/
theorem run_exact_restaged :
    ∃ s, run (step oneDestination) {} ([.addQuota .dst .dtn "//node" { internal := ⟨5, 0⟩ },
        .query 0 [], .accepted 0, .load storedQuota, .query 1 [{ name := "restage" }],
        .restaged 1 4096, .query 2 [{ name := "restage" }], .accepted 2, .deleted 0,
        .deleted 1].take 10) = .ok s ∧ Exact oneDestination {0, 1, 2} s :=
  run_exact oneDestination (by change _ < _; decide +kernel) (by decide) (by decide +kernel) 10

/-- A quota is loaded for the destination of a bundle that space was reserved for. The record says
nothing of it when the bundle is accepted. -/
theorem loaded_quota_replaces_record :
    ¬ ∃ s, run (step oneDestination) {} [.query 0 [], .load storedQuota, .accepted 0] = .ok s ∧
      Exact oneDestination {0} s := by
  have hfails : (run (step oneDestination) {}
      [.query 0 [], .load storedQuota, .accepted 0]).isOk = false := by decide +kernel
  rintro ⟨s, hrun, -⟩
  rw [hrun] at hfails
  cases hfails

end Bard

end Dtnme.Bundling
