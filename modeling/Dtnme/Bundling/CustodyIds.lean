import Dtnme.Bundling.Custody

/-! # Custody ids across restarts

The last id of a destination is not stored. After a restart it is rebuilt from the bundles that are
read back, which are the ones still in custody. The history of the ids that were given out is kept
beside the state.
-/

namespace Dtnme.Bundling.Custody
open Library

/-! ## Reading a bundle back -/

/-- The last id of the bundle's destination is not below the bundle's own. -/
def raised (s : Custody) (b : ℕ) : Custody :=
  if s.lastCustodyId (s.bundles b).custodyDest < (s.bundles b).custodyId then
    s.setList (s.bundles b).custodyDest { s.lists (s.bundles b).custodyDest with
      lastCustodyId := (s.bundles b).custodyId }
  else s

theorem raised_bundles (s : Custody) (b : ℕ) : (s.raised b).bundles = s.bundles := by
  unfold raised
  split_ifs <;> rfl

theorem raised_custodyBundles (s : Custody) (b : ℕ) :
    (s.raised b).custodyBundles = s.custodyBundles := by
  unfold raised
  split_ifs <;> rfl

theorem find_raised (s : Custody) (b : ℕ) : (s.raised b).find = s.find := by
  unfold raised
  split_ifs
  · rw [find_raise]
  · rfl

theorem lastCustodyId_raised (s : Custody) (b : ℕ) (d : String) :
    (s.raised b).lastCustodyId d =
      if d = (s.bundles b).custodyDest then max (s.lastCustodyId d) (s.bundles b).custodyId
      else s.lastCustodyId d := by
  unfold raised
  split_ifs with hlt hd hd
  · rw [lastCustodyId_setList, if_pos hd, hd, max_eq_right hlt.le]
  · rw [lastCustodyId_setList, if_neg hd]
  · rw [hd, max_eq_left (not_lt.mp hlt)]
  · rfl

theorem Filed.raised {s : Custody} (h : Filed s) (b : ℕ) : Filed (s.raised b) := by
  unfold Custody.raised
  split_ifs with hlt
  · exact h.raise _ hlt.le
  · exact h

/-- A bundle with an id of its own is filed under it, if it is free. -/
theorem Filed.insert_reload {s : Custody} (h : Filed s) {b : ℕ} (hid : (s.bundles b).custodyId ≠ 0)
    (hmap : (s.bundles b).mappings (s.bundles b).custodyDest = none)
    (hfree : s.find (s.bundles b).custodyDest (s.bundles b).custodyId = none) :
    s.insert b = .ok ((s.raised b).file (s.bundles b).custodyDest (s.bundles b).custodyId b) ∧
      Filed ((s.raised b).file (s.bundles b).custodyDest (s.bundles b).custodyId b) := by
  have hadd : (s.raised b).addBundle (s.bundles b).custodyDest (s.bundles b).custodyId b =
      .ok ((s.raised b).file (s.bundles b).custodyDest (s.bundles b).custodyId b) := by
    rw [addBundle, raised_bundles, hmap, find_raised, hfree]
    rfl
  constructor
  · rw [Custody.insert, if_neg hid, ← hadd, Custody.raised]
    split_ifs <;> rfl
  · apply (h.raised b).file
    · rw [find_raised]
      exact hfree
    · rw [raised_bundles]
      exact hmap
    · rw [raised_bundles]
    · rw [raised_bundles]
    · exact Nat.pos_of_ne_zero hid
    · rw [lastCustodyId_raised, if_pos rfl]
      exact le_max_right _ _

/-! ## Runs with restarts -/

/-- What is left of the state by a restart: the bundles with their stored ids and destinations. -/
def stored (s : Custody) : Custody where
  bundles b := { s.bundles b with mappings := fun _ => none }

/-- Bundles are read back one after another. -/
def reload : List ℕ → Custody → Except Fault Custody
  | [], s => .ok s
  | b :: order, s => do
    let s ← s.insert b
    reload order (s.pushBack b)

/-- Custody with the ids given out so far, in order, each with its destination. -/
structure Ledger where
  custody : Custody
  history : List (String × ℕ) := []

namespace Ledger

inductive Op
  | accept (b : ℕ) (dest : String)
  | release (b : ℕ)
  | restart (order : List ℕ)

/-- A bundle without an id is given one for a destination; one that has an id keeps it. -/
def accept (s : Ledger) (b : ℕ) (dest : String) : Except Fault Ledger :=
  if (s.custody.bundles b).custodyId = 0 then do
    let c ← (s.custody.setBundle b { s.custody.bundles b with custodyDest := dest }).insert b
    pure ⟨c.pushBack b, s.history ++ [(dest, (c.bundles b).custodyId)]⟩
  else .ok s

def step (s : Ledger) : Op → Except Fault Ledger
  | .accept b dest => s.accept b dest
  | .release b => do
    let c ← (s.custody.eraseCustodyBundle b).eraseFromCustodyidList b
    pure { s with custody := c }
  | .restart order => do
    let c ← reload order s.custody.stored
    pure { s with custody := c }

/-- Whenever the node restarts, it reads back the bundles in custody, and for each destination the
highest id ever given out is among theirs. Ids do not run out. -/
def Kept (s : Ledger) : Op → Prop
  | .accept _ dest => s.custody.lastCustodyId dest + 1 < 2 ^ 64
  | .release _ => True
  | .restart order => order.Perm s.custody.custodyBundles ∧
    ∀ p ∈ s.history, ∃ b ∈ s.custody.custodyBundles,
      (s.custody.bundles b).custodyDest = p.1 ∧ p.2 ≤ (s.custody.bundles b).custodyId

instance (s : Ledger) (op : Op) : Decidable (Kept s op) := by
  unfold Kept
  split <;> infer_instance

/-- Every id is greater than the ones given out before it for the same destination. -/
def Ascending (history : List (String × ℕ)) : Prop :=
  history.Pairwise fun p q => p.1 = q.1 → p.2 < q.2

/-- The bundles in custody are those with an id, filed under it, and no id that was given out is
greater than the last one. -/
structure Inv (s : Ledger) : Prop where
  filed : Filed s.custody
  nodup : s.custody.custodyBundles.Nodup
  listed : ∀ b, b ∈ s.custody.custodyBundles ↔ (s.custody.bundles b).custodyId ≠ 0
  numbered : ∀ b, (s.custody.bundles b).custodyId ≠ 0 →
    s.custody.find (s.custody.bundles b).custodyDest (s.custody.bundles b).custodyId = some b
  given : ∀ p ∈ s.history, p.2 ≤ s.custody.lastCustodyId p.1
  ascending : Ascending s.history

theorem inv_initial (custodian : ℕ → Custodian) : Inv ⟨initial custodian, []⟩ where
  filed := (consistent_initial custodian).filed
  nodup := List.nodup_nil
  listed _ := by simp [initial]
  numbered _ h := absurd rfl h
  given := by simp
  ascending := List.Pairwise.nil

theorem Inv.accept {s : Ledger} (h : Inv s) (b : ℕ) {dest : String}
    (hroom : s.custody.lastCustodyId dest + 1 < 2 ^ 64) : ∃ t, s.accept b dest = .ok t ∧ Inv t := by
  by_cases hid : (s.custody.bundles b).custodyId = 0
  · generalize hs₁ : s.custody.setBundle b { s.custody.bundles b with custodyDest := dest } = c
    have hself : c.bundles b = { s.custody.bundles b with custodyDest := dest } := by
      rw [← hs₁, setBundle_self]
    have hdest : (c.bundles b).custodyDest = dest := by rw [hself]
    have hid₁ : (c.bundles b).custodyId = 0 := by rw [hself]; exact hid
    have hlast : c.lastCustodyId = s.custody.lastCustodyId := by rw [← hs₁, lastCustodyId_setBundle]
    have hfind : c.find = s.custody.find := by rw [← hs₁, find_setBundle]
    have hfiled : Filed c := by
      rw [← hs₁]
      exact h.filed.setBundle rfl (.inl (h.filed.unfiled_of_zero hid))
    obtain ⟨t, ht, hnew, hto, htk, htl, -, hts, htid, htlast⟩ := hfiled.insert_new_spec hid₁
      (by rw [Room, hdest, hlast]; exact hroom)
    rw [hdest, hlast] at htid htlast
    have htne : ∀ a, a ≠ b → t.bundles a = s.custody.bundles a := fun a ha => by
      rw [hto a ha, ← hs₁, setBundle_ne _ _ ha]
    refine ⟨⟨t.pushBack b, s.history ++ [(dest, (t.bundles b).custodyId)]⟩, ?_, hnew.pushBack b, ?_,
      fun a => ?_, fun a ha => ?_, fun p hp => ?_, ?_⟩
    · rw [Ledger.accept, if_pos hid, hs₁]
      simp only [ht, bind, Except.bind]
      rfl
    · apply nodup_pushBack
      rw [htl, ← hs₁]
      exact h.nodup
    · rw [mem_pushBack, htl, pushBack_bundles, ← hs₁, setBundle_custodyBundles, h.listed]
      by_cases ha : a = b
      · subst ha
        simp [htid]
      · rw [htne a ha]
        simp [ha]
    · rw [pushBack_bundles] at ha ⊢
      rw [find_pushBack]
      by_cases hab : a = b
      · subst hab
        exact hts
      · rw [htne a hab] at ha ⊢
        apply htk _ _ a hab
        rw [hfind]
        exact h.numbered a ha
    · rw [lastCustodyId_pushBack, htlast]
      rcases List.mem_append.mp hp with hp | hp
      · have := h.given p hp
        split_ifs <;> omega
      · obtain rfl := List.mem_singleton.mp hp
        rw [if_pos rfl]
        exact htid.le
    · refine List.pairwise_append.mpr ⟨h.ascending, List.pairwise_singleton _ _, fun p hp q hq hpq => ?_⟩
      obtain rfl := List.mem_singleton.mp hq
      have hle := h.given p hp
      rw [hpq] at hle
      change p.2 ≤ s.custody.lastCustodyId dest at hle
      change p.2 < (t.bundles b).custodyId
      omega
  · exact ⟨s, by rw [Ledger.accept, if_neg hid], h⟩

theorem Inv.release {s : Ledger} (h : Inv s) (b : ℕ) : ∃ t, s.step (.release b) = .ok t ∧ Inv t := by
  have hfiled : Filed (s.custody.eraseCustodyBundle b) := ⟨h.filed.mapped, h.filed.own, h.filed.issued⟩
  obtain ⟨c, hc, hw⟩ := hfiled.eraseFromCustodyidList (b := b) (h.numbered b)
  obtain ⟨m, hm⟩ := hw.bundle
  have hlist : c.custodyBundles = s.custody.custodyBundles.erase b := hw.custodyBundles
  refine ⟨{ s with custody := c }, ?_, hw.filed, ?_, fun a => ?_, fun a ha => ?_, fun p hp => ?_,
    h.ascending⟩
  · simp only [step, hc, bind, Except.bind]
    rfl
  · rw [hlist]
    exact h.nodup.erase b
  · rw [hlist, h.nodup.mem_erase_iff, h.listed]
    by_cases ha : a = b
    · subst ha
      simp [hm]
    · rw [hw.bundles a ha]
      simp [ha, eraseCustodyBundle]
  · by_cases hab : a = b
    · subst hab
      rw [hm] at ha
      exact absurd rfl ha
    · rw [hw.bundles a hab] at ha ⊢
      exact (hw.find _ _ a hab).mpr (h.numbered a ha)
  · rw [hw.last]
    exact h.given p hp

/-- Part of the bundles in custody of `s` are read back into `t`. -/
structure Reloaded (s t : Custody) (back : List ℕ) : Prop where
  filed : Filed t
  listed : t.custodyBundles = back
  find : ∀ d k b, t.find d k = some b ↔ s.find d k = some b ∧ b ∈ back
  ids : ∀ b, (t.bundles b).custodyId = (s.bundles b).custodyId ∧
    (t.bundles b).custodyDest = (s.bundles b).custodyDest
  last : ∀ b ∈ back, (s.bundles b).custodyId ≤ t.lastCustodyId (s.bundles b).custodyDest

theorem reloaded_stored (s : Custody) : Reloaded s s.stored [] where
  filed := ⟨fun _ _ _ => by simp [stored, Custody.find],
    fun _ _ _ h => by simp [stored, Custody.find] at h,
    fun _ _ _ h => by simp [stored, Custody.find] at h⟩
  listed := rfl
  find _ _ _ := by simp [stored, Custody.find]
  ids _ := ⟨rfl, rfl⟩
  last := by simp

theorem Reloaded.insert {s t : Custody} {back : List ℕ} (h : Reloaded s t back) (hs : Filed s)
    {b : ℕ} (hb : b ∉ back) (hid : (s.bundles b).custodyId ≠ 0)
    (hf : s.find (s.bundles b).custodyDest (s.bundles b).custodyId = some b) :
    ∃ u, t.insert b = .ok u ∧ Reloaded s (u.pushBack b) (back ++ [b]) := by
  obtain ⟨hidb, hdestb⟩ := h.ids b
  have hmap : (t.bundles b).mappings (t.bundles b).custodyDest = none := by
    by_contra hne
    obtain ⟨k, hk⟩ := Option.ne_none_iff_exists'.mp hne
    exact hb ((h.find _ k b).mp ((h.filed.mapped _ b k).mp hk)).2
  have hfree : t.find (t.bundles b).custodyDest (t.bundles b).custodyId = none := by
    by_contra hne
    obtain ⟨c, hc⟩ := Option.ne_none_iff_exists'.mp hne
    obtain ⟨hcs, hcb⟩ := (h.find _ _ c).mp hc
    rw [hdestb, hidb, hf] at hcs
    obtain rfl := Option.some.inj hcs
    exact hb hcb
  obtain ⟨hins, hfiled⟩ := h.filed.insert_reload (by rw [hidb]; exact hid) hmap hfree
  have hne : ∀ c, c ≠ b → ((t.raised b).file (t.bundles b).custodyDest (t.bundles b).custodyId
      b).bundles c = t.bundles c := fun c hc => by rw [file_bundles_ne _ _ _ hc, raised_bundles]
  refine ⟨_, hins, hfiled.pushBack b, ?_, fun d k c => ?_, fun c => ?_, fun c hc => ?_⟩
  · have hlist : ((t.raised b).file (t.bundles b).custodyDest (t.bundles b).custodyId
        b).custodyBundles = back := (raised_custodyBundles t b).trans h.listed
    unfold pushBack
    rw [hlist, if_neg hb]
  · rw [find_pushBack, find_file, find_raised, hdestb, hidb, List.mem_append, List.mem_singleton]
    by_cases hdk : d = (s.bundles b).custodyDest ∧ k = (s.bundles b).custodyId
    · obtain ⟨rfl, rfl⟩ := hdk
      simp only [and_self, if_true, hf]
      constructor
      · intro he
        exact ⟨he, .inr (Option.some.inj he).symm⟩
      · exact fun he => he.1
    · rw [if_neg hdk, h.find]
      constructor
      · exact fun ⟨hs, hm⟩ => ⟨hs, .inl hm⟩
      · rintro ⟨hc, hm | rfl⟩
        · exact ⟨hc, hm⟩
        · exact absurd ⟨(hs.own d k c hc).1.symm, (hs.own d k c hc).2.symm⟩ hdk
  · rw [pushBack_bundles]
    by_cases hc : c = b
    · subst hc
      rw [file_bundles_self, raised_bundles]
      exact h.ids c
    · rw [hne c hc]
      exact h.ids c
  · rw [lastCustodyId_pushBack, lastCustodyId_file, lastCustodyId_raised, hdestb, hidb]
    rcases List.mem_append.mp hc with hc | hc
    · have hle := h.last c hc
      split_ifs
      · exact le_trans hle (le_max_left _ _)
      · exact hle
    · obtain rfl := List.mem_singleton.mp hc
      rw [if_pos rfl]
      exact le_max_right _ _

/-- Whatever the order, all bundles in custody are read back. -/
theorem Reloaded.reload {s : Custody} (hs : Filed s) (hid : ∀ b, (s.bundles b).custodyId ≠ 0 →
    s.find (s.bundles b).custodyDest (s.bundles b).custodyId = some b) {order : List ℕ}
    {t : Custody} {back : List ℕ} (h : Reloaded s t back) (hnodup : (back ++ order).Nodup)
    (hmem : ∀ b ∈ order, (s.bundles b).custodyId ≠ 0) :
    ∃ u, Custody.reload order t = .ok u ∧ Reloaded s u (back ++ order) := by
  induction order generalizing t back with
  | nil => exact ⟨t, rfl, by simpa using h⟩
  | cons b order ih =>
    have hb : b ∉ back := by
      have := (List.nodup_append.mp hnodup).2.2
      exact fun hback => this b hback b List.mem_cons_self rfl
    have hne := hmem b List.mem_cons_self
    obtain ⟨u, hu, hr⟩ := h.insert hs hb hne (hid b hne)
    rw [List.append_cons] at hnodup ⊢
    obtain ⟨v, hv, hvr⟩ := ih hr hnodup fun c hc => hmem c (List.mem_cons_of_mem b hc)
    refine ⟨v, ?_, hvr⟩
    simp only [Custody.reload, hu, bind, Except.bind]
    exact hv

theorem Inv.restart {s : Ledger} (h : Inv s) {order : List ℕ}
    (horder : order.Perm s.custody.custodyBundles)
    (hkept : ∀ p ∈ s.history, ∃ b ∈ s.custody.custodyBundles,
      (s.custody.bundles b).custodyDest = p.1 ∧ p.2 ≤ (s.custody.bundles b).custodyId) :
    ∃ t, s.step (.restart order) = .ok t ∧ Inv t := by
  obtain ⟨c, hc, hr⟩ := (reloaded_stored s.custody).reload h.filed h.numbered
    (by simpa using horder.nodup_iff.mpr h.nodup)
    (fun b hb => (h.listed b).mp (horder.mem_iff.mp hb))
  rw [List.nil_append] at hr
  refine ⟨{ s with custody := c }, ?_, hr.filed, ?_, fun b => ?_, fun b hb => ?_, fun p hp => ?_,
    h.ascending⟩
  · simp only [step, hc, bind, Except.bind]
    rfl
  · rw [hr.listed]
    exact horder.nodup_iff.mpr h.nodup
  · rw [hr.listed, horder.mem_iff, h.listed, (hr.ids b).1]
  · rw [(hr.ids b).1] at hb
    rw [(hr.ids b).1, (hr.ids b).2, hr.find]
    exact ⟨h.numbered b hb, horder.mem_iff.mpr ((h.listed b).mpr hb)⟩
  · obtain ⟨b, hb, hdest, hle⟩ := hkept p hp
    rw [← hdest]
    exact le_trans hle (hr.last b (horder.mem_iff.mpr hb))

theorem Inv.step {s : Ledger} (h : Inv s) {op : Op} (hop : Kept s op) :
    ∃ t, s.step op = .ok t ∧ Inv t := by
  cases op with
  | accept b dest => exact h.accept b hop
  | release b => exact h.release b
  | restart order => exact h.restart hop.1 hop.2

/-- No id is given out twice for a destination in a run in which the highest id of each destination
outlives every restart. -/
theorem custodyIds_run (custodian : ℕ → Custodian) (ops : List Op)
    (hops : Meets step Kept ⟨initial custodian, []⟩ ops) :
    ∃ s, run step ⟨initial custodian, []⟩ ops = .ok s ∧ Ascending s.history := by
  obtain ⟨s, hs, hinv⟩ := run_invariant (fun s _ => Inv s) (fun s _ op h hop => h.step hop)
    (inv_initial custodian) hops
  exact ⟨s, hs, hinv.ascending⟩

theorem custodyIds_run_restarted :
    ∃ s, run step ⟨initial fun _ => .null, []⟩ [.accept 0 "bpv6", .accept 1 "bpv6", .accept 2 "ipn:7.0",
      .accept 3 "bpv6", .release 1, .restart [3, 2, 0], .accept 4 "bpv6"] = .ok s ∧
      Ascending s.history :=
  custodyIds_run _ _ (by decide +kernel)

/-- The only bundle in custody is released before a restart: its id is given out again. -/
theorem custodyId_reused :
    ¬ ∃ s, run step ⟨initial fun _ => .null, []⟩
      [.accept 0 "bpv6", .release 0, .restart [], .accept 1 "bpv6"] = .ok s ∧ Ascending s.history := by
  have hhistory : (run step ⟨initial fun _ => .null, []⟩
      [.accept 0 "bpv6", .release 0, .restart [], .accept 1 "bpv6"]).toOption.map (·.history) =
        some [("bpv6", 1), ("bpv6", 1)] := by
    decide +kernel
  rintro ⟨s, hs, hasc⟩
  rw [hs] at hhistory
  have hs' : s.history = [("bpv6", 1), ("bpv6", 1)] := Option.some.inj hhistory
  rw [hs'] at hasc
  exact absurd ((List.pairwise_cons.mp hasc).1 ("bpv6", 1) (by simp) rfl) (by decide)

end Ledger

end Dtnme.Bundling.Custody
