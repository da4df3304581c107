import Dtnme.Bundling.ImcServed
import Dtnme.Imc.Membership

/-! # The destinations of a multicast bundle

A router adds the nodes of a group to the destinations of a bundle and marks others as handled. Adding
does not undo a mark, so it is enough to know which nodes were added and which were marked, in whatever
order this was done.
-/

namespace Dtnme.Bundling.ImcState
open Library

def Unhandled (s : ImcState) (n : ℕ) : Prop := s.dests.find? n = some false

/-! ## Adding and marking -/

/-- The nodes of `A` were added and those of `R` were marked. -/
structure Marks (A R : ℕ → Prop) (s t : ImcState) : Prop where
  handled : ∀ n, t.Handled n ↔ s.Handled n ∨ R n
  unhandled : ∀ n, t.Unhandled n ↔ (s.Unhandled n ∨ A n) ∧ ¬ (s.Handled n ∨ R n)

theorem not_handled_of_unhandled {s : ImcState} {n : ℕ} (h : s.Unhandled n) : ¬ s.Handled n := by
  unfold Unhandled at h
  simp [Handled, h]

theorem Marks.rfl (s : ImcState) : Marks (fun _ => False) (fun _ => False) s s where
  handled n := by simp
  unhandled n := by
    simp only [or_false]
    exact ⟨fun h => ⟨h, not_handled_of_unhandled h⟩, fun h => h.1⟩

theorem Marks.congr {A A' R R' : ℕ → Prop} {s t : ImcState} (h : Marks A R s t)
    (hA : ∀ n, A n ↔ A' n) (hR : ∀ n, R n ↔ R' n) : Marks A' R' s t where
  handled n := by rw [h.handled, hR]
  unhandled n := by rw [h.unhandled, hA, hR]

theorem Marks.trans {A A' R R' : ℕ → Prop} {s t u : ImcState} (h : Marks A R s t)
    (h' : Marks A' R' t u) : Marks (fun n => A n ∨ A' n) (fun n => R n ∨ R' n) s u where
  handled n := by rw [h'.handled, h.handled, or_assoc]
  unhandled n := by
    rw [h'.unhandled, h.handled, h.unhandled]
    tauto

theorem marks_addImcDestNode (s : ImcState) (k : ℕ) :
    Marks (fun n => n = k ∧ 0 < k) (fun _ => False) s (s.addImcDestNode k) where
  handled n := by
    unfold Handled
    rw [dests_addImcDestNode]
    by_cases hk : n = k ∧ 0 < k
    · cases hf : s.dests.find? n <;> simp [hk]
    · simp [hk]
  unhandled n := by
    unfold Handled Unhandled
    rw [dests_addImcDestNode]
    by_cases hk : n = k ∧ 0 < k
    · rcases hf : s.dests.find? n with _ | _ | _ <;> simp [hk]
    · rcases hf : s.dests.find? n with _ | _ | _ <;> simp [hk]

theorem marks_imcDestNodeHandled (s : ImcState) (k : ℕ) :
    Marks (fun _ => False) (fun n => n = k ∧ 0 < k) s (s.imcDestNodeHandled k) where
  handled n := by
    unfold Handled
    rw [dests_imcDestNodeHandled]
    by_cases hk : n = k ∧ 0 < k <;> simp [hk]
  unhandled n := by
    unfold Handled Unhandled
    rw [dests_imcDestNodeHandled]
    by_cases hk : n = k ∧ 0 < k
    · simp [hk]
    · rcases hf : s.dests.find? n with _ | _ | _ <;> simp [hk]

theorem marks_foldl {α : Type*} {A R : α → ℕ → Prop} {f : ImcState → α → ImcState}
    (hf : ∀ s a, Marks (A a) (R a) s (f s a)) (l : List α) (s : ImcState) :
    Marks (fun n => ∃ a ∈ l, A a n) (fun n => ∃ a ∈ l, R a n) s (l.foldl f s) := by
  induction l generalizing s with
  | nil => exact (Marks.rfl s).congr (by simp) (by simp)
  | cons a l ih =>
    apply ((hf s a).trans (ih (f s a))).congr
    · simp
    · simp

/-! ## The success of a link -/

/-- The success of the link is that of the node too: it is on the list of the link, or there is none. -/
def Covers (s : ImcState) (linkname : String) (n : ℕ) : Prop :=
  s.OnList linkname n ∨ s.links.find? linkname = none

theorem unhandled_imcLinkTransmitSuccess {s : ImcState} (h : s.Consistent) (linkname : String) (n : ℕ) :
    (s.imcLinkTransmitSuccess linkname).Unhandled n ↔ s.Unhandled n ∧ ¬ s.Covers linkname n := by
  have hpos : s.Unhandled n → 0 < n := h.pos n false
  unfold Covers OnList linkMap imcLinkTransmitSuccess
  cases hl : s.links.find? linkname with
  | some m =>
    have hm := marks_foldl (fun s (e : ℕ × Bool) => marks_imcDestNodeHandled s e.1) m.entries s
    refine (hm.unhandled n).trans ?_
    have hmem : (m.find? n).isSome ↔ ∃ b, (n, b) ∈ m.entries := by
      simp only [Option.isSome_iff_exists, OrdMap.find?_eq_some_iff]
    simp only [Option.getD_some, reduceCtorEq, or_false, hmem]
    constructor
    · rintro ⟨hu | ⟨_, _, hf⟩, hno⟩
      · refine ⟨hu, fun ⟨b, hb⟩ => hno (Or.inr ⟨(n, b), hb, rfl, hpos hu⟩)⟩
      · exact hf.elim
    · rintro ⟨hu, hno⟩
      refine ⟨Or.inl hu, ?_⟩
      rintro (hh | ⟨⟨k, b⟩, hb, rfl, -⟩)
      · exact not_handled_of_unhandled hu hh
      · exact hno ⟨b, hb⟩
  | none =>
    have hstep : ∀ s (e : ℕ × Bool), Marks (fun _ => False) (fun n => e.2 = false ∧ n = e.1 ∧ 0 < e.1) s
        (if e.2 then s else s.imcDestNodeHandled e.1) := by
      rintro s ⟨k, b⟩
      cases b with
      | true => exact (Marks.rfl s).congr (by simp) (by simp)
      | false => exact (marks_imcDestNodeHandled s k).congr (by simp) (by simp)
    have hm := marks_foldl hstep s.dests.entries s
    refine (hm.unhandled n).trans ?_
    simp only [and_false, exists_false, or_false, or_true, not_true, iff_false, not_and, not_not]
    intro hu
    exact Or.inr ⟨(n, false), OrdMap.find?_eq_some_iff.mp hu, rfl, rfl, hpos hu⟩

/-! ## Keeping the books -/

theorem Consistent.fold {α : Type*} {f : ImcState → α → ImcState}
    (hf : ∀ s a, Consistent s → Consistent (f s a)) {s : ImcState} (h : Consistent s) (l : List α) :
    Consistent (l.foldl f s) := by
  induction l generalizing s with
  | nil => exact h
  | cons a l ih => exact ih (hf s a h)

theorem hasDests_of_step {s t : ImcState} {op : Op} (h : s.step op = .ok t) : HasDests s op := by
  cases op with
  | copyAllUnhandledNodesToViaLink l =>
    change s.copyAllUnhandledNodesToViaLink l = _ at h
    unfold copyAllUnhandledNodesToViaLink at h
    unfold HasDests
    cases hm : s.destMap with
    | none => simp [hm] at h
    | some m => rfl
  | _ => trivial

theorem Consistent.of_run {s t : ImcState} {ops : List Op} (h : Consistent s)
    (hrun : Library.run ImcState.step s ops = .ok t) : Consistent t := by
  apply run_ok_invariant (fun t _ => Consistent t) _ h hrun
  intro u _ op v _ hu hstep
  obtain ⟨v', hv, hc⟩ := hu.step (hasDests_of_step hstep)
  obtain rfl := Except.ok.inj (hstep.symm.trans hv)
  exact hc

/-! ## Doing it again -/

theorem some_dests {s : ImcState} {n : ℕ} (h : (s.dests.find? n).isSome) :
    some s.dests = s.destMap := by
  unfold dests at h ⊢
  cases hd : s.destMap with
  | none => simp [hd] at h
  | some m => rfl

theorem addImcDestNode_of_isSome {s : ImcState} {k : ℕ}
    (h : 0 < k → (s.dests.find? k).isSome) : s.addImcDestNode k = s := by
  unfold addImcDestNode
  split_ifs with hk
  · obtain ⟨b, hb⟩ := Option.isSome_iff_exists.mp (h hk)
    simp only [hb]
    rw [some_dests (h hk)]
  · rfl

theorem imcDestNodeHandled_of_handled {s : ImcState} {k : ℕ} (h : 0 < k → s.Handled k) :
    s.imcDestNodeHandled k = s := by
  unfold imcDestNodeHandled
  split_ifs with hk
  · have hb : s.dests.find? k = some true := h hk
    simp only [hb]
    rw [some_dests (by rw [hb]; rfl)]
  · rfl

theorem foldl_fixed {α : Type*} {f : ImcState → α → ImcState} {l : List α} {s : ImcState}
    (h : ∀ a ∈ l, f s a = s) : l.foldl f s = s := by
  induction l with
  | nil => rfl
  | cons a l ih =>
    simp only [List.mem_cons, forall_eq_or_imp] at h
    rw [List.foldl_cons, h.1]
    exact ih h.2

/-- What was added is on the map. -/
theorem Marks.isSome {A R : ℕ → Prop} {s t : ImcState} (h : Marks A R s t) {n : ℕ} (hn : A n) :
    (t.dests.find? n).isSome := by
  by_cases hh : t.Handled n
  · unfold Handled at hh
    rw [hh]
    rfl
  · rw [h.handled] at hh
    have hu := (h.unhandled n).mpr ⟨Or.inr hn, hh⟩
    unfold Unhandled at hu
    rw [hu]
    rfl

end Dtnme.Bundling.ImcState

namespace Dtnme.Imc
open Library Bundling ImcState

namespace ImcConfig
variable (c : ImcConfig)

/-! ## The lists of a group -/

/-- A node that has a record in a map, with another operation than adding. -/
def RemovedFrom (group n : ℕ) : Prop := ∃ op, c.groupEntry group n = some op ∧ op ≠ .add

theorem entryIn_eq_some {maps : MapOfMaps} {num node : ℕ} {op : Operation} :
    entryIn maps num node = some op ↔
      ∃ m r, maps.find? num = some m ∧ m.find? node = some r ∧ r.operation = op := by
  unfold entryIn getMap
  cases maps.find? num <;> simp

theorem marks_homeRegionGroupList (group : ℕ) (s : ImcState) :
    Marks (fun n => 0 < n ∧ c.groupEntry group n = some .add)
      (fun n => 0 < n ∧ c.RemovedFrom group n) s (c.updateFromHomeRegionGroupList group s) := by
  unfold updateFromHomeRegionGroupList
  cases hm : c.mapOfGroupMaps.find? group with
  | none =>
    apply (Marks.rfl s).congr <;> simp [RemovedFrom, groupEntry, entryIn, getMap, hm]
  | some m =>
    have hentry : ∀ n op, c.groupEntry group n = some op ↔
        ∃ r ∈ m.values, r.nodeOrIdNum = n ∧ r.operation = op := by
      intro n op
      simp only [groupEntry, entryIn_eq_some, hm, Option.some.injEq]
      constructor
      · rintro ⟨_, r, rfl, hr, hop⟩
        have hnode := RecMap.find?_node hr
        exact ⟨r, RecMap.mem_values.mpr (hnode.symm ▸ hr), hnode, hop⟩
      · rintro ⟨r, hr, rfl, hop⟩
        exact ⟨m, r, rfl, RecMap.mem_values.mp hr, hop⟩
    have hstep : ∀ s (r : RegionGroupRec),
        Marks (fun n => n = r.nodeOrIdNum ∧ 0 < r.nodeOrIdNum ∧ r.operation = .add)
          (fun n => n = r.nodeOrIdNum ∧ 0 < r.nodeOrIdNum ∧ r.operation ≠ .add) s
          (if r.operation == .add then s.addImcDestNode r.nodeOrIdNum
            else s.imcDestNodeHandled r.nodeOrIdNum) := by
      intro s r
      by_cases hop : r.operation = .add
      · simpa [hop] using marks_addImcDestNode s r.nodeOrIdNum
      · simpa [hop] using marks_imcDestNodeHandled s r.nodeOrIdNum
    apply (marks_foldl hstep m.values s).congr
    · intro n
      rw [hentry]
      constructor
      · rintro ⟨r, hr, rfl, hpos, hop⟩
        exact ⟨hpos, r, hr, rfl, hop⟩
      · rintro ⟨hpos, r, hr, rfl, hop⟩
        exact ⟨r, hr, rfl, hpos, hop⟩
    · intro n
      simp only [RemovedFrom, hentry]
      constructor
      · rintro ⟨r, hr, rfl, hpos, hop⟩
        exact ⟨hpos, _, ⟨r, hr, rfl, rfl⟩, hop⟩
      · rintro ⟨hpos, op, ⟨r, hr, rfl, rfl⟩, hop⟩
        exact ⟨r, hr, rfl, hpos, hop⟩

theorem marks_outerRegionsGroupList (group : ℕ) (s : ImcState) :
    Marks (fun n => 0 < n ∧ (c.outerEntry group n).isSome) (fun _ => False) s
      (c.updateFromOuterRegionsGroupList group s) := by
  unfold updateFromOuterRegionsGroupList
  cases hm : c.mapOfGroupMapsForOuterRegions.find? group with
  | none => apply (Marks.rfl s).congr <;> simp [outerEntry, entryIn, getMap, hm]
  | some m =>
    apply (marks_foldl (fun s (e : ℕ × RegionGroupRec) => marks_addImcDestNode s e.1)
      m.recs.entries s).congr
    · intro n
      have hentry : (c.outerEntry group n).isSome ↔ ∃ r, (n, r) ∈ m.recs.entries := by
        simp only [outerEntry, entryIn, getMap, hm, Option.getD_some, Option.isSome_map]
        rw [Option.isSome_iff_exists]
        exact exists_congr fun r => OrdMap.find?_eq_some_iff
      rw [hentry]
      constructor
      · rintro ⟨⟨k, r⟩, hr, rfl, hpos⟩
        exact ⟨hpos, r, hr⟩
      · rintro ⟨hpos, r, hr⟩
        exact ⟨(n, r), hr, rfl, hpos⟩
    · simp

/-! ## The books -/

theorem updateFromHomeRegionGroupList_consistent (group : ℕ) {s : ImcState} (h : s.Consistent) :
    (c.updateFromHomeRegionGroupList group s).Consistent := by
  unfold updateFromHomeRegionGroupList
  split
  · apply h.fold
    intro s r hs
    split_ifs
    · exact hs.addImcDestNode _
    · exact hs.imcDestNodeHandled _
  · exact h

theorem updateFromOuterRegionsGroupList_consistent (group : ℕ) {s : ImcState} (h : s.Consistent) :
    (c.updateFromOuterRegionsGroupList group s).Consistent := by
  unfold updateFromOuterRegionsGroupList
  split
  · exact h.fold (fun s e hs => hs.addImcDestNode e.1) _
  · exact h

theorem updateWithAllRouterNodes_consistent {s : ImcState} (h : s.Consistent) :
    (c.updateWithAllRouterNodes s).Consistent := by
  apply h.fold
  intro s e hs
  apply hs.fold
  intro s r hs
  split_ifs
  · exact hs.addImcDestNode _
  · exact hs

theorem updateBundleImcDestNodes_consistent {b : ImcBundle} (h : b.imc.Consistent) :
    (c.updateBundleImcDestNodes b).Consistent := by
  have hfirst := ((h.imcDestNodeHandled c.localIpnNodeNum).imcDestNodeHandled
    b.prevhop.nodeNum).imcDestNodeHandled b.source.nodeNum
  have houter (s : ImcState) (hs : s.Consistent) :
      ((c.updateFromOuterRegionsGroupList b.dest.nodeNum s).addImcProcessedByNode
        c.localIpnNodeNum).Consistent :=
    (c.updateFromOuterRegionsGroupList_consistent _ hs).addImcProcessedByNode _
  unfold updateBundleImcDestNodes
  dsimp only
  generalize ((b.imc.imcDestNodeHandled c.localIpnNodeNum).imcDestNodeHandled
    b.prevhop.nodeNum).imcDestNodeHandled b.source.nodeNum = s at hfirst ⊢
  have hhome : (if s.isImcRegionProcessed c.homeRegion then s
      else (if b.dest.nodeNum = 0 then
          if c.isNodeInHomeRegion b.source.nodeNum then c.updateWithAllRouterNodes s else s
        else c.updateFromHomeRegionGroupList b.dest.nodeNum s).addImcRegionProcessed
          c.homeRegion).Consistent := by
    split_ifs
    · exact hfirst
    · exact (c.updateWithAllRouterNodes_consistent hfirst).addImcRegionProcessed _
    · exact hfirst.addImcRegionProcessed _
    · exact (c.updateFromHomeRegionGroupList_consistent _ hfirst).addImcRegionProcessed _
  generalize (if s.isImcRegionProcessed c.homeRegion then s
      else (if b.dest.nodeNum = 0 then
          if c.isNodeInHomeRegion b.source.nodeNum then c.updateWithAllRouterNodes s else s
        else c.updateFromHomeRegionGroupList b.dest.nodeNum s).addImcRegionProcessed
          c.homeRegion) = t at hhome ⊢
  split_ifs
  · exact houter t hhome
  · exact hhome

/-! ## What a bundle goes to -/

/-- The nodes that a bundle has been at. -/
def BeenAt (b : ImcBundle) (n : ℕ) : Prop :=
  n = c.localIpnNodeNum ∨ n = b.prevhop.nodeNum ∨ n = b.source.nodeNum

/-- The node has to look at the members of its own region for the bundle. -/
def HomePending (s : ImcState) : Prop := s.isImcRegionProcessed c.homeRegion = false

/-- The node has to look at those it is a proxy of. -/
def ProxyPending (s : ImcState) : Prop := s.imcHasProxyBeenProcessedByNode c.localIpnNodeNum = false

def Added (b : ImcBundle) (n : ℕ) : Prop :=
  (c.HomePending b.imc ∧ c.groupEntry b.dest.nodeNum n = some .add) ∨
    (c.ProxyPending b.imc ∧ (c.outerEntry b.dest.nodeNum n).isSome)

def Excluded (b : ImcBundle) (n : ℕ) : Prop :=
  c.BeenAt b n ∨ (c.HomePending b.imc ∧ c.RemovedFrom b.dest.nodeNum n)

theorem marks_handledFirst (b : ImcBundle) :
    Marks (fun _ => False) (fun n => 0 < n ∧ c.BeenAt b n) b.imc (c.handledFirst b) := by
  unfold handledFirst
  apply (((marks_imcDestNodeHandled b.imc c.localIpnNodeNum).trans
    (marks_imcDestNodeHandled _ b.prevhop.nodeNum)).trans
    (marks_imcDestNodeHandled _ b.source.nodeNum)).congr
  · simp
  · intro n
    unfold BeenAt
    constructor
    · rintro ((⟨rfl, hn⟩ | ⟨rfl, hn⟩) | ⟨rfl, hn⟩) <;> simp [hn]
    · rintro ⟨hn, rfl | rfl | rfl⟩ <;> simp [hn]

theorem handledFirst_other (b : ImcBundle) : (c.handledFirst b).other = b.imc.other := by
  simp [handledFirst]

/-- What is done where the home region was not processed yet. -/
def homeStep (group : ℕ) (s : ImcState) : ImcState :=
  if s.isImcRegionProcessed c.homeRegion then s
  else (c.updateFromHomeRegionGroupList group s).addImcRegionProcessed c.homeRegion

def proxyStep (group : ℕ) (s : ImcState) : ImcState :=
  if s.imcHasProxyBeenProcessedByNode c.localIpnNodeNum = false then
    (c.updateFromOuterRegionsGroupList group s).addImcProcessedByNode c.localIpnNodeNum
  else s

theorem updateBundleImcDestNodes_eq {b : ImcBundle} (hg : b.dest.nodeNum ≠ 0) :
    c.updateBundleImcDestNodes b =
      c.proxyStep b.dest.nodeNum (c.homeStep b.dest.nodeNum (c.handledFirst b)) := by
  unfold updateBundleImcDestNodes proxyStep homeStep handledFirst
  simp only [hg, if_false, ne_eq, not_false_eq_true, true_and]

theorem marks_homeStep (group : ℕ) (s : ImcState) :
    Marks (fun n => 0 < n ∧ c.HomePending s ∧ c.groupEntry group n = some .add)
      (fun n => 0 < n ∧ c.HomePending s ∧ c.RemovedFrom group n) s (c.homeStep group s) := by
  unfold homeStep HomePending
  cases hp : s.isImcRegionProcessed c.homeRegion with
  | true => apply (Marks.rfl s).congr <;> simp
  | false =>
    have h := c.marks_homeRegionGroupList group s
    simp only [true_and, Bool.false_eq_true, if_false]
    exact ⟨h.handled, h.unhandled⟩

theorem marks_proxyStep (group : ℕ) (s : ImcState) :
    Marks (fun n => 0 < n ∧ c.ProxyPending s ∧ (c.outerEntry group n).isSome)
      (fun _ => False) s (c.proxyStep group s) := by
  unfold proxyStep ProxyPending
  cases hp : s.imcHasProxyBeenProcessedByNode c.localIpnNodeNum with
  | true => apply (Marks.rfl s).congr <;> simp
  | false =>
    have h := c.marks_outerRegionsGroupList group s
    obtain ⟨m, hm⟩ := (c.updateFromOuterRegionsGroupList group s).addImcProcessedByNode_eq
      c.localIpnNodeNum
    simp only [true_and, if_true]
    rw [hm]
    exact ⟨h.handled, h.unhandled⟩

theorem processedBy_homeStep (group : ℕ) (s : ImcState) :
    (c.homeStep group s).processedBy = s.processedBy := by
  unfold homeStep
  split_ifs
  · rfl
  · have h := processedBy_of_other (c.updateFromHomeRegionGroupList_other group s)
    exact h

theorem regions_proxyStep (group : ℕ) (s : ImcState) :
    (c.proxyStep group s).regions = s.regions := by
  unfold proxyStep
  split_ifs
  · have hlist : (c.updateFromOuterRegionsGroupList group s).other = s.other := by
      unfold updateFromOuterRegionsGroupList
      split
      · exact foldl_keeps (fun s (e : ℕ × RegionGroupRec) => other_addImcDestNode s e.1) _ s
      · rfl
    obtain ⟨m, hm⟩ := (c.updateFromOuterRegionsGroupList group s).addImcProcessedByNode_eq
      c.localIpnNodeNum
    rw [hm]
    have h := regions_of_other hlist
    exact h
  · rfl

theorem marks_updateBundleImcDestNodes {b : ImcBundle} (hg : b.dest.nodeNum ≠ 0) :
    Marks (fun n => 0 < n ∧ c.Added b n) (fun n => 0 < n ∧ c.Excluded b n) b.imc
      (c.updateBundleImcDestNodes b) := by
  have hhome : c.HomePending (c.handledFirst b) ↔ c.HomePending b.imc := by
    simp only [HomePending, isImcRegionProcessed, regions_of_other (c.handledFirst_other b)]
  have hproxy : c.ProxyPending (c.homeStep b.dest.nodeNum (c.handledFirst b)) ↔
      c.ProxyPending b.imc := by
    simp only [ProxyPending, imcHasProxyBeenProcessedByNode, processedBy_homeStep,
      processedBy_of_other (c.handledFirst_other b)]
  rw [c.updateBundleImcDestNodes_eq hg]
  apply (((c.marks_handledFirst b).trans (c.marks_homeStep b.dest.nodeNum _)).trans
    (c.marks_proxyStep b.dest.nodeNum _)).congr
  · intro n
    rw [hhome, hproxy]
    simp only [Added, false_or, ← and_or_left]
  · intro n
    rw [hhome]
    simp only [Excluded, or_false, ← and_or_left]

/-! ## A second call -/

theorem handledFirst_of_handled {b : ImcBundle}
    (h : ∀ n, 0 < n → c.BeenAt b n → b.imc.Handled n) : c.handledFirst b = b.imc := by
  unfold handledFirst
  rw [imcDestNodeHandled_of_handled fun hn => h _ hn (Or.inl rfl),
    imcDestNodeHandled_of_handled fun hn => h _ hn (Or.inr (Or.inl rfl)),
    imcDestNodeHandled_of_handled fun hn => h _ hn (Or.inr (Or.inr rfl))]

theorem homeStep_processed (group : ℕ) (s : ImcState) :
    (c.homeStep group s).isImcRegionProcessed c.homeRegion = true := by
  unfold homeStep
  split_ifs with hp
  · exact hp
  · unfold isImcRegionProcessed regions addImcRegionProcessed
    simp [OrdMap.find?_insert]

theorem updateFromOuterRegionsGroupList_of_isSome {group : ℕ} {s : ImcState}
    (h : ∀ n, 0 < n → (c.outerEntry group n).isSome → (s.dests.find? n).isSome) :
    c.updateFromOuterRegionsGroupList group s = s := by
  unfold updateFromOuterRegionsGroupList
  cases hm : c.mapOfGroupMapsForOuterRegions.find? group with
  | none => rfl
  | some m =>
    apply foldl_fixed
    intro e he
    apply addImcDestNode_of_isSome
    intro hpos
    apply h e.1 hpos
    have hfind : m.find? e.1 = some e.2 := OrdMap.find?_eq_some_iff.mpr he
    simp [outerEntry, entryIn, getMap, hm, hfind]

/-- The local node may be unknown, in which case it is never on the list of those that processed the
bundle. -/
theorem proxyStep_again (group : ℕ) (s : ImcState) :
    c.proxyStep group (c.proxyStep group s) = c.proxyStep group s := by
  cases hp : s.imcHasProxyBeenProcessedByNode c.localIpnNodeNum with
  | true => simp [proxyStep, hp]
  | false =>
    have hs : c.proxyStep group s =
        (c.updateFromOuterRegionsGroupList group s).addImcProcessedByNode c.localIpnNodeNum := by
      simp [proxyStep, hp]
    rcases Nat.eq_zero_or_pos c.localIpnNodeNum with h0 | hpos
    · have hlist : c.proxyStep group s = c.updateFromOuterRegionsGroupList group s := by
        rw [hs, h0]
        rfl
      have hsame : c.updateFromOuterRegionsGroupList group (c.proxyStep group s) =
          c.proxyStep group s := by
        apply updateFromOuterRegionsGroupList_of_isSome
        intro n hn hentry
        rw [hlist]
        exact (c.marks_outerRegionsGroupList group s).isSome ⟨hn, hentry⟩
      have hzero (u : ImcState) : u.addImcProcessedByNode c.localIpnNodeNum = u := by
        simp [addImcProcessedByNode, h0]
      rw [proxyStep, hsame, hzero, ite_self]
    · have hdone : (c.proxyStep group s).imcHasProxyBeenProcessedByNode c.localIpnNodeNum = true := by
        rw [hs, imcHasProxyBeenProcessedByNode_add _ _ hpos]
        simp
      rw [proxyStep, hdone]
      rfl

/-- What the next call finds as the state of the bundle. -/
def updated (b : ImcBundle) : ImcBundle := { b with imc := c.updateBundleImcDestNodes b }

theorem updateBundleImcDestNodes_again {b : ImcBundle} (hg : b.dest.nodeNum ≠ 0) :
    c.updateBundleImcDestNodes (c.updated b) = c.updateBundleImcDestNodes b := by
  have hfirst : c.handledFirst (c.updated b) = c.updateBundleImcDestNodes b := by
    apply handledFirst_of_handled
    intro n hn hat
    exact ((c.marks_updateBundleImcDestNodes hg).handled n).mpr (Or.inr ⟨hn, Or.inl hat⟩)
  have hgroup : (c.updated b).dest.nodeNum = b.dest.nodeNum := rfl
  have hhome : c.homeStep b.dest.nodeNum (c.updateBundleImcDestNodes b) =
      c.updateBundleImcDestNodes b := by
    have hp : (c.updateBundleImcDestNodes b).isImcRegionProcessed c.homeRegion = true := by
      rw [c.updateBundleImcDestNodes_eq hg]
      have h := c.homeStep_processed b.dest.nodeNum (c.handledFirst b)
      unfold isImcRegionProcessed at h ⊢
      rw [regions_proxyStep]
      exact h
    rw [homeStep, if_pos hp]
  rw [c.updateBundleImcDestNodes_eq (hgroup ▸ hg), hgroup, hfirst, hhome,
    c.updateBundleImcDestNodes_eq hg, proxyStep_again]

/-- The destinations that are left are those there were and those that were added, less those that
were handled; and a second call changes nothing. Only the nodes of `isNode` are looked at. -/
def DestinationsExact (isNode : ℕ → Prop) (b : ImcBundle) : Prop :=
  (∀ n, (c.updateBundleImcDestNodes b).Unhandled n ↔
    (b.imc.Unhandled n ∨ isNode n ∧ c.Added b n) ∧
      ¬ (b.imc.Handled n ∨ isNode n ∧ c.Excluded b n)) ∧
  c.updateBundleImcDestNodes (c.updated b) = c.updateBundleImcDestNodes b

theorem destinations_exact (b : ImcBundle) (hg : b.dest.nodeNum ≠ 0) :
    c.DestinationsExact (0 < ·) b :=
  ⟨(c.marks_updateBundleImcDestNodes hg).unhandled, c.updateBundleImcDestNodes_again hg⟩

section Example

def member (node : ℕ) (operation : Operation) : RegionGroupRec :=
  { recType := .group, regionOrGroupNum := 7, nodeOrIdNum := node, operation }

/-- In group 7, nodes 2 and 3 are members and node 4 has left. This node is a proxy of 4 and 5. -/
def ofGroupSeven : ImcConfig where
  localIpnNodeNum := 1
  mapOfGroupMaps := OrdMap.empty.insert 7
    (((RecMap.empty.put (member 2 .add)).put (member 3 .add)).put (member 4 .remove))
  mapOfGroupMapsForOuterRegions := OrdMap.empty.insert 7
    ((RecMap.empty.put (member 4 .add)).put (member 5 .add))

def fromThree : ImcBundle where
  source := .ipn 3 1
  dest := .imc 7 0
  prevhop := .ipn 6 0
  payload := .malformed

theorem destinations_exact_seven :
    ofGroupSeven.DestinationsExact (0 < ·) fromThree ∧
      (ofGroupSeven.updateBundleImcDestNodes fromThree).dests.entries =
        [(1, true), (2, false), (3, true), (4, true), (5, false), (6, true)] :=
  ⟨ofGroupSeven.destinations_exact fromThree (by decide), by decide +kernel⟩

def ofNodeZero : ImcConfig where
  localIpnNodeNum := 1
  mapOfGroupMaps := OrdMap.empty.insert 7 (RecMap.empty.put (member 0 .add))

/-- A member with the number 0 never becomes a destination. -/
theorem destinations_without_zero :
    ¬ ofNodeZero.DestinationsExact (fun _ => True) fromThree := by
  rintro ⟨h, -⟩
  have hunhandled := (h 0).mpr ⟨Or.inr ⟨trivial, Or.inl ⟨by
    unfold HomePending
    decide +kernel, by decide +kernel⟩⟩, by
    rintro (hh | ⟨-, hat | ⟨-, op, hop, hne⟩⟩)
    · exact absurd hh (by unfold Handled; decide +kernel)
    · exact absurd hat (by unfold BeenAt; decide +kernel)
    · have hadd : ofNodeZero.groupEntry fromThree.dest.nodeNum 0 = some .add := by decide +kernel
      rw [hadd] at hop
      exact hne (Option.some.inj hop).symm⟩
  exact absurd hunhandled (by unfold Unhandled; decide +kernel)

end Example

end ImcConfig

end Dtnme.Imc
