import Dtnme.Imc.Membership

/-! # Joins that are passed on

What petitions and briefings tell a node is written to its maps and not to the data store. A router that
takes a join over a border between regions marks the petition that it makes with itself and with all
nodes that have seen the join, so that a join passes each router at most once.
-/

namespace Dtnme.Imc
open Library Bundling

/-! ## What is written -/

namespace Change
variable (c : Change)

theorem foldl_node_unsaved (l : List ℕ) (x : Changed) :
    (l.foldl (c.node false) x).store = x.store ∧ (l.foldl (c.node false) x).saved = x.saved := by
  induction l generalizing x with
  | nil => exact ⟨rfl, rfl⟩
  | cons n l ih =>
    have hnode : (c.node false x n).store = x.store ∧ (c.node false x n).saved = x.saved := by
      unfold node apply saveRec
      cases x.map.find? n with
      | none => simp
      | some r =>
        by_cases happ : c.applies r = true <;> simp [happ]
    rw [List.foldl_cons, (ih _).1, (ih _).2]
    exact hnode

end Change

namespace ImcConfig

/-- The maps of regions and groups are all that differs. -/
def OnlyMaps (c c' : ImcConfig) : Prop :=
  c' = { c with
    mapOfRegionMaps := c'.mapOfRegionMaps
    mapOfGroupMaps := c'.mapOfGroupMaps
    mapOfGroupMapsForOuterRegions := c'.mapOfGroupMapsForOuterRegions }

theorem OnlyMaps.rfl {c : ImcConfig} : OnlyMaps c c := Eq.refl c

theorem OnlyMaps.trans {c d e : ImcConfig} (h : OnlyMaps c d) (h' : OnlyMaps d e) : OnlyMaps c e := by
  unfold OnlyMaps at *
  rw [h] at h'
  exact h'

theorem OnlyMaps.local {c c' : ImcConfig} (h : OnlyMaps c c') :
    c'.localIpnNodeNum = c.localIpnNodeNum := by
  rw [h]

theorem changeRange_unsaved {change : Change} {maps maps' : MapOfMaps} {store store' : Store}
    {start stop : ℕ} {saved : Bool}
    (h : changeRange change false maps store start stop = .ok (maps', store', saved)) :
    store' = store ∧ saved = false := by
  unfold changeRange at h
  split_ifs at h
  · cases h
    exact ⟨rfl, rfl⟩
  · obtain ⟨x, hx, h⟩ := of_bind_ok h
    obtain ⟨-, rfl⟩ := change.range_eq_ok false hx
    cases h
    exact change.foldl_node_unsaved _ _

variable {c c' : ImcConfig} {posted : List ImcBundle} {group region start stop : ℕ}

theorem changeRegion_onlyMaps {change : Change} (h : c.changeRegion change false start stop = .ok c') :
    OnlyMaps c c' := by
  obtain ⟨⟨maps, store, saved⟩, hr, h⟩ := of_bind_ok h
  cases h
  obtain ⟨rfl, -⟩ := changeRange_unsaved hr
  rfl

theorem changeGroup_onlyMaps {change : Change} {saved : Bool}
    (h : c.changeGroup change false start stop = .ok (c', saved)) : OnlyMaps c c' ∧ saved = false := by
  obtain ⟨maps, store, hr, rfl⟩ := changeGroup_eq_ok h
  obtain ⟨rfl, hsaved⟩ := changeRange_unsaved hr
  exact ⟨rfl, hsaved⟩

/-- A member that is not saved is not told to other routers. -/
theorem addNodeRangeToGroup_onlyMaps
    (h : c.addNodeRangeToGroup group start stop false = .ok (c', posted)) :
    OnlyMaps c c' ∧ posted = [] := by
  obtain ⟨⟨d, issue⟩, hd, h⟩ := of_bind_ok h
  cases h
  obtain ⟨hmaps, rfl⟩ := changeGroup_onlyMaps hd
  exact ⟨hmaps, rfl⟩

theorem delNodeRangeFromGroup_onlyMaps
    (h : c.delNodeRangeFromGroup group start stop false = .ok c') : OnlyMaps c c' := by
  obtain ⟨⟨d, issue⟩, hd, h⟩ := of_bind_ok h
  cases h
  exact (changeGroup_onlyMaps hd).1

theorem addNodeRangeToGroupForOuterRegions_onlyMaps
    (h : c.addNodeRangeToGroupForOuterRegions group start stop = .ok c') : OnlyMaps c c' := by
  obtain ⟨maps, store, saved, -, rfl⟩ := changeGroupForOuterRegions_eq_ok h
  rfl

/-! ## Marks -/

theorem processed_markProcessed (c : ImcConfig) (seen s : ImcState) (remoteNode : ℕ) {n : ℕ}
    (hn : 0 < n) : (c.markProcessed seen remoteNode s).imcHasProxyBeenProcessedByNode n =
      (s.imcHasProxyBeenProcessedByNode n || seen.imcHasProxyBeenProcessedByNode n ||
        n == c.localIpnNodeNum || n == remoteNode) := by
  rw [markProcessed, ImcState.imcHasProxyBeenProcessedByNode_add _ _ hn,
    ImcState.imcHasProxyBeenProcessedByNode_add _ _ hn,
    ImcState.imcHasProxyBeenProcessedByNode_copy _ _ hn]

theorem processed_imcDestNodeHandled (s : ImcState) (k n : ℕ) :
    (s.imcDestNodeHandled k).imcHasProxyBeenProcessedByNode n =
      s.imcHasProxyBeenProcessedByNode n := by
  unfold ImcState.imcHasProxyBeenProcessedByNode
  rw [ImcState.processedBy_of_other (ImcState.other_imcDestNodeHandled s k)]

/-- A proxy of this node, which has the marks of a list and its own. -/
structure IsProxy (c : ImcConfig) (seen : ImcState) (p : ImcBundle) : Prop where
  payload : ∃ group, p.payload = .petition group 1
  own : 0 < c.localIpnNodeNum → p.imc.imcHasProxyBeenProcessedByNode c.localIpnNodeNum = true
  seen : ∀ n, 0 < n → seen.imcHasProxyBeenProcessedByNode n = true →
    p.imc.imcHasProxyBeenProcessedByNode n = true

theorem isProxy_toOuterRegions (c : ImcConfig) (group : ℕ) (b : ImcBundle) :
    IsProxy c b.imc (c.proxyToOuterRegions group b) where
  payload := ⟨group, rfl⟩
  own h := by simp [proxyToOuterRegions, processed_markProcessed _ _ _ _ h]
  seen n hn h := by simp [proxyToOuterRegions, processed_markProcessed _ _ _ _ hn, h]

theorem isProxy_toAllRegions (c : ImcConfig) (group : ℕ) (b : ImcBundle) :
    IsProxy c b.imc (c.proxyToAllRegions group b) where
  payload := ⟨group, rfl⟩
  own h := by
    simp [proxyToAllRegions, processed_imcDestNodeHandled, processed_markProcessed _ _ _ _ h]
  seen n hn h := by
    simp [proxyToAllRegions, processed_imcDestNodeHandled, processed_markProcessed _ _ _ _ hn, h]

theorem isProxy_forBriefing (c : ImcConfig) (group remoteNode : ℕ) :
    IsProxy c {} (c.proxyForBriefing group remoteNode) where
  payload := ⟨group, rfl⟩
  own h := by
    simp [proxyForBriefing, processed_imcDestNodeHandled, processed_markProcessed _ _ _ _ h]
  seen n hn h := by
    simp [proxyForBriefing, processed_imcDestNodeHandled, processed_markProcessed _ _ _ _ hn, h]

theorem IsProxy.congr {seen : ImcState} {p : ImcBundle} (h : IsProxy c' seen p)
    (hmaps : OnlyMaps c c') : IsProxy c seen p :=
  ⟨h.payload, fun hpos => hmaps.local ▸ h.own (hmaps.local ▸ hpos), h.seen⟩

/-- All that is posted are proxies, or none that is posted is one. -/
def Posts (c : ImcConfig) (seen : ImcState) (posted : List ImcBundle) : Prop :=
  ∀ p ∈ posted, p.imc.isProxyPetition = true → IsProxy c seen p

theorem posts_nil {seen : ImcState} : Posts c seen [] := fun _ hp => absurd hp List.not_mem_nil

theorem Posts.append {seen : ImcState} {more : List ImcBundle} (h : Posts c seen posted)
    (h' : Posts c seen more) : Posts c seen (posted ++ more) := by
  intro p hp
  exact (List.mem_append.mp hp).elim (h p) (h' p)

theorem posts_ite {seen : ImcState} {b : Bool} {p : ImcBundle} (h : IsProxy c seen p) :
    Posts c seen (if b then [p] else []) := by
  cases b with
  | false => exact posts_nil
  | true =>
    intro q hq _
    rw [List.mem_singleton.mp hq]
    exact h

theorem ionBriefing_not_proxy {b p : ImcBundle}
    (hp : p ∈ c.generateBp7IonCompatibleImcBriefingBundle b) : p.imc.isProxyPetition ≠ true := by
  unfold generateBp7IonCompatibleImcBriefingBundle at hp
  split_ifs at hp
  · rw [List.mem_singleton.mp hp]
    exact Bool.false_ne_true
  · cases hp

theorem dtnmeBriefing_not_proxy {b p : ImcBundle}
    (hp : p ∈ c.generateDtnmeImcBriefingBundle b) : p.imc.isProxyPetition ≠ true := by
  unfold generateDtnmeImcBriefingBundle at hp
  split_ifs at hp
  · rw [List.mem_singleton.mp hp]
    exact Bool.false_ne_true
  · cases hp

/-! ## Petitions -/

theorem joinFromHomeRegion_posts {b : ImcBundle}
    (h : c.joinFromHomeRegion group b = .ok (c', posted)) :
    OnlyMaps c c' ∧ Posts c b.imc posted := by
  obtain ⟨⟨d, told⟩, hd, h⟩ := of_bind_ok h
  obtain ⟨hmaps, rfl⟩ := addNodeRangeToGroup_onlyMaps hd
  cases h
  exact ⟨hmaps, posts_ite ((isProxy_toOuterRegions _ group b).congr hmaps)⟩

theorem joinFromOuterRegion_posts {b : ImcBundle}
    (h : c.joinFromOuterRegion group b = .ok (c', posted)) :
    OnlyMaps c c' ∧ Posts c b.imc posted := by
  obtain ⟨d, hd, h⟩ := of_bind_ok h
  have hmaps := addNodeRangeToGroupForOuterRegions_onlyMaps hd
  split_ifs at h
  · obtain ⟨⟨e, told⟩, he, h⟩ := of_bind_ok h
    obtain ⟨hown, rfl⟩ := addNodeRangeToGroup_onlyMaps he
    cases h
    have hall := hmaps.trans hown
    exact ⟨hall, posts_ite ((isProxy_toAllRegions _ group b).congr hall)⟩
  · cases h
    exact ⟨hmaps, posts_nil⟩

/-- Those that have seen what a bundle tells: a briefing comes without a list. -/
def seenBy (b : ImcBundle) : ImcState :=
  match b.payload with
  | .petition _ _ => b.imc
  | _ => {}

/-- What a delivery leaves alone, and what it posts. -/
structure Delivers (c : ImcConfig) (b : ImcBundle) (c' : ImcConfig) (posted : List ImcBundle) :
    Prop where
  maps : OnlyMaps c c'
  proxies : Posts c (seenBy b) posted
  fresh : ∀ group join, b.payload = .petition group join →
    ∀ p ∈ posted, p.imc.isProxyPetition = true →
      b.imc.imcHasProxyBeenProcessedByNode c.localIpnNodeNum = false

theorem delivers_nothing (b : ImcBundle) (hmaps : OnlyMaps c c') : Delivers c b c' [] :=
  ⟨hmaps, posts_nil, fun _ _ _ _ hp => absurd hp List.not_mem_nil⟩

/-- A router answers a join with proxies only where it is not in the list. -/
theorem processImcGroupPetition_delivers {b : ImcBundle} {complete : Bool}
    (h : c.processImcGroupPetition b = .ok (c', posted, complete)) : Delivers c b c' posted := by
  unfold processImcGroupPetition at h
  by_cases hown : b.source = c.localEidIpn
  · rw [if_pos hown] at h
    cases h
    exact delivers_nothing b .rfl
  rw [if_neg hown] at h
  cases hb : b.payload with
  | petition group join =>
    have hseen : seenBy b = b.imc := by rw [seenBy, hb]
    simp only [hb] at h
    by_cases hnode : b.source.nodeNum = 0
    · rw [if_pos hnode] at h
      cases h
      exact delivers_nothing b .rfl
    rw [if_neg hnode] at h
    by_cases hgroup : group = 0
    · rw [if_pos hgroup] at h
      cases h
      have hbrief : ∀ p ∈ if b.imc.syncRequest then c.generateDtnmeImcBriefingBundle b
          else c.generateBp7IonCompatibleImcBriefingBundle b, p.imc.isProxyPetition ≠ true := by
        intro p hp
        split_ifs at hp
        · exact dtnmeBriefing_not_proxy hp
        · exact ionBriefing_not_proxy hp
      exact ⟨.rfl, fun p hp hproxy => absurd hproxy (hbrief p hp),
        fun _ _ _ p hp hproxy => absurd hproxy (hbrief p hp)⟩
    rw [if_neg hgroup] at h
    by_cases hjoin : join = 0
    · rw [if_pos hjoin] at h
      obtain ⟨d, hd, h⟩ := of_bind_ok h
      cases h
      exact delivers_nothing b (delNodeRangeFromGroup_onlyMaps hd)
    rw [if_neg hjoin] at h
    by_cases hproc : b.imc.imcHasProxyBeenProcessedByNode c.localIpnNodeNum = true
    · rw [if_pos hproc] at h
      cases h
      exact delivers_nothing b .rfl
    rw [if_neg hproc] at h
    have hposts : OnlyMaps c c' ∧ Posts c b.imc posted := by
      split_ifs at h
      · obtain ⟨⟨d, told⟩, hd, h⟩ := of_bind_ok h
        cases h
        exact joinFromHomeRegion_posts hd
      · obtain ⟨⟨d, told⟩, hd, h⟩ := of_bind_ok h
        cases h
        exact joinFromOuterRegion_posts hd
    exact ⟨hposts.1, hseen ▸ hposts.2, fun _ _ _ _ _ _ => by simpa using hproc⟩
  | _ =>
    simp only [hb] at h
    cases h
    exact delivers_nothing b .rfl

theorem processBpv6ImcGroupPetition_delivers {b : ImcBundle} {complete : Bool}
    (h : c.processBpv6ImcGroupPetition b = .ok (c', posted, complete)) :
    Delivers c b c' posted := by
  unfold processBpv6ImcGroupPetition at h
  by_cases hown : b.source = c.localEidIpn
  · rw [if_pos hown] at h
    cases h
    exact delivers_nothing b .rfl
  rw [if_neg hown] at h
  cases hb : b.payload with
  | bp6Petition group join =>
    simp only [hb] at h
    split_ifs at h
    · obtain ⟨d, hd, h⟩ := of_bind_ok h
      cases h
      exact delivers_nothing b (delNodeRangeFromGroup_onlyMaps hd)
    · obtain ⟨⟨d, told⟩, hd, h⟩ := of_bind_ok h
      cases h
      obtain ⟨hmaps, rfl⟩ := addNodeRangeToGroup_onlyMaps hd
      exact delivers_nothing b hmaps
  | _ =>
    simp only [hb] at h
    cases h
    exact delivers_nothing b .rfl

/-! ## Briefings -/

theorem addBriefedGroups_onlyMaps {node : ℕ} {groups : List ℕ}
    (h : c.addBriefedGroups node groups = .ok (c', posted)) : OnlyMaps c c' ∧ posted = [] := by
  induction groups generalizing c with
  | nil =>
    cases h
    exact ⟨.rfl, rfl⟩
  | cons group rest ih =>
    rw [addBriefedGroups, List.foldlM_cons] at h
    obtain ⟨x, hx, h⟩ := of_bind_ok h
    obtain ⟨⟨e, more⟩, he, hx⟩ := of_bind_ok hx
    cases hx
    obtain ⟨hmaps, rfl⟩ := addNodeRangeToGroup_onlyMaps he
    exact (ih h).imp_left hmaps.trans

theorem addBriefedRegionNodes_onlyMaps {remoteHomeRegion remoteNode : ℕ} {nodes : List (ℕ × Bool)}
    (h : c.addBriefedRegionNodes remoteHomeRegion remoteNode nodes = .ok c') : OnlyMaps c c' := by
  unfold addBriefedRegionNodes at h
  induction nodes generalizing c with
  | nil =>
    cases h
    exact .rfl
  | cons n rest ih =>
    rw [List.foldlM_cons] at h
    obtain ⟨d, hd, h⟩ := of_bind_ok h
    have hstep : OnlyMaps c d := by
      obtain ⟨node, isRouterNode⟩ := n
      dsimp only at hd
      split_ifs at hd
      · exact changeRegion_onlyMaps hd
      · cases hd
        exact .rfl
    exact hstep.trans (ih h)

theorem addBriefedProxy_posts {remoteNode : ℕ}
    (h : c.addBriefedProxy group remoteNode = .ok (c', posted)) :
    OnlyMaps c c' ∧ Posts c {} posted := by
  obtain ⟨d, hd, h⟩ := of_bind_ok h
  have hmaps := addNodeRangeToGroupForOuterRegions_onlyMaps hd
  split_ifs at h
  · obtain ⟨⟨e, told⟩, he, h⟩ := of_bind_ok h
    obtain ⟨hown, rfl⟩ := addNodeRangeToGroup_onlyMaps he
    cases h
    have hall := hmaps.trans hown
    exact ⟨hall, posts_ite ((isProxy_forBriefing _ group remoteNode).congr hall)⟩
  · cases h
    exact ⟨hmaps, posts_nil⟩

/-- What holds of the configuration and of what is posted while a briefing is read. -/
def Reading (c : ImcConfig) (c' : ImcConfig) (posted : List ImcBundle) : Prop :=
  OnlyMaps c c' ∧ Posts c {} posted

theorem addBriefedGroupNode_reading {remoteHomeRegion remoteNode node : ℕ}
    {d : ImcConfig} {told : List ImcBundle} {added added' : Bool} (hread : Reading c d told)
    (h : addBriefedGroupNode remoteHomeRegion remoteNode group (d, told, added) node =
      .ok (c', posted, added')) : Reading c c' posted := by
  unfold addBriefedGroupNode at h
  dsimp only at h
  split_ifs at h with hpos hhome
  · obtain ⟨⟨e, more⟩, he, h⟩ := of_bind_ok h
    cases h
    obtain ⟨hmaps, rfl⟩ := addNodeRangeToGroup_onlyMaps he
    exact ⟨hread.1.trans hmaps, hread.2.append posts_nil⟩
  · cases h
    exact hread
  · obtain ⟨⟨e, more⟩, he, h⟩ := of_bind_ok h
    cases h
    obtain ⟨hmaps, hposts⟩ := addBriefedProxy_posts he
    exact ⟨hread.1.trans hmaps, hread.2.append fun p hp hproxy =>
      (hposts p hp hproxy).congr hread.1⟩
  · cases h
    exact hread

theorem addBriefedGroupNode_run_reading {remoteHomeRegion remoteNode : ℕ} {nodes : List ℕ}
    {d : ImcConfig} {told : List ImcBundle} {added added' : Bool} (hread : Reading c d told)
    (h : nodes.foldlM (addBriefedGroupNode remoteHomeRegion remoteNode group) (d, told, added) =
      .ok (c', posted, added')) : Reading c c' posted := by
  induction nodes generalizing d told added with
  | nil =>
    cases h
    exact hread
  | cons node rest ih =>
    rw [List.foldlM_cons] at h
    obtain ⟨⟨e, more, added₁⟩, he, h⟩ := of_bind_ok h
    exact ih (addBriefedGroupNode_reading hread he) h

theorem addBriefedGroupNodes_reading {remoteHomeRegion remoteNode : ℕ}
    {groups : List (ℕ × List ℕ)}
    (h : c.addBriefedGroupNodes remoteHomeRegion remoteNode groups = .ok (c', posted)) :
    Reading c c' posted := by
  suffices hrun : ∀ (groups : List (ℕ × List ℕ)) (d : ImcConfig) (told : List ImcBundle),
      Reading c d told →
      (groups.foldlM (fun (x : ImcConfig × List ImcBundle) (g : ℕ × List ℕ) => do
        let y ← g.2.foldlM (addBriefedGroupNode remoteHomeRegion remoteNode g.1)
          (x.1, x.2, false)
        pure (y.1, y.2.1)) (d, told) : Except Fault _) = .ok (c', posted) →
      Reading c c' posted from hrun groups c [] ⟨.rfl, posts_nil⟩ h
  intro groups
  induction groups with
  | nil =>
    intro d told hread h
    cases h
    exact hread
  | cons g rest ih =>
    intro d told hread h
    rw [List.foldlM_cons] at h
    obtain ⟨x, hx, h⟩ := of_bind_ok h
    obtain ⟨⟨e, more, added⟩, he, hx⟩ := of_bind_ok hx
    cases hx
    exact ih e more (addBriefedGroupNode_run_reading hread he) h

theorem delivers_of_reading {b : ImcBundle} (hread : Reading c c' posted)
    (hb : ∀ group join, b.payload ≠ .petition group join) : Delivers c b c' posted where
  maps := hread.1
  proxies := by
    have hseen : seenBy b = {} := by
      unfold seenBy
      split
      · exact absurd ‹_› (hb _ _)
      · rfl
    exact hseen ▸ hread.2
  fresh group join hpet := absurd hpet (hb group join)

theorem processIonCompatibleImcBriefing_delivers {b : ImcBundle} {groups : List ℕ}
    {complete complete' : Bool} (hb : ∀ group join, b.payload ≠ .petition group join)
    (h : c.processIonCompatibleImcBriefing b groups complete = .ok (c', posted, complete')) :
    Delivers c b c' posted := by
  refine delivers_of_reading ?_ hb
  obtain ⟨⟨d, told⟩, hd, h⟩ := of_bind_ok h
  obtain ⟨hmaps, rfl⟩ := addBriefedGroups_onlyMaps hd
  cases complete with
  | true =>
    obtain ⟨e, he, h⟩ := of_bind_ok h
    cases h
    exact ⟨hmaps.trans (changeRegion_onlyMaps he),
      fun _ hp hproxy => absurd hproxy (ionBriefing_not_proxy hp)⟩
  | false =>
    cases h
    exact ⟨hmaps, posts_nil⟩

theorem processDtnmeImcBriefing_delivers {b : ImcBundle} {remoteHomeRegion : ℕ}
    {nodes : List (ℕ × Bool)} {groups : List (ℕ × List ℕ)} {complete complete' : Bool}
    (hb : ∀ group join, b.payload ≠ .petition group join)
    (h : c.processDtnmeImcBriefing b remoteHomeRegion nodes groups complete =
      .ok (c', posted, complete')) : Delivers c b c' posted := by
  refine delivers_of_reading ?_ hb
  obtain ⟨d, hd, h⟩ := of_bind_ok h
  have hnodes := addBriefedRegionNodes_onlyMaps hd
  obtain ⟨⟨e, told⟩, he, h⟩ := of_bind_ok h
  obtain ⟨hmaps, hposts⟩ := addBriefedGroupNodes_reading he
  have hread : Reading c e told :=
    ⟨hnodes.trans hmaps, fun p hp hproxy => (hposts p hp hproxy).congr hnodes⟩
  cases complete with
  | true =>
    cases h
    refine ⟨hread.1, hread.2.append ?_⟩
    intro p hp hproxy
    split_ifs at hp
    · exact absurd hproxy (dtnmeBriefing_not_proxy hp)
    · cases hp
  | false =>
    cases h
    exact hread

/-! ## Runs -/

theorem deliverBundle_delivers {b : ImcBundle} {complete : Bool}
    (h : c.deliverBundle b = .ok (c', posted, complete)) : Delivers c b c' posted := by
  unfold deliverBundle at h
  split at h
  · split_ifs at h
    · cases h
      exact delivers_nothing b .rfl
    · exact processImcGroupPetition_delivers h
  · split at h
    · exact processBpv6ImcGroupPetition_delivers h
    · rename_i groups whole hpay
      split_ifs at h
      · cases h
        exact delivers_nothing b .rfl
      · exact processIonCompatibleImcBriefing_delivers (by simp [hpay]) h
    · rename_i remoteHomeRegion nodes groups whole hpay
      split_ifs at h
      · exact processDtnmeImcBriefing_delivers (by simp [hpay]) h
      · exact processIonCompatibleImcBriefing_delivers (by simp [hpay]) h
    · cases h
      exact delivers_nothing b .rfl

/-- One delivery after the other. -/
def deliverBundles (c : ImcConfig) (bundles : List ImcBundle) : Except Fault ImcConfig :=
  bundles.foldlM (fun c b => (·.1) <$> c.deliverBundle b) c

/-- What other nodes send leaves the stored records, the joins of this node and its numbers as they
are. -/
theorem deliverBundles_onlyMaps {bundles : List ImcBundle}
    (h : c.deliverBundles bundles = .ok c') : OnlyMaps c c' := by
  unfold deliverBundles at h
  induction bundles generalizing c with
  | nil =>
    cases h
    exact .rfl
  | cons b rest ih =>
    rw [List.foldlM_cons] at h
    obtain ⟨d, hd, h⟩ := of_bind_ok h
    cases hdeliver : c.deliverBundle b with
    | error e => simp [hdeliver] at hd
    | ok x =>
      have hx : x.1 = d := by simpa [hdeliver] using hd
      exact (hx ▸ (deliverBundle_delivers hdeliver).maps).trans (ih h)

end ImcConfig

/-! ## The path of a join -/

/-- A router, the bundle that it was delivered, and a proxy that it posted. -/
structure Hop where
  config : ImcConfig
  arrived : ImcBundle
  left : ImcBundle
  router : 0 < config.localIpnNodeNum
  posted : ∃ config' posted complete,
    config.deliverBundle arrived = .ok (config', posted, complete) ∧ left ∈ posted
  proxy : left.imc.isProxyPetition = true

namespace Hop

def node (h : Hop) : ℕ := h.config.localIpnNodeNum

/-- What arrives at the next router is what left, with no mark lost. -/
structure Reaches (h h' : Hop) : Prop where
  payload : h'.arrived.payload = h.left.payload
  marks : ∀ n, 0 < n → h.left.imc.imcHasProxyBeenProcessedByNode n = true →
    h'.arrived.imc.imcHasProxyBeenProcessedByNode n = true

theorem isProxy (h : Hop) : ImcConfig.IsProxy h.config (ImcConfig.seenBy h.arrived) h.left := by
  obtain ⟨config', posted, complete, hok, hp⟩ := h.posted
  exact (ImcConfig.deliverBundle_delivers hok).proxies _ hp h.proxy

theorem fresh (h : Hop) {group join : ℕ} (hpet : h.arrived.payload = .petition group join) :
    h.arrived.imc.imcHasProxyBeenProcessedByNode h.node = false := by
  obtain ⟨config', posted, complete, hok, hp⟩ := h.posted
  exact (ImcConfig.deliverBundle_delivers hok).fresh group join hpet _ hp h.proxy

/-- The marks on a proxy stay on all that are made for it. -/
theorem marks_of_chain {h : Hop} {rest : List Hop} (hchain : List.IsChain Reaches (h :: rest))
    {n : ℕ} (hn : 0 < n) (hmark : h.left.imc.imcHasProxyBeenProcessedByNode n = true) :
    ∀ h' ∈ rest, (∃ group, h'.arrived.payload = .petition group 1) ∧
      h'.arrived.imc.imcHasProxyBeenProcessedByNode n = true := by
  induction rest generalizing h with
  | nil => simp
  | cons next rest ih =>
    obtain ⟨hreach, hchain⟩ := List.isChain_cons_cons.mp hchain
    obtain ⟨group, hleft⟩ := h.isProxy.payload
    have hpay : next.arrived.payload = .petition group 1 := hreach.payload.trans hleft
    have harrived := hreach.marks n hn hmark
    have hseen : ImcConfig.seenBy next.arrived = next.arrived.imc := by
      rw [ImcConfig.seenBy, hpay]
    have hnext := next.isProxy.seen n hn (hseen ▸ harrived)
    intro h' hmem
    rcases List.mem_cons.mp hmem with rfl | hmem
    · exact ⟨⟨group, hpay⟩, harrived⟩
    · exact ih hchain hnext h' hmem

/-- A join passes no router twice, wherever the copies of it go. -/
theorem nodes_nodup {hops : List Hop} (hchain : List.IsChain Reaches hops) :
    (hops.map node).Nodup := by
  induction hops with
  | nil => exact List.nodup_nil
  | cons h rest ih =>
    rw [List.map_cons, List.nodup_cons]
    refine ⟨?_, ih hchain.tail⟩
    intro hmem
    obtain ⟨h', hrest, hsame⟩ := List.mem_map.mp hmem
    obtain ⟨⟨group, hpay⟩, hmark⟩ :=
      marks_of_chain hchain h.router (h.isProxy.own h.router) h' hrest
    have hno := h'.fresh hpay
    rw [hsame] at hno
    exact absurd (hno.symm.trans hmark) Bool.false_ne_true

end Hop

end Dtnme.Imc
