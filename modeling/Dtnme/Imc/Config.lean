import Dtnme.Imc.Bundle
import Dtnme.Imc.Records

/-! # The configuration of a node for multicast

`IMCConfig` keeps a map of nodes for each region and each group it was told of. Nodes from outer
regions have group maps of their own. The destinations of a bundle for a group are read from these
maps.
-/

namespace Dtnme.Imc
open Library Bundling

/-- Where an EID of a manual join is kept. The text that is made for a deletion ends in a letter
that the other does not have. -/
abbrev JoinKey := ℕ ×ₗ ℕ ×ₗ Bool

/-- What a startup command asked to be cleared, and the record of what was cleared last. -/
structure ClearDb where
  onStartup : Bool := false
  id : ℕ := 0
  record : RegionGroupRec
  deriving DecidableEq, Repr

structure ImcConfig where
  localIpnNodeNum : ℕ
  homeRegion : ℕ := 0
  imcRouterEnabled : Bool := false
  imcRouterActive : Bool := false
  isImcRouterNode : Bool := true
  imcIssueBp6Joins : Bool := false
  imcIssueBp7Joins : Bool := true
  mapOfRegionMaps : MapOfMaps := .empty
  mapOfGroupMaps : MapOfMaps := .empty
  mapOfGroupMapsForOuterRegions : MapOfMaps := .empty
  manualJoinsMap : OrdMap JoinKey RegionGroupRec := .empty
  localImcGroupJoins : OrdMap ℕ ℕ := .empty
  homeRegionRec : RegionGroupRec := { recType := .homeRegion }
  clearRegionDb : ClearDb := { record := { recType := .regionDbClear } }
  clearGroupDb : ClearDb := { record := { recType := .groupDbClear } }
  clearManualJoinDb : ClearDb := { record := { recType := .manualJoinDbClear } }
  store : Store := .empty
  deriving DecidableEq

namespace ImcConfig

/-- A change is written to the store if it is asked for and the router runs. -/
def saves (c : ImcConfig) (dbUpdate : Bool) : Bool := dbUpdate && c.imcRouterActive

def localEidIpn (c : ImcConfig) : Endpoint := .ipn c.localIpnNodeNum 0

/-! ## Petitions -/

def createBp7ImcGroupPetitionBundle (c : ImcConfig) (imcGroup joinOrUnjoin : ℕ) : ImcBundle where
  source := c.localEidIpn
  dest := .imc 0 0
  payload := .petition imcGroup joinOrUnjoin

def createBp7ImcJoinPetition (c : ImcConfig) (imcGroup : ℕ) : ImcBundle :=
  c.createBp7ImcGroupPetitionBundle imcGroup 1

def createBp7ImcUnjoinPetition (c : ImcConfig) (imcGroup : ℕ) : ImcBundle :=
  c.createBp7ImcGroupPetitionBundle imcGroup 0

def isRouter (r : RegionGroupRec) : Bool := r.operation == .add && r.isRouterNode

def issueBp6ImcGroupPetitionToNode (c : ImcConfig) (node imcGroup joinOrUnjoin : ℕ) : ImcBundle where
  isBpv6 := true
  source := c.localEidIpn
  dest := .ipn node 0
  isAdmin := true
  payload := .bp6Petition imcGroup joinOrUnjoin

/-- One to each router of each region. -/
def issueBp6ImcGroupPetitions (c : ImcConfig) (imcGroup joinOrUnjoin : ℕ) : List ImcBundle :=
  c.mapOfRegionMaps.values.flatMap fun m =>
    (m.values.filter isRouter).map fun r =>
      c.issueBp6ImcGroupPetitionToNode r.nodeOrIdNum imcGroup joinOrUnjoin

def issueBp6ImcJoinPetitions (c : ImcConfig) (imcGroup : ℕ) : List ImcBundle :=
  c.issueBp6ImcGroupPetitions imcGroup 1

def issueBp6ImcUnjoinPetitions (c : ImcConfig) (imcGroup : ℕ) : List ImcBundle :=
  c.issueBp6ImcGroupPetitions imcGroup 0

/-- The petitions that are issued where a group was joined. -/
def issueJoins (c : ImcConfig) (imcGroup : ℕ) : List ImcBundle :=
  (if c.imcIssueBp7Joins then [c.createBp7ImcJoinPetition imcGroup] else []) ++
    (if c.imcIssueBp6Joins then c.issueBp6ImcJoinPetitions imcGroup else [])

def issueUnjoins (c : ImcConfig) (imcGroup : ℕ) : List ImcBundle :=
  (if c.imcIssueBp7Joins then [c.createBp7ImcUnjoinPetition imcGroup] else []) ++
    (if c.imcIssueBp6Joins then c.issueBp6ImcUnjoinPetitions imcGroup else [])

/-! ## Regions and groups -/

/-- What all of these functions do to the map of a region or group. A number of zero and an empty
range are errors that change nothing. -/
def changeRange (change : Change) (save : Bool) (maps : MapOfMaps) (store : Store)
    (start stop : ℕ) : Except Fault (MapOfMaps × Store × Bool) :=
  if change.num = 0 ∨ stop < start then .ok (maps, store, false)
  else do
    let x ← change.range save ⟨getMap maps change.num, store, false⟩ start stop
    pure (maps.insert change.num x.map, x.store, x.saved)

def addToRegion (regionNum : ℕ) (isRouterNode : Bool) : Change :=
  { recType := .region, num := regionNum, operation := .add, isRouterNode := some isRouterNode }

def addToGroup (groupNum : ℕ) : Change :=
  { recType := .group, num := groupNum, operation := .add }

def delFromGroup (groupNum : ℕ) : Change :=
  { recType := .group, num := groupNum, operation := .remove }

/-- A change to a region. -/
def changeRegion (c : ImcConfig) (change : Change) (dbUpdate : Bool) (start stop : ℕ) :
    Except Fault ImcConfig := do
  let (maps, store, _) ← changeRange change (c.saves dbUpdate) c.mapOfRegionMaps c.store start stop
  pure { c with mapOfRegionMaps := maps, store }

def addNodeRangeToRegion (c : ImcConfig) (regionNum : ℕ) (isRouterNode : Bool) (start stop : ℕ)
    (dbUpdate : Bool) : Except Fault ImcConfig :=
  c.changeRegion (addToRegion regionNum isRouterNode) dbUpdate start stop

/-- A change to a group, and whether some record was saved. -/
def changeGroup (c : ImcConfig) (change : Change) (dbUpdate : Bool) (start stop : ℕ) :
    Except Fault (ImcConfig × Bool) := do
  let (maps, store, saved) ←
    changeRange change (c.saves dbUpdate) c.mapOfGroupMaps c.store start stop
  pure ({ c with mapOfGroupMaps := maps, store }, saved)

/-- A router tells the others of members that were added for good. -/
def addNodeRangeToGroup (c : ImcConfig) (groupNum start stop : ℕ) (dbUpdate : Bool) :
    Except Fault (ImcConfig × List ImcBundle) := do
  let (c, issue) ← c.changeGroup (addToGroup groupNum) dbUpdate start stop
  pure (c, if issue && c.isImcRouterNode then c.issueJoins groupNum else [])

def delNodeRangeFromGroup (c : ImcConfig) (groupNum start stop : ℕ) (dbUpdate : Bool) :
    Except Fault ImcConfig := do
  let (c, _) ← c.changeGroup (delFromGroup groupNum) dbUpdate start stop
  pure c

/-- A change to a group of outer regions. -/
def changeGroupForOuterRegions (c : ImcConfig) (change : Change) (start stop : ℕ) :
    Except Fault ImcConfig := do
  let (maps, _, _) ←
    changeRange change false c.mapOfGroupMapsForOuterRegions c.store start stop
  pure { c with mapOfGroupMapsForOuterRegions := maps }

def addNodeRangeToGroupForOuterRegions (c : ImcConfig) (groupNum start stop : ℕ) :
    Except Fault ImcConfig :=
  c.changeGroupForOuterRegions (addToGroup groupNum) start stop

/-! ## Questions -/

def isNodeInRegion (c : ImcConfig) (node region : ℕ) : Bool :=
  match c.mapOfRegionMaps.find? region with
  | some m => (m.find? node).any (·.operation == .add)
  | none => false

def isNodeInHomeRegion (c : ImcConfig) (node : ℕ) : Bool := c.isNodeInRegion node c.homeRegion

def haveOuterRegionRouterNodes (c : ImcConfig) : Bool :=
  c.mapOfRegionMaps.entries.any fun e => e.1 != c.homeRegion && e.2.values.any isRouter

def haveAnyOtherRouterNodes (c : ImcConfig) (skipNode : ℕ) : Bool :=
  c.mapOfRegionMaps.entries.any fun e => e.2.values.any fun r =>
    isRouter r && r.nodeOrIdNum != c.localIpnNodeNum && r.nodeOrIdNum != skipNode

/-! ## Destinations of a bundle -/

def updateWithRouterNodesFromSingleRegion (c : ImcConfig) (m : RecMap) (s : ImcState) : ImcState :=
  m.values.foldl (fun s r =>
    if c.localIpnNodeNum != r.nodeOrIdNum && isRouter r then s.addImcDestNode r.nodeOrIdNum else s) s

def updateWithAllRouterNodes (c : ImcConfig) (s : ImcState) : ImcState :=
  c.mapOfRegionMaps.entries.foldl (fun s e => c.updateWithRouterNodesFromSingleRegion e.2 s) s

def updateWithAllRouterNodesInOuterRegions (c : ImcConfig) (s : ImcState) : ImcState :=
  c.mapOfRegionMaps.entries.foldl (fun s e =>
    if e.1 != c.homeRegion then c.updateWithRouterNodesFromSingleRegion e.2 s else s) s

/-- A member of the list is a destination, a node that was removed from it is not one any more. -/
def updateFromHomeRegionGroupList (c : ImcConfig) (group : ℕ) (s : ImcState) : ImcState :=
  match c.mapOfGroupMaps.find? group with
  | some m => m.values.foldl (fun s r =>
      if r.operation == .add then s.addImcDestNode r.nodeOrIdNum
      else s.imcDestNodeHandled r.nodeOrIdNum) s
  | none => s

/-- Every node with a record is added here. -/
def updateFromOuterRegionsGroupList (c : ImcConfig) (group : ℕ) (s : ImcState) : ImcState :=
  match c.mapOfGroupMapsForOuterRegions.find? group with
  | some m => m.recs.entries.foldl (fun s e => s.addImcDestNode e.1) s
  | none => s

def updateBundleImcDestNodes (c : ImcConfig) (b : ImcBundle) : ImcState :=
  let s := ((b.imc.imcDestNodeHandled c.localIpnNodeNum).imcDestNodeHandled
    b.prevhop.nodeNum).imcDestNodeHandled b.source.nodeNum
  let group := b.dest.nodeNum
  let s :=
    if s.isImcRegionProcessed c.homeRegion then s
    else
      (if group = 0 then
        if c.isNodeInHomeRegion b.source.nodeNum then c.updateWithAllRouterNodes s else s
      else c.updateFromHomeRegionGroupList group s).addImcRegionProcessed c.homeRegion
  if group ≠ 0 ∧ s.imcHasProxyBeenProcessedByNode c.localIpnNodeNum = false then
    (c.updateFromOuterRegionsGroupList group s).addImcProcessedByNode c.localIpnNodeNum
  else s

/-! ## What the maps say of a node -/

/-- The operation of the record of a node in a map, if it has one. -/
def entryIn (maps : MapOfMaps) (num node : ℕ) : Option Operation :=
  ((getMap maps num).find? node).map (·.operation)

def groupEntry (c : ImcConfig) (group node : ℕ) : Option Operation :=
  entryIn c.mapOfGroupMaps group node

def outerEntry (c : ImcConfig) (group node : ℕ) : Option Operation :=
  entryIn c.mapOfGroupMapsForOuterRegions group node

theorem getMap_insert (maps : MapOfMaps) (num k : ℕ) (m : RecMap) :
    getMap (maps.insert num m) k = if k = num then m else getMap maps k := by
  unfold getMap
  rw [OrdMap.find?_insert]
  split_ifs <;> rfl

/-- The calls return unless the last node number is the largest one there is. -/
theorem changeRange_isOk (change : Change) (save : Bool) (maps : MapOfMaps) (store : Store)
    (start stop : ℕ) :
    (∃ y, changeRange change save maps store start stop = .ok y) ↔
      change.num = 0 ∨ stop < start ∨ stop < 2 ^ 64 - 1 := by
  unfold changeRange
  split_ifs with h
  · exact iff_of_true ⟨_, rfl⟩ (h.imp_right Or.inl)
  · unfold Change.range
    split_ifs with hstop
    · exact iff_of_true ⟨_, rfl⟩ (Or.inr (Or.inr hstop))
    · refine iff_of_false ?_ (by omega)
      rintro ⟨y, hy⟩
      cases hy

theorem changeRange_entry {change : Change} {save saved : Bool} {maps maps' : MapOfMaps}
    {store store' : Store} {start stop : ℕ}
    (h : changeRange change save maps store start stop = .ok (maps', store', saved)) (k n : ℕ) :
    entryIn maps' k n =
      if change.num ≠ 0 ∧ k = change.num ∧ start ≤ n ∧ n ≤ stop then some change.operation
      else entryIn maps k n := by
  unfold changeRange at h
  split_ifs at h with hskip
  · cases h
    have hno : ¬ (change.num ≠ 0 ∧ k = change.num ∧ start ≤ n ∧ n ≤ stop) := by omega
    rw [if_neg hno]
  · cases hr : change.range save ⟨getMap maps change.num, store, false⟩ start stop with
    | error e => simp [hr, Bind.bind, Except.bind] at h
    | ok y =>
      obtain ⟨-, rfl⟩ := change.range_eq_ok save hr
      simp only [hr, Bind.bind, Except.bind, Pure.pure, Except.pure, Except.ok.injEq,
        Prod.mk.injEq] at h
      obtain ⟨rfl, -, -⟩ := h
      unfold entryIn
      rw [getMap_insert]
      by_cases hk : k = change.num
      · have hmem : n ∈ List.range' start (stop + 1 - start) ↔ start ≤ n ∧ n ≤ stop := by
          rw [List.mem_range'_1]
          omega
        have hnum : change.num ≠ 0 := fun h0 => hskip (Or.inl h0)
        rw [if_pos hk, change.foldl_node_operation]
        simp only [hmem, hk, hnum, ne_eq, not_false_eq_true, true_and]
      · simp [hk]

theorem changeGroup_eq_ok {c c' : ImcConfig} {change : Change} {dbUpdate saved : Bool}
    {start stop : ℕ} (h : c.changeGroup change dbUpdate start stop = .ok (c', saved)) :
    ∃ maps store, changeRange change (c.saves dbUpdate) c.mapOfGroupMaps c.store start stop =
      .ok (maps, store, saved) ∧ c' = { c with mapOfGroupMaps := maps, store } := by
  unfold changeGroup at h
  cases hr : changeRange change (c.saves dbUpdate) c.mapOfGroupMaps c.store start stop with
  | error e => simp [hr, Bind.bind, Except.bind] at h
  | ok y =>
    obtain ⟨maps, store, saved'⟩ := y
    simp only [hr, Bind.bind, Except.bind, Pure.pure, Except.pure, Except.ok.injEq,
      Prod.mk.injEq] at h
    obtain ⟨rfl, rfl⟩ := h
    exact ⟨maps, store, rfl, rfl⟩

theorem changeGroupForOuterRegions_eq_ok {c c' : ImcConfig} {change : Change} {start stop : ℕ}
    (h : c.changeGroupForOuterRegions change start stop = .ok c') :
    ∃ maps store saved,
      changeRange change false c.mapOfGroupMapsForOuterRegions c.store start stop =
        .ok (maps, store, saved) ∧ c' = { c with mapOfGroupMapsForOuterRegions := maps } := by
  unfold changeGroupForOuterRegions at h
  cases hr : changeRange change false c.mapOfGroupMapsForOuterRegions c.store start stop with
  | error e => simp [hr, Bind.bind, Except.bind] at h
  | ok y =>
    obtain ⟨maps, store, saved⟩ := y
    simp only [hr, Bind.bind, Except.bind, Pure.pure, Except.pure, Except.ok.injEq] at h
    exact ⟨maps, store, saved, rfl, h.symm⟩

end ImcConfig

end Dtnme.Imc
