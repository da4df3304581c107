import Dtnme.Imc.Config

/-! # Petitions and briefings

A petition asks for its source to join or to leave a group. A router that takes a join over a
border between regions asks for itself on the other side, with the list of nodes that have seen
the petition. A petition for group zero asks for a briefing, which lists what a node knows.
-/

namespace Dtnme.Imc
open Library Bundling

namespace ImcConfig

/-! ## Briefings that are sent -/

/-- All known groups, or those joined here if this is not a router. -/
def briefedGroups (c : ImcConfig) : List ℕ :=
  if c.imcRouterEnabled && c.isImcRouterNode then c.mapOfGroupMaps.entries.map (·.1)
  else c.localImcGroupJoins.entries.map (·.1)

def generateBp7IonCompatibleImcBriefingBundle (c : ImcConfig) (orig : ImcBundle) :
    List ImcBundle :=
  if orig.source.isIpnScheme then
    [{ source := c.localEidIpn
       dest := .ipn orig.source.nodeNum 0
       isAdmin := true
       payload := .ionBriefing c.briefedGroups true }]
  else []

/-- A node that was removed leaves a zero. -/
def briefedRegionNodes (c : ImcConfig) : List (ℕ × Bool) :=
  (getMap c.mapOfRegionMaps c.homeRegion).values.map fun r =>
    if r.operation == .add then (r.nodeOrIdNum, r.isRouterNode) else (0, false)

def briefedGroupNodes (c : ImcConfig) : List (ℕ × List ℕ) :=
  c.mapOfGroupMaps.entries.map fun e =>
    (e.1, e.2.values.map fun r => if r.operation == .add then r.nodeOrIdNum else 0)

/-- It asks for a briefing in return if what it answers is not one itself. -/
def generateDtnmeImcBriefingBundle (c : ImcConfig) (orig : ImcBundle) : List ImcBundle :=
  if orig.source.isIpnScheme then
    [{ source := c.localEidIpn
       dest := .ipn orig.source.nodeNum 0
       isAdmin := true
       imcBriefing := true
       imc := { isDtnmeNode := true, syncReply := true, syncRequest := !orig.isAdmin }
       payload := .dtnmeBriefing c.homeRegion c.briefedRegionNodes c.briefedGroupNodes true }]
  else []

/-! ## Proxies -/

/-- The nodes that have processed a proxy: those of the bundle it is made for, this one and the
one that asked. -/
def markProcessed (c : ImcConfig) (seen : ImcState) (remoteNode : ℕ) (s : ImcState) : ImcState :=
  ((s.copyImcProcessedByNodeList seen).addImcProcessedByNode
    c.localIpnNodeNum).addImcProcessedByNode remoteNode

/-- For a node of the home region, to the outer ones. -/
def proxyToOuterRegions (c : ImcConfig) (group : ℕ) (b : ImcBundle) : ImcBundle :=
  { c.createBp7ImcJoinPetition group with
    routerProcessedImc := true
    imc := c.markProcessed b.imc b.source.nodeNum
      { c.updateWithAllRouterNodesInOuterRegions {} with isProxyPetition := true } }

/-- For a node of an outer region, to all others. -/
def proxyToAllRegions (c : ImcConfig) (group : ℕ) (b : ImcBundle) : ImcBundle :=
  { c.createBp7ImcJoinPetition group with
    prevhop := b.prevhop
    routerProcessedImc := true
    imc := (c.markProcessed b.imc b.source.nodeNum
      { c.updateWithAllRouterNodes {} with isProxyPetition := true }).imcDestNodeHandled
        b.source.nodeNum }

/-- For a node of an outer region that lists members in a briefing. -/
def proxyForBriefing (c : ImcConfig) (group remoteNode : ℕ) : ImcBundle :=
  { c.createBp7ImcJoinPetition group with
    routerProcessedImc := true
    imc := (c.markProcessed {} remoteNode
      { c.updateWithAllRouterNodes {} with isProxyPetition := true }).imcDestNodeHandled remoteNode }

/-! ## Petitions -/

def isRouting (c : ImcConfig) : Bool := c.imcRouterEnabled && c.isImcRouterNode

/-- A join from the home region. -/
def joinFromHomeRegion (c : ImcConfig) (group : ℕ) (b : ImcBundle) :
    Except Fault (ImcConfig × List ImcBundle) := do
  let node := b.source.nodeNum
  let (c, posted) ← c.addNodeRangeToGroup group node node false
  pure (c, posted ++
    if c.isRouting && c.haveOuterRegionRouterNodes then [c.proxyToOuterRegions group b] else [])

/-- A join from an outer region. A router lists itself, so that others send it bundles of the
group. -/
def joinFromOuterRegion (c : ImcConfig) (group : ℕ) (b : ImcBundle) :
    Except Fault (ImcConfig × List ImcBundle) := do
  let node := b.source.nodeNum
  let c ← c.addNodeRangeToGroupForOuterRegions group node node
  if c.isRouting then
    let (c, posted) ← c.addNodeRangeToGroup group c.localIpnNodeNum c.localIpnNodeNum false
    pure (c, posted ++
      if c.haveAnyOtherRouterNodes node then [c.proxyToAllRegions group b] else [])
  else pure (c, [])

/-- The bundles that are posted come with the configuration, and whether the payload was read. -/
def processImcGroupPetition (c : ImcConfig) (b : ImcBundle) :
    Except Fault (ImcConfig × List ImcBundle × Bool) :=
  if b.source = c.localEidIpn then .ok (c, [], true)
  else
    match b.payload with
    | .petition group joinOrUnjoin => do
      let node := b.source.nodeNum
      if node = 0 then pure (c, [], true)
      else if group = 0 then
        pure (c, if b.imc.syncRequest then c.generateDtnmeImcBriefingBundle b
          else c.generateBp7IonCompatibleImcBriefingBundle b, true)
      else if joinOrUnjoin = 0 then
        let c ← c.delNodeRangeFromGroup group node node false
        pure (c, [], true)
      else if b.imc.imcHasProxyBeenProcessedByNode c.localIpnNodeNum then pure (c, [], true)
      else if c.isNodeInHomeRegion node then
        let (c, posted) ← c.joinFromHomeRegion group b
        pure (c, posted, true)
      else
        let (c, posted) ← c.joinFromOuterRegion group b
        pure (c, posted, true)
    | _ => .ok (c, [], false)

/-- A petition of BPv6, which is an administrative record. -/
def processBpv6ImcGroupPetition (c : ImcConfig) (b : ImcBundle) :
    Except Fault (ImcConfig × List ImcBundle × Bool) :=
  if b.source = c.localEidIpn then .ok (c, [], true)
  else
    match b.payload with
    | .bp6Petition group joinOrUnjoin => do
      let node := b.source.nodeNum
      if joinOrUnjoin = 0 then
        let c ← c.delNodeRangeFromGroup group node node false
        pure (c, [], true)
      else
        let (c, posted) ← c.addNodeRangeToGroup group node node false
        pure (c, posted, true)
    | _ => .ok (c, [], false)

/-! ## Briefings that arrive -/

/-- The sender joined the groups that it lists. -/
def addBriefedGroups (c : ImcConfig) (node : ℕ) (groups : List ℕ) :
    Except Fault (ImcConfig × List ImcBundle) :=
  groups.foldlM (fun (c, posted) group => do
    let (c, more) ← c.addNodeRangeToGroup group node node false
    pure (c, posted ++ more)) (c, [])

/-- A briefing without a state block is from a node that does not tell whether it is a router. An
answer is always sent. -/
def processIonCompatibleImcBriefing (c : ImcConfig) (b : ImcBundle) (groups : List ℕ)
    (complete : Bool) : Except Fault (ImcConfig × List ImcBundle × Bool) := do
  let node := b.source.nodeNum
  let (c, posted) ← c.addBriefedGroups node groups
  if complete then
    let c ← c.addNodeRangeToRegion c.homeRegion (!b.imc.isDtnmeNode || b.imc.isRouterNode)
      node node false
    pure (c, posted ++ c.generateBp7IonCompatibleImcBriefingBundle b, true)
  else pure (c, posted, false)

/-- The nodes of the sender's region, or of another region the sender alone. -/
def addBriefedRegionNodes (c : ImcConfig) (remoteHomeRegion remoteNode : ℕ)
    (nodes : List (ℕ × Bool)) : Except Fault ImcConfig :=
  nodes.foldlM (fun c (node, isRouterNode) =>
    if node ≠ 0 ∧ (remoteHomeRegion = c.homeRegion ∨ node = remoteNode) then
      c.addNodeRangeToRegion remoteHomeRegion isRouterNode node node false
    else pure c) c

/-- The sender stands for the members of a group in its region. -/
def addBriefedProxy (c : ImcConfig) (group remoteNode : ℕ) :
    Except Fault (ImcConfig × List ImcBundle) := do
  let c ← c.addNodeRangeToGroupForOuterRegions group remoteNode remoteNode
  if c.isRouting then
    let (c, posted) ← c.addNodeRangeToGroup group c.localIpnNodeNum c.localIpnNodeNum false
    pure (c, posted ++
      if c.haveAnyOtherRouterNodes remoteNode then [c.proxyForBriefing group remoteNode] else [])
  else pure (c, [])

/-- One node of a group array. -/
def addBriefedGroupNode (remoteHomeRegion remoteNode group : ℕ)
    (x : ImcConfig × List ImcBundle × Bool) (node : ℕ) :
    Except Fault (ImcConfig × List ImcBundle × Bool) :=
  let (c, posted, proxyAdded) := x
  if group ≠ 0 ∧ node ≠ 0 then
    if remoteHomeRegion = c.homeRegion then do
      let (c, more) ← c.addNodeRangeToGroup group node node false
      pure (c, posted ++ more, proxyAdded)
    else if proxyAdded then pure x
    else do
      let (c, more) ← c.addBriefedProxy group remoteNode
      pure (c, posted ++ more, true)
  else pure x

def addBriefedGroupNodes (c : ImcConfig) (remoteHomeRegion remoteNode : ℕ)
    (groups : List (ℕ × List ℕ)) : Except Fault (ImcConfig × List ImcBundle) :=
  groups.foldlM (fun (c, posted) (group, nodes) => do
    let (c, posted, _) ←
      nodes.foldlM (addBriefedGroupNode remoteHomeRegion remoteNode group) (c, posted, false)
    pure (c, posted)) (c, [])

/-- An answer is sent if it is asked for. -/
def processDtnmeImcBriefing (c : ImcConfig) (b : ImcBundle) (homeRegion : ℕ)
    (nodes : List (ℕ × Bool)) (groups : List (ℕ × List ℕ)) (complete : Bool) :
    Except Fault (ImcConfig × List ImcBundle × Bool) := do
  let node := b.source.nodeNum
  let c ← c.addBriefedRegionNodes homeRegion node nodes
  let (c, posted) ← c.addBriefedGroupNodes homeRegion node groups
  if complete then
    pure (c, posted ++ if b.imc.syncRequest then c.generateDtnmeImcBriefingBundle b else [], true)
  else pure (c, posted, false)

/-! ## Delivery -/

/-- What the registrations of imc:0.0 and of the administrative endpoint do with a bundle. -/
def deliverBundle (c : ImcConfig) (b : ImcBundle) :
    Except Fault (ImcConfig × List ImcBundle × Bool) :=
  match b.dest with
  | .imc 0 0 => if b.isBpv6 then .ok (c, [], false) else c.processImcGroupPetition b
  | _ =>
    match b.payload with
    | .bp6Petition _ _ => c.processBpv6ImcGroupPetition b
    | .ionBriefing groups complete =>
      if b.imc.syncReply then .ok (c, [], false)
      else c.processIonCompatibleImcBriefing b groups complete
    | .dtnmeBriefing homeRegion nodes groups complete =>
      -- as a list of groups it breaks off behind its first number
      if b.imc.syncReply then c.processDtnmeImcBriefing b homeRegion nodes groups complete
      else c.processIonCompatibleImcBriefing b [homeRegion] false
    | _ => .ok (c, [], false)

end ImcConfig

end Dtnme.Imc
