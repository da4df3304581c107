import Dtnme.Library.OrdMap
import Dtnme.Library.Transition
import Dtnme.Bundling.BlockInfo

/-! # Destinations of a multicast bundle

`BundleIMCState` keeps the nodes a bundle is for in a map to whether they are handled, next to
counts of both kinds, the nodes it came with, and lists of nodes for each link. A map that was
never written to is a null pointer. Reloading a state replays its lists through the operations
that built it.
-/

namespace Dtnme.Bundling
open Library

/-- A map of nodes behind a pointer. -/
abbrev NodeMap := OrdMap ℕ Bool

/-- `IMC_DEST_NODE_HANDLED` is true and `IMC_DEST_NODE_NOT_HANDLED` is false. -/
structure ImcState where
  isDtnmeNode : Bool := false
  isRouterNode : Bool := false
  syncReply : Bool := false
  syncRequest : Bool := false
  isProxyPetition : Bool := false
  destNodesHandled : ℤ := 0
  destNodesNotHandled : ℤ := 0
  destMap : Option NodeMap := none
  origDestMap : Option NodeMap := none
  linkDestMap : Option (OrdMap String NodeMap) := none
  processedRegionsMap : Option NodeMap := none
  processedByNodesMap : Option NodeMap := none
  deriving DecidableEq

namespace ImcState

def dests (s : ImcState) : NodeMap := s.destMap.getD .empty

def origDests (s : ImcState) : NodeMap := s.origDestMap.getD .empty

def links (s : ImcState) : OrdMap String NodeMap := s.linkDestMap.getD .empty

def regions (s : ImcState) : NodeMap := s.processedRegionsMap.getD .empty

def processedBy (s : ImcState) : NodeMap := s.processedByNodesMap.getD .empty

/-! ## Operations -/

def addImcDestNode (s : ImcState) (destNode : ℕ) : ImcState :=
  if 0 < destNode then
    match s.dests.find? destNode with
    | none => { s with
        destMap := some (s.dests.insert destNode false)
        destNodesNotHandled := s.destNodesNotHandled + 1 }
    | some _ => { s with destMap := some s.dests }
  else s

def addImcOrigDestNode (s : ImcState) (destNode : ℕ) : ImcState :=
  if 0 < destNode then
    match s.origDests.find? destNode with
    | none => addImcDestNode { s with origDestMap := some (s.origDests.insert destNode false) } destNode
    | some _ => addImcDestNode { s with origDestMap := some s.origDests } destNode
  else s

def imcDestNodeHandled (s : ImcState) (destNode : ℕ) : ImcState :=
  if 0 < destNode then
    match s.dests.find? destNode with
    | none => { s with
        destMap := some (s.dests.insert destNode true)
        destNodesHandled := s.destNodesHandled + 1 }
    | some false => { s with
        destMap := some (s.dests.insert destNode true)
        destNodesNotHandled := s.destNodesNotHandled - 1
        destNodesHandled := s.destNodesHandled + 1 }
    | some true => { s with destMap := some s.dests }
  else s

def addImcRegionProcessed (s : ImcState) (region : ℕ) : ImcState :=
  { s with processedRegionsMap := some (s.regions.insert region true) }

def addImcProcessedByNode (s : ImcState) (nodeNum : ℕ) : ImcState :=
  if 0 < nodeNum then
    match s.processedBy.find? nodeNum with
    | none => { s with processedByNodesMap := some (s.processedBy.insert nodeNum true) }
    | some _ => { s with processedByNodesMap := some s.processedBy }
  else s

/-- The list of a link, made if there is none. -/
def linkMap (s : ImcState) (linkname : String) : NodeMap := (s.links.find? linkname).getD .empty

def addImcDestNodeViaLink (s : ImcState) (linkname : String) (destNode : ℕ) : ImcState :=
  { s with linkDestMap := some (s.links.insert linkname ((s.linkMap linkname).insert destNode false)) }

/-- The map of destinations is read without a test for null. -/
def copyAllUnhandledNodesToViaLink (s : ImcState) (linkname : String) : Except Fault ImcState :=
  match s.destMap with
  | none => .error .undefined
  | some m => .ok { s with
      linkDestMap := some (s.links.insert linkname
        (m.entries.foldl (fun l e => if e.2 then l else l.insert e.1 false) (s.linkMap linkname))) }

def clearImcLinkLists (s : ImcState) : ImcState :=
  { s with linkDestMap := s.linkDestMap.map (fun _ => .empty) }

def imcLinkTransmitSuccess (s : ImcState) (linkname : String) : ImcState :=
  match s.links.find? linkname with
  | some m =>
    let s := m.entries.foldl (fun s e => s.imcDestNodeHandled e.1) s
    { s with linkDestMap := some (s.links.erase linkname) }
  | none =>
    s.dests.entries.foldl (fun s e => if e.2 then s else s.imcDestNodeHandled e.1) s

def imcLinkTransmitFailure (s : ImcState) (linkname : String) : ImcState :=
  { s with linkDestMap := s.linkDestMap.map (fun m => m.erase linkname) }

/-- The operations. -/
inductive Op
  | addOrigDestNode (destNode : ℕ)
  | addDestNode (destNode : ℕ)
  | destNodeHandled (destNode : ℕ)
  | addRegionProcessed (region : ℕ)
  | addProcessedByNode (nodeNum : ℕ)
  | addDestNodeViaLink (linkname : String) (destNode : ℕ)
  | copyAllUnhandledNodesToViaLink (linkname : String)
  | linkTransmitSuccess (linkname : String)
  | linkTransmitFailure (linkname : String)
  | clearLinkLists
  deriving DecidableEq

def step (s : ImcState) : Op → Except Fault ImcState
  | .addOrigDestNode n => .ok (s.addImcOrigDestNode n)
  | .addDestNode n => .ok (s.addImcDestNode n)
  | .destNodeHandled n => .ok (s.imcDestNodeHandled n)
  | .addRegionProcessed r => .ok (s.addImcRegionProcessed r)
  | .addProcessedByNode n => .ok (s.addImcProcessedByNode n)
  | .addDestNodeViaLink l n => .ok (s.addImcDestNodeViaLink l n)
  | .copyAllUnhandledNodesToViaLink l => s.copyAllUnhandledNodesToViaLink l
  | .linkTransmitSuccess l => .ok (s.imcLinkTransmitSuccess l)
  | .linkTransmitFailure l => .ok (s.imcLinkTransmitFailure l)
  | .clearLinkLists => .ok s.clearImcLinkLists

/-! ## Storing a state -/

/-- The nodes of a kind, in the order of the map. -/
def nodesOf (m : NodeMap) (handled : Bool) : List ℕ :=
  (m.entries.filter (fun e => e.2 == handled)).map (·.1)

/-- A counted list of nodes; the count is that of the state, and is checked against the list unless
it is not positive. -/
def writeCounted (count : ℤ) (nodes : List ℕ) : Except Fault (List ℤ) :=
  if 0 < count then
    if nodes.length = count then .ok (count :: nodes.map (↑)) else .error .assertFailed
  else .ok [count]

/-- All keys of a map, behind their number. -/
def writeKeys (m : NodeMap) : List ℤ := (m.size : ℤ) :: m.entries.map (fun e => (e.1 : ℤ))

def flag (b : Bool) : ℤ := if b then 1 else 0

/-- `serialize` to a stream of numbers. -/
def serialize (s : ImcState) : Except Fault (List ℤ) := do
  let notHandled ← writeCounted s.destNodesNotHandled (nodesOf s.dests false)
  let handled ← writeCounted s.destNodesHandled (nodesOf s.dests true)
  pure ([flag s.isDtnmeNode, flag s.isRouterNode, flag s.syncReply, flag s.syncRequest,
    flag s.isProxyPetition] ++ (writeKeys s.origDests ++ (notHandled ++ (handled ++
      (writeKeys s.regions ++ writeKeys s.processedBy)))))

/-- Read a counted list of numbers and give each to an operation. -/
def readNodes (op : ImcState → ℕ → ImcState) (s : ImcState) : List ℤ → Option (ImcState × List ℤ)
  | [] => none
  | count :: rest =>
    if count.toNat ≤ rest.length then
      some ((rest.take count.toNat).foldl (fun s n => op s n.toNat) s, rest.drop count.toNat)
    else none

def ofFlags (a b c d e : ℤ) : ImcState where
  isDtnmeNode := a == 1
  isRouterNode := b == 1
  syncReply := c == 1
  syncRequest := d == 1
  isProxyPetition := e == 1

/-- `serialize` with `UNMARSHAL`, into a new state. -/
def unmarshal (stream : List ℤ) : Option ImcState := do
  match stream with
  | a :: b :: c :: d :: e :: rest =>
    let (s, rest) ← readNodes addImcOrigDestNode (ofFlags a b c d e) rest
    let (s, rest) ← readNodes addImcDestNode s rest
    let (s, rest) ← readNodes imcDestNodeHandled s rest
    let (s, rest) ← readNodes addImcRegionProcessed s rest
    let (s, _) ← readNodes addImcProcessedByNode s rest
    pure s
  | _ => none

/-! ## What an operation changes -/

/-- Everything but the destinations and their counts. -/
def other (s : ImcState) : ImcState :=
  { s with destMap := none, destNodesHandled := 0, destNodesNotHandled := 0 }

@[simp] theorem other_addImcDestNode (s : ImcState) (k : ℕ) : (s.addImcDestNode k).other = s.other := by
  unfold addImcDestNode
  split_ifs
  · split <;> rfl
  · rfl

@[simp] theorem other_imcDestNodeHandled (s : ImcState) (k : ℕ) :
    (s.imcDestNodeHandled k).other = s.other := by
  unfold imcDestNodeHandled
  split_ifs
  · split <;> rfl
  · rfl

theorem origDests_of_other {s t : ImcState} (h : s.other = t.other) : s.origDests = t.origDests :=
  (congrArg origDests h : s.other.origDests = t.other.origDests)

theorem regions_of_other {s t : ImcState} (h : s.other = t.other) : s.regions = t.regions :=
  (congrArg regions h : s.other.regions = t.other.regions)

theorem processedBy_of_other {s t : ImcState} (h : s.other = t.other) :
    s.processedBy = t.processedBy :=
  (congrArg processedBy h : s.other.processedBy = t.other.processedBy)

theorem dests_addImcDestNode (s : ImcState) (k n : ℕ) :
    (s.addImcDestNode k).dests.find? n =
      if n = k ∧ 0 < k then some ((s.dests.find? n).getD false) else s.dests.find? n := by
  unfold addImcDestNode
  by_cases hk : 0 < k
  · rw [if_pos hk]
    cases hf : s.dests.find? k with
    | none =>
      change (s.dests.insert k false).find? n = _
      rw [OrdMap.find?_insert]
      by_cases hn : n = k <;> simp [hn, hk, hf]
    | some b =>
      change s.dests.find? n = _
      by_cases hn : n = k <;> simp [hn, hk, hf]
  · simp [hk]

theorem dests_imcDestNodeHandled (s : ImcState) (k n : ℕ) :
    (s.imcDestNodeHandled k).dests.find? n =
      if n = k ∧ 0 < k then some true else s.dests.find? n := by
  unfold imcDestNodeHandled
  by_cases hk : 0 < k
  · rw [if_pos hk]
    cases hf : s.dests.find? k with
    | none =>
      change (s.dests.insert k true).find? n = _
      rw [OrdMap.find?_insert]
      by_cases hn : n = k <;> simp [hn, hk]
    | some b =>
      cases b with
      | false =>
        change (s.dests.insert k true).find? n = _
        rw [OrdMap.find?_insert]
        by_cases hn : n = k <;> simp [hn, hk]
      | true =>
        change s.dests.find? n = _
        by_cases hn : n = k <;> simp [hn, hk, hf]
  · simp [hk]

theorem addImcDestNode_setOrig (s : ImcState) (m : Option NodeMap) (k : ℕ) :
    addImcDestNode { s with origDestMap := m } k = { s.addImcDestNode k with origDestMap := m } := by
  unfold addImcDestNode
  split_ifs
  · rcases hf : s.dests.find? k with _ | b
    · have hf' : ({ s with origDestMap := m } : ImcState).dests.find? k = none := hf
      simp only [hf']
      rfl
    · have hf' : ({ s with origDestMap := m } : ImcState).dests.find? k = some b := hf
      simp only [hf']
      rfl
  · rfl

/-- An original destination is also a destination. -/
theorem addImcOrigDestNode_eq (s : ImcState) (k : ℕ) : ∃ m,
    s.addImcOrigDestNode k = addImcDestNode { s with origDestMap := m } k ∧
      ∀ n, (m.getD .empty).find? n =
        if n = k ∧ 0 < k then some ((s.origDests.find? n).getD false) else s.origDests.find? n := by
  unfold addImcOrigDestNode
  by_cases hk : 0 < k
  · rw [if_pos hk]
    cases hf : s.origDests.find? k with
    | none =>
      refine ⟨some (s.origDests.insert k false), rfl, fun n => ?_⟩
      change (s.origDests.insert k false).find? n = _
      rw [OrdMap.find?_insert]
      by_cases hn : n = k <;> simp [hn, hk, hf]
    | some b =>
      refine ⟨some s.origDests, rfl, fun n => ?_⟩
      change s.origDests.find? n = _
      by_cases hn : n = k <;> simp [hn, hk, hf]
  · refine ⟨s.origDestMap, ?_, fun n => ?_⟩
    · rw [if_neg hk, addImcDestNode, if_neg hk]
    · simp [hk, origDests]

theorem dests_addImcOrigDestNode (s : ImcState) (k n : ℕ) :
    (s.addImcOrigDestNode k).dests.find? n =
      if n = k ∧ 0 < k then some ((s.dests.find? n).getD false) else s.dests.find? n := by
  obtain ⟨m, hm, _⟩ := s.addImcOrigDestNode_eq k
  rw [hm, dests_addImcDestNode]
  rfl

theorem origDests_addImcOrigDestNode (s : ImcState) (k n : ℕ) :
    (s.addImcOrigDestNode k).origDests.find? n =
      if n = k ∧ 0 < k then some ((s.origDests.find? n).getD false) else s.origDests.find? n := by
  obtain ⟨m, hm, hfind⟩ := s.addImcOrigDestNode_eq k
  rw [hm, origDests_of_other (other_addImcDestNode _ k), ← hfind n]
  rfl

theorem processedBy_addImcProcessedByNode (s : ImcState) (k n : ℕ) :
    (s.addImcProcessedByNode k).processedBy.find? n =
      if n = k ∧ 0 < k then some ((s.processedBy.find? n).getD true) else s.processedBy.find? n := by
  unfold addImcProcessedByNode
  by_cases hk : 0 < k
  · rw [if_pos hk]
    cases hf : s.processedBy.find? k with
    | none =>
      change (s.processedBy.insert k true).find? n = _
      rw [OrdMap.find?_insert]
      by_cases hn : n = k <;> simp [hn, hk, hf]
    | some b =>
      change s.processedBy.find? n = _
      by_cases hn : n = k <;> simp [hn, hk, hf]
  · simp [hk]

/-- The processing nodes are the only thing that changes. -/
theorem addImcProcessedByNode_eq (s : ImcState) (k : ℕ) :
    ∃ m, s.addImcProcessedByNode k = { s with processedByNodesMap := m } := by
  unfold addImcProcessedByNode
  split_ifs
  · split <;> exact ⟨_, rfl⟩
  · exact ⟨_, rfl⟩

/-! ## The books -/

/-- The counts are those of the map, the original destinations are in it, and no node is 0. -/
structure Consistent (s : ImcState) : Prop where
  handled : s.destNodesHandled = s.dests.sum (fun b => if b then 1 else 0)
  notHandled : s.destNodesNotHandled = s.dests.sum (fun b => if b then 0 else 1)
  pos : ∀ n b, s.dests.find? n = some b → 0 < n
  orig : ∀ n b, s.origDests.find? n = some b → b = false ∧ (s.dests.find? n).isSome
  region : ∀ n b, s.regions.find? n = some b → b = true
  processed : ∀ n b, s.processedBy.find? n = some b → 0 < n ∧ b = true

theorem Consistent.initial : Consistent {} where
  handled := rfl
  notHandled := rfl
  pos := by simp [dests]
  orig := by simp [origDests]
  region := by simp [regions]
  processed := by simp [processedBy]

/-- A change of the destinations that keeps the counts and forgets no node. -/
theorem Consistent.of_dests {s t : ImcState} (h : Consistent s) (hother : t.other = s.other)
    (hhandled : t.destNodesHandled = t.dests.sum (fun b => if b then 1 else 0))
    (hnot : t.destNodesNotHandled = t.dests.sum (fun b => if b then 0 else 1))
    (hpos : ∀ n b, t.dests.find? n = some b → 0 < n)
    (hkeep : ∀ n, (s.dests.find? n).isSome → (t.dests.find? n).isSome) : Consistent t where
  handled := hhandled
  notHandled := hnot
  pos := hpos
  orig := by
    intro n b hn
    rw [origDests_of_other hother] at hn
    exact ⟨(h.orig n b hn).1, hkeep n (h.orig n b hn).2⟩
  region := by
    rw [regions_of_other hother]
    exact h.region
  processed := by
    rw [processedBy_of_other hother]
    exact h.processed

theorem Consistent.addImcDestNode {s : ImcState} (h : Consistent s) (k : ℕ) :
    Consistent (s.addImcDestNode k) := by
  apply h.of_dests (other_addImcDestNode s k)
  · unfold ImcState.addImcDestNode
    split_ifs with hk
    · cases hf : s.dests.find? k with
      | none =>
        change s.destNodesHandled = (s.dests.insert k false).sum _
        rw [OrdMap.sum_insert _ hf, h.handled]
        simp
      | some b => exact h.handled
    · exact h.handled
  · unfold ImcState.addImcDestNode
    split_ifs with hk
    · cases hf : s.dests.find? k with
      | none =>
        change s.destNodesNotHandled + 1 = (s.dests.insert k false).sum _
        rw [OrdMap.sum_insert _ hf, h.notHandled]
        push_cast
        simp [add_comm]
      | some b => exact h.notHandled
    · exact h.notHandled
  · intro n b hn
    rw [dests_addImcDestNode] at hn
    split_ifs at hn with hk
    · rw [hk.1]
      exact hk.2
    · exact h.pos n b hn
  · intro n hn
    rw [dests_addImcDestNode]
    split_ifs
    · rfl
    · exact hn

theorem Consistent.imcDestNodeHandled {s : ImcState} (h : Consistent s) (k : ℕ) :
    Consistent (s.imcDestNodeHandled k) := by
  apply h.of_dests (other_imcDestNodeHandled s k)
  · unfold ImcState.imcDestNodeHandled
    split_ifs with hk
    · cases hf : s.dests.find? k with
      | none =>
        change s.destNodesHandled + 1 = (s.dests.insert k true).sum _
        rw [OrdMap.sum_insert _ hf, h.handled]
        push_cast
        simp [add_comm]
      | some b =>
        cases b with
        | false =>
          change s.destNodesHandled + 1 = (s.dests.insert k true).sum _
          have hsum := OrdMap.sum_update (w := true) (fun b => if b then 1 else 0) hf
          rw [h.handled]
          simp only [Bool.false_eq_true, if_false, if_true] at hsum
          omega
        | true => exact h.handled
    · exact h.handled
  · unfold ImcState.imcDestNodeHandled
    split_ifs with hk
    · cases hf : s.dests.find? k with
      | none =>
        change s.destNodesNotHandled = (s.dests.insert k true).sum _
        rw [OrdMap.sum_insert _ hf, h.notHandled]
        simp
      | some b =>
        cases b with
        | false =>
          change s.destNodesNotHandled - 1 = (s.dests.insert k true).sum _
          have hsum := OrdMap.sum_update (w := true) (fun b => if b then 0 else 1) hf
          rw [h.notHandled]
          simp only [Bool.false_eq_true, if_false, if_true] at hsum
          omega
        | true => exact h.notHandled
    · exact h.notHandled
  · intro n b hn
    rw [dests_imcDestNodeHandled] at hn
    split_ifs at hn with hk
    · rw [hk.1]
      exact hk.2
    · exact h.pos n b hn
  · intro n hn
    rw [dests_imcDestNodeHandled]
    split_ifs
    · rfl
    · exact hn

theorem Consistent.addImcOrigDestNode {s : ImcState} (h : Consistent s) (k : ℕ) :
    Consistent (s.addImcOrigDestNode k) := by
  obtain ⟨m, hm, _⟩ := s.addImcOrigDestNode_eq k
  -- without the original destinations this is an `addImcDestNode`
  have hdest := h.addImcDestNode k
  have hset : s.addImcOrigDestNode k = { s.addImcDestNode k with origDestMap := m } := by
    rw [hm, addImcDestNode_setOrig]
  refine ⟨?_, ?_, ?_, ?_, ?_, ?_⟩
  · rw [hset]
    exact hdest.handled
  · rw [hset]
    exact hdest.notHandled
  · rw [hset]
    exact hdest.pos
  · intro n b hn
    rw [origDests_addImcOrigDestNode] at hn
    rw [dests_addImcOrigDestNode]
    split_ifs at hn ⊢ with hk
    · obtain rfl := Option.some.inj hn
      refine ⟨?_, rfl⟩
      cases hf : s.origDests.find? n with
      | none => rfl
      | some c => exact (h.orig n c hf).1
    · exact h.orig n b hn
  · rw [hm, regions_of_other (other_addImcDestNode _ k)]
    exact h.region
  · rw [hm, processedBy_of_other (other_addImcDestNode _ k)]
    exact h.processed

/-- Only the maps of links change. -/
theorem Consistent.of_links {s : ImcState} (h : Consistent s) (m : Option (OrdMap String NodeMap)) :
    Consistent { s with linkDestMap := m } :=
  ⟨h.handled, h.notHandled, h.pos, h.orig, h.region, h.processed⟩

theorem Consistent.addImcRegionProcessed {s : ImcState} (h : Consistent s) (r : ℕ) :
    Consistent (s.addImcRegionProcessed r) := by
  refine ⟨h.handled, h.notHandled, h.pos, h.orig, ?_, h.processed⟩
  intro n b hn
  change (s.regions.insert r true).find? n = some b at hn
  rw [OrdMap.find?_insert] at hn
  split_ifs at hn
  · exact (Option.some.inj hn).symm
  · exact h.region n b hn

theorem Consistent.addImcProcessedByNode {s : ImcState} (h : Consistent s) (k : ℕ) :
    Consistent (s.addImcProcessedByNode k) := by
  have hproc : ∀ n b, (s.addImcProcessedByNode k).processedBy.find? n = some b → 0 < n ∧ b = true := by
    intro n b hn
    rw [processedBy_addImcProcessedByNode] at hn
    split_ifs at hn with hk
    · obtain rfl := Option.some.inj hn
      refine ⟨hk.1 ▸ hk.2, ?_⟩
      cases hf : s.processedBy.find? n with
      | none => rfl
      | some c => exact (h.processed n c hf).2
    · exact h.processed n b hn
  obtain ⟨m, hm⟩ := s.addImcProcessedByNode_eq k
  rw [hm] at hproc ⊢
  exact ⟨h.handled, h.notHandled, h.pos, h.orig, h.region, hproc⟩

theorem Consistent.foldl_handled {s : ImcState} (h : Consistent s) (l : List (ℕ × Bool))
    (skip : ℕ × Bool → Bool) :
    Consistent (l.foldl (fun s e => if skip e then s else s.imcDestNodeHandled e.1) s) := by
  induction l generalizing s with
  | nil => exact h
  | cons e l ih =>
    rw [List.foldl_cons]
    apply ih
    split_ifs
    · exact h
    · exact h.imcDestNodeHandled e.1

theorem Consistent.imcLinkTransmitSuccess {s : ImcState} (h : Consistent s) (l : String) :
    Consistent (s.imcLinkTransmitSuccess l) := by
  unfold ImcState.imcLinkTransmitSuccess
  split
  · exact (h.foldl_handled _ (fun _ => false)).of_links _
  · exact h.foldl_handled _ (fun e => e.2)

/-- A copy of the unhandled nodes finds a map of destinations. -/
def HasDests (s : ImcState) : Op → Prop
  | .copyAllUnhandledNodesToViaLink _ => s.destMap.isSome
  | _ => True

instance (s : ImcState) (op : Op) : Decidable (HasDests s op) := by
  unfold HasDests
  split <;> infer_instance

theorem Consistent.step {s : ImcState} (h : Consistent s) {op : Op} (hop : HasDests s op) :
    ∃ t, s.step op = .ok t ∧ Consistent t := by
  cases op with
  | addOrigDestNode n => exact ⟨_, rfl, h.addImcOrigDestNode n⟩
  | addDestNode n => exact ⟨_, rfl, h.addImcDestNode n⟩
  | destNodeHandled n => exact ⟨_, rfl, h.imcDestNodeHandled n⟩
  | addRegionProcessed r => exact ⟨_, rfl, h.addImcRegionProcessed r⟩
  | addProcessedByNode n => exact ⟨_, rfl, h.addImcProcessedByNode n⟩
  | addDestNodeViaLink l n => exact ⟨_, rfl, h.of_links _⟩
  | copyAllUnhandledNodesToViaLink l =>
    obtain ⟨m, hm⟩ := Option.isSome_iff_exists.mp hop
    refine ⟨{ s with linkDestMap := some (s.links.insert l
      (m.entries.foldl (fun l e => if e.2 then l else l.insert e.1 false) (s.linkMap l))) }, ?_, h.of_links _⟩
    change s.copyAllUnhandledNodesToViaLink l = _
    rw [ImcState.copyAllUnhandledNodesToViaLink, hm]
  | linkTransmitSuccess l => exact ⟨_, rfl, h.imcLinkTransmitSuccess l⟩
  | linkTransmitFailure l => exact ⟨_, rfl, h.of_links _⟩
  | clearLinkLists => exact ⟨_, rfl, h.of_links _⟩

/-! ## A handled node stays handled -/

/-- `t` has at least the handled nodes of `s`. -/
def KeepsHandled (s t : ImcState) : Prop := ∀ n, s.dests.find? n = some true → t.dests.find? n = some true

theorem keepsHandled_addImcDestNode (s : ImcState) (k : ℕ) : KeepsHandled s (s.addImcDestNode k) := by
  intro n hn
  rw [dests_addImcDestNode, hn]
  simp

theorem keepsHandled_addImcOrigDestNode (s : ImcState) (k : ℕ) :
    KeepsHandled s (s.addImcOrigDestNode k) := by
  intro n hn
  rw [dests_addImcOrigDestNode, hn]
  simp

theorem keepsHandled_imcDestNodeHandled (s : ImcState) (k : ℕ) :
    KeepsHandled s (s.imcDestNodeHandled k) := by
  intro n hn
  rw [dests_imcDestNodeHandled, hn]
  simp

theorem keepsHandled_foldl (l : List (ℕ × Bool)) (skip : ℕ × Bool → Bool) (s : ImcState) :
    KeepsHandled s (l.foldl (fun s e => if skip e then s else s.imcDestNodeHandled e.1) s) := by
  induction l generalizing s with
  | nil => exact fun _ hn => hn
  | cons e l ih =>
    intro n hn
    rw [List.foldl_cons]
    apply ih
    split_ifs
    · exact hn
    · exact keepsHandled_imcDestNodeHandled s e.1 n hn

theorem keepsHandled_step {s t : ImcState} {op : Op} (h : s.step op = .ok t) : KeepsHandled s t := by
  cases op with
  | addOrigDestNode n =>
    obtain rfl := Except.ok.inj h
    exact keepsHandled_addImcOrigDestNode s n
  | addDestNode n =>
    obtain rfl := Except.ok.inj h
    exact keepsHandled_addImcDestNode s n
  | destNodeHandled n =>
    obtain rfl := Except.ok.inj h
    exact keepsHandled_imcDestNodeHandled s n
  | addRegionProcessed r =>
    obtain rfl := Except.ok.inj h
    exact fun _ hn => hn
  | addProcessedByNode k =>
    obtain rfl := Except.ok.inj h
    obtain ⟨m, hm⟩ := s.addImcProcessedByNode_eq k
    rw [hm]
    exact fun _ hn => hn
  | addDestNodeViaLink l n =>
    obtain rfl := Except.ok.inj h
    exact fun _ hn => hn
  | copyAllUnhandledNodesToViaLink l =>
    intro n hn
    change s.copyAllUnhandledNodesToViaLink l = _ at h
    unfold copyAllUnhandledNodesToViaLink at h
    split at h
    · simp at h
    · obtain rfl := Except.ok.inj h
      exact hn
  | linkTransmitSuccess l =>
    obtain rfl := Except.ok.inj h
    intro n hn
    unfold imcLinkTransmitSuccess
    split
    · exact keepsHandled_foldl _ (fun _ => false) s n hn
    · exact keepsHandled_foldl _ (fun e => e.2) s n hn
  | linkTransmitFailure l =>
    obtain rfl := Except.ok.inj h
    exact fun _ hn => hn
  | clearLinkLists =>
    obtain rfl := Except.ok.inj h
    exact fun _ hn => hn

theorem keepsHandled_run {s t : ImcState} {ops : List Op} (h : run step s ops = .ok t) :
    KeepsHandled s t := by
  induction ops generalizing s with
  | nil =>
    obtain rfl := Except.ok.inj h
    exact fun _ hn => hn
  | cons op ops ih =>
    rw [run] at h
    rcases hs : s.step op with e | s'
    · simp [hs] at h
    · simp only [hs] at h
      exact fun n hn => ih h n (keepsHandled_step hs n hn)

/-! ## Reloading -/

theorem mem_nodesOf {m : NodeMap} {b : Bool} {n : ℕ} : n ∈ nodesOf m b ↔ m.find? n = some b := by
  simp only [nodesOf, List.mem_map, List.mem_filter, beq_iff_eq, OrdMap.find?_eq_some_iff]
  constructor
  · rintro ⟨⟨_, _⟩, ⟨he, rfl⟩, rfl⟩
    exact he
  · exact fun h => ⟨(n, b), ⟨h, rfl⟩, rfl⟩

def keys (m : NodeMap) : List ℕ := m.entries.map (·.1)

theorem mem_keys {m : NodeMap} {n : ℕ} : n ∈ keys m ↔ (m.find? n).isSome := by
  simp only [keys, List.mem_map, Option.isSome_iff_exists, OrdMap.find?_eq_some_iff]
  constructor
  · rintro ⟨⟨_, b⟩, he, rfl⟩
    exact ⟨b, he⟩
  · exact fun ⟨b, h⟩ => ⟨(n, b), h, rfl⟩

theorem length_nodesOf (m : NodeMap) (b : Bool) :
    (nodesOf m b).length = m.sum (fun c => if c == b then 1 else 0) := by
  rw [nodesOf, List.length_map, ← List.countP_eq_length_filter, OrdMap.sum]
  induction m.entries with
  | nil => rfl
  | cons e l ih =>
    rw [List.countP_cons, ih, List.map_cons, List.sum_cons, add_comm]

/-- A list of nodes behind its own length. -/
def counted (nodes : List ℕ) : List ℤ := (nodes.length : ℤ) :: nodes.map (↑)

theorem writeCounted_length (nodes : List ℕ) :
    writeCounted nodes.length nodes = .ok (counted nodes) := by
  cases nodes with
  | nil => rfl
  | cons n nodes =>
    rw [writeCounted, if_pos (by simp), if_pos rfl]
    rfl

theorem readNodes_append (op : ImcState → ℕ → ImcState) (s : ImcState) (nodes : List ℕ)
    (rest : List ℤ) :
    readNodes op s (counted nodes ++ rest) = some (nodes.foldl op s, rest) := by
  have hlen : (nodes.map ((↑) : ℕ → ℤ)).length = nodes.length := List.length_map _
  rw [counted, List.cons_append, readNodes, Int.toNat_natCast, if_pos (by simp)]
  rw [← hlen, List.take_left, List.drop_left, List.foldl_map]
  simp

/-- What a list of nodes does to a map that each node changes in the same way. -/
theorem foldl_find? {o : ImcState → ℕ → ImcState} {p : ImcState → NodeMap} {g : ℕ → Prop}
    [DecidablePred g] {f : Option Bool → Option Bool} (hf : ∀ x, f (f x) = f x)
    (ho : ∀ s k n, (p (o s k)).find? n = if n = k ∧ g k then f ((p s).find? n) else (p s).find? n)
    (nodes : List ℕ) (s : ImcState) (n : ℕ) :
    (p (nodes.foldl o s)).find? n =
      if n ∈ nodes ∧ g n then f ((p s).find? n) else (p s).find? n := by
  induction nodes generalizing s with
  | nil => simp
  | cons k nodes ih =>
    rw [List.foldl_cons, ih, ho]
    by_cases hk : n = k
    · subst hk
      by_cases hn : n ∈ nodes <;> by_cases hg : g n <;> simp [hn, hg, hf]
    · by_cases hn : n ∈ nodes <;> by_cases hg : g n <;> simp [hk, hn, hg]

theorem foldl_frame {α : Type*} {o : ImcState → ℕ → ImcState} {p : ImcState → α}
    (ho : ∀ s k, p (o s k) = p s) (nodes : List ℕ) (s : ImcState) : p (nodes.foldl o s) = p s := by
  induction nodes generalizing s with
  | nil => rfl
  | cons k nodes ih => rw [List.foldl_cons, ih, ho]

theorem Consistent.foldl {op : ImcState → ℕ → ImcState}
    (hop : ∀ s k, Consistent s → Consistent (op s k)) {s : ImcState} (h : Consistent s)
    (nodes : List ℕ) : Consistent (nodes.foldl op s) := by
  induction nodes generalizing s with
  | nil => exact h
  | cons k nodes ih => exact ih (hop s k h)

theorem Consistent.handled_eq {s : ImcState} (h : Consistent s) :
    s.destNodesHandled = (nodesOf s.dests true).length := by
  rw [h.handled, length_nodesOf]
  congr 2
  funext b
  cases b <;> rfl

theorem Consistent.notHandled_eq {s : ImcState} (h : Consistent s) :
    s.destNodesNotHandled = (nodesOf s.dests false).length := by
  rw [h.notHandled, length_nodesOf]
  congr 2
  funext b
  cases b <;> rfl

theorem Consistent.ofFlags (a b c d e : ℤ) : Consistent (ofFlags a b c d e) :=
  ⟨rfl, rfl, Consistent.initial.pos, Consistent.initial.orig, Consistent.initial.region,
    Consistent.initial.processed⟩

/-- A new state with the flags of `s`. -/
def bare (s : ImcState) : ImcState :=
  ofFlags (flag s.isDtnmeNode) (flag s.isRouterNode) (flag s.syncReply) (flag s.syncRequest)
    (flag s.isProxyPetition)

/-- The state that comes of replaying the lists of `s`. -/
def replayed (s : ImcState) : ImcState :=
  let t := (keys s.origDests).foldl addImcOrigDestNode s.bare
  let t := (nodesOf s.dests false).foldl addImcDestNode t
  let t := (nodesOf s.dests true).foldl imcDestNodeHandled t
  let t := (keys s.regions).foldl addImcRegionProcessed t
  (keys s.processedBy).foldl addImcProcessedByNode t

theorem writeKeys_eq (m : NodeMap) : writeKeys m = counted (keys m) := by
  simp [writeKeys, counted, keys, OrdMap.size]

theorem Consistent.serialize_eq {s : ImcState} (h : Consistent s) :
    s.serialize = .ok ([flag s.isDtnmeNode, flag s.isRouterNode, flag s.syncReply, flag s.syncRequest,
      flag s.isProxyPetition] ++ (counted (keys s.origDests) ++ (counted (nodesOf s.dests false) ++
        (counted (nodesOf s.dests true) ++ (counted (keys s.regions) ++
          (counted (keys s.processedBy) ++ [])))))) := by
  rw [serialize, h.notHandled_eq, h.handled_eq, writeCounted_length, writeCounted_length]
  simp only [writeKeys_eq, List.append_nil]
  rfl

theorem Consistent.unmarshal_serialize {s : ImcState} (h : Consistent s) :
    ∃ stream, s.serialize = .ok stream ∧ unmarshal stream = some s.replayed := by
  refine ⟨_, h.serialize_eq, ?_⟩
  simp only [List.cons_append, List.nil_append, unmarshal, readNodes_append, Option.bind_eq_bind,
    Option.bind_some]
  rfl

theorem foldl_addImcProcessedByNode_eq (nodes : List ℕ) (s : ImcState) :
    ∃ m, nodes.foldl addImcProcessedByNode s = { s with processedByNodesMap := m } := by
  induction nodes generalizing s with
  | nil => exact ⟨_, rfl⟩
  | cons k nodes ih =>
    obtain ⟨m, hm⟩ := s.addImcProcessedByNode_eq k
    obtain ⟨m', hm'⟩ := ih { s with processedByNodesMap := m }
    rw [List.foldl_cons, hm, hm']
    exact ⟨m', rfl⟩

theorem foldl_addImcRegionProcessed_eq (regions : List ℕ) (s : ImcState) :
    ∃ m, regions.foldl addImcRegionProcessed s = { s with processedRegionsMap := m } := by
  induction regions generalizing s with
  | nil => exact ⟨_, rfl⟩
  | cons r regions ih =>
    obtain ⟨m, hm⟩ := ih (s.addImcRegionProcessed r)
    rw [List.foldl_cons, hm]
    exact ⟨m, rfl⟩

/-- The last two lists leave the destinations alone. -/
theorem replayed_eq (s : ImcState) : ∃ m m', s.replayed =
    { ((nodesOf s.dests true).foldl imcDestNodeHandled ((nodesOf s.dests false).foldl addImcDestNode
      ((keys s.origDests).foldl addImcOrigDestNode s.bare))) with
      processedRegionsMap := m, processedByNodesMap := m' } := by
  obtain ⟨m, hm⟩ := foldl_addImcRegionProcessed_eq (keys s.regions)
    ((nodesOf s.dests true).foldl imcDestNodeHandled ((nodesOf s.dests false).foldl addImcDestNode
      ((keys s.origDests).foldl addImcOrigDestNode s.bare)))
  obtain ⟨m', hm'⟩ := foldl_addImcProcessedByNode_eq (keys s.processedBy) _
  rw [replayed, hm']
  exact ⟨m, m', by rw [hm]⟩

theorem other_foldl_addImcDestNode (nodes : List ℕ) (s : ImcState) :
    (nodes.foldl addImcDestNode s).other = s.other :=
  foldl_frame other_addImcDestNode nodes s

theorem other_foldl_imcDestNodeHandled (nodes : List ℕ) (s : ImcState) :
    (nodes.foldl imcDestNodeHandled s).other = s.other :=
  foldl_frame other_imcDestNodeHandled nodes s

theorem regions_addImcOrigDestNode (s : ImcState) (k : ℕ) :
    (s.addImcOrigDestNode k).regions = s.regions := by
  obtain ⟨m, hm, _⟩ := s.addImcOrigDestNode_eq k
  rw [hm, regions_of_other (other_addImcDestNode _ k)]
  rfl

theorem processedBy_addImcOrigDestNode (s : ImcState) (k : ℕ) :
    (s.addImcOrigDestNode k).processedBy = s.processedBy := by
  obtain ⟨m, hm, _⟩ := s.addImcOrigDestNode_eq k
  rw [hm, processedBy_of_other (other_addImcDestNode _ k)]
  rfl

theorem regions_addImcRegionProcessed (s : ImcState) (k n : ℕ) :
    (s.addImcRegionProcessed k).regions.find? n =
      if n = k ∧ True then some true else s.regions.find? n := by
  change (s.regions.insert k true).find? n = _
  simp [OrdMap.find?_insert]

/-- Overlaps of the three lists do no harm: an original destination is added as not handled, a node
that was not handled is already there, and a handled one is marked so at the end. -/
theorem Consistent.replayed_dests {s : ImcState} (h : Consistent s) : s.replayed.dests = s.dests := by
  obtain ⟨m, m', hm⟩ := s.replayed_eq
  ext1 n
  rw [hm]
  change (dests (List.foldl _ _ _)).find? n = _
  rw [foldl_find? (g := (0 < ·)) (f := fun _ => some true) (fun _ => rfl) dests_imcDestNodeHandled,
    foldl_find? (g := (0 < ·)) (f := fun o => some (o.getD false)) (fun _ => rfl) dests_addImcDestNode,
    foldl_find? (g := (0 < ·)) (f := fun o => some (o.getD false)) (fun _ => rfl) dests_addImcOrigDestNode]
  simp only [mem_nodesOf, mem_keys]
  cases hn : s.dests.find? n with
  | none =>
    have horig : ¬ (s.origDests.find? n).isSome := by
      intro ho
      obtain ⟨b, hb⟩ := Option.isSome_iff_exists.mp ho
      simpa [hn] using (h.orig n b hb).2
    simp [horig]
    rfl
  | some b =>
    have hpos := h.pos n b hn
    cases b with
    | true => simp [hpos]
    | false =>
      simp only [hpos, and_true, Option.some.injEq, Bool.false_eq_true, if_false, if_true]
      split_ifs <;> rfl

theorem Consistent.replayed_origDests {s : ImcState} (h : Consistent s) :
    s.replayed.origDests = s.origDests := by
  obtain ⟨m, m', hm⟩ := s.replayed_eq
  ext1 n
  rw [hm]
  change (origDests (List.foldl _ _ _)).find? n = _
  rw [origDests_of_other (other_foldl_imcDestNodeHandled _ _),
    origDests_of_other (other_foldl_addImcDestNode _ _),
    foldl_find? (g := (0 < ·)) (f := fun o => some (o.getD false)) (fun _ => rfl)
      origDests_addImcOrigDestNode]
  simp only [mem_keys]
  cases hn : s.origDests.find? n with
  | none => simp; rfl
  | some b =>
    obtain ⟨rfl, hd⟩ := h.orig n b hn
    obtain ⟨c, hc⟩ := Option.isSome_iff_exists.mp hd
    simp [h.pos n c hc]
    rfl

theorem Consistent.replayed_regions {s : ImcState} (h : Consistent s) :
    s.replayed.regions = s.regions := by
  obtain ⟨m, hm⟩ := foldl_addImcProcessedByNode_eq (keys s.processedBy) _
  ext1 n
  rw [replayed, hm]
  change (regions (List.foldl _ _ _)).find? n = _
  rw [foldl_find? (g := fun _ => True) (f := fun _ => some true) (fun _ => rfl)
      regions_addImcRegionProcessed,
    regions_of_other (other_foldl_imcDestNodeHandled _ _),
    regions_of_other (other_foldl_addImcDestNode _ _), foldl_frame regions_addImcOrigDestNode]
  simp only [mem_keys]
  cases hn : s.regions.find? n with
  | none => simp; rfl
  | some b => simp [h.region n b hn]

theorem Consistent.replayed_processedBy {s : ImcState} (h : Consistent s) :
    s.replayed.processedBy = s.processedBy := by
  ext1 n
  rw [replayed, foldl_find? (g := (0 < ·)) (f := fun o => some (o.getD true)) (fun _ => rfl)
      processedBy_addImcProcessedByNode,
    foldl_frame (o := ImcState.addImcRegionProcessed) (p := processedBy) (fun _ _ => rfl),
    processedBy_of_other (other_foldl_imcDestNodeHandled _ _),
    processedBy_of_other (other_foldl_addImcDestNode _ _), foldl_frame processedBy_addImcOrigDestNode]
  simp only [mem_keys]
  cases hn : s.processedBy.find? n with
  | none => simp; rfl
  | some b =>
    obtain ⟨hpos, rfl⟩ := h.processed n b hn
    simp [hpos]
    rfl

theorem Consistent.replayed {s : ImcState} : Consistent s.replayed := by
  apply Consistent.foldl fun _ k h => h.addImcProcessedByNode k
  apply Consistent.foldl fun _ k h => h.addImcRegionProcessed k
  apply Consistent.foldl fun _ k h => h.imcDestNodeHandled k
  apply Consistent.foldl fun _ k h => h.addImcDestNode k
  apply Consistent.foldl fun _ k h => h.addImcOrigDestNode k
  exact Consistent.ofFlags ..

/-- Storing a state does not fail, and reading it again gives a state with the same sets and counts. -/
def Reproduces (s : ImcState) : Prop := ∃ stream t, s.serialize = .ok stream ∧
  unmarshal stream = some t ∧ t.origDests = s.origDests ∧ t.dests = s.dests ∧
  t.destNodesHandled = s.destNodesHandled ∧ t.destNodesNotHandled = s.destNodesNotHandled ∧
  t.regions = s.regions ∧ t.processedBy = s.processedBy

theorem Consistent.reproduces {s : ImcState} (h : Consistent s) : Reproduces s := by
  obtain ⟨stream, hstream, hread⟩ := h.unmarshal_serialize
  have hr : Consistent s.replayed := Consistent.replayed
  refine ⟨stream, s.replayed, hstream, hread, h.replayed_origDests, h.replayed_dests, ?_, ?_,
    h.replayed_regions, h.replayed_processedBy⟩
  · rw [hr.handled, h.handled, h.replayed_dests]
  · rw [hr.notHandled, h.notHandled, h.replayed_dests]

/-! ## Whole runs -/

/-- What a state shows of its books: the counts are the numbers of nodes of each kind, and the
original destinations are destinations. -/
def Booked (s : ImcState) : Prop :=
  s.destNodesHandled = (nodesOf s.dests true).length ∧
  s.destNodesNotHandled = (nodesOf s.dests false).length ∧
  ∀ n, (s.origDests.find? n).isSome → (s.dests.find? n).isSome

theorem Consistent.booked {s : ImcState} (h : Consistent s) : Booked s := by
  refine ⟨h.handled_eq, h.notHandled_eq, fun n hn => ?_⟩
  obtain ⟨b, hb⟩ := Option.isSome_iff_exists.mp hn
  exact (h.orig n b hb).2

theorem Consistent.run {s : ImcState} (h : Consistent s) {ops : List Op}
    (hops : Meets ImcState.step HasDests s ops) :
    ∃ t, Library.run ImcState.step s ops = .ok t ∧ Consistent t := by
  induction ops generalizing s with
  | nil => exact ⟨s, rfl, h⟩
  | cons op ops ih =>
    obtain ⟨hop, hrest⟩ := hops
    obtain ⟨s', hs', hc⟩ := h.step hop
    rw [hs'] at hrest
    obtain ⟨t, ht, htc⟩ := ih hc hrest
    refine ⟨t, ?_, htc⟩
    rw [Library.run, hs']
    exact ht

/-- Along every run that copies unhandled nodes only when there is a map of destinations, the books
are right, no handled node becomes unhandled, and the state can be stored and reloaded. -/
theorem imcState_run (ops : List Op) (hops : Meets step HasDests {} ops) :
    ∃ s, run step {} ops = .ok s ∧ Booked s ∧ Reproduces s ∧
      ∀ k s₁, run step {} (ops.take k) = .ok s₁ → KeepsHandled s₁ s := by
  obtain ⟨s, hs, hc⟩ := Consistent.initial.run hops
  refine ⟨s, hs, hc.booked, hc.reproduces, fun k s₁ hk => ?_⟩
  rw [← List.take_append_drop k ops, run_append, hk] at hs
  exact keepsHandled_run hs

theorem imcState_run_overlap :
    ∃ s, run step {} [.destNodeHandled 7, .addOrigDestNode 7, .addOrigDestNode 9, .addDestNode 4,
        .copyAllUnhandledNodesToViaLink "l", .addRegionProcessed 0, .linkTransmitSuccess "l",
        .addOrigDestNode 4, .addProcessedByNode 3] = .ok s ∧ Booked s ∧ Reproduces s ∧
      ∀ k s₁, run step {} (([.destNodeHandled 7, .addOrigDestNode 7, .addOrigDestNode 9, .addDestNode 4,
        .copyAllUnhandledNodesToViaLink "l", .addRegionProcessed 0, .linkTransmitSuccess "l",
        .addOrigDestNode 4, .addProcessedByNode 3] : List Op).take k) = .ok s₁ → KeepsHandled s₁ s :=
  imcState_run _ (by decide +kernel)

/-- The copy reads a map that no operation has made. -/
theorem copy_without_dests :
    ¬ ∃ s, run step {} [.copyAllUnhandledNodesToViaLink "l"] = .ok s ∧ Booked s ∧ Reproduces s := by
  rintro ⟨s, hs, -⟩
  cases hs

end ImcState

end Dtnme.Bundling
