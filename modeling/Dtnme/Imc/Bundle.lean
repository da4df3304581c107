import Dtnme.Bundling.ImcState

/-! # Bundles of multicast control

Petitions are sent to imc:0.0 and briefings to the administrative endpoint of a node. Lists and
flags that the sender sets travel in the state block of the bundle.
-/

namespace Dtnme.Imc
open Library Bundling

/-- An endpoint id; one that is neither of the ipn nor of the imc scheme has no numbers. -/
inductive Endpoint
  | ipn (node service : ℕ)
  | imc (group service : ℕ)
  | null
  | other (text : String)
  deriving DecidableEq, Repr

namespace Endpoint

def nodeNum : Endpoint → ℕ
  | ipn node _ => node
  | imc group _ => group
  | _ => 0

def isIpnScheme : Endpoint → Bool
  | ipn _ _ => true
  | _ => false

def isImcScheme : Endpoint → Bool
  | imc _ _ => true
  | _ => false

end Endpoint

/-- What can be read of a payload. A briefing that breaks off is read up to there. -/
inductive Payload
  | petition (group joinOrUnjoin : ℕ)
  | bp6Petition (group joinOrUnjoin : ℕ)
  | ionBriefing (groups : List ℕ) (complete : Bool)
  | dtnmeBriefing (homeRegion : ℕ) (nodes : List (ℕ × Bool)) (groups : List (ℕ × List ℕ))
      (complete : Bool)
  | malformed
  deriving DecidableEq, Repr

/-- The fields of `Bundle` that multicast control reads. -/
structure ImcBundle where
  isBpv6 : Bool := false
  source : Endpoint
  dest : Endpoint
  prevhop : Endpoint := .null
  isAdmin : Bool := false
  imcBriefing : Bool := false
  routerProcessedImc : Bool := false
  imc : ImcState := {}
  payload : Payload
  deriving DecidableEq

/-! ## The state of a bundle -/

end Dtnme.Imc

namespace Dtnme.Bundling.ImcState
open Library

def isImcRegionProcessed (s : ImcState) (region : ℕ) : Bool := (s.regions.find? region).isSome

def imcHasProxyBeenProcessedByNode (s : ImcState) (node : ℕ) : Bool :=
  (s.processedBy.find? node).isSome

/-- `copy_imc_processed_by_node_list`. -/
def copyImcProcessedByNodeList (s other : ImcState) : ImcState :=
  (keys other.processedBy).foldl addImcProcessedByNode s

theorem imcHasProxyBeenProcessedByNode_add (s : ImcState) (k : ℕ) {n : ℕ} (hn : 0 < n) :
    (s.addImcProcessedByNode k).imcHasProxyBeenProcessedByNode n =
      (s.imcHasProxyBeenProcessedByNode n || n == k) := by
  unfold imcHasProxyBeenProcessedByNode
  rw [processedBy_addImcProcessedByNode]
  by_cases hk : n = k
  · simp [hk, hk ▸ hn]
  · simp [hk]

/-- The nodes of both lists are on the copy. -/
theorem imcHasProxyBeenProcessedByNode_copy (s other : ImcState) {n : ℕ} (hn : 0 < n) :
    (s.copyImcProcessedByNodeList other).imcHasProxyBeenProcessedByNode n =
      (s.imcHasProxyBeenProcessedByNode n || other.imcHasProxyBeenProcessedByNode n) := by
  have hfind := foldl_find? (p := processedBy) (g := (0 < ·)) (f := fun x => some (x.getD true))
    (fun x => rfl) processedBy_addImcProcessedByNode (keys other.processedBy) s n
  unfold imcHasProxyBeenProcessedByNode copyImcProcessedByNodeList
  rw [hfind]
  by_cases hmem : n ∈ keys other.processedBy
  · simp [hmem, hn, mem_keys.mp hmem]
  · have hnone : other.processedBy.find? n = none := by simpa [mem_keys] using hmem
    simp [hmem, hnone]

end Dtnme.Bundling.ImcState
