import Dtnme.Bundling.BlockInfo
import Dtnme.Naming.EndpointId

/-! # Links

What routing reads and changes of a link: the bundles that are queued on it and those in flight, and
the names of the links that take its bundles instead, by the version of the bundle.
-/

namespace Dtnme.Routing
open Naming Bundling

inductive LinkState
  | unavailable
  | available
  | opening
  | opened
  deriving DecidableEq, Repr

/-- `Link`. Bundles are given by their ids; both lists have one lock. -/
structure Link where
  name : List UInt8
  bp6Redirect : List UInt8 := []
  bp7Redirect : List UInt8 := []
  remoteEid : Eid := makeEidNull
  isDeleted : Bool := false
  mtu : ℕ := 0
  opportunistic : Bool := false
  state : LinkState := .available
  queue : List ℕ := []
  inflight : List ℕ := []
  bundlesQueued : ℕ := 0
  deriving DecidableEq, Repr

namespace Link

def isopen (link : Link) : Bool := link.state = .opened

/-- Whether `add_to_queue` cancels the transmission at once. -/
def clearsBundles (clearWhenUnavailable : Bool) (link : Link) : Bool :=
  link.state = .unavailable && link.opportunistic && clearWhenUnavailable

/-- `add_to_queue`, without the call of `bundle_queued` at its end, by which the convergence layer of
an open contact is told of the bundle. -/
def addToQueue (clearWhenUnavailable : Bool) (link : Link) (bundle : ℕ) : Bool × Link :=
  if link.clearsBundles clearWhenUnavailable then (false, link)
  else if bundle ∈ link.queue then (false, link)
  else (true, { link with queue := link.queue ++ [bundle], bundlesQueued := link.bundlesQueued + 1 })

/-- `del_from_queue`. -/
def delFromQueue (link : Link) (bundle : ℕ) : Except Fault (Bool × Link) :=
  if bundle ∉ link.queue then .ok (false, link)
  else do
    require (0 < link.bundlesQueued)
    pure (true, { link with
      queue := link.queue.erase bundle
      bundlesQueued := link.bundlesQueued - 1 })

/-- The queue is a list without repetitions and counted right. -/
structure Counted (link : Link) : Prop where
  nodup : link.queue.Nodup
  count_eq : link.bundlesQueued = link.queue.length

theorem Counted.addToQueue {link : Link} (h : link.Counted) (clear : Bool) (bundle : ℕ) :
    (link.addToQueue clear bundle).2.Counted := by
  unfold Link.addToQueue
  split_ifs with hclear hmem
  · exact h
  · exact h
  · constructor
    · exact List.nodup_append.mpr ⟨h.nodup, List.nodup_singleton _, by
        rintro a ha b hb rfl
        exact hmem (List.mem_singleton.mp hb ▸ ha)⟩
    · change link.bundlesQueued + 1 = (link.queue ++ [bundle]).length
      rw [List.length_append, List.length_singleton, h.count_eq]

theorem Counted.delFromQueue {link : Link} (h : link.Counted) {bundle : ℕ} (hmem : bundle ∈ link.queue) :
    ∃ link', link.delFromQueue bundle = .ok (true, link') ∧ link'.Counted ∧
      link' = { link with
        queue := link.queue.erase bundle
        bundlesQueued := link.bundlesQueued - 1 } := by
  have hpos := List.length_pos_of_mem hmem
  unfold Link.delFromQueue
  rw [if_neg (not_not.mpr hmem), require_of (by rw [h.count_eq]; exact hpos)]
  refine ⟨_, rfl, ⟨h.nodup.erase _, ?_⟩, rfl⟩
  change link.bundlesQueued - 1 = (link.queue.erase bundle).length
  rw [List.length_erase_of_mem hmem, h.count_eq]

end Link

end Dtnme.Routing
