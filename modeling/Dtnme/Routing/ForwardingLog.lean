import Dtnme.Bundling.BlockInfo
import Dtnme.Naming.EndpointId

/-! # The forwarding log

A bundle keeps what became of it on each link. An entry has the name of the link and the endpoint that
the link led to at the time; a name can be of any type. A link is found by its name without regard to
case.
-/

namespace Dtnme.Routing
open Library Naming Bundling

/-- `ForwardingInfo::state_t`. -/
inductive ForwardingState
  | none
  | queued
  | transmitted
  | transmitFailed
  | cancelled
  | custodyTimeout
  | pendingDelivery
  | delivered
  | suppressed
  | redirected
  | received
  deriving DecidableEq, Repr

structure ForwardingInfo (ν : Type) where
  state : ForwardingState
  linkName : ν
  remoteEid : Eid
  deriving DecidableEq, Repr

abbrev ForwardingLog (ν : Type) := List (ForwardingInfo ν)

namespace ForwardingLog

variable {ν : Type} [DecidableEq ν]

/-- The latest entry for a name. -/
def latest? (log : ForwardingLog ν) (name : ν) : Option (ForwardingInfo ν) :=
  log.reverse.find? fun e => e.linkName = name

/-- `get_latest_entry`, for a link with the name and the remote endpoint. -/
def getLatestEntry (persistentLinks : Bool) (log : ForwardingLog ν) (name : ν) (remoteEid : Eid) :
    Except Fault ForwardingState :=
  match latest? log name with
  | none => .ok .none
  | some e =>
    if persistentLinks then do
      require (e.remoteEid = makeEidNull ∨ e.remoteEid = remoteEid)
      pure e.state
    else if e.remoteEid ≠ makeEidNull ∧ e.remoteEid ≠ remoteEid then .ok .none
    else .ok e.state

/-- The first entry of a list that is for the name gets the state. -/
def setState (name : ν) (state : ForwardingState) : ForwardingLog ν → ForwardingLog ν
  | [] => []
  | e :: log => if e.linkName = name then { e with state } :: log else e :: setState name state log

/-- `update`, from the back. -/
def update (log : ForwardingLog ν) (name : ν) (remoteEid : Eid) (state : ForwardingState) :
    Except Fault (ForwardingLog ν) :=
  match latest? log name with
  | none => .ok log
  | some e => do
    require (e.remoteEid = makeEidNull ∨ e.remoteEid = remoteEid)
    pure (setState name state log.reverse).reverse

theorem latest?_mem {log : ForwardingLog ν} {name : ν} {e : ForwardingInfo ν}
    (h : latest? log name = some e) : e ∈ log ∧ e.linkName = name := by
  have hname := List.find?_some h
  exact ⟨List.mem_reverse.mp (List.mem_of_find?_eq_some h), by simpa using hname⟩

/-- An entry that is asserted to be one for the link can be updated. -/
theorem update_ok {persistentLinks : Bool} {log : ForwardingLog ν} {name : ν} {remoteEid : Eid}
    {state : ForwardingState} (h : getLatestEntry persistentLinks log name remoteEid = .ok state)
    (hne : state ≠ .none) (new : ForwardingState) :
    ∃ log', update log name remoteEid new = .ok log' := by
  unfold getLatestEntry at h
  unfold update
  split at h
  · cases h
    exact absurd rfl hne
  · next e hfind =>
    have heid : e.remoteEid = makeEidNull ∨ e.remoteEid = remoteEid := by
      split_ifs at h with hpersistent heid
      · obtain ⟨u, hrequire, -⟩ := of_bind_ok h
        by_contra hother
        rw [require, if_neg hother] at hrequire
        cases hrequire
      · cases h
        exact absurd rfl hne
      · by_contra hother
        rw [not_or] at hother
        exact heid hother
    rw [require_of heid]
    exact ⟨_, rfl⟩

end ForwardingLog

/-- `strcasecmp`, in the C locale, of texts given by the codes of their characters. -/
def toLower (c : ℕ) : ℕ := if 65 ≤ c ∧ c ≤ 90 then c + 32 else c

def strcasecmp (s t : List ℕ) : Bool := s.map toLower = t.map toLower

/-- `find_link` for links of any kind; the set of the contact manager has those that are not deleted. -/
def findLinkBy {ι : Type} (isDeleted : ι → Bool) (codes : ι → List ℕ) (shuttingDown : Bool)
    (links : List ι) (name : List ℕ) : Option ℕ :=
  if shuttingDown then none
  else links.findIdx? fun link => !isDeleted link && strcasecmp (codes link) name

theorem findLinkBy_lt {ι : Type} {isDeleted : ι → Bool} {codes : ι → List ℕ} {shuttingDown : Bool}
    {links : List ι} {name : List ℕ} {i : ℕ}
    (h : findLinkBy isDeleted codes shuttingDown links name = some i) : i < links.length := by
  unfold findLinkBy at h
  split_ifs at h
  exact (List.findIdx?_eq_some_iff_findIdx_eq.mp h).1

end Dtnme.Routing
