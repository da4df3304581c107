import Dtnme.Routing.Link

/-! # Rerouting the bundles of a link

When a link stays unavailable its bundles are cancelled, those on its queue and then those in flight.
Each of the two loops ends when its list is empty. The lock of both lists is held all the time, so
only the loops take bundles from them.
-/

namespace Dtnme.Routing
open Bundling

inductive ConvergenceLayer
  | connection
  | bibe
  deriving DecidableEq, Repr

/-- A link and what was done about its bundles: the calls of `cancel_bundle`, the events that a
transmission was cancelled, and the messages to the thread of the connection, if there is one. -/
structure Rerouting where
  link : Link
  hasConnection : Bool := false
  requests : List ℕ := []
  cancelled : List ℕ := []
  messages : List ℕ := []
  deriving DecidableEq, Repr

namespace Rerouting

/-- `ConnectionConvergenceLayer::cancel_bundle`. -/
def connectionCancel (r : Rerouting) (bundle : ℕ) : Except Fault Rerouting := do
  require (r.link.isDeleted = false)
  if bundle ∉ r.link.inflight then pure r
  else if r.link.isopen = false then pure { r with cancelled := r.cancelled ++ [bundle] }
  else if r.hasConnection = false then pure r
  else pure { r with messages := r.messages ++ [bundle] }

/-- `BIBEConvergenceLayer::cancel_bundle`. -/
def bibeCancel (r : Rerouting) (bundle : ℕ) : Rerouting :=
  if bundle ∈ r.link.queue then { r with cancelled := r.cancelled ++ [bundle] } else r

def clayerCancel (cl : ConvergenceLayer) (r : Rerouting) (bundle : ℕ) : Except Fault Rerouting :=
  match cl with
  | .connection => r.connectionCancel bundle
  | .bibe => .ok (r.bibeCancel bundle)

/-- `BundleActions::cancel_bundle`, with the request recorded. -/
def cancelBundle (cl : ConvergenceLayer) (r : Rerouting) (bundle : ℕ) : Except Fault Rerouting :=
  let r := { r with requests := r.requests ++ [bundle] }
  if r.link.isDeleted then .ok r
  else do
    let (deleted, link) ← r.link.delFromQueue bundle
    let r := { r with link }
    if deleted then pure { r with cancelled := r.cancelled ++ [bundle] }
    else if bundle ∈ r.link.inflight then r.clayerCancel cl bundle
    else pure r

/-- A list of the link is worked off from its front. -/
def drain (cl : ConvergenceLayer) (list : Link → List ℕ) : ℕ → Rerouting → Except Fault Rerouting
  | 0, _ => .error .noReturn
  | fuel + 1, r =>
    match list r.link with
    | [] => .ok r
    | bundle :: _ => do
      let r ← r.cancelBundle cl bundle
      drain cl list fuel r

/-- `reroute_bundles`. -/
def rerouteBundles (cl : ConvergenceLayer) (fuel : ℕ) (r : Rerouting) : Except Fault Rerouting := do
  require (r.link.isDeleted = false)
  if r.link.state ≠ .unavailable then pure r
  else do
    let r ← drain cl Link.queue fuel r
    drain cl Link.inflight fuel r

/-! ## The queue -/

/-- A queued bundle is taken off the queue. -/
theorem cancelBundle_queued (cl : ConvergenceLayer) {r : Rerouting} (hlive : r.link.isDeleted = false)
    (hcounted : r.link.Counted) {bundle : ℕ} {rest : List ℕ} (hqueue : r.link.queue = bundle :: rest) :
    ∃ r', r.cancelBundle cl bundle = .ok r' ∧ r'.link.Counted ∧ r'.link.queue = rest ∧
      r'.link.isDeleted = false ∧ r'.link.inflight = r.link.inflight ∧
      r'.requests = r.requests ++ [bundle] ∧ r'.cancelled = r.cancelled ++ [bundle] := by
  obtain ⟨link, hdel, hcounted', rfl⟩ :=
    hcounted.delFromQueue (show bundle ∈ r.link.queue by rw [hqueue]; exact List.mem_cons_self)
  unfold cancelBundle
  simp only
  rw [if_neg (by simp [hlive]), hdel]
  refine ⟨_, rfl, hcounted', ?_, hlive, rfl, rfl, rfl⟩
  change r.link.queue.erase bundle = rest
  rw [hqueue, List.erase_cons_head]

/-- The loop over the queue takes one round for each bundle. -/
theorem drain_queue (cl : ConvergenceLayer) {queue : List ℕ} : ∀ {r : Rerouting},
    r.link.isDeleted = false → r.link.Counted → r.link.queue = queue →
    ∃ r' : Rerouting, r'.link.queue = [] ∧ r'.link.inflight = r.link.inflight ∧
      r'.requests = r.requests ++ queue ∧ ∀ fuel,
        drain cl Link.queue fuel r = if queue.length < fuel then .ok r' else .error .noReturn := by
  induction queue with
  | nil =>
    intro r _ _ hqueue
    refine ⟨r, hqueue, rfl, (List.append_nil _).symm, fun fuel => ?_⟩
    cases fuel with
    | zero => rfl
    | succ fuel =>
      rw [drain, hqueue]
      rfl
  | cons bundle rest ih =>
    intro r hlive hcounted hqueue
    obtain ⟨r₁, hcancel, hcounted₁, hqueue₁, hlive₁, hinflight₁, hrequests₁, -⟩ :=
      cancelBundle_queued cl hlive hcounted hqueue
    obtain ⟨r', hempty, hinflight', hrequests', hdrain⟩ := ih hlive₁ hcounted₁ hqueue₁
    refine ⟨r', hempty, hinflight'.trans hinflight₁, ?_, fun fuel => ?_⟩
    · rw [hrequests', hrequests₁, List.append_assoc, List.singleton_append]
    · cases fuel with
      | zero => rfl
      | succ fuel =>
        rw [drain, hqueue]
        simp only [hcancel, ok_bind]
        rw [hdrain fuel, List.length_cons]
        simp

/-! ## The bundles in flight -/

/-- No convergence layer takes a bundle off the list. -/
theorem cancelBundle_inflight {cl : ConvergenceLayer} {r r' : Rerouting} {bundle : ℕ}
    (hqueue : r.link.queue = []) (hcancel : r.cancelBundle cl bundle = .ok r') :
    r'.link = r.link := by
  unfold cancelBundle at hcancel
  have hdel : r.link.delFromQueue bundle = .ok (false, r.link) := by
    unfold Link.delFromQueue
    rw [if_pos (by simp [hqueue])]
  simp only at hcancel
  rw [hdel, ok_bind] at hcancel
  simp only [Bool.false_eq_true, if_false] at hcancel
  split_ifs at hcancel
  · cases hcancel
    rfl
  · cases cl with
    | connection =>
      obtain ⟨-, -, hcancel⟩ := of_bind_ok hcancel
      split_ifs at hcancel <;> cases hcancel <;> rfl
    | bibe =>
      cases hcancel
      unfold bibeCancel
      split_ifs <;> rfl
  · cases hcancel
    rfl

/-- The loop over a list that is not empty does not end. -/
theorem drain_inflight_ne {cl : ConvergenceLayer} {fuel : ℕ} : ∀ {r r' : Rerouting},
    r.link.queue = [] → r.link.inflight ≠ [] → drain cl Link.inflight fuel r ≠ .ok r' := by
  induction fuel with
  | zero => exact fun _ _ h => by cases h
  | succ fuel ih =>
    intro r r' hqueue hinflight h
    obtain ⟨bundle, rest, hcons⟩ := List.exists_cons_of_ne_nil hinflight
    rw [drain, hcons] at h
    simp only at h
    obtain ⟨r₁, hcancel, hdrain⟩ := of_bind_ok h
    have hlink := cancelBundle_inflight hqueue hcancel
    exact ih (hlink ▸ hqueue) (hlink ▸ hinflight) hdrain

theorem rerouteBundles_inflight {cl : ConvergenceLayer} {r : Rerouting} (hlive : r.link.isDeleted = false)
    (hcounted : r.link.Counted) (hstate : r.link.state = .unavailable) (hinflight : r.link.inflight ≠ [])
    (fuel : ℕ) (r' : Rerouting) : rerouteBundles cl fuel r ≠ .ok r' := by
  intro hreroute
  obtain ⟨r₁, hempty, hinflight₁, -, hdrain⟩ := drain_queue cl hlive hcounted rfl
  unfold rerouteBundles at hreroute
  rw [require_of hlive, ok_bind, if_neg (not_not.mpr hstate), hdrain] at hreroute
  split_ifs at hreroute
  · exact drain_inflight_ne hempty (hinflight₁ ▸ hinflight) hreroute
  · cases hreroute

/-- Rerouting ends with an empty queue, and a request for each bundle of the two lists. -/
def Rerouted (cl : ConvergenceLayer) (r : Rerouting) : Prop :=
  ∃ fuel r', rerouteBundles cl fuel r = .ok r' ∧ r'.link.queue = [] ∧
    ∃ requests, r'.requests = r.requests ++ requests ∧ requests.Nodup ∧
      ∀ bundle, bundle ∈ requests ↔ bundle ∈ r.link.queue ∨ bundle ∈ r.link.inflight

/-- For every convergence layer and every content of the lists rerouting ends if and only if nothing
is in flight. -/
theorem rerouted_iff (cl : ConvergenceLayer) (r : Rerouting) (hlive : r.link.isDeleted = false)
    (hcounted : r.link.Counted) (hstate : r.link.state = .unavailable) :
    Rerouted cl r ↔ r.link.inflight = [] := by
  constructor
  · rintro ⟨fuel, r', hreroute, -⟩
    by_contra hinflight
    exact rerouteBundles_inflight hlive hcounted hstate hinflight fuel r' hreroute
  · intro hinflight
    obtain ⟨r₁, hempty, hinflight₁, hrequests, hdrain⟩ := drain_queue cl hlive hcounted rfl
    refine ⟨r.link.queue.length + 1, r₁, ?_, hempty, r.link.queue, hrequests, hcounted.nodup, ?_⟩
    · unfold rerouteBundles
      rw [require_of hlive, ok_bind, if_neg (not_not.mpr hstate), hdrain, if_pos (Nat.lt_succ_self _),
        ok_bind, drain, hinflight₁, hinflight]
    · simp [hinflight]

/-- Two queued bundles. -/
def queuedLink : Link :=
  { name := [0x6c], state := .unavailable, queue := [1, 2], bundlesQueued := 2 }

theorem rerouted_queued : Rerouted .connection { link := queuedLink } :=
  (rerouted_iff .connection { link := queuedLink } rfl ⟨by decide, rfl⟩ rfl).mpr rfl

/-- One bundle was in flight when the link closed. -/
def inflightLink : Link := { queuedLink with inflight := [3] }

theorem not_rerouted : ¬ Rerouted .connection { link := inflightLink } := by
  rintro ⟨fuel, r', hreroute, -⟩
  exact rerouteBundles_inflight rfl ⟨by decide, rfl⟩ rfl (List.cons_ne_nil 3 []) fuel r' hreroute

end Rerouting

end Dtnme.Routing
