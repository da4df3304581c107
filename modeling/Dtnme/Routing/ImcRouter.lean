import Dtnme.Imc.Destinations
import Dtnme.Imc.ManualJoins
import Dtnme.Routing.AlternateLink

/-! # When a router deletes a multicast bundle

A routing pass puts each destination that is not handled yet on the list of a link, or among the nodes
that cannot be reached. The bundle may be deleted when as many nodes cannot be reached as are not handled.
The numbers tell this only while one set of nodes is part of the other.
-/

namespace Dtnme.Routing
open Library Naming Bundling Imc

/-! ## A router -/

/-- A router node: its settings and routes, which links are always on, and what queueing the bundle on
a link does to the links and to the log. -/
structure RouterNode where
  config : ImcConfig
  isRouter : config.isImcRouterNode = true
  routing : ImcRouting
  deleteUnrouteableBundles : Bool := true
  treatUnreachableNodesAsUnrouteable : Bool := true
  staticRouterPreferAlwaysOn : Bool := true
  shuttingDown : Bool := false
  alwaysOn : ℕ → Bool
  queueBundle : Forwarding → ℕ → Forwarding

/-- The nodes that the last pass found no way to, and whether each is in the home region. -/
structure Unrouteable where
  nodes : NodeMap := .empty
  homeRegion : ℕ := 0
  outerRegions : ℕ := 0

/-- `add_imc_unrouteable_dest_node`. -/
def Unrouteable.add (u : Unrouteable) (destNode : ℕ) (inHomeRegion : Bool) : Unrouteable :=
  if 0 < destNode then
    match u.nodes.find? destNode with
    | none => {
        nodes := u.nodes.insert destNode inHomeRegion
        homeRegion := if inHomeRegion then u.homeRegion + 1 else u.homeRegion
        outerRegions := if inHomeRegion then u.outerRegions else u.outerRegions + 1 }
    | some _ => u
  else u

/-- One multicast bundle at a router. -/
structure RouterState where
  node : RouterNode
  bundle : Imc.ImcBundle
  destEid : Eid
  localCustody : Bool := false
  bibeCustody : Bool := false
  unrouteable : Unrouteable := {}
  world : Forwarding

namespace Forwarding

/-- `get_count` of the entries in some states. -/
def stateCount (w : Forwarding) (states : List ForwardingState) : ℕ :=
  (w.fwdlog.filter fun e => e.state ∈ states).length

/-- `should_fwd`. An imc endpoint is no singleton, and so this differs from `shouldFwdImc` in not telling
whether the bundle waits on the link. -/
def shouldFwd (r : ImcRouting) (w : Forwarding) (link : NextHop) : Except Fault (Bool × Forwarding) :=
  (w.shouldFwdImc r link).map fun x => (x.1, x.2.2)

/-- Open the link if it is available. -/
def openIfAvailable (r : ImcRouting) (w : Forwarding) (i : ℕ) (link : NextHop) : Forwarding :=
  if link.isavailable && !link.isopen && !link.isopening then w.openLink r i link else w

/-- The link is open and has space. -/
def takes (w : Forwarding) (i : ℕ) : Bool :=
  (w.links[i]?).any fun link => link.isopen && link.queueHasSpace

/-- `find_link`. -/
def findLink (w : Forwarding) (node : RouterNode) (name : String) : Option ℕ :=
  findLinkBy NextHop.isDeleted (fun link => link.name.toList.map Char.toNat) node.shuttingDown w.links
    (name.toList.map Char.toNat)

/-- The loop over the routes to a destination. What is known at its end is the first link that the
bundle may go on, whether it waits on the last link looked at, and the link that takes it. -/
def tryNode (r : ImcRouting) : Forwarding → Option String → Bool → List RouteEntry →
    Except Fault (Forwarding × Option String × Bool × Option String)
  | w, known, isQueued, [] => .ok (w, known, isQueued, none)
  | w, known, _, route :: routes =>
    match route.hop with
    | .routeTo _ _ => .error .undefined
    | .link i =>
      match w.links[i]? with
      | none => .error .undefined
      | some link => do
        let (fwd, isQueued, w) ← w.shouldFwdImc r link
        if !fwd then tryNode r w known isQueued routes
        else
          let known := known.or (some link.name)
          let w := w.openIfAvailable r i link
          if w.takes i then pure (w, known, isQueued, some link.name)
          else tryNode r w known isQueued routes

end Forwarding

namespace RouterState

/-- `get_matching_ipn` and `sort_routes`. -/
def matchesOf (node : RouterNode) (destNode : ℕ) : List RouteEntry :=
  node.routing.sortRoutes (node.routing.table.getMatchingIpn destNode none {}).1.entryVec

/-- The bundle with other lists of links. -/
def setImc (s : RouterState) (imc : ImcState) : RouterState :=
  { s with bundle := { s.bundle with imc } }

/-- A destination that is not handled. -/
def routeNode (s : RouterState) (destNode : ℕ) : Except Fault RouterState := do
  let (world, known, isQueued, found) ←
    s.world.tryNode s.node.routing none false (matchesOf s.node destNode)
  let s := { s with world }
  match found with
  | some linkname => pure (s.setImc (s.bundle.imc.addImcDestNodeViaLink linkname destNode))
  | none =>
    if isQueued then pure s
    else
      match s.node.treatUnreachableNodesAsUnrouteable, known with
      | false, some linkname =>
        pure (s.setImc (s.bundle.imc.addImcDestNodeViaLink linkname destNode))
      | _, _ =>
        pure { s with
          unrouteable := s.unrouteable.add destNode (s.node.config.isNodeInHomeRegion destNode) }

def routeNodes : RouterState → List ℕ → Except Fault RouterState
  | s, [] => .ok s
  | s, destNode :: rest => do
    let s ← s.routeNode destNode
    s.routeNodes rest

/-- The lists of the links are left as they are. -/
def generateDestSublistsPerLink (s : RouterState) : Except Fault RouterState :=
  { s with unrouteable := {} }.routeNodes (ImcState.nodesOf s.bundle.imc.dests false)

/-- The names by index, up to an empty one. -/
def imcLinkNames (s : RouterState) : List String :=
  (s.bundle.imc.links.entries.map Prod.fst).takeWhile (· ≠ "")

/-- Queue the bundle on the link of a list. -/
def queueOn (s : RouterState) (linkname : String) : RouterState :=
  match s.world.findLink s.node linkname with
  | none => s
  | some i => if s.world.takes i then { s with world := s.node.queueBundle s.world i } else s

/-- The loop over the routes to the group, for a bundle that no link has a list for. -/
def fallback : RouterState → List RouteEntry → Except Fault RouterState
  | s, [] => .ok s
  | s, route :: routes =>
    match route.hop with
    | .routeTo _ _ => .error .undefined
    | .link i =>
      match s.world.links[i]? with
      | none => .error .undefined
      | some link => do
        let (fwd, world) ← s.world.shouldFwd s.node.routing link
        if !fwd then fallback { s with world } routes
        else
          let world := world.openIfAvailable s.node.routing i link
          if !world.takes i then fallback { s with world } routes
          else
            let imc ← s.bundle.imc.copyAllUnhandledNodesToViaLink link.name
            let s := { s with world := s.node.queueBundle world i }.setImc imc
            if s.node.staticRouterPreferAlwaysOn && s.node.alwaysOn i then pure s
            else fallback s routes

def queueBundleToLinks (s : RouterState) : Except Fault RouterState :=
  let names := s.imcLinkNames
  if names = [] then
    s.fallback (s.node.routing.sortRoutes
      (s.node.routing.table.getMatching s.destEid none {}).1.entryVec)
  else .ok (names.foldl queueOn s)

/-- The first pass finds the destinations. -/
def processed (s : RouterState) : RouterState :=
  if s.bundle.routerProcessedImc then s
  else { s with bundle := { s.node.config.updated s.bundle with routerProcessedImc := true } }

/-- `route_bundle`. -/
def routeBundle (s : RouterState) : Except Fault RouterState :=
  if 0 < s.world.getCount ⟨text "*:*"⟩ [.suppressed] then .ok s
  else
    let s := s.processed
    if s.bundle.imc.destNodesNotHandled = 0 then .ok s
    else do
      let s ← s.generateDestSublistsPerLink
      s.queueBundleToLinks

def canDeleteImcBundle (s : RouterState) : Bool :=
  if !s.bundle.routerProcessedImc then false
  else if s.localCustody || s.bibeCustody then false
  else if s.world.stateCount [.pendingDelivery] ≠ 0 then false
  else if s.world.stateCount [.delivered] = 0 && s.node.config.isManuallyJoinedEid s.destEid.key then
    false
  else if (s.unrouteable.homeRegion + s.unrouteable.outerRegions : ℤ) < s.bundle.imc.destNodesNotHandled then
    false
  else if !s.node.deleteUnrouteableBundles && 0 < s.bundle.imc.destNodesNotHandled then false
  else true

/-- A routing pass, a link that has sent the bundle or failed to, and what changes elsewhere: deliveries
and other entries of the log, the links, and the settings of the router. -/
inductive Event
  | routed
  | transmitted (linkname : String) (success : Bool)
  | changed (node : RouterNode) (world : Forwarding)

def step (s : RouterState) : Event → Except Fault RouterState
  | .routed => s.routeBundle
  | .transmitted linkname true => .ok (s.setImc (s.bundle.imc.imcLinkTransmitSuccess linkname))
  | .transmitted linkname false => .ok (s.setImc (s.bundle.imc.imcLinkTransmitFailure linkname))
  | .changed node world => .ok { s with node, world }

end RouterState

/-! ## The unrouteable nodes -/

namespace Unrouteable

def Has (u : Unrouteable) (n : ℕ) : Prop := (u.nodes.find? n).isSome

def Counted (u : Unrouteable) : Prop := u.homeRegion + u.outerRegions = u.nodes.size

theorem not_has_empty (n : ℕ) : ¬ ({} : Unrouteable).Has n := by simp [Has]

theorem counted_empty : ({} : Unrouteable).Counted := rfl

theorem has_add (u : Unrouteable) (k n : ℕ) (inHome : Bool) :
    (u.add k inHome).Has n ↔ u.Has n ∨ n = k ∧ 0 < k := by
  unfold add Has
  by_cases hk : 0 < k
  · cases hf : u.nodes.find? k with
    | none => by_cases hn : n = k <;> simp [hk, hn, OrdMap.find?_insert]
    | some b =>
      by_cases hn : n = k
      · simp [hk, hn, hf]
      · simp [hk, hn]
  · simp [hk]

theorem Counted.add {u : Unrouteable} (h : u.Counted) (k : ℕ) (inHome : Bool) :
    (u.add k inHome).Counted := by
  unfold Counted at h
  unfold Unrouteable.add
  by_cases hk : 0 < k
  · rw [if_pos hk]
    cases hf : u.nodes.find? k with
    | none =>
      unfold Counted
      simp only
      rw [OrdMap.size_insert hf, ← h]
      cases inHome with
      | true => exact Nat.add_right_comm _ 1 _
      | false => rfl
    | some b => exact h
  · rw [if_neg hk]
    exact h

theorem mem_keys {u : Unrouteable} {n : ℕ} : n ∈ ImcState.keys u.nodes ↔ u.Has n := ImcState.mem_keys

end Unrouteable

/-! ## What the steps change -/

/-- The bundle has other lists of links, and is the same otherwise. -/
def OtherLists (b b' : Imc.ImcBundle) : Prop := ∃ m, b' = { b with imc := { b.imc with linkDestMap := m } }

theorem OtherLists.rfl (b : Imc.ImcBundle) : OtherLists b b := ⟨b.imc.linkDestMap, Eq.refl _⟩

theorem OtherLists.trans {b b' b'' : Imc.ImcBundle} (h : OtherLists b b') (h' : OtherLists b' b'') :
    OtherLists b b'' := by
  obtain ⟨m, rfl⟩ := h
  obtain ⟨m', rfl⟩ := h'
  exact ⟨m', Eq.refl _⟩

theorem OtherLists.unhandled {b b' : Imc.ImcBundle} (h : OtherLists b b') (n : ℕ) :
    b'.imc.Unhandled n ↔ b.imc.Unhandled n := by
  obtain ⟨m, rfl⟩ := h
  exact Iff.rfl

theorem OtherLists.consistent {b b' : Imc.ImcBundle} (h : OtherLists b b') (hb : b.imc.Consistent) :
    b'.imc.Consistent := by
  obtain ⟨m, rfl⟩ := h
  exact hb.of_links m

theorem OtherLists.processed {b b' : Imc.ImcBundle} (h : OtherLists b b') :
    b'.routerProcessedImc = b.routerProcessedImc := by
  obtain ⟨m, rfl⟩ := h
  rfl

theorem otherLists_copyAll {b : Imc.ImcBundle} {linkname : String} {imc : ImcState}
    (h : b.imc.copyAllUnhandledNodesToViaLink linkname = .ok imc) : OtherLists b { b with imc } := by
  unfold ImcState.copyAllUnhandledNodesToViaLink at h
  split at h
  · cases h
  · obtain rfl := Except.ok.inj h
    exact ⟨_, rfl⟩

namespace RouterState

/-- What the set of unrouteable nodes is right for. -/
structure Books (s : RouterState) : Prop where
  consistent : s.bundle.imc.Consistent
  counted : s.unrouteable.Counted
  fresh : s.bundle.routerProcessedImc = false → ∀ n, ¬ s.unrouteable.Has n
  nested : (∀ n, s.unrouteable.Has n → s.bundle.imc.Unhandled n) ∨
    ∀ n, s.bundle.imc.Unhandled n → s.unrouteable.Has n

/-- In a pass the unrouteable nodes are some of those that are not handled. -/
structure InPass (s t : RouterState) : Prop where
  lists : OtherLists s.bundle t.bundle
  counted : t.unrouteable.Counted
  within : ∀ n, t.unrouteable.Has n → s.bundle.imc.Unhandled n

theorem InPass.trans {s t u : RouterState} (h : InPass s t) (h' : InPass t u) : InPass s u where
  lists := h.lists.trans h'.lists
  counted := h'.counted
  within n hn := (h.lists.unhandled n).mp (h'.within n hn)

theorem routeNode_spec {s t : RouterState} {k : ℕ} (hc : s.unrouteable.Counted)
    (hw : ∀ n, s.unrouteable.Has n → s.bundle.imc.Unhandled n) (hk : s.bundle.imc.Unhandled k)
    (h : s.routeNode k = .ok t) : InPass s t := by
  unfold routeNode at h
  obtain ⟨⟨world, known, isQueued, found⟩, -, h⟩ := of_bind_ok h
  have hadd (b : Bool) : ∀ n, (s.unrouteable.add k b).Has n → s.bundle.imc.Unhandled n := by
    intro n hn
    rcases (s.unrouteable.has_add k n b).mp hn with hn | ⟨rfl, -⟩
    · exact hw n hn
    · exact hk
  dsimp only at h
  split at h
  · obtain rfl := Except.ok.inj h
    exact ⟨⟨_, rfl⟩, hc, hw⟩
  · split_ifs at h
    · obtain rfl := Except.ok.inj h
      exact ⟨OtherLists.rfl _, hc, hw⟩
    · split at h
      · obtain rfl := Except.ok.inj h
        exact ⟨⟨_, rfl⟩, hc, hw⟩
      · obtain rfl := Except.ok.inj h
        exact ⟨OtherLists.rfl _, hc.add _ _, hadd _⟩

theorem routeNodes_spec {l : List ℕ} {s t : RouterState} (hc : s.unrouteable.Counted)
    (hw : ∀ n, s.unrouteable.Has n → s.bundle.imc.Unhandled n)
    (hl : ∀ n ∈ l, s.bundle.imc.Unhandled n) (h : s.routeNodes l = .ok t) : InPass s t := by
  induction l generalizing s with
  | nil =>
    obtain rfl := Except.ok.inj h
    exact ⟨OtherLists.rfl _, hc, hw⟩
  | cons k rest ih =>
    obtain ⟨u, hu, hrest⟩ := of_bind_ok h
    have hstep := routeNode_spec hc hw (hl k List.mem_cons_self) hu
    have hsame := hstep.lists.unhandled
    apply hstep.trans
    apply ih hstep.counted _ _ hrest
    · exact fun n hn => (hsame n).mpr (hstep.within n hn)
    · exact fun n hn => (hsame n).mpr (hl n (List.mem_cons_of_mem k hn))

/-- Queueing leaves the set of unrouteable nodes alone. -/
structure Queued (s t : RouterState) : Prop where
  lists : OtherLists s.bundle t.bundle
  unrouteable : t.unrouteable = s.unrouteable

theorem queued_queueOn (s : RouterState) (linkname : String) : Queued s (s.queueOn linkname) := by
  unfold queueOn
  split
  · exact ⟨OtherLists.rfl _, rfl⟩
  · split_ifs <;> exact ⟨OtherLists.rfl _, rfl⟩

theorem Queued.trans {s t u : RouterState} (h : Queued s t) (h' : Queued t u) : Queued s u where
  lists := h.lists.trans h'.lists
  unrouteable := h'.unrouteable.trans h.unrouteable

theorem queued_foldl (names : List String) (s : RouterState) : Queued s (names.foldl queueOn s) := by
  induction names generalizing s with
  | nil => exact ⟨OtherLists.rfl _, rfl⟩
  | cons name names ih => exact (s.queued_queueOn name).trans (ih _)

theorem queued_fallback {routes : List RouteEntry} {s t : RouterState}
    (h : s.fallback routes = .ok t) : Queued s t := by
  induction routes generalizing s with
  | nil =>
    obtain rfl := Except.ok.inj h
    exact ⟨OtherLists.rfl _, rfl⟩
  | cons route routes ih =>
    have hworld (w : Forwarding) (hw : { s with world := w }.fallback routes = .ok t) : Queued s t := by
      have hnext := ih hw
      exact ⟨hnext.lists, hnext.unrouteable⟩
    unfold fallback at h
    split at h
    · cases h
    · split at h
      · cases h
      · obtain ⟨⟨fwd, world⟩, -, h⟩ := of_bind_ok h
        dsimp only at h
        split_ifs at h with hfwd htakes
        · exact hworld _ h
        · exact hworld _ h
        · obtain ⟨imc, himc, h⟩ := of_bind_ok h
          have hlists := otherLists_copyAll himc
          split_ifs at h
          · obtain rfl := Except.ok.inj h
            exact ⟨hlists, rfl⟩
          · have hnext := ih h
            exact ⟨hlists.trans hnext.lists, hnext.unrouteable⟩

theorem queued_queueBundleToLinks {s t : RouterState} (h : s.queueBundleToLinks = .ok t) :
    Queued s t := by
  unfold queueBundleToLinks at h
  dsimp only at h
  split_ifs at h
  · exact queued_fallback h
  · obtain rfl := Except.ok.inj h
    exact queued_foldl _ s

/-! ## One step -/

theorem Books.of_queued {s t : RouterState} (hs : s.Books) (h : Queued s t) : t.Books where
  consistent := h.lists.consistent hs.consistent
  counted := h.unrouteable ▸ hs.counted
  fresh hp := by
    rw [h.lists.processed] at hp
    rw [h.unrouteable]
    exact hs.fresh hp
  nested := by
    simp only [h.unrouteable, h.lists.unhandled]
    exact hs.nested

theorem processed_routerProcessedImc (s : RouterState) :
    s.processed.bundle.routerProcessedImc = true := by
  unfold processed
  split_ifs with hp
  · exact hp
  · rfl

theorem Books.processed {s : RouterState} (hs : s.Books) : s.processed.Books := by
  unfold RouterState.processed
  split_ifs with hp
  · exact hs
  · have hnone := hs.fresh (by simpa using hp)
    refine ⟨s.node.config.updateBundleImcDestNodes_consistent hs.consistent, hs.counted, by simp, Or.inl ?_⟩
    exact fun n hn => absurd hn (hnone n)

theorem Books.routeBundle {s t : RouterState} (hs : s.Books) (h : s.routeBundle = .ok t) :
    t.Books := by
  unfold RouterState.routeBundle at h
  dsimp only at h
  split_ifs at h
  · obtain rfl := Except.ok.inj h
    exact hs
  · obtain rfl := Except.ok.inj h
    exact hs.processed
  · obtain ⟨u, hu, hqueue⟩ := of_bind_ok h
    have hpass := routeNodes_spec (s := { s.processed with unrouteable := {} })
      Unrouteable.counted_empty (fun n hn => absurd hn (Unrouteable.not_has_empty n))
      (fun n hn => ImcState.mem_nodesOf.mp hn) hu
    have hbooks : u.Books := by
      refine ⟨hpass.lists.consistent hs.processed.consistent, hpass.counted, fun hp => ?_, Or.inl ?_⟩
      · rw [hpass.lists.processed] at hp
        cases s.processed_routerProcessedImc.symm.trans hp
      · exact fun n hn => (hpass.lists.unhandled n).mpr (hpass.within n hn)
    exact hbooks.of_queued (queued_queueBundleToLinks hqueue)

/-- A link that has sent the bundle has none of the unrouteable nodes, or leaves only such. -/
def Undisturbed (s : RouterState) : Event → Prop
  | .transmitted linkname true =>
    (∀ n, s.bundle.imc.Unhandled n → s.bundle.imc.Covers linkname n → ¬ s.unrouteable.Has n) ∨
      ∀ n, s.bundle.imc.Unhandled n → ¬ s.bundle.imc.Covers linkname n → s.unrouteable.Has n
  | _ => True

instance (s : ImcState) (linkname : String) (n : ℕ) : Decidable (s.Covers linkname n) := by
  unfold ImcState.Covers ImcState.OnList
  infer_instance

instance (u : Unrouteable) (n : ℕ) : Decidable (u.Has n) :=
  inferInstanceAs (Decidable ((u.nodes.find? n).isSome = true))

/-- It is enough to look at the nodes that are not handled. -/
instance (s : RouterState) : DecidablePred s.Undisturbed
  | .routed => isTrue trivial
  | .changed _ _ => isTrue trivial
  | .transmitted _ false => isTrue trivial
  | .transmitted linkname true =>
    decidable_of_iff
      ((∀ n ∈ ImcState.nodesOf s.bundle.imc.dests false,
          s.bundle.imc.Covers linkname n → ¬ s.unrouteable.Has n) ∨
        ∀ n ∈ ImcState.nodesOf s.bundle.imc.dests false,
          ¬ s.bundle.imc.Covers linkname n → s.unrouteable.Has n)
      (by
        simp only [ImcState.mem_nodesOf]
        exact Iff.rfl)

theorem Books.step {s t : RouterState} {event : Event} (hs : s.Books) (hu : s.Undisturbed event)
    (h : s.step event = .ok t) : t.Books := by
  cases event with
  | routed => exact hs.routeBundle h
  | transmitted linkname success =>
    cases success with
    | false =>
      obtain rfl := Except.ok.inj h
      exact hs.of_queued ⟨⟨_, rfl⟩, rfl⟩
    | true =>
      obtain rfl := Except.ok.inj h
      refine ⟨hs.consistent.imcLinkTransmitSuccess linkname, hs.counted, hs.fresh, ?_⟩
      have hleft (n : ℕ) := ImcState.unhandled_imcLinkTransmitSuccess hs.consistent linkname n
      rcases hu with hnone | honly
      · rcases hs.nested with hin | hout
        · exact Or.inl fun n hn => (hleft n).mpr ⟨hin n hn, fun hc => hnone n (hin n hn) hc hn⟩
        · exact Or.inr fun n hn => hout n ((hleft n).mp hn).1
      · exact Or.inr fun n hn => honly n ((hleft n).mp hn).1 ((hleft n).mp hn).2
  | changed node world =>
    obtain rfl := Except.ok.inj h
    exact hs.of_queued ⟨OtherLists.rfl _, rfl⟩

theorem Books.run {s t : RouterState} {events : List Event} (hs : s.Books)
    (hmeets : Meets RouterState.step Undisturbed s events)
    (hrun : Library.run RouterState.step s events = .ok t) : t.Books := by
  induction events generalizing s with
  | nil =>
    cases hrun
    exact hs
  | cons event events ih =>
    obtain ⟨hevent, hrest⟩ := hmeets
    rw [Library.run] at hrun
    cases hstep : s.step event with
    | error e =>
      rw [hstep] at hrun
      cases hrun
    | ok u =>
      rw [hstep] at hrest hrun
      exact ih (hs.step hevent hstep) hrest hrun

/-! ## Deleting -/

/-- Nothing more can be done for the bundle. -/
structure NothingLeft (s : RouterState) : Prop where
  unrouteable : ∀ n, s.bundle.imc.Unhandled n → s.unrouteable.Has n
  allowed : (∃ n, s.bundle.imc.Unhandled n) → s.node.deleteUnrouteableBundles = true
  pending : s.world.stateCount [.pendingDelivery] = 0

theorem canDeleteImcBundle_iff (s : RouterState) : s.canDeleteImcBundle = true ↔
    s.bundle.routerProcessedImc = true ∧ s.localCustody = false ∧ s.bibeCustody = false ∧
    s.world.stateCount [.pendingDelivery] = 0 ∧
    (s.world.stateCount [.delivered] = 0 → s.node.config.isManuallyJoinedEid s.destEid.key = false) ∧
    s.bundle.imc.destNodesNotHandled ≤ s.unrouteable.homeRegion + s.unrouteable.outerRegions ∧
    (s.node.deleteUnrouteableBundles = false → s.bundle.imc.destNodesNotHandled ≤ 0) := by
  unfold canDeleteImcBundle
  split_ifs with hprocessed hcustody hpending hjoined hcount hkeep
  · simp_all
  · rcases Bool.or_eq_true_iff.mp hcustody with hc | hc <;> simp [hc]
  · simp_all
  · simp_all
  · simp_all
  · simp_all
  · simp_all

theorem nodup_keys (m : NodeMap) : (ImcState.keys m).Nodup := by
  unfold ImcState.keys List.Nodup
  rw [List.pairwise_map]
  exact m.sorted.imp fun h => ne_of_lt h

/-- Where one set is part of the other, the counts tell which. -/
theorem Books.nothingLeft {s : RouterState} (hs : s.Books) (h : s.canDeleteImcBundle = true) :
    s.NothingLeft := by
  obtain ⟨-, -, -, hpending, -, hcount, hkeep⟩ := (canDeleteImcBundle_iff s).mp h
  have hnum := hs.consistent.notHandled_eq
  refine ⟨?_, ?_, hpending⟩
  · rcases hs.nested with hin | hout
    · have hsub : ImcState.keys s.unrouteable.nodes ⊆ ImcState.nodesOf s.bundle.imc.dests false := by
        intro n hn
        exact ImcState.mem_nodesOf.mpr (hin n (Unrouteable.mem_keys.mp hn))
      have hlen : (ImcState.nodesOf s.bundle.imc.dests false).length ≤
          (ImcState.keys s.unrouteable.nodes).length := by
        have hsize : (ImcState.keys s.unrouteable.nodes).length = s.unrouteable.nodes.size :=
          List.length_map _
        have hcounted := hs.counted
        unfold Unrouteable.Counted at hcounted
        omega
      have hperm := (List.subperm_of_subset (nodup_keys _) hsub).perm_of_length_le hlen
      intro n hn
      exact Unrouteable.mem_keys.mp (hperm.mem_iff.mpr (ImcState.mem_nodesOf.mpr hn))
    · exact hout
  · rintro ⟨n, hn⟩
    by_contra hdel
    have hzero := hkeep (by simpa using hdel)
    have hpos := List.length_pos_of_mem (ImcState.mem_nodesOf.mpr hn)
    omega

/-! ## Whole runs -/

/-- A bundle that was received: the operations of its state have been carried out, and the router has
not looked at it. -/
structure Received (s : RouterState) : Prop where
  imc : ∃ ops, run ImcState.step {} ops = .ok s.bundle.imc
  unprocessed : s.bundle.routerProcessedImc = false
  unrouteable : s.unrouteable = {}

theorem Received.books {s : RouterState} (h : s.Received) : s.Books where
  consistent := by
    obtain ⟨ops, hops⟩ := h.imc
    exact ImcState.Consistent.initial.of_run hops
  counted := by
    rw [h.unrouteable]
    exact Unrouteable.counted_empty
  fresh _ n := by
    rw [h.unrouteable]
    exact Unrouteable.not_has_empty n
  nested := by
    rw [h.unrouteable]
    exact Or.inl fun n hn => absurd hn (Unrouteable.not_has_empty n)

/-- Along every run in which no success takes some unrouteable nodes and leaves others than these, the
bundle is deleted only when nothing more can be done for it. -/
theorem deleted_when_nothing_left {s t : RouterState} {events : List Event} (hs : s.Received)
    (hmeets : Meets step Undisturbed s events) {k : ℕ} (hrun : run step s (events.take k) = .ok t)
    (hdelete : t.canDeleteImcBundle = true) : t.NothingLeft := by
  exact (hs.books.run (hmeets.take k) hrun).nothingLeft hdelete

section Example

/-- Queueing a bundle that is not on the link yet. -/
def appendToQueue (w : Forwarding) (i : ℕ) : Forwarding :=
  match w.links[i]? with
  | none => w
  | some link =>
    if w.bundle ∈ link.queue then w
    else { w with
      links := w.links.set i { link with queue := link.queue ++ [w.bundle] }
      fwdlog := w.fwdlog ++ [⟨.queued, link.name, link.remoteEid⟩] }

def routerWith (routes : List RouteEntry) : RouterNode where
  config := { localIpnNodeNum := 1 }
  isRouter := rfl
  routing := { toTen with table := { toTen.table with routeTable := routes } }
  alwaysOn _ := false
  queueBundle := appendToQueue

def routeToTen : RouteEntry := ⟨1, ⟨text "ipn:10.*"⟩, .link 0, 0⟩

def routeToTwenty : RouteEntry := ⟨2, ⟨text "ipn:20.*"⟩, .link 1, 0⟩

/-- A bundle for the nodes 10 and 20, each behind a link of its own. -/
def forTenAndTwenty : RouterState where
  node := routerWith [routeToTen, routeToTwenty]
  bundle := {
    source := .ipn 2 1
    dest := .imc 7 0
    imc := [10, 20].foldl ImcState.addImcDestNode {}
    payload := .malformed }
  destEid := makeEidImc 7 0
  world := {
    bundle := 1
    links := [{ name := "link10", remoteEid := makeEidIpn 10 0, state := .opened },
      { name := "link20", remoteEid := makeEidIpn 20 0, state := .opened }] }

theorem received_forTenAndTwenty : forTenAndTwenty.Received :=
  ⟨⟨[.addDestNode 10, .addDestNode 20], rfl⟩, rfl, rfl⟩

theorem deleted_when_nothing_left_sent : ∃ t,
    run step forTenAndTwenty [.routed, .transmitted "link10" true, .transmitted "link20" true] = .ok t ∧
      t.canDeleteImcBundle = true ∧ t.NothingLeft := by
  obtain ⟨t, hrun, hdelete⟩ : ∃ t,
      run step forTenAndTwenty [.routed, .transmitted "link10" true, .transmitted "link20" true] =
          .ok t ∧ t.canDeleteImcBundle = true := by decide +kernel
  have hmeets : Meets step Undisturbed forTenAndTwenty
      [.routed, .transmitted "link10" true, .transmitted "link20" true] := by decide +kernel
  exact ⟨t, hrun, hdelete,
    deleted_when_nothing_left received_forTenAndTwenty hmeets (k := 3) hrun hdelete⟩

/-- The route to node 10 goes while the bundle waits on its link, and then the bundle is sent there. -/
def routeLost : List Event :=
  [.routed, .changed (routerWith [routeToTwenty]) (appendToQueue (appendToQueue forTenAndTwenty.world 0) 1),
    .routed, .transmitted "link10" true]

/-- The bundle may be deleted while it waits on the link to node 20. -/
theorem deleted_with_node_left :
    ¬ ∀ (s t : RouterState) (events : List Event), s.Received → run step s events = .ok t →
      t.canDeleteImcBundle = true → t.NothingLeft := by
  intro h
  obtain ⟨t, hrun, hdelete, hleft, hnot⟩ : ∃ t, run step forTenAndTwenty routeLost = .ok t ∧
      t.canDeleteImcBundle = true ∧ t.bundle.imc.dests.find? 20 = some false ∧
        ¬ t.unrouteable.Has 20 := by decide +kernel
  exact hnot ((h _ t routeLost received_forTenAndTwenty hrun hdelete).unrouteable 20 hleft)

end Example

end RouterState

end Dtnme.Routing
