import Dtnme.Bundling.ImcState
import Dtnme.Routing.ForwardingLog
import Dtnme.Routing.Link
import Dtnme.Routing.RouteTable

/-! # Handing a multicast bundle to a router

A node that is no router gives a multicast bundle to one of the routers of its region. It goes through
them in the order of their map, from a random one on and around, to the first one with a route to an
open link that takes the bundle.
-/

namespace Dtnme.Routing
open Library Naming Bundling

/-! ## What is known of the links -/

/-- What multicast routing reads of a link. -/
structure NextHop where
  name : String
  remoteEid : Eid := makeEidNull
  isDeleted : Bool := false
  state : LinkState := .available
  queue : List ℕ := []
  inflight : List ℕ := []
  bundlesQueued : ℕ := 0
  bytesQueued : ℕ := 0
  qlimitEnabled : Bool := false
  qlimitBundlesLow : ℕ := 0
  qlimitBytesLow : ℕ := 0
  deriving DecidableEq, Repr

namespace NextHop

def isopen (link : NextHop) : Bool := link.state = .opened

def isavailable (link : NextHop) : Bool := link.state ≠ .unavailable

def isopening (link : NextHop) : Bool := link.state = .opening

def queueHasSpace (link : NextHop) : Bool :=
  !link.qlimitEnabled ||
    (link.bundlesQueued < link.qlimitBundlesLow && link.bytesQueued < link.qlimitBytesLow)

end NextHop

/-- The links, each given by its place, and what the bundle has of them. -/
structure Forwarding where
  bundle : ℕ
  prevhop : Eid := makeEidNull
  links : List NextHop
  fwdlog : ForwardingLog String := []
  deriving DecidableEq, Repr

/-- The route table, the order that `sort_routes` makes, and the state in which opening leaves an
available link; one that still has a contact stays available. -/
structure ImcRouting where
  table : RouteTable
  sortRoutes : List RouteEntry → List RouteEntry
  persistentLinks : Bool := false
  openContact : ℕ → LinkState

namespace Forwarding

/-! ## The forwarding log -/

/-- The latest entry for the name of the link. -/
def latest? (w : Forwarding) (link : NextHop) : Option (ForwardingInfo String) :=
  ForwardingLog.latest? w.fwdlog link.name

def getLatestEntry (r : ImcRouting) (w : Forwarding) (link : NextHop) :
    Except Fault ForwardingState :=
  ForwardingLog.getLatestEntry r.persistentLinks w.fwdlog link.name link.remoteEid

/-- `update` with `TRANSMIT_FAILED`. -/
def updateFailed (w : Forwarding) (link : NextHop) : Except Fault Forwarding := do
  let fwdlog ← ForwardingLog.update w.fwdlog link.name link.remoteEid .transmitFailed
  pure { w with fwdlog }

/-- `get_count` of the entries for an endpoint, or for all of them. -/
def getCount (w : Forwarding) (eid : Eid) (states : List ForwardingState) : ℕ :=
  (w.fwdlog.filter fun e =>
    (e.remoteEid = ⟨text "*:*"⟩ || e.remoteEid = eid) && e.state ∈ states).length

/-- The bundle was not sent to the remote endpoint over another link, and may be sent there. -/
def remoteAllows (w : Forwarding) (link : NextHop) : Bool :=
  link.remoteEid = makeEidNull ||
    (w.getCount link.remoteEid [.transmitted, .queued] = 0 &&
      w.getCount link.remoteEid [.suppressed] = 0)

/-- `BundleRouter::should_fwd_imc`: whether the bundle goes on the link, and whether it already waits
there. -/
def routerShouldFwdImc (r : ImcRouting) (w : Forwarding) (link : NextHop) :
    Except Fault (Bool × Bool × Forwarding) := do
  let state ← w.getLatestEntry r link
  if state = .transmitted then pure (false, false, w)
  else if state = .queued then
    if w.bundle ∈ link.queue ∨ w.bundle ∈ link.inflight then pure (false, true, w)
    else do
      let w ← w.updateFailed link
      pure (w.remoteAllows link, false, w)
  else pure (w.remoteAllows link, false, w)

/-- `IMCRouter::should_fwd_imc`, which does not send a bundle back. -/
def shouldFwdImc (r : ImcRouting) (w : Forwarding) (link : NextHop) :
    Except Fault (Bool × Bool × Forwarding) :=
  if w.prevhop = link.remoteEid ∧ w.prevhop ≠ makeEidNull then .ok (false, false, w)
  else w.routerShouldFwdImc r link

/-- `open_link`. -/
def openLink (r : ImcRouting) (w : Forwarding) (i : ℕ) (link : NextHop) : Forwarding :=
  if link.isDeleted then w
  else { w with links := w.links.set i { link with state := r.openContact i } }

/-! ## The routes to one router -/

/-- `get_matching` and `sort_routes`. -/
def routesTo (r : ImcRouting) (node : ℕ) : List RouteEntry :=
  r.sortRoutes (r.table.getMatching (makeEidIpn node 0) none {}).1.entryVec

/-- The loop over the routes, up to the one whose link takes the bundle. -/
def tryRoutes (r : ImcRouting) : Forwarding → List RouteEntry → Except Fault (Forwarding × Option ℕ)
  | w, [] => .ok (w, none)
  | w, route :: routes =>
    match route.hop with
    | .routeTo _ _ => .error .undefined
    | .link i =>
      match w.links[i]? with
      | none => .error .undefined
      | some link => do
        let (fwd, _, w) ← w.shouldFwdImc r link
        if !fwd then tryRoutes r w routes
        else if link.isopen then
          if !link.queueHasSpace then tryRoutes r w routes else pure (w, some i)
        else if link.isavailable && !link.isopen && !link.isopening then
          tryRoutes r (w.openLink r i link) routes
        else tryRoutes r w routes

end Forwarding

/-! ## The loop over the routers -/

/-- The iterator is what it has before it of the map. -/
structure Search where
  iter : List ℕ
  workingIndex : ℕ := 0
  nodesChecked : ℕ := 0
  foundOpenLink : Bool := false
  stopped : Bool := false
  world : Forwarding
  imc : ImcState
  queuedOn : List ℕ := []
  examined : List ℕ := []
  deriving DecidableEq

namespace Search
open Forwarding

/-- The loop that is to copy the original destinations to the list of the link. It adds the node of the
outer iterator each time. -/
def copyOrigNodes (imc : ImcState) (linkname : String) (iterDestNode : ℕ) : ImcState :=
  match imc.origDestMap with
  | none => imc
  | some m => m.entries.foldl (fun s _ => s.addImcDestNodeViaLink linkname iterDestNode) imc

/-- A router that was looked at. -/
def noteResult (s : Search) (node : ℕ) (world : Forwarding) (found : Option ℕ) : Search :=
  let s := { s with
    world
    nodesChecked := s.nodesChecked + 1
    examined := s.examined ++ [node] }
  match found with
  | none => s
  | some i => { s with
      foundOpenLink := true
      imc := copyOrigNodes s.imc ((world.links[i]?.map NextHop.name).getD "") node
      queuedOn := s.queuedOn ++ [i] }

/-- The end of a round: all routers were looked at, or the iterator moves on and around. -/
def moveOn (all rest : List ℕ) (s : Search) : Search :=
  if s.nodesChecked = all.length then { s with stopped := true }
  else if s.foundOpenLink then s
  else { s with iter := if rest = [] then all else rest }

/-- One round, with the iterator at a node. -/
def round (r : ImcRouting) (all : List ℕ) (start : ℕ) (s : Search) (node : ℕ) (rest : List ℕ) :
    Except Fault Search :=
  if s.workingIndex < start then
    .ok { s with iter := rest, workingIndex := s.workingIndex + 1 }
  else do
    let (world, found) ← s.world.tryRoutes r (routesTo r node)
    pure ((s.noteResult node world found).moveOn all rest)

def loop (r : ImcRouting) (all : List ℕ) (start : ℕ) : ℕ → Search → Except Fault Search
  | 0, _ => .error .noReturn
  | fuel + 1, s =>
    if s.stopped || s.foundOpenLink then .ok s
    else
      match s.iter with
      | [] => .ok s
      | node :: rest => do
        let s ← round r all start s node rest
        loop r all start fuel s

end Search

/-- `queue_bundle_to_first_alternate_open_link`, with the number that `rand` gives. The alternate
destinations are those of the bundle. -/
def queueBundleToFirstAlternateOpenLink (r : ImcRouting) (rand : ℕ) (world : Forwarding)
    (imc : ImcState) (alternates : Option NodeMap) (fuel : ℕ) : Except Fault Search :=
  let all := ImcState.keys (alternates.getD .empty)
  let s : Search := { iter := all, world, imc := imc.clearImcLinkLists }
  if all = [] then .ok s else Search.loop r all (rand % all.length) fuel s

/-! ## What looking at routes changes -/

/-- A queued entry may have become a failed one. -/
def FailedFrom (e e' : ForwardingInfo String) : Prop :=
  e' = e ∨ e.state = .queued ∧ e' = { e with state := .transmitFailed }

theorem FailedFrom.trans {a b c : ForwardingInfo String} (h : FailedFrom a b) (h' : FailedFrom b c) :
    FailedFrom a c := by
  rcases h with rfl | ⟨ha, rfl⟩
  · exact h'
  · rcases h' with rfl | ⟨hb, -⟩
    · exact Or.inr ⟨ha, rfl⟩
    · cases hb

theorem FailedFrom.linkName {e e' : ForwardingInfo String} (h : FailedFrom e e') :
    e'.linkName = e.linkName := by
  rcases h with rfl | ⟨-, rfl⟩ <;> rfl

theorem FailedFrom.remoteEid {e e' : ForwardingInfo String} (h : FailedFrom e e') :
    e'.remoteEid = e.remoteEid := by
  rcases h with rfl | ⟨-, rfl⟩ <;> rfl

abbrev LogFailed (l l' : ForwardingLog String) : Prop := List.Forall₂ FailedFrom l l'

theorem LogFailed.rfl (l : ForwardingLog String) : LogFailed l l :=
  List.forall₂_same.mpr fun _ _ => Or.inl (Eq.refl _)

theorem LogFailed.trans {a b c : ForwardingLog String} (h : LogFailed a b) (h' : LogFailed b c) :
    LogFailed a c := by
  induction h generalizing c with
  | nil => exact h'
  | cons hd _ ih =>
    cases h' with
    | cons hd' tl' => exact .cons (hd.trans hd') (ih tl')

theorem LogFailed.find? {l l' : ForwardingLog String} (h : LogFailed l l') (name : String) :
    (l.find? (fun e => e.linkName = name) = none ∧ l'.find? (fun e => e.linkName = name) = none) ∨
      ∃ e e', l.find? (fun e => e.linkName = name) = some e ∧
        l'.find? (fun e => e.linkName = name) = some e' ∧ FailedFrom e e' := by
  induction h with
  | nil => exact Or.inl ⟨Eq.refl _, Eq.refl _⟩
  | @cons e e' l l' hd _ ih =>
    by_cases hname : e.linkName = name
    · refine Or.inr ⟨e, e', ?_, ?_, hd⟩
      · simp [hname]
      · simp [hd.linkName, hname]
    · simpa [hd.linkName, hname] using ih

theorem LogFailed.mem {l l' : ForwardingLog String} (h : LogFailed l l') {e' : ForwardingInfo String}
    (he : e' ∈ l') :
    ∃ e ∈ l, FailedFrom e e' := by
  induction h with
  | nil => cases he
  | @cons a b l l' hd _ ih =>
    rcases List.mem_cons.mp he with rfl | he
    · exact ⟨a, List.mem_cons_self, hd⟩
    · obtain ⟨e, hmem, hfailed⟩ := ih he
      exact ⟨e, List.mem_cons_of_mem a hmem, hfailed⟩

namespace Forwarding

theorem logFailed_setState (name : String) {l : ForwardingLog String}
    (h : ∀ e, l.find? (fun e => e.linkName = name) = some e → e.state = .queued) :
    LogFailed l (ForwardingLog.setState name .transmitFailed l) := by
  induction l with
  | nil => exact .nil
  | cons e l ih =>
    unfold ForwardingLog.setState
    by_cases hname : e.linkName = name
    · rw [if_pos hname]
      exact .cons (Or.inr ⟨h e (by simp [hname]), rfl⟩) (LogFailed.rfl l)
    · rw [if_neg hname]
      exact .cons (Or.inl rfl) (ih (by simpa [hname] using h))

/-- Where more entries have failed, so they have after one more. -/
theorem setState_logFailed (name : String) {l l' : ForwardingLog String} (h : LogFailed l l') :
    LogFailed (ForwardingLog.setState name .transmitFailed l)
      (ForwardingLog.setState name .transmitFailed l') := by
  induction h with
  | nil => exact .nil
  | @cons e e' l l' hd tl ih =>
    unfold ForwardingLog.setState
    rw [hd.linkName]
    split_ifs
    · refine .cons (Or.inl ?_) tl
      rcases hd with rfl | ⟨-, rfl⟩ <;> rfl
    · exact .cons hd ih

/-- It makes no difference to an entry that has failed already. -/
theorem setState_of_failed {name : String} {l : ForwardingLog String}
    (h : ∀ e, l.find? (fun e => e.linkName = name) = some e → e.state = .transmitFailed) :
    ForwardingLog.setState name .transmitFailed l = l := by
  induction l with
  | nil => rfl
  | cons e l ih =>
    unfold ForwardingLog.setState
    by_cases hname : e.linkName = name
    · have hfailed := h e (by simp [hname])
      rw [if_pos hname, ← hfailed]
    · rw [if_neg hname, ih (by simpa [hname] using h)]

/-- From one state to the other links were opened and entries have failed. -/
structure Ahead (w w' : Forwarding) : Prop where
  bundle : w'.bundle = w.bundle
  prevhop : w'.prevhop = w.prevhop
  length : w'.links.length = w.links.length
  links : ∀ (i : ℕ) (link : NextHop), w.links[i]? = some link → ∃ state,
    w'.links[i]? = some { link with state } ∧ (link.state = .opened → state = .opened)
  fwdlog : LogFailed w.fwdlog w'.fwdlog

theorem Ahead.rfl (w : Forwarding) : Ahead w w where
  bundle := Eq.refl _
  prevhop := Eq.refl _
  length := Eq.refl _
  links _ link h := ⟨link.state, h, fun h => h⟩
  fwdlog := LogFailed.rfl _

theorem Ahead.trans {u v w : Forwarding} (h : Ahead u v) (h' : Ahead v w) : Ahead u w where
  bundle := h'.bundle.trans h.bundle
  prevhop := h'.prevhop.trans h.prevhop
  length := h'.length.trans h.length
  links i link hi := by
    obtain ⟨state, hv, hopen⟩ := h.links i link hi
    obtain ⟨state', hw, hopen'⟩ := h'.links i _ hv
    exact ⟨state', hw, fun ho => hopen' (hopen ho)⟩
  fwdlog := h.fwdlog.trans h'.fwdlog

/-- The endpoints of a link do not change where the links are persistent, which is asserted. -/
def Trusted (r : ImcRouting) (w : Forwarding) (link : NextHop) : Prop :=
  r.persistentLinks = true → ∀ e ∈ w.fwdlog, e.linkName = link.name →
    e.remoteEid = makeEidNull ∨ e.remoteEid = link.remoteEid

/-- An entry for the name is taken for one of the link. -/
def isOwn (r : ImcRouting) (link : NextHop) (e : ForwardingInfo String) : Bool :=
  r.persistentLinks || (e.remoteEid = makeEidNull || e.remoteEid = link.remoteEid)

/-- What `get_latest_entry` gives. -/
def stateOf (r : ImcRouting) (w : Forwarding) (link : NextHop) : ForwardingState :=
  match w.latest? link with
  | none => .none
  | some e => if isOwn r link e then e.state else .none

/-- The log as it is when the remote endpoint is looked up in it. -/
def settled (r : ImcRouting) (w : Forwarding) (link : NextHop) : Forwarding :=
  if w.stateOf r link = .queued then
    { w with fwdlog := (ForwardingLog.setState link.name .transmitFailed w.fwdlog.reverse).reverse }
  else w

/-- The bundle may go on the link. -/
structure Allowed (r : ImcRouting) (w : Forwarding) (link : NextHop) : Prop where
  notBack : ¬ (w.prevhop = link.remoteEid ∧ w.prevhop ≠ makeEidNull)
  notSent : w.stateOf r link ≠ .transmitted
  notWaiting : w.stateOf r link = .queued → ¬ (w.bundle ∈ link.queue ∨ w.bundle ∈ link.inflight)
  remote : (w.settled r link).remoteAllows link = true

section
variable {r : ImcRouting} {w w' : Forwarding} {link : NextHop}

theorem getLatestEntry_eq (ht : w.Trusted r link) :
    w.getLatestEntry r link = .ok (w.stateOf r link) := by
  unfold getLatestEntry ForwardingLog.getLatestEntry stateOf latest?
  cases hl : ForwardingLog.latest? w.fwdlog link.name with
  | none => rfl
  | some e =>
    obtain ⟨hmem, hname⟩ := ForwardingLog.latest?_mem hl
    cases hp : r.persistentLinks with
    | true =>
      have he := ht hp e hmem hname
      simp only [require_of he, if_true, isOwn, hp, Bool.true_or]
      rfl
    | false =>
      by_cases hown : e.remoteEid = makeEidNull ∨ e.remoteEid = link.remoteEid
      · have hno : ¬ (e.remoteEid ≠ makeEidNull ∧ e.remoteEid ≠ link.remoteEid) := by tauto
        simp [isOwn, hp, hown, hno]
      · have hyes : e.remoteEid ≠ makeEidNull ∧ e.remoteEid ≠ link.remoteEid := by tauto
        simp [isOwn, hp, hyes]

theorem updateFailed_eq (ht : w.Trusted r link) (hq : w.stateOf r link = .queued) :
    w.updateFailed link = .ok (w.settled r link) ∧ Ahead w (w.settled r link) := by
  unfold stateOf latest? at hq
  cases hl : ForwardingLog.latest? w.fwdlog link.name with
  | none => simp [hl] at hq
  | some e =>
    obtain ⟨hmem, hname⟩ := ForwardingLog.latest?_mem hl
    simp only [hl] at hq
    split_ifs at hq with hown
    have he : e.remoteEid = makeEidNull ∨ e.remoteEid = link.remoteEid := by
      cases hp : r.persistentLinks with
      | true => exact ht hp e hmem hname
      | false => simpa [isOwn, hp] using hown
    have hstate : w.stateOf r link = .queued := by simp [stateOf, latest?, hl, hown, hq]
    have hfailed : LogFailed w.fwdlog
        (ForwardingLog.setState link.name .transmitFailed w.fwdlog.reverse).reverse := by
      have h := logFailed_setState link.name (l := w.fwdlog.reverse) (by
        intro e' he'
        obtain rfl := Option.some.inj (hl.symm.trans he')
        exact hq)
      simpa using List.forall₂_reverse_iff.mpr h
    constructor
    · unfold updateFailed ForwardingLog.update
      simp only [hl, require_of he, settled, hstate, if_true]
      rfl
    · rw [settled, if_pos hstate]
      exact ⟨rfl, rfl, rfl, fun i l hi => ⟨l.state, hi, id⟩, hfailed⟩

/-- A look at a link. -/
theorem shouldFwdImc_spec (ht : w.Trusted r link) : ∃ fwd isQueued w',
    w.shouldFwdImc r link = .ok (fwd, isQueued, w') ∧ Ahead w w' ∧ w'.links = w.links ∧
      (fwd = true ↔ w.Allowed r link) := by
  unfold shouldFwdImc
  by_cases hback : w.prevhop = link.remoteEid ∧ w.prevhop ≠ makeEidNull
  · rw [if_pos hback]
    exact ⟨false, false, w, rfl, Ahead.rfl w, rfl, by simp, fun h => absurd hback h.notBack⟩
  · rw [if_neg hback]
    unfold routerShouldFwdImc
    rw [getLatestEntry_eq ht, ok_bind]
    by_cases hsent : w.stateOf r link = .transmitted
    · rw [if_pos hsent]
      exact ⟨false, false, w, rfl, Ahead.rfl w, rfl, by simp, fun h => absurd hsent h.notSent⟩
    · rw [if_neg hsent]
      by_cases hq : w.stateOf r link = .queued
      · rw [if_pos hq]
        by_cases hwait : w.bundle ∈ link.queue ∨ w.bundle ∈ link.inflight
        · rw [if_pos hwait]
          exact ⟨false, true, w, rfl, Ahead.rfl w, rfl, by simp,
            fun h => absurd hwait (h.notWaiting hq)⟩
        · rw [if_neg hwait]
          obtain ⟨hupdate, hahead⟩ := updateFailed_eq ht hq
          have hlinks : (w.settled r link).links = w.links := by
            unfold settled
            split_ifs
            rfl
          rw [hupdate]
          exact ⟨_, false, _, rfl, hahead, hlinks, fun h => ⟨hback, hsent, fun _ => hwait, h⟩,
            Allowed.remote⟩
      · rw [if_neg hq]
        have hsame : w.settled r link = w := if_neg hq
        refine ⟨_, false, w, rfl, Ahead.rfl w, rfl, fun h => ?_, fun h => ?_⟩
        · exact ⟨hback, hsent, fun h' => absurd h' hq, hsame.symm ▸ h⟩
        · exact hsame ▸ h.remote

/-! ### What was allowed stays allowed -/

theorem Trusted.ahead (ht : w.Trusted r link) (h : Ahead w w') (state : LinkState) :
    w'.Trusted r { link with state } := by
  intro hp e' he' hname
  obtain ⟨e, he, hfailed⟩ := h.fwdlog.mem he'
  rw [hfailed.remoteEid]
  exact ht hp e he (hfailed.linkName ▸ hname)

theorem latest?_ahead (h : Ahead w w') (link : NextHop) (state : LinkState) :
    (w.latest? link = none ∧ w'.latest? { link with state } = none) ∨
      ∃ e e', w.latest? link = some e ∧ w'.latest? { link with state } = some e' ∧
        FailedFrom e e' :=
  LogFailed.find? (List.forall₂_reverse_iff.mpr h.fwdlog) link.name

theorem stateOf_ahead (r : ImcRouting) (h : Ahead w w') (link : NextHop) (state : LinkState) :
    w'.stateOf r { link with state } = w.stateOf r link ∨
      w.stateOf r link = .queued ∧ w'.stateOf r { link with state } = .transmitFailed ∧
        ∀ e', w'.latest? { link with state } = some e' → e'.state = .transmitFailed := by
  unfold stateOf
  rcases latest?_ahead h link state with ⟨hl, hl'⟩ | ⟨e, e', hl, hl', hfailed⟩
  · left
    rw [hl, hl']
  · have hown : isOwn r { link with state } e' = isOwn r link e := by
      unfold isOwn
      rw [hfailed.remoteEid]
    simp only [hl, hl', hown]
    rcases hfailed with rfl | ⟨hq, rfl⟩
    · exact Or.inl rfl
    · by_cases ho : isOwn r link e = true
      · right
        simp [ho, hq]
      · left
        simp [ho]

theorem getCount_ahead (h : LogFailed w.fwdlog w'.fwdlog) {eid : Eid} {states : List ForwardingState}
    (hstates : .transmitFailed ∉ states) (hzero : w.getCount eid states = 0) :
    w'.getCount eid states = 0 := by
  unfold getCount at hzero ⊢
  rw [List.length_eq_zero_iff, List.filter_eq_nil_iff] at hzero ⊢
  intro e' he'
  obtain ⟨e, he, hfailed⟩ := h.mem he'
  have hno := hzero e he
  rcases hfailed with rfl | ⟨-, rfl⟩
  · exact hno
  · simp [hstates]

theorem remoteAllows_ahead (h : LogFailed w.fwdlog w'.fwdlog) (state : LinkState)
    (ha : w.remoteAllows link = true) : w'.remoteAllows { link with state } = true := by
  unfold remoteAllows at ha ⊢
  simp only [Bool.or_eq_true, Bool.and_eq_true, decide_eq_true_eq] at ha ⊢
  refine ha.imp_right fun ⟨hsent, hsuppressed⟩ => ⟨?_, ?_⟩
  · exact getCount_ahead h (by decide) hsent
  · exact getCount_ahead h (by decide) hsuppressed

theorem settled_ahead (h : Ahead w w') (state : LinkState) :
    LogFailed (w.settled r link).fwdlog (w'.settled r { link with state }).fwdlog := by
  have hrev : LogFailed w.fwdlog.reverse w'.fwdlog.reverse := List.forall₂_reverse_iff.mpr h.fwdlog
  have hboth := List.forall₂_reverse_iff.mpr (setState_logFailed link.name hrev)
  unfold settled
  rcases stateOf_ahead r h link state with hsame | ⟨hq, hf, hlatest⟩
  · rw [hsame]
    split_ifs
    · exact hboth
    · exact h.fwdlog
  · have hno : w'.stateOf r { link with state } ≠ .queued := by
      rw [hf]
      decide
    rw [if_pos hq, if_neg hno]
    rw [setState_of_failed (l := w'.fwdlog.reverse) hlatest] at hboth
    simpa using hboth

theorem Allowed.ahead (ha : w.Allowed r link) (h : Ahead w w') (state : LinkState) :
    w'.Allowed r { link with state } where
  notBack := by
    rw [h.prevhop]
    exact ha.notBack
  notSent := by
    rcases stateOf_ahead r h link state with hsame | ⟨-, hf, -⟩
    · rw [hsame]
      exact ha.notSent
    · rw [hf]
      decide
  notWaiting hq := by
    rcases stateOf_ahead r h link state with hsame | ⟨-, hf, -⟩
    · rw [h.bundle]
      exact ha.notWaiting (hsame ▸ hq)
    · rw [hf] at hq
      cases hq
  remote := remoteAllows_ahead (settled_ahead h state) state ha.remote

end

/-! ## The routes to one router -/

/-- The link of the route is open, has space and takes the bundle. -/
def Usable (r : ImcRouting) (w : Forwarding) (i : ℕ) : Prop :=
  ∃ link, w.links[i]? = some link ∧ link.isopen = true ∧ link.queueHasSpace = true ∧
    w.Allowed r link

theorem Usable.ahead {r : ImcRouting} {w w' : Forwarding} {i : ℕ} (hu : Usable r w i)
    (h : Ahead w w') : Usable r w' i := by
  obtain ⟨link, hlink, hopen, hspace, ha⟩ := hu
  obtain ⟨state, hlink', hstate⟩ := h.links i link hlink
  refine ⟨{ link with state }, hlink', ?_, hspace, ha.ahead h state⟩
  have ho : link.state = .opened := by simpa [NextHop.isopen] using hopen
  simp [NextHop.isopen, hstate ho]

/-- A route leads to a link that there is. -/
def Routed (w : Forwarding) (route : RouteEntry) : Prop :=
  ∃ i, route.hop = .link i ∧ i < w.links.length

/-- The links have the endpoints that the log has of them. -/
def Sound (r : ImcRouting) (w : Forwarding) : Prop := ∀ link ∈ w.links, w.Trusted r link

theorem Sound.ahead {r : ImcRouting} {w w' : Forwarding} (hs : w.Sound r) (h : Ahead w w') :
    w'.Sound r := by
  intro link' hmem
  obtain ⟨i, hi, rfl⟩ := List.mem_iff_getElem.mp hmem
  have hlt : i < w.links.length := h.length ▸ hi
  obtain ⟨state, hlink', -⟩ := h.links i _ (List.getElem?_eq_getElem hlt)
  rw [List.getElem?_eq_getElem hi] at hlink'
  rw [Option.some.inj hlink']
  exact (hs _ (List.getElem_mem hlt)).ahead h state

theorem ahead_openLink {r : ImcRouting} {w : Forwarding} {i : ℕ} {link : NextHop}
    (hlink : w.links[i]? = some link) (hopen : link.isopen = false) :
    Ahead w (w.openLink r i link) := by
  unfold openLink
  split_ifs
  · exact Ahead.rfl w
  · refine ⟨rfl, rfl, by simp, fun j l hj => ?_, LogFailed.rfl _⟩
    by_cases hji : i = j
    · subst hji
      obtain rfl := Option.some.inj (hlink.symm.trans hj)
      have hlt := (List.getElem?_eq_some_iff.mp hlink).1
      refine ⟨r.openContact i, by simp [hlt], fun ho => ?_⟩
      simp [NextHop.isopen, ho] at hopen
    · exact ⟨l.state, by simp [List.getElem?_set_ne hji, hj], id⟩

/-- The loop over the routes ends at one whose link can be used, if there was one. -/
theorem tryRoutes_spec {r : ImcRouting} {routes : List RouteEntry} {w : Forwarding} (hs : w.Sound r)
    (hrouted : ∀ route ∈ routes, w.Routed route) : ∃ w' found,
      w.tryRoutes r routes = .ok (w', found) ∧ Ahead w w' ∧
      (found = none → ∀ route ∈ routes, ∀ i, route.hop = .link i → ¬ Usable r w i) ∧
      ∀ i, found = some i → ∃ route ∈ routes, route.hop = .link i ∧
        ∃ w₁, Ahead w w₁ ∧ Usable r w₁ i := by
  induction routes generalizing w with
  | nil => exact ⟨w, none, rfl, Ahead.rfl w, by simp, by simp⟩
  | cons route routes ih =>
    obtain ⟨i, hhop, hi⟩ := hrouted route List.mem_cons_self
    have hlink := List.getElem?_eq_getElem hi
    generalize w.links[i] = link at hlink
    have ht := hs link (List.mem_of_getElem? hlink)
    obtain ⟨fwd, isQueued, w₁, hcheck, hahead, hlinks, hallowed⟩ := shouldFwdImc_spec ht
    -- the loop goes on from a later state, and this route was of no use
    have hnext : ∀ w₂, Ahead w w₂ → ¬ Usable r w i → ∃ w' found,
        w₂.tryRoutes r routes = .ok (w', found) ∧ Ahead w w' ∧
        (found = none → ∀ x ∈ route :: routes, ∀ j, x.hop = .link j → ¬ Usable r w j) ∧
        ∀ j, found = some j → ∃ x ∈ route :: routes, x.hop = .link j ∧
          ∃ w₁, Ahead w w₁ ∧ Usable r w₁ j := by
      intro w₂ h₂ hno
      have hrest : ∀ x ∈ routes, w₂.Routed x := by
        intro x hx
        obtain ⟨j, hj, hlt⟩ := hrouted x (List.mem_cons_of_mem route hx)
        exact ⟨j, hj, h₂.length ▸ hlt⟩
      obtain ⟨w', found, hrun, hahead', hnone, hsome⟩ := ih (hs.ahead h₂) hrest
      refine ⟨w', found, hrun, h₂.trans hahead', fun hf x hx j hj hu => ?_, fun j hj => ?_⟩
      · rcases List.mem_cons.mp hx with rfl | hx
        · obtain rfl : i = j := by simpa [hhop] using hj
          exact hno hu
        · exact hnone hf x hx j hj (hu.ahead h₂)
      · obtain ⟨x, hx, hxj, w₃, h₃, hu⟩ := hsome j hj
        exact ⟨x, List.mem_cons_of_mem route hx, hxj, w₃, h₂.trans h₃, hu⟩
    have hlink_eq : ∀ l, w.links[i]? = some l → l = link := fun l hl =>
      Option.some.inj (hl.symm.trans hlink)
    unfold tryRoutes
    simp only [hhop, hlink, hcheck, ok_bind]
    by_cases hfwd : fwd = true
    · by_cases hopen : link.isopen = true
      · by_cases hspace : link.queueHasSpace = true
        · refine ⟨w₁, some i, ?_, hahead, by simp, fun j hj => ?_⟩
          · simp only [hfwd, hopen, hspace, Bool.not_true, Bool.false_eq_true, if_false, if_true]
            rfl
          · obtain rfl := Option.some.inj hj
            exact ⟨route, List.mem_cons_self, hhop, w, Ahead.rfl w, link, hlink, hopen, hspace,
              hallowed.mp hfwd⟩
        · have hno : ¬ Usable r w i := by
            rintro ⟨l, hl, -, hsp, -⟩
            exact hspace (hlink_eq l hl ▸ hsp)
          simpa only [hfwd, hopen, hspace, Bool.not_true, Bool.not_false, Bool.false_eq_true,
            if_false, if_true] using hnext w₁ hahead hno
      · have hno : ¬ Usable r w i := by
          rintro ⟨l, hl, ho, -, -⟩
          exact hopen (hlink_eq l hl ▸ ho)
        have hclosed : link.isopen = false := by simpa using hopen
        simp only [hfwd, hclosed, Bool.not_true, Bool.false_eq_true, if_false]
        split_ifs
        · exact hnext _ (hahead.trans (ahead_openLink (hlinks.symm ▸ hlink) hclosed)) hno
        · exact hnext w₁ hahead hno
    · have hno : ¬ Usable r w i := by
        rintro ⟨l, hl, -, -, ha⟩
        exact hfwd (hallowed.mpr (hlink_eq l hl ▸ ha))
      have hf : fwd = false := by simpa using hfwd
      simpa only [hf, Bool.not_false, if_true] using hnext w₁ hahead hno

end Forwarding

/-! ## The routers in the order in which they are looked at -/

open Forwarding

/-- Look at the routers one after another: what was looked at, and the router and the link that are
used. -/
def scan (r : ImcRouting) : Forwarding → List ℕ →
    Except Fault (Forwarding × List ℕ × Option (ℕ × ℕ))
  | w, [] => .ok (w, [], none)
  | w, node :: rest => do
    let (w, found) ← w.tryRoutes r (routesTo r node)
    match found with
    | some i => pure (w, [node], some (node, i))
    | none => do
      let (w, examined, found) ← scan r w rest
      pure (w, node :: examined, found)

/-- The first router in the order that has a link for the bundle, and the link. -/
inductive Uses (r : ImcRouting) : Forwarding → List ℕ → ℕ → ℕ → Prop
  | here {w w' : Forwarding} {node i : ℕ} {rest : List ℕ}
      (found : w.tryRoutes r (routesTo r node) = .ok (w', some i)) : Uses r w (node :: rest) node i
  | later {w w' : Forwarding} {first node i : ℕ} {rest : List ℕ}
      (useless : w.tryRoutes r (routesTo r first) = .ok (w', none)) (uses : Uses r w' rest node i) :
      Uses r w (first :: rest) node i

/-- Some route to the router leads to a link for the bundle. -/
def HasLink (r : ImcRouting) (w : Forwarding) (node : ℕ) : Prop :=
  ∃ route ∈ routesTo r node, ∃ i, route.hop = .link i ∧ w.Usable r i

/-- What the loop over the routers comes to. -/
structure Scanned (r : ImcRouting) (w : Forwarding) (order examined : List ℕ)
    (found : Option (ℕ × ℕ)) : Prop where
  examined_le : examined <+: order
  uses : ∀ node i, found = some (node, i) ↔ Uses r w order node i
  all : found = none → examined = order ∧ ∀ node ∈ order, ¬ HasLink r w node
  last : ∀ node i, found = some (node, i) → examined.getLast? = some node ∧
    ∃ route ∈ routesTo r node, route.hop = .link i ∧ ∃ w₁, Ahead w w₁ ∧ w₁.Usable r i

theorem scan_spec {r : ImcRouting} (order : List ℕ) {w : Forwarding} (hs : w.Sound r)
    (hrouted : ∀ node, ∀ route ∈ routesTo r node, w.Routed route) :
    ∃ w' examined found, scan r w order = .ok (w', examined, found) ∧ Ahead w w' ∧
      Scanned r w order examined found := by
  induction order generalizing w with
  | nil =>
    refine ⟨w, [], none, rfl, Ahead.rfl w, List.prefix_refl _, fun node i => ?_, by simp, by simp⟩
    refine iff_of_false (by simp) ?_
    rintro ⟨⟩
  | cons node rest ih =>
    obtain ⟨w₁, found, htry, hahead, hnone, hsome⟩ := tryRoutes_spec hs (hrouted node)
    unfold scan
    rw [htry, ok_bind]
    cases found with
    | some i =>
      refine ⟨w₁, [node], some (node, i), rfl, hahead, by simp, fun n j => ?_, by simp, ?_⟩
      · constructor
        · rintro h
          obtain ⟨rfl, rfl⟩ := Prod.mk.inj (Option.some.inj h)
          exact .here htry
        · intro h
          cases h with
          | here h =>
            rw [htry] at h
            obtain ⟨-, h⟩ := Prod.mk.inj (Except.ok.inj h)
            rw [Option.some.inj h]
          | later h _ =>
            rw [htry] at h
            cases h
      · rintro n j h
        obtain ⟨rfl, rfl⟩ := Prod.mk.inj (Option.some.inj h)
        exact ⟨rfl, hsome i rfl⟩
    | none =>
      have hrouted₁ : ∀ node, ∀ route ∈ routesTo r node, w₁.Routed route := by
        intro n route hroute
        obtain ⟨i, hhop, hi⟩ := hrouted n route hroute
        exact ⟨i, hhop, hahead.length ▸ hi⟩
      obtain ⟨w₂, examined, found, hscan, hahead₂, h⟩ := ih (hs.ahead hahead) hrouted₁
      simp only [hscan, ok_bind]
      refine ⟨w₂, node :: examined, found, rfl, hahead.trans hahead₂, ?_, fun n j => ?_,
        fun hf => ⟨?_, ?_⟩, fun n j hf => ?_⟩
      · exact List.prefix_cons_inj node |>.mpr h.examined_le
      · rw [h.uses]
        constructor
        · exact .later htry
        · intro hu
          cases hu with
          | here hfound =>
            rw [htry] at hfound
            cases hfound
          | later hfound hu =>
            rw [htry] at hfound
            obtain ⟨rfl, -⟩ := Prod.mk.inj (Except.ok.inj hfound)
            exact hu
      · rw [(h.all hf).1]
      · intro n hn
        rcases List.mem_cons.mp hn with rfl | hn
        · rintro ⟨route, hroute, i, hhop, hu⟩
          exact hnone rfl route hroute i hhop hu
        · rintro ⟨route, hroute, i, hhop, hu⟩
          exact (h.all hf).2 n hn ⟨route, hroute, i, hhop, hu.ahead hahead⟩
      · obtain ⟨hlast, route, hroute, hhop, w₃, h₃, hu⟩ := h.last n j hf
        refine ⟨?_, route, hroute, hhop, w₃, hahead.trans h₃, hu⟩
        rw [List.getLast?_cons, hlast]
        rfl

/-! ## The loop -/

namespace Search

/-- What is left of a search. -/
def outcome (s : Search) : Forwarding × ImcState × List ℕ × List ℕ :=
  (s.world, s.imc, s.queuedOn, s.examined)

/-- The list of the link that is used. -/
def copied (world : Forwarding) (imc : ImcState) : Option (ℕ × ℕ) → ImcState
  | none => imc
  | some (node, i) => copyOrigNodes imc ((world.links[i]?.map NextHop.name).getD "") node

/-- What is left when the routers that were not looked at yet have been scanned. -/
def after (s : Search) (x : Forwarding × List ℕ × Option (ℕ × ℕ)) :
    Forwarding × ImcState × List ℕ × List ℕ :=
  (x.1, copied x.1 s.imc x.2.2, s.queuedOn ++ (x.2.2.map Prod.snd).toList, s.examined ++ x.2.1)

/-- The iterator stands before the routers that are left, in the map or around its end. -/
def Left (all : List ℕ) (start : ℕ) (s : Search) (order : List ℕ) : Prop :=
  (s.iter ≠ [] ∧ order = s.iter ++ all.take start) ∨ s.iter = order ++ all.drop start

theorem loop_of_ended {r : ImcRouting} {all : List ℕ} {start fuel : ℕ} {s : Search}
    (h : (s.stopped || s.foundOpenLink) = true) : loop r all start (fuel + 1) s = .ok s := by
  rw [loop, if_pos h]

theorem moveOn_outcome (all rest : List ℕ) (s : Search) :
    (s.moveOn all rest).outcome = s.outcome := by
  unfold moveOn
  split_ifs <;> rfl

/-- The iterator moves on and around. -/
theorem Left.tail {all left : List ℕ} {start node : ℕ} {s t : Search} {rest : List ℕ} {next : ℕ}
    (hleft : s.Left all start (node :: next :: left)) (hiter : s.iter = node :: rest)
    (ht : t.iter = if rest = [] then all else rest) : t.Left all start (next :: left) := by
  rcases hleft with ⟨hi, horder⟩ | hi
  · have horder' : next :: left = rest ++ all.take start := by
      rw [hiter] at horder
      exact (List.cons.inj horder).2
    by_cases hrest : rest = []
    · right
      have htake : next :: left = all.take start := by rw [horder', hrest, List.nil_append]
      rw [ht, htake, if_pos hrest, List.take_append_drop]
    · left
      rw [ht, if_neg hrest]
      exact ⟨hrest, horder'⟩
  · right
    have hrest : rest = next :: left ++ all.drop start := by
      rw [hiter] at hi
      exact (List.cons.inj hi).2
    rw [ht, if_neg (by simp [hrest])]
    exact hrest

/-- With enough rounds the loop does what looking at the routers in order does. -/
theorem loop_eq_scan {r : ImcRouting} {all order : List ℕ} {start fuel : ℕ} {s : Search}
    (hleft : s.Left all start order) (hne : order ≠ [])
    (hcount : s.nodesChecked + order.length = all.length) (hindex : ¬ s.workingIndex < start)
    (hfound : s.foundOpenLink = false) (hstopped : s.stopped = false)
    (hfuel : order.length + 1 ≤ fuel) :
    (loop r all start fuel s).map outcome = (scan r s.world order).map s.after := by
  induction order generalizing s fuel with
  | nil => exact absurd rfl hne
  | cons node left ih =>
    obtain ⟨fuel, rfl⟩ : ∃ k, fuel = k + 1 := ⟨fuel - 1, by omega⟩
    obtain ⟨more, rfl⟩ : ∃ k, fuel = k + 1 := ⟨fuel - 1, by simp at hfuel; omega⟩
    obtain ⟨rest, hiter⟩ : ∃ rest, s.iter = node :: rest := by
      rcases hleft with ⟨hi, horder⟩ | hi
      · cases hs : s.iter with
        | nil => exact absurd hs hi
        | cons a rest =>
          rw [hs] at horder
          exact ⟨rest, by rw [(List.cons.inj horder).1]⟩
      · exact ⟨left ++ all.drop start, hi⟩
    have hround : loop r all start (more + 1 + 1) s =
        (s.world.tryRoutes r (routesTo r node)).bind fun x =>
          loop r all start (more + 1) ((s.noteResult node x.1 x.2).moveOn all rest) := by
      rw [loop]
      simp only [hstopped, hfound, Bool.or_self, Bool.false_eq_true, if_false, hiter, round,
        if_neg hindex]
      cases s.world.tryRoutes r (routesTo r node) <;> rfl
    rw [hround, scan]
    cases htry : s.world.tryRoutes r (routesTo r node) with
    | error e => rfl
    | ok x =>
      obtain ⟨w, found⟩ := x
      cases found with
      | some i =>
        have hend : (((s.noteResult node w (some i)).moveOn all rest).stopped ||
            ((s.noteResult node w (some i)).moveOn all rest).foundOpenLink) = true := by
          unfold moveOn
          split_ifs <;> simp [noteResult]
        change (loop r all start (more + 1) _).map outcome = _
        rw [loop_of_ended hend]
        change Except.ok (outcome _) = _
        rw [moveOn_outcome]
        rfl
      | none =>
        have hchecked : (s.noteResult node w none).nodesChecked = s.nodesChecked + 1 := rfl
        cases left with
        | nil =>
          have hall : (s.noteResult node w none).nodesChecked = all.length := by
            simpa [hchecked] using hcount
          change (loop r all start (more + 1) _).map outcome = _
          rw [moveOn, if_pos hall, loop_of_ended (by simp)]
          simp [scan, ok_bind, after, copied, outcome, noteResult, Except.map, Pure.pure, Except.pure]
        | cons next left =>
          have hnotall : (s.noteResult node w none).nodesChecked ≠ all.length := by
            simp only [List.length_cons] at hcount
            omega
          have hmove : (s.noteResult node w none).moveOn all rest =
              { s.noteResult node w none with iter := if rest = [] then all else rest } := by
            rw [moveOn, if_neg hnotall, if_neg (by simp [noteResult, hfound])]
          have hleft' : Left all start
              { s.noteResult node w none with iter := if rest = [] then all else rest }
              (next :: left) := hleft.tail hiter rfl
          have hmore : (next :: left).length + 1 ≤ more + 1 := by
            simp only [List.length_cons] at hfuel ⊢
            omega
          have hloop := ih hleft' (by simp) (by simp only [List.length_cons] at hcount ⊢; omega) hindex
            hfound hstopped hmore
          change (loop r all start (more + 1) _).map outcome = _
          rw [hmove, hloop]
          change _ = Except.map s.after ((scan r w (next :: left)).bind fun x =>
            pure (x.1, node :: x.2.1, x.2.2))
          change Except.map _ (scan r w (next :: left)) = _
          cases scan r w (next :: left) with
          | error e => rfl
          | ok x => simp [Except.map, Except.bind, after, noteResult, Pure.pure, Except.pure]

/-- The rounds before the starting index only move the iterator. -/
theorem loop_skip {r : ImcRouting} {all : List ℕ} {start : ℕ} (hstart : start < all.length) (k fuel : ℕ)
    {s : Search} (hk : s.workingIndex + k = start) (hiter : s.iter = all.drop s.workingIndex)
    (hfound : s.foundOpenLink = false) (hstopped : s.stopped = false) :
    loop r all start (fuel + k) s =
      loop r all start fuel { s with iter := all.drop start, workingIndex := start } := by
  induction k generalizing s with
  | zero =>
    obtain rfl : s.workingIndex = start := hk
    rw [← hiter]
    rfl
  | succ k ih =>
    have hlt : s.workingIndex < all.length := by omega
    have hdrop := List.drop_eq_getElem_cons hlt
    have hround : loop r all start (fuel + k + 1) s = loop r all start (fuel + k)
        { s with iter := all.drop (s.workingIndex + 1), workingIndex := s.workingIndex + 1 } := by
      rw [loop]
      simp only [hstopped, hfound, Bool.or_self, Bool.false_eq_true, if_false, hiter, hdrop, round,
        if_pos (show s.workingIndex < start by omega), ok_bind]
    have hrest := ih (s := { s with
      iter := all.drop (s.workingIndex + 1)
      workingIndex := s.workingIndex + 1 }) (by dsimp only; omega) rfl hfound hstopped
    rw [← Nat.add_assoc, hround, hrest]

end Search

open Search

/-- The order in which the routers are looked at. -/
def orderFrom (alternates : Option NodeMap) (rand : ℕ) : List ℕ :=
  let all := ImcState.keys (alternates.getD .empty)
  all.drop (rand % all.length) ++ all.take (rand % all.length)

/-- The loop returns after so many rounds, with what looking at the routers in order comes to. -/
theorem queueBundleToFirstAlternateOpenLink_eq (r : ImcRouting) (rand : ℕ) (w : Forwarding)
    (imc : ImcState) (alternates : Option NodeMap) {fuel : ℕ}
    (hfuel : 2 * (alternates.getD .empty).size + 1 ≤ fuel) :
    (queueBundleToFirstAlternateOpenLink r rand w imc alternates fuel).map outcome =
      (scan r w (orderFrom alternates rand)).map fun x =>
        (x.1, copied x.1 imc.clearImcLinkLists x.2.2, (x.2.2.map Prod.snd).toList, x.2.1) := by
  have hsize : (ImcState.keys (alternates.getD .empty)).length = (alternates.getD .empty).size := by
    simp [ImcState.keys, OrdMap.size]
  unfold queueBundleToFirstAlternateOpenLink orderFrom
  dsimp only
  rw [← hsize] at hfuel
  generalize ImcState.keys (alternates.getD .empty) = all at hfuel ⊢
  by_cases hall : all = []
  · subst hall
    simp [scan, outcome, copied, Except.map]
  · have hpos : 0 < all.length := List.length_pos_of_ne_nil hall
    have hstart : rand % all.length < all.length := Nat.mod_lt _ hpos
    obtain ⟨more, rfl⟩ : ∃ k, fuel = k + rand % all.length := ⟨fuel - rand % all.length, by omega⟩
    rw [if_neg hall, loop_skip hstart _ _ (by simp) (by simp) rfl rfl]
    have hlen : (all.drop (rand % all.length) ++ all.take (rand % all.length)).length = all.length := by
      simp
      omega
    have hdrop : all.drop (rand % all.length) ≠ [] := by
      rw [Ne, List.drop_eq_nil_iff]
      omega
    have hfuel' : (all.drop (rand % all.length) ++ all.take (rand % all.length)).length + 1 ≤ more := by
      omega
    rw [loop_eq_scan (Or.inl ⟨hdrop, rfl⟩) (by simp [hdrop]) (by simp [hlen]) (by simp) rfl rfl hfuel']
    rfl

/-! ## The list of the link -/

theorem linkMap_addImcDestNodeViaLink (s : ImcState) (linkname : String) (node : ℕ) :
    (s.addImcDestNodeViaLink linkname node).linkMap linkname =
      (s.linkMap linkname).insert node false := by
  have hlinks : (s.addImcDestNodeViaLink linkname node).links =
      s.links.insert linkname ((s.linkMap linkname).insert node false) := rfl
  rw [ImcState.linkMap, hlinks, OrdMap.find?_insert, if_pos rfl]
  rfl

/-- The list is left with the node of the outer iterator, if there is anything to copy. -/
theorem linkMap_copyOrigNodes (s : ImcState) (linkname : String) (node n : ℕ) :
    (((copyOrigNodes s linkname node).linkMap linkname).find? n).isSome ↔
      ((s.linkMap linkname).find? n).isSome ∨ n = node ∧ ∃ k, (s.origDests.find? k).isSome := by
  have hfold : ∀ (l : List (ℕ × Bool)) (s : ImcState),
      (((l.foldl (fun s _ => s.addImcDestNodeViaLink linkname node) s).linkMap linkname).find? n
        ).isSome ↔ ((s.linkMap linkname).find? n).isSome ∨ n = node ∧ l ≠ [] := by
    intro l
    induction l with
    | nil => simp
    | cons e l ih =>
      intro s
      rw [List.foldl_cons, ih, linkMap_addImcDestNodeViaLink, OrdMap.find?_insert]
      by_cases hn : n = node <;> simp [hn]
  unfold copyOrigNodes
  cases hm : s.origDestMap with
  | none => simp [ImcState.origDests, hm]
  | some m =>
    have hany : (∃ k, (m.find? k).isSome) ↔ m.entries ≠ [] := by
      constructor
      · rintro ⟨k, hk⟩ hnil
        obtain ⟨b, hb⟩ := Option.isSome_iff_exists.mp hk
        have hmem := OrdMap.find?_eq_some_iff.mp hb
        simp [hnil] at hmem
      · intro hne
        obtain ⟨⟨k, b⟩, hmem⟩ := List.exists_mem_of_ne_nil _ hne
        exact ⟨k, by simp [OrdMap.find?_eq_some_iff.mpr hmem]⟩
    simp [ImcState.origDests, hm, hfold, hany]

theorem linkMap_clearImcLinkLists (s : ImcState) (linkname : String) :
    s.clearImcLinkLists.linkMap linkname = .empty := by
  unfold ImcState.clearImcLinkLists ImcState.linkMap ImcState.links
  cases s.linkDestMap <;> rfl

theorem origDests_clearImcLinkLists (s : ImcState) :
    s.clearImcLinkLists.origDests = s.origDests := rfl

/-! ## Handing over -/

/-- The routers are looked at one by one, each once at most, to the first with a link for the bundle;
the bundle is queued on that link alone, whose list has the original destinations. -/
structure HandedOver (r : ImcRouting) (rand : ℕ) (w : Forwarding) (imc : ImcState)
    (alternates : Option NodeMap) (out : Search) : Prop where
  examined : out.examined <+: orderFrom alternates rand
  nodup : out.examined.Nodup
  found : (∃ node, ((alternates.getD .empty).find? node).isSome ∧ HasLink r w node) →
    out.queuedOn ≠ []
  unfound : out.queuedOn = [] → out.examined = orderFrom alternates rand
  queued : ∀ i ∈ out.queuedOn, out.queuedOn = [i] ∧ ∃ node, out.examined.getLast? = some node ∧
    ∃ route ∈ routesTo r node, route.hop = .link i ∧ ∃ w₁, Ahead w w₁ ∧ w₁.Usable r i
  list : ∀ i ∈ out.queuedOn, ∀ link, w.links[i]? = some link → ∀ n,
    ((out.imc.linkMap link.name).find? n).isSome ↔ (imc.origDests.find? n).isSome

theorem routed_routesTo {r : ImcRouting} {w : Forwarding} (hsort : ∀ l, (r.sortRoutes l).Perm l)
    (hlinks : ∀ e ∈ r.table.routeTable, ∀ i, e.hop = .link i → i < w.links.length) (node : ℕ) :
    ∀ route ∈ routesTo r node, w.Routed route := by
  intro route hroute
  have hmem := (hsort _).mem_iff.mp hroute
  have hfound : route ∈ [] ∨ r.table.Found none r.table.maxRouteToChain (makeEidIpn node 0) route :=
    ((RouteTable.getMatchingHelper_adds _ (makeEidIpn node 0) {}).mem route).mp hmem
  obtain ⟨j, -, last, -, he, -, i, hhop, -⟩ := hfound.resolve_left List.not_mem_nil
  exact ⟨i, hhop, hlinks route he i hhop⟩

theorem mem_orderFrom {alternates : Option NodeMap} {rand node : ℕ} :
    node ∈ orderFrom alternates rand ↔ ((alternates.getD .empty).find? node).isSome := by
  unfold orderFrom
  dsimp only
  rw [← ImcState.mem_keys, List.mem_append, or_comm, ← List.mem_append, List.take_append_drop]

theorem nodup_orderFrom (alternates : Option NodeMap) (rand : ℕ) :
    (orderFrom alternates rand).Nodup := by
  have hkeys : (ImcState.keys (alternates.getD .empty)).Nodup := by
    unfold ImcState.keys List.Nodup
    rw [List.pairwise_map]
    exact (alternates.getD .empty).sorted.imp fun h => ne_of_lt h
  unfold orderFrom
  dsimp only
  rw [List.nodup_append_comm, List.take_append_drop]
  exact hkeys

/-- The bundle is handed over as a whole if and only if it has no original destination but the router
whose link is used. -/
theorem handed_over_iff {r : ImcRouting} {rand : ℕ} {w : Forwarding} {imc : ImcState}
    {alternates : Option NodeMap} (hsort : ∀ l, (r.sortRoutes l).Perm l)
    (hlinks : ∀ e ∈ r.table.routeTable, ∀ i, e.hop = .link i → i < w.links.length)
    (hsound : w.Sound r) :
    (∀ fuel, 2 * (alternates.getD .empty).size + 1 ≤ fuel → ∃ out,
      queueBundleToFirstAlternateOpenLink r rand w imc alternates fuel = .ok out ∧
        HandedOver r rand w imc alternates out) ↔
      ∀ node i, Uses r w (orderFrom alternates rand) node i →
        ∀ n, (imc.origDests.find? n).isSome → n = node := by
  obtain ⟨w', examined, found, hscan, hahead, h⟩ := scan_spec (orderFrom alternates rand) hsound
    (routed_routesTo hsort hlinks)
  have hrun : ∀ fuel, 2 * (alternates.getD .empty).size + 1 ≤ fuel → ∃ out,
      queueBundleToFirstAlternateOpenLink r rand w imc alternates fuel = .ok out ∧
        out.imc = copied w' imc.clearImcLinkLists found ∧
        out.queuedOn = (found.map Prod.snd).toList ∧ out.examined = examined := by
    intro fuel hfuel
    have heq := queueBundleToFirstAlternateOpenLink_eq r rand w imc alternates hfuel
    rw [hscan] at heq
    cases hout : queueBundleToFirstAlternateOpenLink r rand w imc alternates fuel with
    | error e => simp [hout, Except.map] at heq
    | ok out =>
      simp only [hout, Except.map, Except.ok.injEq, outcome, Prod.mk.injEq] at heq
      exact ⟨out, rfl, heq.2.1, heq.2.2.1, heq.2.2.2⟩
  -- what the list of the link that is used has on it
  have hlist : ∀ node i, found = some (node, i) → ∀ link, w.links[i]? = some link → ∀ n,
      (((copied w' imc.clearImcLinkLists found).linkMap link.name).find? n).isSome ↔
        n = node ∧ ∃ k, (imc.origDests.find? k).isSome := by
    rintro node i rfl link hlink n
    obtain ⟨state, hlink', -⟩ := hahead.links i link hlink
    simp only [copied, hlink', Option.map_some, Option.getD_some]
    rw [linkMap_copyOrigNodes, linkMap_clearImcLinkLists, origDests_clearImcLinkLists]
    simp
  constructor
  · intro hover node i hu n hn
    obtain ⟨out, hout, hh⟩ := hover _ le_rfl
    obtain ⟨out', hout', himc, hqueued, -⟩ := hrun _ le_rfl
    obtain rfl := Except.ok.inj (hout.symm.trans hout')
    have hf := (h.uses node i).mpr hu
    obtain ⟨-, route, hroute, hhop, -⟩ := h.last node i hf
    obtain ⟨i', hi', hlt⟩ := routed_routesTo hsort hlinks node route hroute
    obtain rfl : i' = i := by simpa [hhop] using hi'.symm
    have hlink := List.getElem?_eq_getElem hlt
    have hmem : i' ∈ out.queuedOn := by simp [hqueued, hf]
    have hn' := (hh.list i' hmem _ hlink n).mpr hn
    rw [himc] at hn'
    exact ((hlist node i' hf _ hlink n).mp hn').1
  · intro hcond fuel hfuel
    obtain ⟨out, hout, himc, hqueued, hexamined⟩ := hrun fuel hfuel
    refine ⟨out, hout, ?_, ?_, ?_, ?_, ?_, ?_⟩
    · rw [hexamined]
      exact h.examined_le
    · rw [hexamined]
      exact (nodup_orderFrom alternates rand).sublist h.examined_le.sublist
    · rintro ⟨node, hnode, huse⟩ hnil
      cases hf : found with
      | none => exact (h.all hf).2 node (mem_orderFrom.mpr hnode) huse
      | some x => simp [hqueued, hf] at hnil
    · intro hnil
      cases hf : found with
      | none => rw [hexamined, (h.all hf).1]
      | some x => simp [hqueued, hf] at hnil
    · intro i hi
      cases hf : found with
      | none => simp [hqueued, hf] at hi
      | some x =>
        obtain ⟨node, j⟩ := x
        obtain rfl : i = j := by simpa [hqueued, hf] using hi
        refine ⟨by simp [hqueued, hf], node, ?_⟩
        rw [hexamined]
        exact h.last node i hf
    · intro i hi link hlink n
      cases hf : found with
      | none => simp [hqueued, hf] at hi
      | some x =>
        obtain ⟨node, j⟩ := x
        obtain rfl : i = j := by simpa [hqueued, hf] using hi
        rw [himc, hlist node i hf link hlink n]
        have hn := hcond node i ((h.uses node i).mp hf)
        constructor
        · rintro ⟨rfl, k, hk⟩
          exact hn k hk ▸ hk
        · intro hmem
          exact ⟨hn n hmem, n, hmem⟩

section Example

/-- A route to node 10 over an open link. -/
def toTen : ImcRouting where
  table := {
    names := { parse := splitUri, parsePattern := splitUri, portNum := fun _ => 0 }
    routeTable := [⟨1, ⟨text "ipn:10.*"⟩, .link 0, 0⟩] }
  sortRoutes := id
  openContact _ := .opening

def oneOpenLink : Forwarding where
  bundle := 1
  links := [{ name := "link10", remoteEid := makeEidIpn 10 0, state := .opened }]

def routerTen : Option NodeMap := some (OrdMap.empty.insert 10 false)

def forNodes (nodes : List ℕ) : ImcState := nodes.foldl ImcState.addImcOrigDestNode {}

/-- Routes to 10, 20 and 30. The link to 10 is closed, that to 30 is only being opened. -/
def toThree : ImcRouting where
  table := {
    names := { parse := splitUri, parsePattern := splitUri, portNum := fun _ => 0 }
    routeTable := [⟨1, ⟨text "ipn:10.*"⟩, .link 0, 0⟩, ⟨2, ⟨text "ipn:20.*"⟩, .link 1, 0⟩,
      ⟨3, ⟨text "ipn:30.*"⟩, .link 2, 0⟩] }
  sortRoutes := id
  openContact _ := .opening

def threeLinks : Forwarding where
  bundle := 1
  links := [{ name := "link10", remoteEid := makeEidIpn 10 0, state := .unavailable },
    { name := "link20", remoteEid := makeEidIpn 20 0, state := .opened },
    { name := "link30", remoteEid := makeEidIpn 30 0 }]

def threeRouters : Option NodeMap :=
  some (((OrdMap.empty.insert 10 false).insert 20 false).insert 30 false)

/-- The search begins at 30, goes around to 10, and ends at 20. -/
theorem handed_over_iff_twenty : ∃ out,
    queueBundleToFirstAlternateOpenLink toThree 5 threeLinks (forNodes [20]) threeRouters 7 = .ok out ∧
      HandedOver toThree 5 threeLinks (forNodes [20]) threeRouters out := by
  have hlinks : ∀ e ∈ toThree.table.routeTable, ∀ i, e.hop = .link i → i < threeLinks.links.length := by
    simp [toThree, threeLinks]
  have hsound : threeLinks.Sound toThree := fun link _ hp => by cases hp
  have hperm : ∀ l, (toThree.sortRoutes l).Perm l := fun l => List.Perm.refl l
  refine (handed_over_iff hperm hlinks hsound).mpr ?_ 7 le_rfl
  intro node i hu n hn
  have horder : orderFrom threeRouters 5 = [30, 10, 20] := by decide +kernel
  have hscan : (scan toThree threeLinks [30, 10, 20]).map (fun x => x.2) =
      .ok ([30, 10, 20], some (20, 1)) := by decide +kernel
  obtain ⟨w, examined, found, hok, -, h⟩ := scan_spec [30, 10, 20] hsound
    (routed_routesTo hperm hlinks)
  rw [hok] at hscan
  obtain ⟨-, rfl⟩ := Prod.mk.inj (Except.ok.inj hscan)
  rw [horder, ← h.uses] at hu
  obtain ⟨rfl, -⟩ := Prod.mk.inj (Option.some.inj hu)
  have horig : (forNodes [20]).origDests = OrdMap.empty.insert 20 false := by decide +kernel
  rw [horig, OrdMap.find?_insert] at hn
  by_contra hne
  simp [hne] at hn

/-- Of two original destinations neither comes to the list, but the router does. -/
theorem not_handed_over :
    ¬ ∀ fuel, 3 ≤ fuel → ∃ out,
      queueBundleToFirstAlternateOpenLink toTen 5 oneOpenLink (forNodes [20, 30]) routerTen fuel =
          .ok out ∧ HandedOver toTen 5 oneOpenLink (forNodes [20, 30]) routerTen out := by
  intro h
  obtain ⟨out, hout, hh⟩ := h 3 le_rfl
  have hrun : ∃ out, queueBundleToFirstAlternateOpenLink toTen 5 oneOpenLink (forNodes [20, 30])
      routerTen 3 = .ok out ∧ out.queuedOn = [0] ∧ ((out.imc.linkMap "link10").find? 20).isSome = false ∧
        ((out.imc.linkMap "link10").find? 10).isSome = true := by decide +kernel
  obtain ⟨out', hout', hqueued, h20, -⟩ := hrun
  obtain rfl := Except.ok.inj (hout.symm.trans hout')
  have hlist := (hh.list 0 (by simp [hqueued]) _ rfl 20).mpr (by decide +kernel)
  exact absurd hlist (by simpa using h20)

end Example

end Dtnme.Routing
