import Dtnme.Library.Chain
import Dtnme.Routing.ForwardingLog
import Dtnme.Routing.Link

/-! # Queueing a bundle on a link

A link can name another one for the bundles of a version, which are queued there instead, or again on
the one that it names. A name is looked up without regard to case, but compared exactly with the
link's own.
-/

namespace Dtnme.Routing
open Library Naming Bundling

inductive Event
  | sendCancelled (bundle : ℕ) (link : ℕ)
  | bundleReceived (bundle : ℕ)
  | deleteRequest (bundle : ℕ)
  deriving DecidableEq, Repr

inductive BpVersion
  | unknown
  | version6
  | version7
  deriving DecidableEq, Repr

/-- The bundle, all links, and what was posted. A link is given by its place. -/
structure Queueing where
  bundle : ℕ
  version : BpVersion
  links : List Link
  fwdlog : ForwardingLog (List UInt8) := []
  redirectMap : List (List UInt8 × List UInt8) := []
  events : List Event := []
  deriving DecidableEq, Repr

/-- The settings of the daemon; whether blocks are prepared for a link, their length, and the fragments that
are made for it. -/
structure Host where
  shuttingDown : Bool := false
  persistentLinks : Bool := false
  clearBundlesWhenOppLinkUnavailable : Bool := false
  prepareBlocks : ℕ → Bool
  generateBlocks : ℕ → ℕ
  proactivelyFragment : ℕ → Option (List ℕ)

namespace Queueing

/-- `find_link`. -/
def findLink (host : Host) (q : Queueing) (name : List UInt8) : Option ℕ :=
  findLinkBy Link.isDeleted (fun link => link.name.map UInt8.toNat) host.shuttingDown q.links
    (name.map UInt8.toNat)

/-- The name that bundles of the version are redirected to. -/
def redirectOf (version : BpVersion) (link : Link) : Option (List UInt8) :=
  match version with
  | .version6 => if link.bp6Redirect ≠ [] ∧ link.name ≠ link.bp6Redirect then some link.bp6Redirect else none
  | .version7 => if link.bp7Redirect ≠ [] ∧ link.name ≠ link.bp7Redirect then some link.bp7Redirect else none
  | .unknown => none

/-- `ForwardingLog::add_entry`. -/
def addEntry (q : Queueing) (link : Link) (state : ForwardingState) : Queueing :=
  { q with fwdlog := q.fwdlog ++ [⟨state, link.name, link.remoteEid⟩] }

def getLatestEntry (host : Host) (q : Queueing) (link : Link) : Except Fault ForwardingState :=
  ForwardingLog.getLatestEntry host.persistentLinks q.fwdlog link.name link.remoteEid

def updateEntry (q : Queueing) (link : Link) (state : ForwardingState) : Except Fault Queueing := do
  let fwdlog ← ForwardingLog.update q.fwdlog link.name link.remoteEid state
  pure { q with fwdlog }

/-- What `queue_bundle` returns: whether the bundle was queued, which it is not if it was fragmented. -/
inductive Outcome
  | refused
  | fragmented
  | accepted
  deriving DecidableEq, Repr

/-- A bundle that is longer than the link takes. -/
def fragmentBundle (host : Host) (q : Queueing) (i : ℕ) (link : Link) : Outcome × Queueing :=
  match host.proactivelyFragment i with
  | none => (.refused, q)
  | some fragments =>
    let q := { q with events := q.events ++ fragments.map Event.bundleReceived }
    let q := q.addEntry link .suppressed
    (.fragmented, { q with events := .deleteRequest q.bundle :: q.events })

/-- The bundle goes to the queue of the link. That it was not added is only logged. -/
def addBundle (host : Host) (q : Queueing) (i : ℕ) (link : Link) : Queueing :=
  let q := q.addEntry link .queued
  let (added, link) := link.addToQueue host.clearBundlesWhenOppLinkUnavailable q.bundle
  if added then { q with links := q.links.set i link }
  else if link.clearsBundles host.clearBundlesWhenOppLinkUnavailable then
    { q with events := q.events ++ [.sendCancelled q.bundle i] }
  else q

/-- An entry from before a restart. -/
def failQueued (q : Queueing) (link : Link) (state : ForwardingState) : Except Fault Queueing :=
  if state = .queued then q.updateEntry link .transmitFailed else .ok q

/-- On a link that does not redirect. -/
def queueHere (host : Host) (q : Queueing) (i : ℕ) (link : Link) : Except Fault (Outcome × Queueing) :=
  if q.bundle ∈ link.queue then .ok (.refused, q)
  else if q.bundle ∈ link.inflight then .ok (.refused, q)
  else if host.prepareBlocks i = false then .ok (.refused, q)
  else if host.generateBlocks i = 0 then .ok (.refused, q)
  else do
    let state ← q.getLatestEntry host link
    if state = .queued ∧ host.persistentLinks then pure (.refused, q)
    else do
      let q ← q.failQueued link state
      if link.mtu ≠ 0 ∧ link.mtu < host.generateBlocks i then pure (q.fragmentBundle host i link)
      else pure (.accepted, q.addBundle host i link)

/-- What `redirect_queued_bundle` writes before it goes on. -/
def redirected (q : Queueing) (link target : Link) : Queueing :=
  { q with redirectMap := (target.name, link.name) :: q.redirectMap }.addEntry link .redirected

/-- `queue_bundle` and `redirect_queued_bundle`. -/
def queueBundle (host : Host) : ℕ → Queueing → ℕ → Except Fault (Outcome × Queueing)
  | 0, _, _ => .error .noReturn
  | fuel + 1, q, i =>
    match q.links[i]? with
    | none => .error .undefined
    | some link =>
      if link.isDeleted then .ok (.refused, q)
      else
        match redirectOf q.version link with
        | none => q.queueHere host i link
        | some name =>
          match q.findLink host name with
          | none => .ok (.refused, q)
          | some j => queueBundle host fuel (q.redirected link (q.links.getD j link)) j

/-! ## The chain of redirects -/

/-- The link that takes the bundle over. -/
def next (host : Host) (q : Queueing) (i : ℕ) : Option ℕ :=
  q.links[i]?.bind fun link =>
    if link.isDeleted then none else (redirectOf q.version link).bind (q.findLink host)

/-- After `n` redirects. -/
def arrived (host : Host) : ℕ → Queueing → ℕ → Queueing
  | 0, q, _ => q
  | n + 1, q, i =>
    match q.links[i]?, next host q i with
    | some link, some j => arrived host n (q.redirected link (q.links.getD j link)) j
    | _, _ => q

section
variable {host : Host} {q q' : Queueing} {i j e n : ℕ} {link : Link} {o : Outcome}

@[simp] theorem redirected_links (target : Link) : (q.redirected link target).links = q.links := rfl

@[simp] theorem redirected_version (target : Link) : (q.redirected link target).version = q.version := rfl

@[simp] theorem redirected_bundle (target : Link) : (q.redirected link target).bundle = q.bundle := rfl

theorem next_lt (h : next host q i = some j) : j < q.links.length := by
  unfold next at h
  rw [Option.bind_eq_some_iff] at h
  obtain ⟨link, -, h⟩ := h
  split_ifs at h
  obtain ⟨name, -, hfind⟩ := Option.bind_eq_some_iff.mp h
  exact findLinkBy_lt hfind

theorem chain_lt (hi : i < q.links.length) : ∀ n, ∀ e ∈ chain (next host q) i n, e < q.links.length := by
  intro n e he
  cases n with
  | zero =>
    rw [chain.zero, Option.mem_some_iff] at he
    exact he ▸ hi
  | succ n =>
    rw [chain.succ] at he
    obtain ⟨m, -, hnext⟩ := Option.bind_eq_some_iff.mp he
    exact next_lt hnext

/-- One round for a link that redirects. -/
theorem queueBundle_next (hnext : next host q i = some j) : ∃ link, q.links[i]? = some link ∧
    (∀ n, arrived host (n + 1) q i = arrived host n (q.redirected link (q.links.getD j link)) j) ∧
    ∀ fuel, queueBundle host (fuel + 1) q i =
      queueBundle host fuel (q.redirected link (q.links.getD j link)) j := by
  have h := hnext
  unfold next at h
  obtain ⟨link, hlink, h⟩ := Option.bind_eq_some_iff.mp h
  split_ifs at h with hdeleted
  obtain ⟨name, hname, hfind⟩ := Option.bind_eq_some_iff.mp h
  refine ⟨link, hlink, fun n => ?_, fun fuel => ?_⟩
  · rw [arrived, hlink, hnext]
  · rw [queueBundle, hlink]
    simp only [if_neg hdeleted, hname, hfind]

/-- The rounds up to a link of the chain. -/
theorem queueBundle_chain (n fuel : ℕ) : ∀ {q : Queueing} {i : ℕ}, chain (next host q) i n = some e →
    queueBundle host (n + fuel) q i = queueBundle host fuel (arrived host n q i) e := by
  induction n with
  | zero =>
    intro q i h
    rw [chain.zero, Option.some.injEq] at h
    rw [Nat.zero_add, arrived, h]
  | succ n ih =>
    intro q i h
    have hsome := chain.isSome_of_le (n := n + 1) (by rw [h]; rfl) (Nat.le_add_left 1 n)
    rw [chain.succ, chain.zero, Option.bind_some] at hsome
    obtain ⟨j, hnext⟩ := Option.isSome_iff_exists.mp hsome
    obtain ⟨link, -, harrived, hround⟩ := queueBundle_next hnext
    rw [chain.of_next hnext] at h
    rw [Nat.add_right_comm, hround, harrived]
    exact ih h

theorem arrived_eq (host : Host) (n : ℕ) : ∀ (q : Queueing) (i : ℕ), (arrived host n q i).links = q.links ∧
    (arrived host n q i).version = q.version ∧ (arrived host n q i).bundle = q.bundle := by
  induction n with
  | zero => exact fun _ _ => ⟨rfl, rfl, rfl⟩
  | succ n ih =>
    intro q i
    rw [arrived]
    split
    · exact ih _ _
    · exact ⟨rfl, rfl, rfl⟩

/-- A chain that comes back has no round that ends. -/
theorem queueBundle_repeat (h : ¬ NoRepeat (next host q) i) (fuel : ℕ) :
    queueBundle host fuel q i = .error .noReturn := by
  obtain ⟨e, he⟩ := Option.isSome_iff_exists.mp (chain.isSome_of_not_noRepeat h fuel)
  have hrounds := queueBundle_chain fuel 0 he
  rw [Nat.add_zero] at hrounds
  rw [hrounds]
  rfl

end

/-! ## The last link of the chain -/

/-- The bundle comes to the queue of the link as far as blocks, log and length go. -/
structure Enqueued (host : Host) (q : Queueing) (i : ℕ) (link : Link) : Prop where
  notQueued : q.bundle ∉ link.queue
  notInflight : q.bundle ∉ link.inflight
  prepared : host.prepareBlocks i = true
  generated : host.generateBlocks i ≠ 0
  latest : ∃ state, q.getLatestEntry host link = .ok state ∧
    (state = .queued → host.persistentLinks = false)
  fits : link.mtu = 0 ∨ host.generateBlocks i ≤ link.mtu

/-- The bundle stands at the end of the queue of the link, and its log ends with an entry for it. -/
structure Added (q q' : Queueing) (i : ℕ) (link : Link) : Prop where
  links_eq : q'.links = q.links.set i { link with
    queue := link.queue ++ [q.bundle]
    bundlesQueued := link.bundlesQueued + 1 }
  fwdlog_eq : q'.fwdlog.getLast? = some ⟨.queued, link.name, link.remoteEid⟩

section
variable {host : Host} {q q' : Queueing} {i : ℕ} {link : Link} {o : Outcome}

theorem updateEntry_ok {state : ForwardingState} (h : q.getLatestEntry host link = .ok state)
    (hne : state ≠ .none) (new : ForwardingState) :
    ∃ log, q.updateEntry link new = .ok { q with fwdlog := log } := by
  obtain ⟨log, hlog⟩ := ForwardingLog.update_ok h hne new
  refine ⟨log, ?_⟩
  rw [updateEntry, hlog]
  rfl

theorem updateEntry_links {new : ForwardingState} (h : q.updateEntry link new = .ok q') :
    q'.links = q.links ∧ q'.bundle = q.bundle := by
  obtain ⟨log, -, h⟩ := of_bind_ok h
  cases h
  exact ⟨rfl, rfl⟩

/-- A bundle that is not on the queue is added, or its transmission is cancelled. -/
theorem addBundle_spec (host : Host) (q : Queueing) (i : ℕ) (link : Link)
    (hqueue : q.bundle ∉ link.queue) :
    if link.clearsBundles host.clearBundlesWhenOppLinkUnavailable then
      (q.addBundle host i link).links = q.links
    else Added q (q.addBundle host i link) i link := by
  unfold addBundle Link.addToQueue
  by_cases hclear : link.clearsBundles host.clearBundlesWhenOppLinkUnavailable = true
  · simp only [if_pos hclear, Bool.false_eq_true, if_false]
    rfl
  · simp only [if_neg hclear]
    rw [if_neg (show (q.addEntry link .queued).bundle ∉ link.queue from hqueue)]
    exact ⟨rfl, List.getLast?_concat⟩

theorem queueHere_enqueued (h : Enqueued host q i link) :
    ∃ q₁ : Queueing, q₁.links = q.links ∧ q₁.bundle = q.bundle ∧
      queueHere host q i link = .ok (.accepted, q₁.addBundle host i link) := by
  obtain ⟨state, hlatest, hpersistent⟩ := h.latest
  have hfits : ¬ (link.mtu ≠ 0 ∧ link.mtu < host.generateBlocks i) := by
    have hor := h.fits
    omega
  unfold queueHere
  rw [if_neg h.notQueued, if_neg h.notInflight, if_neg (by simp [h.prepared]), if_neg h.generated,
    hlatest, ok_bind, if_neg (by rintro ⟨hqueued, hlinks⟩; simp [hpersistent hqueued] at hlinks)]
  by_cases hqueued : state = .queued
  · obtain ⟨log, hupdate⟩ := updateEntry_ok hlatest (by simp [hqueued]) .transmitFailed
    refine ⟨{ q with fwdlog := log }, rfl, rfl, ?_⟩
    rw [failQueued, if_pos hqueued, hupdate, ok_bind, if_neg hfits]
    rfl
  · refine ⟨q, rfl, rfl, ?_⟩
    rw [failQueued, if_neg hqueued, ok_bind, if_neg hfits]
    rfl

theorem fragmentBundle_spec (h : q.fragmentBundle host i link = (o, q')) :
    o ≠ .accepted ∧ (o = .refused → q'.links = q.links) := by
  unfold fragmentBundle at h
  split at h
  · cases h
    exact ⟨by simp, fun _ => rfl⟩
  · cases h
    exact ⟨by simp, fun h => by cases h⟩

theorem queueHere_spec (h : queueHere host q i link = .ok (o, q')) :
    (o = .refused → q'.links = q.links) ∧ (o = .accepted → Enqueued host q i link) := by
  have hrefused : (.ok (Outcome.refused, q) : Except Fault _) = .ok (o, q') →
      (o = .refused → q'.links = q.links) ∧ (o = .accepted → Enqueued host q i link) := by
    intro h
    cases h
    exact ⟨fun _ => rfl, fun h => by cases h⟩
  unfold queueHere at h
  by_cases hqueue : q.bundle ∈ link.queue
  · exact hrefused (by rwa [if_pos hqueue] at h)
  by_cases hinflight : q.bundle ∈ link.inflight
  · exact hrefused (by rwa [if_neg hqueue, if_pos hinflight] at h)
  by_cases hprepared : host.prepareBlocks i = false
  · exact hrefused (by rwa [if_neg hqueue, if_neg hinflight, if_pos hprepared] at h)
  by_cases hgenerated : host.generateBlocks i = 0
  · exact hrefused (by rwa [if_neg hqueue, if_neg hinflight, if_neg hprepared, if_pos hgenerated] at h)
  rw [if_neg hqueue, if_neg hinflight, if_neg hprepared, if_neg hgenerated] at h
  obtain ⟨state, hlatest, h⟩ := of_bind_ok h
  by_cases hpersistent : state = .queued ∧ host.persistentLinks = true
  · exact hrefused (by rwa [if_pos hpersistent] at h)
  rw [if_neg hpersistent] at h
  obtain ⟨q₁, hupdate, h⟩ := of_bind_ok h
  have hlinks : q₁.links = q.links := by
    unfold failQueued at hupdate
    split_ifs at hupdate
    · exact (updateEntry_links hupdate).1
    · cases hupdate
      rfl
  by_cases hmtu : link.mtu ≠ 0 ∧ link.mtu < host.generateBlocks i
  · rw [if_pos hmtu] at h
    obtain ⟨hne, hlinks'⟩ := fragmentBundle_spec (Except.ok.inj h)
    exact ⟨fun ho => (hlinks' ho).trans hlinks, fun ho => absurd ho hne⟩
  · rw [if_neg hmtu] at h
    cases h
    refine ⟨fun ho => (by cases ho), fun _ => ⟨hqueue, hinflight, ?_, hgenerated, ⟨state, hlatest, ?_⟩, ?_⟩⟩
    · simpa using hprepared
    · intro hqueued
      by_contra hlinks
      exact hpersistent ⟨hqueued, by simpa using hlinks⟩
    · omega

theorem bind_ne_noReturn {α β : Type} {x : Except Fault α} {f : α → Except Fault β}
    (hx : x ≠ .error .noReturn) (hf : ∀ a, f a ≠ .error .noReturn) : x >>= f ≠ .error .noReturn := by
  cases x with
  | error e => exact fun h => hx (by rw [Except.error.inj h])
  | ok a => exact hf a

theorem ite_ne_noReturn {α : Type} {c : Prop} [Decidable c] {x y : Except Fault α}
    (hx : x ≠ .error .noReturn) (hy : y ≠ .error .noReturn) : (if c then x else y) ≠ .error .noReturn := by
  split_ifs
  · exact hx
  · exact hy

theorem require_ne_noReturn {c : Prop} [Decidable c] : require c ≠ .error .noReturn := by
  unfold require
  split_ifs <;> simp

theorem queueHere_returns : queueHere host q i link ≠ .error .noReturn := by
  have hlatest : q.getLatestEntry host link ≠ .error .noReturn := by
    unfold getLatestEntry ForwardingLog.getLatestEntry
    split
    · simp
    · split_ifs
      · exact bind_ne_noReturn require_ne_noReturn fun _ => by simp [pure, Except.pure]
      · simp
      · simp
  have hupdate : ∀ state, q.failQueued link state ≠ .error .noReturn := by
    intro state
    unfold failQueued updateEntry ForwardingLog.update
    split_ifs
    · refine bind_ne_noReturn ?_ fun _ => by simp [pure, Except.pure]
      split
      · simp
      · exact bind_ne_noReturn require_ne_noReturn fun _ => by simp [pure, Except.pure]
    · simp
  unfold queueHere
  refine ite_ne_noReturn (by simp) (ite_ne_noReturn (by simp) (ite_ne_noReturn (by simp)
    (ite_ne_noReturn (by simp) (bind_ne_noReturn hlatest fun state => ?_))))
  refine ite_ne_noReturn (by simp [pure, Except.pure]) (bind_ne_noReturn (hupdate state) fun q₁ => ?_)
  exact ite_ne_noReturn (by simp [pure, Except.pure]) (by simp [pure, Except.pure])

/-! ## Termination and exactness -/

/-- The search for a link ends. If the bundle is refused no queue has changed, and if it is queued then at
the end of the queue of the last link of the chain. -/
def Settles (host : Host) (q : Queueing) (i : ℕ) : Prop :=
  ∃ fuel, queueBundle host fuel q i ≠ .error .noReturn ∧
    ∀ o q', queueBundle host fuel q i = .ok (o, q') →
      (o = .refused → q'.links = q.links) ∧
      (o = .accepted → ∃ n e link, chain (next host q) i n = some e ∧ next host q e = none ∧
        q.links[e]? = some link ∧ Added q q' e link)

/-- The bundle comes to a link that cancels it at once. -/
def Cancelled (host : Host) (q : Queueing) (i : ℕ) : Prop :=
  ∃ n e link, chain (next host q) i n = some e ∧ q.links[e]? = some link ∧ link.isDeleted = false ∧
    redirectOf q.version link = none ∧ Enqueued host (arrived host n q i) e link ∧
    link.clearsBundles host.clearBundlesWhenOppLinkUnavailable = true

/-- The last round. -/
theorem queueBundle_last {e : ℕ} (hlink : q.links[e]? = some link) (hnext : next host q e = none) (fuel : ℕ) :
    queueBundle host (fuel + 1) q e =
      if link.isDeleted = false ∧ redirectOf q.version link = none then queueHere host q e link
      else .ok (.refused, q) := by
  unfold next at hnext
  rw [hlink, Option.bind_some] at hnext
  rw [queueBundle, hlink]
  simp only
  by_cases hdeleted : link.isDeleted = true
  · simp [hdeleted]
  · rw [if_neg hdeleted] at hnext ⊢
    cases hname : redirectOf q.version link with
    | none => simp [hdeleted]
    | some name =>
      rw [hname, Option.bind_some] at hnext
      simp [hnext]

theorem next_arrived (n : ℕ) : next host (arrived host n q i) = next host q := by
  obtain ⟨hlinks, hversion, -⟩ := arrived_eq host n q i
  funext j
  unfold next findLink
  rw [hlinks, hversion]

/-- Queueing ends as it should if and only if the chain of redirects does not come back to a link, and its
last link does not cancel the bundle. -/
theorem settles_iff (host : Host) (q : Queueing) (i : ℕ) (hi : i < q.links.length) :
    Settles host q i ↔ NoRepeat (next host q) i ∧ ¬ Cancelled host q i := by
  by_cases hrepeat : NoRepeat (next host q) i
  · have hends := chain.exists_none (Set.finite_Iio q.links.length) (chain_lt hi) hrepeat
    obtain ⟨n, e, hchain, hnext⟩ := chain.exists_last hends
    have helt := chain_lt hi n e hchain
    have hlink : q.links[e]? = some q.links[e] := List.getElem?_eq_getElem helt
    generalize q.links[e] = link at hlink
    obtain ⟨hlinks, hversion, hbundle⟩ := arrived_eq host n q i
    have hround : ∀ fuel, queueBundle host (n + (fuel + 1)) q i =
        if link.isDeleted = false ∧ redirectOf q.version link = none then
          queueHere host (arrived host n q i) e link
        else .ok (.refused, arrived host n q i) := by
      intro fuel
      rw [queueBundle_chain n (fuel + 1) hchain, queueBundle_last (hlinks ▸ hlink)
        (next_arrived (q := q) n ▸ hnext), hversion]
    by_cases hend : link.isDeleted = false ∧ redirectOf q.version link = none
    · have hhere : ∀ fuel, queueBundle host (n + (fuel + 1)) q i =
          queueHere host (arrived host n q i) e link := fun fuel => by rw [hround, if_pos hend]
      by_cases hcancel : Enqueued host (arrived host n q i) e link ∧
          link.clearsBundles host.clearBundlesWhenOppLinkUnavailable = true
      · have hcancelled : Cancelled host q i :=
          ⟨n, e, link, hchain, hlink, hend.1, hend.2, hcancel.1, hcancel.2⟩
        refine ⟨fun hsettles => ?_, fun h => absurd hcancelled h.2⟩
        obtain ⟨fuel, hreturns, hspec⟩ := hsettles
        have hfuel : n < fuel := by
          by_contra hle
          obtain ⟨c, hc⟩ := Option.isSome_iff_exists.mp
            (chain.isSome_of_le (by rw [hchain]; rfl) (Nat.le_of_not_lt hle))
          have hrounds : queueBundle host (fuel + 0) q i = .error .noReturn := queueBundle_chain fuel 0 hc
          exact hreturns hrounds
        obtain ⟨k, rfl⟩ : ∃ k, fuel = n + (k + 1) := ⟨fuel - n - 1, by omega⟩
        obtain ⟨q₁, hlinks₁, hbundle₁, haccepted⟩ := queueHere_enqueued hcancel.1
        rw [hhere] at hspec
        obtain ⟨m, e', link', hchain', hnext', hlink', hadded⟩ := (hspec _ _ haccepted).2 rfl
        obtain ⟨rfl, rfl⟩ := chain.last_unique hchain hnext hchain' hnext'
        obtain rfl := Option.some.inj (hlink.symm.trans hlink')
        have hsame := addBundle_spec host q₁ e link (by rw [hbundle₁]; exact hcancel.1.notQueued)
        rw [if_pos hcancel.2, hlinks₁, hlinks] at hsame
        have hset := hadded.links_eq
        rw [hsame] at hset
        have hqueue := congrArg (fun l => (l[e]?).map Link.queue) hset
        simp only [hlink, List.getElem?_set_self helt, Option.map_some, Option.some.injEq] at hqueue
        simp at hqueue
      · have hnot : ¬ Cancelled host q i := by
          rintro ⟨m, e', link', hchain', hlink', hdeleted, hredirect, henqueued, hclears⟩
          have hnext' : next host q e' = none := by
            unfold next
            simp [hlink', hdeleted, hredirect]
          obtain ⟨rfl, rfl⟩ := chain.last_unique hchain hnext hchain' hnext'
          obtain rfl := Option.some.inj (hlink.symm.trans hlink')
          exact hcancel ⟨henqueued, hclears⟩
        refine ⟨fun _ => ⟨hrepeat, hnot⟩, fun _ => ⟨n + (0 + 1), ?_, fun o q' hout => ?_⟩⟩
        · rw [hhere]
          exact queueHere_returns
        · rw [hhere] at hout
          obtain ⟨hrefused, haccepted⟩ := queueHere_spec hout
          refine ⟨fun ho => (hrefused ho).trans hlinks, fun ho => ?_⟩
          have henqueued := haccepted ho
          obtain ⟨q₁, hlinks₁, hbundle₁, hadd⟩ := queueHere_enqueued henqueued
          rw [hadd] at hout
          obtain ⟨-, rfl⟩ := Prod.mk.inj (Except.ok.inj hout)
          have hadded := addBundle_spec host q₁ e link
            (by rw [hbundle₁]; exact henqueued.notQueued)
          rw [if_neg fun hclears => hcancel ⟨henqueued, hclears⟩] at hadded
          refine ⟨n, e, link, hchain, hnext, hlink, ?_, hadded.fwdlog_eq⟩
          rw [hadded.links_eq, hlinks₁, hbundle₁, hlinks, hbundle]
    · have hnot : ¬ Cancelled host q i := by
        rintro ⟨m, e', link', hchain', hlink', hdeleted, hredirect, -⟩
        have hnext' : next host q e' = none := by
          unfold next
          simp [hlink', hdeleted, hredirect]
        obtain ⟨rfl, rfl⟩ := chain.last_unique hchain hnext hchain' hnext'
        obtain rfl := Option.some.inj (hlink.symm.trans hlink')
        exact hend ⟨hdeleted, hredirect⟩
      refine ⟨fun _ => ⟨hrepeat, hnot⟩, fun _ => ⟨n + (0 + 1), ?_, fun o q' hout => ?_⟩⟩
      · rw [hround, if_neg hend]
        simp
      · rw [hround, if_neg hend] at hout
        cases hout
        exact ⟨fun _ => hlinks, fun ho => by cases ho⟩
  · refine ⟨fun hsettles => ?_, fun h => absurd h.1 hrepeat⟩
    obtain ⟨fuel, hreturns, -⟩ := hsettles
    exact absurd (queueBundle_repeat hrepeat fuel) hreturns

end

/-! ## Some links -/

/-- Blocks are prepared, of 100 bytes, and nothing is fragmented. -/
def plainHost : Host where
  prepareBlocks _ := true
  generateBlocks _ := 100
  proactivelyFragment _ := none

/-- A link by the name of `a` that leaves its bundles to `b`, and one by that name. -/
def twoLinks (bp7Redirect : List UInt8) : Queueing where
  bundle := 1
  version := .version7
  links := [{ name := [0x61], bp7Redirect := [0x62] }, { name := [0x62], bp7Redirect }]

theorem settles_twoLinks : Settles plainHost (twoLinks []) 0 := by
  refine (settles_iff plainHost (twoLinks []) 0 (by decide)).mpr
    ⟨chain.noRepeat_of_none (show chain _ 0 2 = none from rfl), ?_⟩
  rintro ⟨n, e, link, -, hlink, -, -, -, hclears⟩
  have hplain : link.clearsBundles false = false := by
    have hmem := List.mem_of_getElem? hlink
    simp only [twoLinks, List.mem_cons, List.not_mem_nil, or_false] at hmem
    rcases hmem with rfl | rfl <;> rfl
  rw [show plainHost.clearBundlesWhenOppLinkUnavailable = false from rfl, hplain] at hclears
  cases hclears

/-- Two links that redirect to each other. -/
theorem not_settles_cycle : ¬ Settles plainHost (twoLinks [0x61]) 0 := by
  rintro ⟨fuel, hreturns, -⟩
  refine hreturns (queueBundle_repeat (fun hrepeat => ?_) fuel)
  exact hrepeat 0 2 (by norm_num) 0 rfl rfl

end Queueing

end Dtnme.Routing
