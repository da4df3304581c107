import Dtnme.Imc.Config
import Dtnme.Library.Transition
import Dtnme.Naming.EndpointId

/-! # Groups that the node itself has joined

A node is a member of a group for its registrations there and for joins by hand. Both are counted by
`local_imc_group_joins_`. The joins by hand are also kept in a map, under texts that are made of them.
-/

namespace Dtnme.Imc
open Library Bundling Naming

/-! ## The map of manual joins -/

/-- What the format for a deletion has behind the service number. -/
def joinEnd : Bool → List UInt8
  | true => text "s"
  | false => []

/-- The text a record is kept under. -/
def joinText (key : JoinKey) : List UInt8 :=
  (makeEidImc (ofLex key).1 (ofLex (ofLex key).2).1).key ++ joinEnd (ofLex (ofLex key).2).2

def joinKey (group service : ℕ) (unjoin : Bool) : JoinKey := toLex (group, toLex (service, unjoin))

def addJoin (group : ℕ) : Change := { recType := .manualJoin, num := group, operation := .add }

def delJoin (group : ℕ) : Change := { recType := .manualJoin, num := group, operation := .remove }

namespace ImcConfig

/-- The record is found under the text that was made of the endpoint. -/
def changeManualJoin (c : ImcConfig) (change : Change) (unjoin dbUpdate : Bool) (service : ℕ) :
    ImcConfig :=
  let key := joinKey change.num service unjoin
  let (r, store, _) :=
    change.apply (c.saves dbUpdate) (c.manualJoinsMap.find? key) service c.store
  { c with manualJoinsMap := c.manualJoinsMap.insert key r, store }

def addToLocalGroupJoinsCount (c : ImcConfig) (group : ℕ) : Except Fault ImcConfig :=
  if 0 < group then do
    let joins := c.localImcGroupJoins.insert group ((c.localImcGroupJoins.find? group).getD 0 + 1)
    let (c, _) ← { c with localImcGroupJoins := joins }.addNodeRangeToGroup group
      c.localIpnNodeNum c.localIpnNodeNum false
    pure c
  else pure c

/-- The number of joins that remain comes with it. -/
def subtractFromLocalGroupJoinsCount (c : ImcConfig) (group : ℕ) : Except Fault (ImcConfig × ℕ) :=
  if 0 < group then
    match c.localImcGroupJoins.find? group with
    | some count =>
      let remaining := count - 1
      if remaining = 0 then do
        let c ← { c with localImcGroupJoins := c.localImcGroupJoins.erase group
          }.delNodeRangeFromGroup group c.localIpnNodeNum c.localIpnNodeNum false
        pure (c, remaining)
      else
        pure ({ c with localImcGroupJoins := c.localImcGroupJoins.insert group remaining },
          remaining)
    | none => pure (c, 0)
  else pure (c, 0)

def addManualJoin (c : ImcConfig) (group service : ℕ) (dbUpdate : Bool) :
    Except Fault (ImcConfig × List ImcBundle) :=
  let c := c.changeManualJoin (addJoin group) false dbUpdate service
  if c.imcRouterEnabled && c.imcRouterActive && 0 < group then do
    let c ← c.addToLocalGroupJoinsCount group
    pure (c, c.issueJoins group)
  else pure (c, [])

/-- Here the text ends in a letter that is in the format by mistake. -/
def delManualJoin (c : ImcConfig) (group service : ℕ) (dbUpdate : Bool) :
    Except Fault (ImcConfig × List ImcBundle) :=
  let c := c.changeManualJoin (delJoin group) true dbUpdate service
  if c.imcRouterEnabled && c.imcRouterActive && 0 < group then do
    let (c, remaining) ← c.subtractFromLocalGroupJoinsCount group
    pure (c, if remaining = 0 then c.issueUnjoins group else [])
  else pure (c, [])

/-- The endpoint is given by its text, by which endpoints are compared. -/
def isManuallyJoinedEid (c : ImcConfig) (destEid : List UInt8) : Bool :=
  match c.manualJoinsMap.entries.find? (fun e => joinText e.1 == destEid) with
  | some e => e.2.operation == .add
  | none => false

/-! ### The dump -/

/-- One round of either loop of the dump. The iterator moves on in the branch of joined endpoints
only. -/
def dumpRound {α : Type*} (take : α → JoinKey → α) :
    List (JoinKey × RegionGroupRec) × α → List (JoinKey × RegionGroupRec) × α
  | ([], a) => ([], a)
  | (e :: rest, a) => if e.2.operation == .add then (rest, take a e.1) else (e :: rest, a)

/-- A loop of the dump ends, with this result. -/
def DumpLoop {α : Type*} (c : ImcConfig) (take : α → JoinKey → α) (start result : α) : Prop :=
  ∃ n, (dumpRound take)^[n] (c.manualJoinsMap.entries, start) = ([], result)

/-- `imc_manual_join_dump` ends: the loop that counts does, and the one that lists unless there is
nothing to list. -/
def DumpEnds (c : ImcConfig) : Prop :=
  ∃ ctr, c.DumpLoop (fun n _ => n + 1) 0 ctr ∧
    (ctr ≠ 0 → ∃ lines, c.DumpLoop (fun l key => l ++ [joinText key]) ([] : List (List UInt8)) lines)

end ImcConfig

/-! ## Events -/

inductive JoinEvent
  | registrationAdded (endpoint : Endpoint)
  | registrationRemoved (endpoint : Endpoint)
  | addManualJoin (group service : ℕ)
  | delManualJoin (group service : ℕ)
  deriving DecidableEq, Repr

namespace ImcConfig

def handleRegistrationAdded (c : ImcConfig) (endpoint : Endpoint) :
    Except Fault (ImcConfig × List ImcBundle) :=
  if endpoint.isImcScheme && 0 < endpoint.nodeNum then do
    let c ← c.addToLocalGroupJoinsCount endpoint.nodeNum
    pure (c, c.issueJoins endpoint.nodeNum)
  else pure (c, [])

def handleRegistrationRemoved (c : ImcConfig) (endpoint : Endpoint) :
    Except Fault (ImcConfig × List ImcBundle) :=
  if endpoint.isImcScheme && 0 < endpoint.nodeNum then do
    let (c, remaining) ← c.subtractFromLocalGroupJoinsCount endpoint.nodeNum
    pure (c, if remaining = 0 then c.issueUnjoins endpoint.nodeNum else [])
  else pure (c, [])

/-- The commands save what they change. -/
def handleJoin (c : ImcConfig) : JoinEvent → Except Fault (ImcConfig × List ImcBundle)
  | .registrationAdded endpoint => c.handleRegistrationAdded endpoint
  | .registrationRemoved endpoint => c.handleRegistrationRemoved endpoint
  | .addManualJoin group service => c.addManualJoin group service true
  | .delManualJoin group service => c.delManualJoin group service true

end ImcConfig

/-! ## What the joins are -/

/-- The registrations of each group, the manual joins that are active, and the groups that were left
so far, each time that its last join went. -/
structure Joins where
  registrations : ℕ → ℕ
  manual : Finset (ℕ × ℕ)
  emptied : List ℕ

namespace Joins

/-- The group of a multicast endpoint. Group 0 is that of the routers, which nobody joins. -/
def groupOf (endpoint : Endpoint) : Option ℕ :=
  if endpoint.isImcScheme && 0 < endpoint.nodeNum then some endpoint.nodeNum else none

def number (j : Joins) (group : ℕ) : ℕ :=
  if group = 0 then 0
  else j.registrations group + (j.manual.filter (·.1 = group)).card

/-- Note that the group was left if its last join went. -/
def noteEmptied (j j' : Joins) (group : ℕ) : Joins :=
  if 0 < j.number group ∧ j'.number group = 0 then { j' with emptied := j'.emptied ++ [group] }
  else j'

def step (j : Joins) : JoinEvent → Joins
  | .registrationAdded endpoint =>
    match groupOf endpoint with
    | some g => { j with registrations := Function.update j.registrations g (j.registrations g + 1) }
    | none => j
  | .registrationRemoved endpoint =>
    match groupOf endpoint with
    | some g => j.noteEmptied
        { j with registrations := Function.update j.registrations g (j.registrations g - 1) } g
    | none => j
  | .addManualJoin group service => { j with manual := insert (group, service) j.manual }
  | .delManualJoin group service =>
    j.noteEmptied { j with manual := j.manual.erase (group, service) } group

/-- Only a registration that there is can be removed. -/
def Legal (j : Joins) : JoinEvent → Prop
  | .registrationRemoved endpoint => ∀ g, groupOf endpoint = some g → 0 < j.registrations g
  | _ => True

instance (j : Joins) : DecidablePred j.Legal
  | .registrationAdded _ => isTrue trivial
  | .registrationRemoved endpoint =>
    decidable_of_iff ((groupOf endpoint).all fun g => 0 < j.registrations g) (by
      cases h : groupOf endpoint <;> simp [Legal, h])
  | .addManualJoin _ _ => isTrue trivial
  | .delManualJoin _ _ => isTrue trivial

end Joins

/-- A node, the petitions it has sent, and what joins there are. -/
structure JoinSystem where
  config : ImcConfig
  posted : List ImcBundle
  joins : Joins

/-- A petition to leave a group. -/
def isUnjoin (b : ImcBundle) : Bool :=
  match b.payload with
  | .petition _ joinOrUnjoin => joinOrUnjoin == 0
  | .bp6Petition _ joinOrUnjoin => joinOrUnjoin == 0
  | _ => false

namespace JoinSystem

def step (s : JoinSystem) (e : JoinEvent) : Except Fault JoinSystem := do
  let (config, posted) ← s.config.handleJoin e
  pure ⟨config, s.posted ++ posted, s.joins.step e⟩

/-- The node's view of its joins is right. -/
structure Right (s : JoinSystem) : Prop where
  counts : ∀ g, (s.config.localImcGroupJoins.find? g).getD 0 = s.joins.number g
  member : ∀ g, s.config.groupEntry g s.config.localIpnNodeNum = some .add ↔ 0 < s.joins.number g
  unjoins : s.posted.filter isUnjoin = s.joins.emptied.flatMap s.config.issueUnjoins
  manual : ∀ e, s.config.isManuallyJoinedEid e = true ↔
    ∃ p ∈ s.joins.manual, e = (makeEidImc p.1 p.2).key
  dump : s.config.DumpEnds

/-- The router is enabled and was started. -/
def IsActive (s : JoinSystem) : Prop :=
  s.config.imcRouterEnabled = true ∧ s.config.imcRouterActive = true

/-- Whether an event makes the node a member or ends its membership; such a call does not return for
the largest node number there is. -/
def Moves (s : JoinSystem) : JoinEvent → Prop
  | .registrationAdded endpoint => Joins.groupOf endpoint ≠ none
  | .registrationRemoved endpoint =>
    ∃ g, Joins.groupOf endpoint = some g ∧ s.joins.number g = 1
  | .addManualJoin group _ => 0 < group
  | .delManualJoin group _ => 0 < group

/-- No manual join is deleted, and none of a group is added that is active. -/
def Proper (s : JoinSystem) (e : JoinEvent) : Prop :=
  (s.Moves e → s.config.localIpnNodeNum < 2 ^ 64 - 1) ∧
    match e with
    | .addManualJoin group service => 0 < group → (group, service) ∉ s.joins.manual
    | .delManualJoin _ _ => False
    | _ => True

instance (s : JoinSystem) : DecidablePred s.Moves
  | .registrationAdded endpoint => inferInstanceAs (Decidable (Joins.groupOf endpoint ≠ none))
  | .registrationRemoved endpoint =>
    decidable_of_iff ((Joins.groupOf endpoint).any fun g => s.joins.number g = 1) (by
      cases h : Joins.groupOf endpoint <;> simp [Moves, h])
  | .addManualJoin group _ => inferInstanceAs (Decidable (0 < group))
  | .delManualJoin group _ => inferInstanceAs (Decidable (0 < group))

instance (s : JoinSystem) : DecidablePred s.Proper
  | .registrationAdded _ => inferInstanceAs (Decidable (_ ∧ True))
  | .registrationRemoved _ => inferInstanceAs (Decidable (_ ∧ True))
  | .addManualJoin group service =>
    inferInstanceAs (Decidable (_ ∧ (0 < group → (group, service) ∉ s.joins.manual)))
  | .delManualJoin _ _ => inferInstanceAs (Decidable (_ ∧ False))

end JoinSystem

/-! ## The texts -/

theorem joinText_joinKey (group service : ℕ) (unjoin : Bool) :
    joinText (joinKey group service unjoin) =
      text "imc:" ++ (decimal group ++ 46 :: (decimal service ++ joinEnd unjoin)) := by
  have hdot : text "." = [46] := by decide
  simp [joinText, joinKey, makeEidImc, hdot]

theorem decimal_span {n m : ℕ} {xs ys : List UInt8} (hx : ∀ c ∈ xs.head?, isDigit c = false)
    (hy : ∀ c ∈ ys.head?, isDigit c = false) (h : decimal n ++ xs = decimal m ++ ys) :
    n = m ∧ xs = ys := by
  obtain ⟨hd, hrest⟩ := append_inj_of_span (fun _ hc => isDigit_of_mem_decimal hc) hx
    (fun _ hc => isDigit_of_mem_decimal hc) hy h
  exact ⟨decimal_injective hd, hrest⟩

theorem joinEnd_head (b : Bool) : ∀ c ∈ (joinEnd b).head?, isDigit c = false := by
  have hs : text "s" = [115] := by decide
  cases b <;> simp [joinEnd, hs, isDigit]

theorem joinEnd_injective : Function.Injective joinEnd := by
  have hs : text "s" = [115] := by decide
  intro b b' h
  cases b <;> cases b' <;> simp_all [joinEnd]

/-- Different records are kept under different texts. -/
theorem joinText_injective : Function.Injective joinText := by
  rintro ⟨g, v, b⟩ ⟨g', v', b'⟩ h
  have hdot : ∀ l : List UInt8, ∀ c ∈ (46 :: l).head?, isDigit c = false := by
    simp [isDigit]
  have htext := (joinText_joinKey g v b).symm.trans (h.trans (joinText_joinKey g' v' b'))
  obtain ⟨rfl, hrest⟩ := decimal_span (hdot _) (hdot _) (List.append_cancel_left htext)
  obtain ⟨rfl, hlast⟩ := decimal_span (joinEnd_head b) (joinEnd_head b') (List.cons.inj hrest).2
  rw [joinEnd_injective hlast]

namespace ImcConfig

theorem isManuallyJoinedEid_iff (c : ImcConfig) (e : List UInt8) :
    c.isManuallyJoinedEid e = true ↔
      ∃ key r, c.manualJoinsMap.find? key = some r ∧ joinText key = e ∧ r.operation = .add := by
  unfold isManuallyJoinedEid
  cases hfind : c.manualJoinsMap.entries.find? (fun x => joinText x.1 == e) with
  | none =>
    simp only [Bool.false_eq_true, false_iff, not_exists, not_and]
    intro key r hr htext
    have hmem := OrdMap.find?_eq_some_iff.mp hr
    have hne := List.find?_eq_none.mp hfind _ hmem
    simp [htext] at hne
  | some x =>
    obtain ⟨key, r⟩ := x
    have hr := OrdMap.find?_eq_some_iff.mpr (List.mem_of_find?_eq_some hfind)
    have htext : joinText key = e := by simpa using List.find?_some hfind
    simp only [beq_iff_eq]
    constructor
    · intro hop
      exact ⟨key, r, hr, htext, hop⟩
    · rintro ⟨key', r', hr', htext', hop⟩
      have hkey := joinText_injective (htext'.trans htext.symm)
      rw [hkey, hr] at hr'
      rw [Option.some.inj hr']
      exact hop

/-! ## The dump -/

section
variable {α : Type*} (take : α → JoinKey → α)

theorem dumpRound_ends {l : List (JoinKey × RegionGroupRec)} {a : α} :
    (∃ n r, (dumpRound take)^[n] (l, a) = ([], r)) ↔ ∀ e ∈ l, e.2.operation = .add := by
  constructor
  · rintro ⟨n, r, h⟩
    induction n generalizing l a with
    | zero => simp [(Prod.mk.inj h).1]
    | succ n ih =>
      cases l with
      | nil => simp
      | cons e rest =>
        rw [Function.iterate_succ_apply] at h
        by_cases hop : e.2.operation = .add
        · have hround : dumpRound take (e :: rest, a) = (rest, take a e.1) := by
            simp [dumpRound, hop]
          rw [hround] at h
          simpa [hop] using ih h
        · have hround : dumpRound take (e :: rest, a) = (e :: rest, a) := by
            simp [dumpRound, hop]
          rw [hround] at h
          exact ih h
  · intro h
    induction l generalizing a with
    | nil => exact ⟨0, a, rfl⟩
    | cons e rest ih =>
      simp only [List.mem_cons, forall_eq_or_imp] at h
      obtain ⟨n, r, hn⟩ := ih (a := take a e.1) h.2
      refine ⟨n + 1, r, ?_⟩
      have hround : dumpRound take (e :: rest, a) = (rest, take a e.1) := by
        simp [dumpRound, h.1]
      rw [Function.iterate_succ_apply, hround, hn]

end

/-- A record that is not a join is where the dump stays. -/
theorem dumpEnds_iff (c : ImcConfig) :
    c.DumpEnds ↔ ∀ key r, c.manualJoinsMap.find? key = some r → r.operation = .add := by
  have hall : (∀ key r, c.manualJoinsMap.find? key = some r → r.operation = .add) ↔
      ∀ e ∈ c.manualJoinsMap.entries, e.2.operation = .add := by
    simp only [OrdMap.find?_eq_some_iff, Prod.forall]
  rw [hall]
  constructor
  · rintro ⟨ctr, ⟨n, hn⟩, -⟩
    exact (dumpRound_ends _).mp ⟨n, ctr, hn⟩
  · intro h
    obtain ⟨n, ctr, hn⟩ := (dumpRound_ends (fun n _ => n + 1) (a := 0)).mpr h
    obtain ⟨m, lines, hm⟩ :=
      (dumpRound_ends (fun l key => l ++ [joinText key]) (a := ([] : List (List UInt8)))).mpr h
    exact ⟨ctr, ⟨n, hn⟩, fun _ => ⟨lines, m, hm⟩⟩

/-! ## Counting -/

/-- The count of a group was set, the node is a member of it accordingly, and what does not belong to
groups is as before. -/
structure Recount (c c' : ImcConfig) (group count : ℕ) : Prop where
  frame : ∃ joins maps store,
    c' = { c with localImcGroupJoins := joins, mapOfGroupMaps := maps, store }
  counts : ∀ k, (c'.localImcGroupJoins.find? k).getD 0 =
    if k = group then count else (c.localImcGroupJoins.find? k).getD 0
  member : ∀ k, c'.groupEntry k c.localIpnNodeNum = some .add ↔
    if k = group then 0 < count else c.groupEntry k c.localIpnNodeNum = some .add

theorem changeManualJoin_eq (c : ImcConfig) (change : Change) (unjoin dbUpdate : Bool)
    (service : ℕ) : ∃ r store, c.changeManualJoin change unjoin dbUpdate service =
      { c with
        manualJoinsMap := c.manualJoinsMap.insert (joinKey change.num service unjoin) r
        store } ∧ r.operation = change.operation :=
  ⟨_, _, rfl, change.apply_operation ..⟩

theorem find?_getD_insert (m : OrdMap ℕ ℕ) (g n k : ℕ) :
    ((m.insert g n).find? k).getD 0 = if k = g then n else (m.find? k).getD 0 := by
  rw [OrdMap.find?_insert]
  split_ifs <;> rfl

theorem find?_getD_erase (m : OrdMap ℕ ℕ) (g k : ℕ) :
    ((m.erase g).find? k).getD 0 = if k = g then 0 else (m.find? k).getD 0 := by
  rw [OrdMap.find?_erase]
  split_ifs <;> rfl

section
variable {c c' : ImcConfig} {group : ℕ}

theorem addNodeRangeToGroup_eq_ok {posted : List ImcBundle} {start stop : ℕ} {dbUpdate : Bool}
    (h : c.addNodeRangeToGroup group start stop dbUpdate = .ok (c', posted)) :
    ∃ maps store saved, changeRange (addToGroup group) (c.saves dbUpdate) c.mapOfGroupMaps c.store
      start stop = .ok (maps, store, saved) ∧ c' = { c with mapOfGroupMaps := maps, store } := by
  obtain ⟨⟨d, saved⟩, hd, hpure⟩ := of_bind_ok h
  obtain ⟨maps, store, hr, rfl⟩ := changeGroup_eq_ok hd
  exact ⟨maps, store, saved, hr, (Prod.mk.inj (Except.ok.inj hpure)).1.symm⟩

theorem delNodeRangeFromGroup_eq_ok {start stop : ℕ} {dbUpdate : Bool}
    (h : c.delNodeRangeFromGroup group start stop dbUpdate = .ok c') :
    ∃ maps store saved, changeRange (delFromGroup group) (c.saves dbUpdate) c.mapOfGroupMaps c.store
      start stop = .ok (maps, store, saved) ∧ c' = { c with mapOfGroupMaps := maps, store } := by
  obtain ⟨⟨d, saved⟩, hd, hpure⟩ := of_bind_ok h
  obtain ⟨maps, store, hr, rfl⟩ := changeGroup_eq_ok hd
  exact ⟨maps, store, saved, hr, (Except.ok.inj hpure).symm⟩

/-- A change of this node alone. -/
theorem entryIn_changeRange_self {change : Change} {save saved : Bool} {maps maps' : MapOfMaps}
    {store store' : Store} {node : ℕ} (hg : change.num ≠ 0)
    (h : changeRange change save maps store node node = .ok (maps', store', saved)) (k : ℕ) :
    entryIn maps' k node =
      if k = change.num then some change.operation else entryIn maps k node := by
  rw [changeRange_entry h k node]
  simp [hg]

theorem addToLocalGroupJoinsCount_spec (hg : 0 < group)
    (h : c.addToLocalGroupJoinsCount group = .ok c') :
    c.localIpnNodeNum < 2 ^ 64 - 1 ∧
      Recount c c' group ((c.localImcGroupJoins.find? group).getD 0 + 1) := by
  unfold addToLocalGroupJoinsCount at h
  rw [if_pos hg] at h
  obtain ⟨⟨d, posted⟩, hd, hpure⟩ := of_bind_ok h
  obtain ⟨maps, store, saved, hr, rfl⟩ := addNodeRangeToGroup_eq_ok hd
  obtain rfl := Except.ok.inj hpure
  constructor
  · have hok := (changeRange_isOk ..).mp ⟨_, hr⟩
    simpa [addToGroup, hg.ne'] using hok
  · refine ⟨⟨_, _, _, rfl⟩, fun k => find?_getD_insert .., fun k => ?_⟩
    have hentry : entryIn maps k c.localIpnNodeNum =
        if k = group then some .add else entryIn c.mapOfGroupMaps k c.localIpnNodeNum :=
      entryIn_changeRange_self hg.ne' hr k
    unfold groupEntry
    rw [hentry]
    split_ifs <;> simp

theorem addToLocalGroupJoinsCount_isOk (c : ImcConfig) {group : ℕ} (hg : 0 < group)
    (hlocal : c.localIpnNodeNum < 2 ^ 64 - 1) :
    ∃ c', c.addToLocalGroupJoinsCount group = .ok c' := by
  unfold addToLocalGroupJoinsCount addNodeRangeToGroup changeGroup
  simp only [hg, if_true]
  obtain ⟨y, hy⟩ := (changeRange_isOk (addToGroup group) (c.saves false) c.mapOfGroupMaps c.store
    c.localIpnNodeNum c.localIpnNodeNum).mpr (Or.inr (Or.inr hlocal))
  unfold saves at hy ⊢
  rw [hy]
  exact ⟨_, rfl⟩

theorem subtractFromLocalGroupJoinsCount_spec {n remaining : ℕ} (hg : 0 < group)
    (hn : (c.localImcGroupJoins.find? group).getD 0 = n + 1)
    (hmember : c.groupEntry group c.localIpnNodeNum = some .add)
    (h : c.subtractFromLocalGroupJoinsCount group = .ok (c', remaining)) :
    remaining = n ∧ (n = 0 → c.localIpnNodeNum < 2 ^ 64 - 1) ∧ Recount c c' group n := by
  have hfind : c.localImcGroupJoins.find? group = some (n + 1) := by
    cases hf : c.localImcGroupJoins.find? group with
    | none => simp [hf] at hn
    | some m => simpa [hf] using hn
  unfold subtractFromLocalGroupJoinsCount at h
  simp only [hg, hfind, if_true, Nat.add_sub_cancel] at h
  split_ifs at h with hzero
  · obtain ⟨d, hd, hpure⟩ := of_bind_ok h
    obtain ⟨maps, store, saved, hr, rfl⟩ := delNodeRangeFromGroup_eq_ok hd
    obtain ⟨rfl, rfl⟩ := Prod.mk.inj (Except.ok.inj hpure)
    refine ⟨rfl, fun _ => ?_, ⟨_, _, _, rfl⟩, fun k => ?_, fun k => ?_⟩
    · have hok := (changeRange_isOk ..).mp ⟨_, hr⟩
      simpa [delFromGroup, hg.ne'] using hok
    · simp only [find?_getD_erase, hzero]
    · have hentry : entryIn maps k c.localIpnNodeNum =
          if k = group then some .remove else entryIn c.mapOfGroupMaps k c.localIpnNodeNum :=
        entryIn_changeRange_self hg.ne' hr k
      unfold groupEntry
      rw [hentry]
      split_ifs <;> simp [hzero]
  · obtain ⟨rfl, rfl⟩ := Prod.mk.inj (Except.ok.inj h)
    refine ⟨rfl, fun h0 => absurd h0 hzero, ⟨_, _, _, rfl⟩, fun k => find?_getD_insert ..,
      fun k => ?_⟩
    by_cases hk : k = group
    · rw [if_pos hk, hk]
      exact iff_of_true hmember (by omega)
    · rw [if_neg hk]
      exact Iff.rfl

theorem subtractFromLocalGroupJoinsCount_manualJoinsMap {remaining : ℕ}
    (h : c.subtractFromLocalGroupJoinsCount group = .ok (c', remaining)) :
    c'.manualJoinsMap = c.manualJoinsMap := by
  unfold subtractFromLocalGroupJoinsCount at h
  split_ifs at h
  · cases hf : c.localImcGroupJoins.find? group with
    | none =>
      simp only [hf] at h
      rw [← (Prod.mk.inj (Except.ok.inj h)).1]
    | some n =>
      simp only [hf] at h
      split_ifs at h
      · obtain ⟨d, hd, hpure⟩ := of_bind_ok h
        obtain ⟨maps, store, saved, -, rfl⟩ := delNodeRangeFromGroup_eq_ok hd
        rw [← (Prod.mk.inj (Except.ok.inj hpure)).1]
      · rw [← (Prod.mk.inj (Except.ok.inj h)).1]
  · rw [← (Prod.mk.inj (Except.ok.inj h)).1]

theorem subtractFromLocalGroupJoinsCount_isOk (c : ImcConfig) {group n : ℕ} (hg : 0 < group)
    (hn : (c.localImcGroupJoins.find? group).getD 0 = n + 1)
    (hlocal : n = 0 → c.localIpnNodeNum < 2 ^ 64 - 1) :
    ∃ x, c.subtractFromLocalGroupJoinsCount group = .ok x := by
  unfold subtractFromLocalGroupJoinsCount
  cases hf : c.localImcGroupJoins.find? group with
  | none => simp [hf] at hn
  | some m =>
    obtain rfl : m = n + 1 := by simpa [hf] using hn
    simp only [hg, if_true, Nat.add_sub_cancel]
    split_ifs with hzero
    · unfold delNodeRangeFromGroup changeGroup
      obtain ⟨y, hy⟩ := (changeRange_isOk (delFromGroup group) (c.saves false) c.mapOfGroupMaps
        c.store c.localIpnNodeNum c.localIpnNodeNum).mpr (Or.inr (Or.inr (hlocal hzero)))
      unfold saves at hy ⊢
      rw [hy]
      exact ⟨_, rfl⟩
    · exact ⟨_, rfl⟩

end

end ImcConfig

namespace ImcConfig

/-! ## What no event changes -/

section
variable {c c' : ImcConfig} {group : ℕ}

/-- The joins, the members of groups and the store are all that differs. -/
def Framed (c c' : ImcConfig) : Prop :=
  ∃ joins maps manual store, c' = { c with
    localImcGroupJoins := joins, mapOfGroupMaps := maps, manualJoinsMap := manual, store }

theorem addToLocalGroupJoinsCount_frame (h : c.addToLocalGroupJoinsCount group = .ok c') :
    Framed c c' := by
  unfold addToLocalGroupJoinsCount at h
  split_ifs at h
  · obtain ⟨⟨d, posted⟩, hd, hpure⟩ := of_bind_ok h
    obtain ⟨maps, store, saved, -, rfl⟩ := addNodeRangeToGroup_eq_ok hd
    exact ⟨_, _, _, _, (Except.ok.inj hpure).symm⟩
  · exact ⟨_, _, _, _, (Except.ok.inj h).symm⟩

theorem subtractFromLocalGroupJoinsCount_frame {remaining : ℕ}
    (h : c.subtractFromLocalGroupJoinsCount group = .ok (c', remaining)) : Framed c c' := by
  unfold subtractFromLocalGroupJoinsCount at h
  split_ifs at h
  · cases hf : c.localImcGroupJoins.find? group with
    | none =>
      simp only [hf] at h
      exact ⟨_, _, _, _, (Prod.mk.inj (Except.ok.inj h)).1.symm⟩
    | some n =>
      simp only [hf] at h
      split_ifs at h
      · obtain ⟨d, hd, hpure⟩ := of_bind_ok h
        obtain ⟨maps, store, saved, -, rfl⟩ := delNodeRangeFromGroup_eq_ok hd
        exact ⟨_, _, _, _, (Prod.mk.inj (Except.ok.inj hpure)).1.symm⟩
      · exact ⟨_, _, _, _, (Prod.mk.inj (Except.ok.inj h)).1.symm⟩
  · exact ⟨_, _, _, _, (Prod.mk.inj (Except.ok.inj h)).1.symm⟩

theorem changeManualJoin_frame (c : ImcConfig) (change : Change) (unjoin dbUpdate : Bool)
    (service : ℕ) : Framed c (c.changeManualJoin change unjoin dbUpdate service) :=
  ⟨_, _, _, _, rfl⟩

theorem Framed.trans {c d e : ImcConfig} (h : Framed c d) (h' : Framed d e) : Framed c e := by
  obtain ⟨joins, maps, manual, store, rfl⟩ := h
  obtain ⟨joins', maps', manual', store', rfl⟩ := h'
  exact ⟨_, _, _, _, rfl⟩

theorem handleJoin_frame {e : JoinEvent} {posted : List ImcBundle}
    (h : c.handleJoin e = .ok (c', posted)) : Framed c c' := by
  have hrfl : Framed c c := ⟨_, _, _, _, rfl⟩
  cases e with
  | registrationAdded e =>
    unfold handleJoin handleRegistrationAdded at h
    simp only at h
    split_ifs at h
    · obtain ⟨d, hd, hpure⟩ := of_bind_ok h
      exact (Prod.mk.inj (Except.ok.inj hpure)).1 ▸ addToLocalGroupJoinsCount_frame hd
    · exact (Prod.mk.inj (Except.ok.inj h)).1 ▸ hrfl
  | registrationRemoved e =>
    unfold handleJoin handleRegistrationRemoved at h
    simp only at h
    split_ifs at h
    · obtain ⟨⟨d, remaining⟩, hd, hpure⟩ := of_bind_ok h
      exact (Prod.mk.inj (Except.ok.inj hpure)).1 ▸ subtractFromLocalGroupJoinsCount_frame hd
    · exact (Prod.mk.inj (Except.ok.inj h)).1 ▸ hrfl
  | addManualJoin g v =>
    have hchange := c.changeManualJoin_frame (addJoin g) false true v
    unfold handleJoin ImcConfig.addManualJoin at h
    dsimp only at h
    split_ifs at h
    · obtain ⟨d, hd, hpure⟩ := of_bind_ok h
      exact (Prod.mk.inj (Except.ok.inj hpure)).1 ▸
        hchange.trans (addToLocalGroupJoinsCount_frame hd)
    · exact (Prod.mk.inj (Except.ok.inj h)).1 ▸ hchange
  | delManualJoin g v =>
    have hchange := c.changeManualJoin_frame (delJoin g) true true v
    unfold handleJoin ImcConfig.delManualJoin at h
    dsimp only at h
    split_ifs at h
    · obtain ⟨⟨d, remaining⟩, hd, hpure⟩ := of_bind_ok h
      exact (Prod.mk.inj (Except.ok.inj hpure)).1 ▸
        hchange.trans (subtractFromLocalGroupJoinsCount_frame hd)
    · exact (Prod.mk.inj (Except.ok.inj h)).1 ▸ hchange

end

end ImcConfig

/-! ## What an event does to the numbers -/

namespace Joins
variable (j : Joins)

theorem groupOf_eq_some {e : Endpoint} {g : ℕ} :
    groupOf e = some g ↔ (e.isImcScheme && 0 < e.nodeNum) = true ∧ e.nodeNum = g := by
  unfold groupOf
  split_ifs with h <;> simp [h]

theorem number_registrations (g n : ℕ) (hg : 0 < g) (k : ℕ) :
    ({ j with registrations := Function.update j.registrations g n } : Joins).number k =
      if k = g then n + (j.manual.filter (·.1 = g)).card else j.number k := by
  unfold number
  by_cases hk : k = g
  · simp [hk, hg.ne']
  · simp [hk]

theorem number_insert {g v : ℕ} (h : 0 < g → (g, v) ∉ j.manual) (k : ℕ) :
    ({ j with manual := insert (g, v) j.manual } : Joins).number k =
      if k = g ∧ 0 < g then j.number g + 1 else j.number k := by
  unfold number
  by_cases hk : k = g
  · subst hk
    rcases Nat.eq_zero_or_pos k with rfl | hpos
    · simp
    · simp [Finset.filter_insert, hpos, hpos.ne', h hpos]
      omega
  · have hne : ¬ g = k := fun hg => hk hg.symm
    simp [Finset.filter_insert, hk, hne]

@[simp] theorem noteEmptied_number (j' : Joins) (g k : ℕ) :
    (j.noteEmptied j' g).number k = j'.number k := by
  unfold noteEmptied
  split_ifs <;> rfl

@[simp] theorem noteEmptied_manual (j' : Joins) (g : ℕ) :
    (j.noteEmptied j' g).manual = j'.manual := by
  unfold noteEmptied
  split_ifs <;> rfl

end Joins

/-! ## Petitions -/

theorem isUnjoin_issueBp6ImcGroupPetitions {c : ImcConfig} {g joinOrUnjoin : ℕ} {b : ImcBundle}
    (hb : b ∈ c.issueBp6ImcGroupPetitions g joinOrUnjoin) : isUnjoin b = (joinOrUnjoin == 0) := by
  simp only [ImcConfig.issueBp6ImcGroupPetitions, List.mem_flatMap, List.mem_map] at hb
  obtain ⟨m, -, r, -, rfl⟩ := hb
  rfl

theorem isUnjoin_issueJoins (c : ImcConfig) (g : ℕ) : (c.issueJoins g).filter isUnjoin = [] := by
  rw [List.filter_eq_nil_iff]
  intro b hb
  rcases List.mem_append.mp hb with hb | hb
  · split_ifs at hb
    · rw [List.mem_singleton.mp hb]
      exact Bool.false_ne_true
    · cases hb
  · split_ifs at hb
    · simp [isUnjoin_issueBp6ImcGroupPetitions hb]
    · cases hb

theorem isUnjoin_issueUnjoins (c : ImcConfig) (g : ℕ) :
    (c.issueUnjoins g).filter isUnjoin = c.issueUnjoins g := by
  rw [List.filter_eq_self]
  intro b hb
  rcases List.mem_append.mp hb with hb | hb
  · split_ifs at hb
    · rw [List.mem_singleton.mp hb]
      rfl
    · cases hb
  · split_ifs at hb
    · simp [isUnjoin_issueBp6ImcGroupPetitions hb]
    · cases hb

/-! ## One event -/

namespace JoinSystem
open ImcConfig

theorem step_eq_ok {s s' : JoinSystem} {e : JoinEvent} :
    s.step e = .ok s' ↔ ∃ c posted, s.config.handleJoin e = .ok (c, posted) ∧
      s' = ⟨c, s.posted ++ posted, s.joins.step e⟩ := by
  unfold step
  constructor
  · intro h
    obtain ⟨⟨c, posted⟩, hx, hpure⟩ := of_bind_ok h
    exact ⟨c, posted, hx, (Except.ok.inj hpure).symm⟩
  · rintro ⟨c, posted, hx, rfl⟩
    rw [hx]
    rfl

/-- The parts of being right that a change of one group's count leaves to be shown. -/
theorem Right.of_recount {c c' : ImcConfig} {g n : ℕ} {posted : List ImcBundle} {j : Joins}
    (hc : Recount c c' g n) (hn : j.number g = n)
    (hcounts : ∀ k, k ≠ g → (c.localImcGroupJoins.find? k).getD 0 = j.number k)
    (hmember : ∀ k, k ≠ g → (c.groupEntry k c.localIpnNodeNum = some .add ↔ 0 < j.number k))
    (hunjoins : posted.filter isUnjoin = j.emptied.flatMap c.issueUnjoins)
    (hmanual : ∀ e, c.isManuallyJoinedEid e = true ↔
      ∃ p ∈ j.manual, e = (makeEidImc p.1 p.2).key)
    (hdump : c.DumpEnds) : Right ⟨c', posted, j⟩ := by
  obtain ⟨⟨joins, maps, store, rfl⟩, hcount, hentry⟩ := hc
  refine ⟨fun k => ?_, fun k => ?_, hunjoins, hmanual, hdump⟩
  · rw [hcount k]
    split_ifs with hk
    · rw [hk, hn]
    · exact hcounts k hk
  · refine (hentry k).trans ?_
    split_ifs with hk
    · rw [hk, hn]
    · exact hmember k hk

section
variable {s s' : JoinSystem}

/-- What does not concern a group changes nothing. -/
theorem Right.same (hs : s.Right) {j : Joins} (hnumber : ∀ k, j.number k = s.joins.number k)
    (hemptied : j.emptied = s.joins.emptied) {c : ImcConfig}
    (hc : ∃ m store, c = { s.config with manualJoinsMap := m, store })
    (hmanual : ∀ e, c.isManuallyJoinedEid e = true ↔
      ∃ p ∈ j.manual, e = (makeEidImc p.1 p.2).key)
    (hdump : c.DumpEnds) : Right ⟨c, s.posted ++ [], j⟩ := by
  obtain ⟨m, store, rfl⟩ := hc
  refine ⟨fun k => ?_, fun k => ?_, ?_, hmanual, hdump⟩
  · rw [hnumber]
    exact hs.counts k
  · rw [hnumber]
    exact hs.member k
  · rw [List.append_nil, hemptied]
    exact hs.unjoins

theorem registrationAdded_spec (hs : s.Right) {e : Endpoint} {g : ℕ}
    (he : Joins.groupOf e = some g) (h : s.step (.registrationAdded e) = .ok s') :
    s.config.localIpnNodeNum < 2 ^ 64 - 1 ∧ s'.Right := by
  obtain ⟨c, posted, hx, rfl⟩ := step_eq_ok.mp h
  obtain ⟨himc, rfl⟩ := Joins.groupOf_eq_some.mp he
  have hg : 0 < e.nodeNum := by simp_all
  unfold handleJoin handleRegistrationAdded at hx
  simp only [himc, if_true] at hx
  obtain ⟨d, hd, hpure⟩ := of_bind_ok hx
  obtain ⟨rfl, rfl⟩ := Prod.mk.inj (Except.ok.inj hpure)
  obtain ⟨hlocal, hc⟩ := addToLocalGroupJoinsCount_spec hg hd
  have hstep : s.joins.step (.registrationAdded e) = { s.joins with
      registrations := Function.update s.joins.registrations e.nodeNum
        (s.joins.registrations e.nodeNum + 1) } := by
    simp [Joins.step, he]
  have hnumber := s.joins.number_registrations e.nodeNum (s.joins.registrations e.nodeNum + 1) hg
  refine ⟨hlocal, ?_⟩
  rw [hstep]
  apply Right.of_recount hc
  · rw [hnumber, if_pos rfl, hs.counts]
    simp only [Joins.number, hg.ne', if_false]
    omega
  · intro k hk
    rw [hnumber, if_neg hk]
    exact hs.counts k
  · intro k hk
    rw [hnumber, if_neg hk]
    exact hs.member k
  · rw [List.filter_append, isUnjoin_issueJoins, List.append_nil]
    exact hs.unjoins
  · exact hs.manual
  · exact hs.dump

theorem registrationRemoved_spec (hs : s.Right) {e : Endpoint} {g n : ℕ}
    (he : Joins.groupOf e = some g) (hlegal : s.joins.Legal (.registrationRemoved e))
    (hn : s.joins.number g = n + 1) (h : s.step (.registrationRemoved e) = .ok s') :
    (n = 0 → s.config.localIpnNodeNum < 2 ^ 64 - 1) ∧ s'.Right := by
  have hreg := hlegal g he
  obtain ⟨c, posted, hx, rfl⟩ := step_eq_ok.mp h
  obtain ⟨himc, rfl⟩ := Joins.groupOf_eq_some.mp he
  have hg : 0 < e.nodeNum := by simp_all
  unfold handleJoin handleRegistrationRemoved at hx
  simp only [himc, if_true] at hx
  obtain ⟨⟨d, remaining⟩, hd, hpure⟩ := of_bind_ok hx
  obtain ⟨rfl, rfl⟩ := Prod.mk.inj (Except.ok.inj hpure)
  obtain ⟨rfl, hlocal, hc⟩ := subtractFromLocalGroupJoinsCount_spec hg
    ((hs.counts e.nodeNum).trans hn) ((hs.member e.nodeNum).mpr (by omega)) hd
  refine ⟨hlocal, ?_⟩
  have hinner : ∀ k, (s.joins.step (.registrationRemoved e)).number k =
      if k = e.nodeNum then remaining else s.joins.number k := by
    intro k
    have hnumber :=
      s.joins.number_registrations e.nodeNum (s.joins.registrations e.nodeNum - 1) hg k
    simp only [Joins.number, hg.ne', if_false] at hn
    have hcount : s.joins.registrations e.nodeNum - 1 +
        (s.joins.manual.filter (·.1 = e.nodeNum)).card = remaining := by omega
    simpa [Joins.step, he, hcount] using hnumber
  have hemptied : (s.joins.step (.registrationRemoved e)).emptied =
      if remaining = 0 then s.joins.emptied ++ [e.nodeNum] else s.joins.emptied := by
    have hzero := hinner e.nodeNum
    simp only [Joins.step, he, Joins.noteEmptied_number, if_true] at hzero
    simp only [Joins.step, he, Joins.noteEmptied, hzero, hn]
    split_ifs <;> simp_all
  have hunjoin : d.issueUnjoins e.nodeNum = s.config.issueUnjoins e.nodeNum := by
    obtain ⟨joins, maps, store, rfl⟩ := hc.frame
    rfl
  apply Right.of_recount hc
  · rw [hinner, if_pos rfl]
  · intro k hk
    rw [hinner, if_neg hk]
    exact hs.counts k
  · intro k hk
    rw [hinner, if_neg hk]
    exact hs.member k
  · rw [List.filter_append, hs.unjoins, hemptied, hunjoin]
    split_ifs
    · simp [isUnjoin_issueUnjoins]
    · simp
  · simpa [Joins.step, he] using hs.manual
  · exact hs.dump

/-- An endpoint that is added is manually joined. -/
theorem isManuallyJoinedEid_addManualJoin (hs : s.Right) {g v : ℕ} {r : RegionGroupRec}
    (store : Store) (hop : r.operation = .add) (e : List UInt8) :
    ({ s.config with
        manualJoinsMap := s.config.manualJoinsMap.insert (joinKey g v false) r
        store } : ImcConfig).isManuallyJoinedEid e = true ↔
      ∃ p ∈ insert (g, v) s.joins.manual, e = (makeEidImc p.1 p.2).key := by
  have htext : joinText (joinKey g v false) = (makeEidImc g v).key := by
    simp [joinText, joinKey, joinEnd]
  have hold := (s.config.isManuallyJoinedEid_iff e).symm.trans (hs.manual e)
  rw [isManuallyJoinedEid_iff]
  simp only [Finset.mem_insert, exists_eq_or_imp, ← hold, OrdMap.find?_insert]
  constructor
  · rintro ⟨key, r', hr', hkey, hadd⟩
    split_ifs at hr' with hk
    · left
      rw [← hkey, hk, htext]
    · exact Or.inr ⟨key, r', hr', hkey, hadd⟩
  · rintro (rfl | ⟨key, r', hr', hkey, hadd⟩)
    · exact ⟨joinKey g v false, r, if_pos rfl, htext, hop⟩
    · by_cases hk : key = joinKey g v false
      · exact ⟨key, r, if_pos hk, hkey, hop⟩
      · exact ⟨key, r', by rw [if_neg hk]; exact hr', hkey, hadd⟩

theorem dumpEnds_addManualJoin {c : ImcConfig} (hc : c.DumpEnds) (key : JoinKey)
    {r : RegionGroupRec} (store : Store) (hop : r.operation = .add) :
    ({ c with manualJoinsMap := c.manualJoinsMap.insert key r, store } : ImcConfig).DumpEnds := by
  rw [dumpEnds_iff] at hc ⊢
  intro k r' hr'
  simp only [OrdMap.find?_insert] at hr'
  split_ifs at hr'
  · rw [← Option.some.inj hr']
    exact hop
  · exact hc k r' hr'

theorem addManualJoin_spec (hs : s.Right) (henabled : s.config.imcRouterEnabled = true)
    (hactive : s.config.imcRouterActive = true) {g v : ℕ}
    (h : s.step (.addManualJoin g v) = .ok s') :
    (0 < g → s.config.localIpnNodeNum < 2 ^ 64 - 1) ∧
      (s'.Right ↔ (0 < g → (g, v) ∉ s.joins.manual)) := by
  obtain ⟨c, posted, hx, rfl⟩ := step_eq_ok.mp h
  obtain ⟨r, store, hchange, hop⟩ := s.config.changeManualJoin_eq (addJoin g) false true v
  have hmanual := isManuallyJoinedEid_addManualJoin (g := g) (v := v) hs store hop
  have hdump := dumpEnds_addManualJoin hs.dump (joinKey g v false) store hop
  simp only [handleJoin, ImcConfig.addManualJoin, hchange] at hx
  split_ifs at hx with hif
  · have hg : 0 < g := by simp_all
    obtain ⟨d, hd, hpure⟩ := of_bind_ok hx
    obtain ⟨rfl, rfl⟩ := Prod.mk.inj (Except.ok.inj hpure)
    obtain ⟨hlocal, hc⟩ := addToLocalGroupJoinsCount_spec hg hd
    refine ⟨fun _ => hlocal, fun hR _ hmem => ?_, fun hnew => ?_⟩
    · have hcount := hR.counts g
      have hsame : s.joins.step (.addManualJoin g v) = s.joins := by
        simp [Joins.step, hmem]
      rw [hc.counts, if_pos rfl, hsame, ← hs.counts g] at hcount
      exact absurd hcount (Nat.succ_ne_self _)
    · have hnumber := s.joins.number_insert hnew
      apply Right.of_recount hc
      · refine (hnumber g).trans ?_
        rw [if_pos ⟨rfl, hg⟩, ← hs.counts]
      · intro k hk
        refine (hs.counts k).trans ((hnumber k).trans ?_).symm
        simp [hk]
      · intro k hk
        refine (hs.member k).trans ?_
        have hkeep := hnumber k
        simp only [hk, false_and, if_false] at hkeep
        rw [Joins.step, hkeep]
      · rw [List.filter_append, isUnjoin_issueJoins, List.append_nil]
        exact hs.unjoins
      · exact hmanual
      · exact hdump
  · obtain rfl : g = 0 := by simp_all
    obtain ⟨rfl, rfl⟩ := Prod.mk.inj (Except.ok.inj hx)
    refine ⟨fun h0 => absurd h0 (lt_irrefl 0), iff_of_true ?_ fun h0 => absurd h0 (lt_irrefl 0)⟩
    apply Right.same hs ?_ ?_ ⟨_, _, rfl⟩ hmanual hdump
    · intro k
      simp [Joins.step, s.joins.number_insert (g := 0) (v := v) (fun h0 => absurd h0 (lt_irrefl 0)) k]
    · rfl

/-- A record that is left behind ends no dump. -/
theorem not_right_of_delManualJoin {g v : ℕ} (h : s.step (.delManualJoin g v) = .ok s') :
    ¬ s'.Right := by
  obtain ⟨c, posted, hx, rfl⟩ := step_eq_ok.mp h
  obtain ⟨r, store, hchange, hop⟩ := s.config.changeManualJoin_eq (delJoin g) true true v
  have hmap : c.manualJoinsMap = s.config.manualJoinsMap.insert (joinKey g v true) r := by
    simp only [handleJoin, ImcConfig.delManualJoin, hchange] at hx
    split_ifs at hx
    · obtain ⟨⟨d, remaining⟩, hd, hpure⟩ := of_bind_ok hx
      rw [← (Prod.mk.inj (Except.ok.inj hpure)).1]
      exact subtractFromLocalGroupJoinsCount_manualJoinsMap hd
    · rw [← (Prod.mk.inj (Except.ok.inj hx)).1]
      rfl
  intro hR
  have hadd := (dumpEnds_iff _).mp hR.dump (joinKey g v true) r (by simp [hmap])
  rw [hop] at hadd
  cases hadd

/-! ## Runs -/

/-- What does not concern a group changes nothing. -/
theorem step_of_groupOf_eq_none {e : Endpoint} (he : Joins.groupOf e = none) :
    s.step (.registrationAdded e) = .ok s ∧ s.step (.registrationRemoved e) = .ok s := by
  have hno : (e.isImcScheme && 0 < e.nodeNum) = false := by
    unfold Joins.groupOf at he
    simpa using he
  constructor
  · refine step_eq_ok.mpr ⟨s.config, [], ?_, ?_⟩
    · simp [handleJoin, handleRegistrationAdded, hno, Pure.pure, Except.pure]
    · simp [Joins.step, he]
  · refine step_eq_ok.mpr ⟨s.config, [], ?_, ?_⟩
    · simp [handleJoin, handleRegistrationRemoved, hno, Pure.pure, Except.pure]
    · simp [Joins.step, he]

theorem step_isOk (hs : s.Right) {e : JoinEvent} (hlegal : s.joins.Legal e) (hproper : s.Proper e) :
    ∃ s', s.step e = .ok s' := by
  obtain ⟨hlocal, hproper⟩ := hproper
  cases e with
  | registrationAdded e =>
    cases he : Joins.groupOf e with
    | none => exact ⟨s, (step_of_groupOf_eq_none he).1⟩
    | some g =>
      obtain ⟨himc, rfl⟩ := Joins.groupOf_eq_some.mp he
      have hg : 0 < e.nodeNum := by simp_all
      obtain ⟨c, hc⟩ := s.config.addToLocalGroupJoinsCount_isOk hg (hlocal (by simp [Moves, he]))
      refine ⟨_, step_eq_ok.mpr ⟨c, c.issueJoins e.nodeNum, ?_, rfl⟩⟩
      simp only [handleJoin, handleRegistrationAdded, himc, if_true, hc]
      rfl
  | registrationRemoved e =>
    cases he : Joins.groupOf e with
    | none => exact ⟨s, (step_of_groupOf_eq_none he).2⟩
    | some g =>
      have hreg := hlegal g he
      obtain ⟨himc, rfl⟩ := Joins.groupOf_eq_some.mp he
      have hg : 0 < e.nodeNum := by simp_all
      obtain ⟨n, hn⟩ : ∃ n, s.joins.number e.nodeNum = n + 1 := by
        refine ⟨s.joins.number e.nodeNum - 1, ?_⟩
        simp only [Joins.number, hg.ne', if_false]
        omega
      obtain ⟨⟨c, remaining⟩, hc⟩ := s.config.subtractFromLocalGroupJoinsCount_isOk hg
        ((hs.counts _).trans hn) (fun h0 => hlocal ⟨e.nodeNum, he, by omega⟩)
      refine ⟨_, step_eq_ok.mpr
        ⟨c, if remaining = 0 then c.issueUnjoins e.nodeNum else [], ?_, rfl⟩⟩
      simp only [handleJoin, handleRegistrationRemoved, himc, if_true, hc]
      rfl
  | addManualJoin g v =>
    unfold step handleJoin ImcConfig.addManualJoin
    dsimp only
    split_ifs with h
    · have hg : 0 < g := by simp_all
      obtain ⟨c, hc⟩ := (s.config.changeManualJoin (addJoin g) false true v
        ).addToLocalGroupJoinsCount_isOk hg (hlocal hg)
      rw [hc]
      exact ⟨_, rfl⟩
    · exact ⟨_, rfl⟩
  | delManualJoin g v => exact absurd hproper id

theorem right_of_step (hs : s.Right) (hactive : s.IsActive) {e : JoinEvent}
    (hlegal : s.joins.Legal e) (h : s.step e = .ok s') : s'.Right ↔ s.Proper e := by
  cases e with
  | registrationAdded e =>
    cases he : Joins.groupOf e with
    | none =>
      obtain rfl := Except.ok.inj ((step_of_groupOf_eq_none he).1.symm.trans h)
      exact iff_of_true hs ⟨fun hmoves => absurd he hmoves, trivial⟩
    | some g =>
      obtain ⟨hlocal, hR⟩ := registrationAdded_spec hs he h
      exact iff_of_true hR ⟨fun _ => hlocal, trivial⟩
  | registrationRemoved e =>
    cases he : Joins.groupOf e with
    | none =>
      obtain rfl := Except.ok.inj ((step_of_groupOf_eq_none he).2.symm.trans h)
      refine iff_of_true hs ⟨?_, trivial⟩
      rintro ⟨g, hg, -⟩
      rw [he] at hg
      cases hg
    | some g =>
      have hreg := hlegal g he
      obtain ⟨himc, hnode⟩ := Joins.groupOf_eq_some.mp he
      have hg : 0 < g := by simp_all
      obtain ⟨n, hn⟩ : ∃ n, s.joins.number g = n + 1 := by
        refine ⟨s.joins.number g - 1, ?_⟩
        simp only [Joins.number, hg.ne', if_false]
        omega
      obtain ⟨hlocal, hR⟩ := registrationRemoved_spec hs he hlegal hn h
      refine iff_of_true hR ⟨?_, trivial⟩
      rintro ⟨g', hg', hone⟩
      rw [he] at hg'
      obtain rfl := Option.some.inj hg'
      exact hlocal (by omega)
  | addManualJoin g v =>
    obtain ⟨hlocal, hR⟩ := addManualJoin_spec hs hactive.1 hactive.2 h
    exact hR.trans ⟨fun hnew => ⟨hlocal, hnew⟩, fun hp => hp.2⟩
  | delManualJoin g v => exact iff_of_false (not_right_of_delManualJoin h) fun hp => hp.2

end

theorem IsActive.step {s s' : JoinSystem} {e : JoinEvent} (hactive : s.IsActive)
    (h : s.step e = .ok s') : s'.IsActive := by
  obtain ⟨c, posted, hx, rfl⟩ := step_eq_ok.mp h
  obtain ⟨joins, maps, manual, store, rfl⟩ := handleJoin_frame hx
  exact hactive

theorem IsActive.run {s s' : JoinSystem} {l : List JoinEvent} (hactive : s.IsActive)
    (h : run JoinSystem.step s l = .ok s') : s'.IsActive :=
  run_ok_invariant (fun s _ => s.IsActive) (fun _ _ _ _ _ hs hnext => hs.step hnext) hactive h

/-- In a run of events, what the node has is right after each of them if and only if each is a proper
one. -/
theorem joins_match_iff {s : JoinSystem} {l : List JoinEvent} (hs : s.Right) (hactive : s.IsActive)
    (hlegal : Meets step (fun s e => s.joins.Legal e) s l) :
    (∀ n, ∃ s', run step s (l.take n) = .ok s' ∧ s'.Right) ↔ Meets step Proper s l := by
  have hstep : ∀ (s : JoinSystem) e, (s.Right ∧ s.IsActive) → s.joins.Legal e →
      ((∃ s', s.step e = .ok s' ∧ s'.Right ∧ s'.IsActive) ↔ s.Proper e) := by
    rintro s e ⟨hs, hactive⟩ hlegal
    constructor
    · rintro ⟨s', hnext, hR, -⟩
      exact (right_of_step hs hactive hlegal hnext).mp hR
    · intro hproper
      obtain ⟨s', hnext⟩ := step_isOk hs hlegal hproper
      exact ⟨s', hnext, (right_of_step hs hactive hlegal hnext).mpr hproper, hactive.step hnext⟩
  rw [← throughout_iff hstep ⟨hs, hactive⟩ hlegal]
  constructor
  · intro h n
    obtain ⟨s', hrun, hR⟩ := h n
    exact ⟨s', hrun, hR, hactive.run hrun⟩
  · intro h n
    obtain ⟨s', hrun, hR, -⟩ := h n
    exact ⟨s', hrun, hR⟩

/-- A node that has joined nothing. -/
def idle (config : ImcConfig) : JoinSystem := ⟨config, [], ⟨fun _ => 0, ∅, []⟩⟩

theorem right_idle {c : ImcConfig} (hjoins : c.localImcGroupJoins = .empty)
    (hmanual : c.manualJoinsMap = .empty)
    (hmember : ∀ g, c.groupEntry g c.localIpnNodeNum ≠ some .add) : (idle c).Right where
  counts g := by simp [idle, hjoins, Joins.number]
  member g := by
    have hnumber : (idle c).joins.number g = 0 := by simp [idle, Joins.number]
    rw [hnumber]
    exact iff_of_false (hmember g) (lt_irrefl 0)
  unjoins := rfl
  manual e := by
    rw [isManuallyJoinedEid_iff]
    simp [idle, hmanual]
  dump := by
    rw [dumpEnds_iff]
    simp [idle, hmanual]

section Example

def nodeOne : ImcConfig :=
  { localIpnNodeNum := 1, imcRouterEnabled := true, imcRouterActive := true }

theorem right_nodeOne : (idle nodeOne).Right :=
  right_idle rfl rfl fun g => by simp [nodeOne, groupEntry, entryIn, getMap]

/-- A registration comes and goes while a manual join stays. -/
def comeAndGo : List JoinEvent :=
  [.registrationAdded (.imc 7 1), .addManualJoin 7 2, .registrationRemoved (.imc 7 1)]

theorem joins_match_iff_comeAndGo :
    (∀ n, ∃ s', run step (idle nodeOne) (comeAndGo.take n) = .ok s' ∧ s'.Right) ∧
      Meets step Proper (idle nodeOne) comeAndGo := by
  have hproper : Meets step Proper (idle nodeOne) comeAndGo := by decide +kernel
  exact ⟨(joins_match_iff right_nodeOne ⟨rfl, rfl⟩ (by decide +kernel)).mpr hproper, hproper⟩

/-- The endpoint stays joined after the join was deleted, and the dump does not end. -/
theorem deleted_join_stays :
    (∃ s', run step (idle nodeOne) [.addManualJoin 7 1, .delManualJoin 7 1] = .ok s' ∧
      s'.config.isManuallyJoinedEid (makeEidImc 7 1).key = true) ∧
    ¬ ∃ s', run step (idle nodeOne) [.addManualJoin 7 1, .delManualJoin 7 1] = .ok s' ∧
      s'.Right := by
  refine ⟨by decide +kernel, ?_⟩
  rintro ⟨s', hrun, hR⟩
  cases hadd : (idle nodeOne).step (.addManualJoin 7 1) with
  | error e => simp [run, hadd] at hrun
  | ok s₁ =>
    cases hdel : s₁.step (.delManualJoin 7 1) with
    | error e => simp [run, hadd, hdel] at hrun
    | ok s₂ =>
      simp only [run, hadd, hdel, Except.ok.injEq] at hrun
      exact not_right_of_delManualJoin hdel (hrun ▸ hR)

end Example

end JoinSystem

end Dtnme.Imc
