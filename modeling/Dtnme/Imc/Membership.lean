import Dtnme.Imc.Control
import Dtnme.Library.LastWrite

/-! # Who is a member of a group

The record of a node in the map of a group holds what the last petition wrote that writes to it.
Leaving writes to the map of the home region and nothing ever takes a node off the map of the outer
regions. A node that joins from outside does not undo what its leaving wrote, and the entry that a
router makes of itself for such a node stays.
-/

namespace Dtnme.Imc
open Library Bundling

/-- A petition, and the region maps in force when it is processed. -/
structure Arrival where
  regions : MapOfMaps
  petition : ImcBundle
  deriving DecidableEq

/-- What a petition asks for. `joinSeen` is a join that this node is on the list of. -/
inductive Asked
  | leave
  | join
  | joinSeen
  deriving DecidableEq, Repr

namespace ImcConfig

def withRegions (c : ImcConfig) (maps : MapOfMaps) : ImcConfig := { c with mapOfRegionMaps := maps }

/-- One petition of a run. -/
def petitionStep (c : ImcConfig) (a : Arrival) : Except Fault ImcConfig := do
  let (c, _) ← (c.withRegions a.regions).processImcGroupPetition a.petition
  pure c

/-- Node, group and kind of a petition that is processed. -/
def ask? (c : ImcConfig) (b : ImcBundle) : Option (ℕ × ℕ × Asked) :=
  if b.source = c.localEidIpn then none
  else
    match b.payload with
    | .petition group joinOrUnjoin =>
      if b.source.nodeNum = 0 ∨ group = 0 then none
      else some (b.source.nodeNum, group,
        if joinOrUnjoin = 0 then .leave
        else if b.imc.imcHasProxyBeenProcessedByNode c.localIpnNodeNum then .joinSeen
        else .join)
    | _ => none

/-- What a petition asks for a node and a group. -/
def asked (c : ImcConfig) (node group : ℕ) (a : Arrival) : Option Asked :=
  match c.ask? a.petition with
  | some (n, g, k) => if node = n ∧ group = g then some k else none
  | none => none

def isHome (c : ImcConfig) (a : Arrival) (node : ℕ) : Bool :=
  (c.withRegions a.regions).isNodeInHomeRegion node

/-- Some node of an outer region joins. -/
def joinsFromOutside (c : ImcConfig) (group : ℕ) (a : Arrival) : Bool :=
  match c.ask? a.petition with
  | some (n, g, .join) => g == group && !c.isHome a n
  | _ => false

/-- What a petition writes to the record of a node in the map of a group. -/
def groupWrite (c : ImcConfig) (node group : ℕ) (a : Arrival) : Option Operation :=
  if c.asked node group a = some .leave then some .remove
  else if c.asked node group a = some .join ∧ c.isHome a node = true then some .add
  else if node = c.localIpnNodeNum ∧ c.isRouting = true ∧ c.joinsFromOutside group a = true then
    some .add
  else none

def outerWrite (c : ImcConfig) (node group : ℕ) (a : Arrival) : Option Operation :=
  if c.asked node group a = some .join ∧ c.isHome a node = false then some .add else none

/-! ## One petition -/

/-- Numbers and roles of the node, which petitions leave alone. -/
def Same (c c' : ImcConfig) : Prop :=
  c'.localIpnNodeNum = c.localIpnNodeNum ∧ c'.homeRegion = c.homeRegion ∧
    c'.isRouting = c.isRouting

theorem Same.rfl {c : ImcConfig} : Same c c := ⟨Eq.refl _, Eq.refl _, Eq.refl _⟩

theorem Same.trans {c d e : ImcConfig} (h : Same c d) (h' : Same d e) : Same c e :=
  ⟨h'.1.trans h.1, h'.2.1.trans h.2.1, h'.2.2.trans h.2.2⟩

theorem Same.ask? {c c' : ImcConfig} (h : Same c c') (b : ImcBundle) : c'.ask? b = c.ask? b := by
  unfold ImcConfig.ask? localEidIpn
  rw [h.1]

theorem Same.isHome {c c' : ImcConfig} (h : Same c c') (a : Arrival) (node : ℕ) :
    c'.isHome a node = c.isHome a node := by
  unfold ImcConfig.isHome isNodeInHomeRegion isNodeInRegion withRegions
  rw [h.2.1]

theorem Same.asked {c c' : ImcConfig} (h : Same c c') (node group : ℕ) (a : Arrival) :
    c'.asked node group a = c.asked node group a := by
  unfold ImcConfig.asked
  rw [h.ask?]

theorem Same.groupWrite {c c' : ImcConfig} (h : Same c c') (node group : ℕ) :
    c'.groupWrite node group = c.groupWrite node group := by
  funext a
  unfold ImcConfig.groupWrite joinsFromOutside
  simp only [h.asked, h.ask?, h.isHome, h.1, h.2.2]

theorem Same.outerWrite {c c' : ImcConfig} (h : Same c c') (node group : ℕ) :
    c'.outerWrite node group = c.outerWrite node group := by
  funext a
  unfold ImcConfig.outerWrite
  simp only [h.asked, h.isHome]

/-- Add one node to a group. -/
def addMember (c : ImcConfig) (group node : ℕ) : Except Fault ImcConfig := do
  let (c, _) ← c.addNodeRangeToGroup group node node false
  pure c

/-- Add one node of an outer region, and this one if it is a router. -/
def addOuterMember (c : ImcConfig) (group node : ℕ) : Except Fault ImcConfig := do
  let c ← c.addNodeRangeToGroupForOuterRegions group node node
  if c.isRouting then c.addMember group c.localIpnNodeNum else pure c

theorem joinFromHomeRegion_map (c : ImcConfig) (group : ℕ) (b : ImcBundle) :
    (do let (c, _) ← c.joinFromHomeRegion group b; pure c : Except Fault ImcConfig) =
      c.addMember group b.source.nodeNum := by
  unfold joinFromHomeRegion addMember
  dsimp only
  cases c.addNodeRangeToGroup group b.source.nodeNum b.source.nodeNum false with
  | error e => rfl
  | ok x => rfl

theorem joinFromOuterRegion_map (c : ImcConfig) (group : ℕ) (b : ImcBundle) :
    (do let (c, _) ← c.joinFromOuterRegion group b; pure c : Except Fault ImcConfig) =
      c.addOuterMember group b.source.nodeNum := by
  unfold joinFromOuterRegion addOuterMember
  dsimp only
  cases c.addNodeRangeToGroupForOuterRegions group b.source.nodeNum b.source.nodeNum with
  | error e => rfl
  | ok c =>
    simp only [Bind.bind, Except.bind]
    cases c.isRouting with
    | false => rfl
    | true =>
      simp only [if_true, addMember]
      cases c.addNodeRangeToGroup group c.localIpnNodeNum c.localIpnNodeNum false with
      | error e => rfl
      | ok x => rfl

/-- What a petition does to the configuration. -/
theorem petitionStep_eq (c : ImcConfig) (a : Arrival) :
    c.petitionStep a =
      match c.ask? a.petition with
      | some (n, g, .leave) => (c.withRegions a.regions).delNodeRangeFromGroup g n n false
      | some (n, g, .join) =>
        if c.isHome a n then (c.withRegions a.regions).addMember g n
        else (c.withRegions a.regions).addOuterMember g n
      | _ => .ok (c.withRegions a.regions) := by
  have hlocal : (c.withRegions a.regions).localEidIpn = c.localEidIpn := rfl
  have hnum : (c.withRegions a.regions).localIpnNodeNum = c.localIpnNodeNum := rfl
  unfold petitionStep processImcGroupPetition ask?
  dsimp only
  rw [hlocal, hnum]
  by_cases hown : a.petition.source = c.localEidIpn
  · simp only [if_pos hown]
    rfl
  · simp only [if_neg hown]
    cases hp : a.petition.payload with
    | petition g f =>
      simp only []
      by_cases hn : a.petition.source.nodeNum = 0
      · simp only [hn, if_true, true_or]
        rfl
      by_cases hg : g = 0
      · simp only [hn, hg, if_true, if_false, or_true]
        rfl
      by_cases hf : f = 0
      · simp only [hn, hg, hf, if_true, if_false, or_false]
        cases (c.withRegions a.regions).delNodeRangeFromGroup g a.petition.source.nodeNum
          a.petition.source.nodeNum false with
        | error e => rfl
        | ok c => rfl
      by_cases hseen : a.petition.imc.imcHasProxyBeenProcessedByNode c.localIpnNodeNum
      · simp only [hn, hg, hf, hseen, if_true, if_false, or_false]
        rfl
      simp only [hn, hg, hf, hseen, if_false, or_false, Bool.false_eq_true]
      have hhome : (c.withRegions a.regions).isNodeInHomeRegion a.petition.source.nodeNum =
        c.isHome a a.petition.source.nodeNum := rfl
      rw [hhome]
      by_cases h : c.isHome a a.petition.source.nodeNum = true
      · simp only [if_pos h, ← joinFromHomeRegion_map]
        cases (c.withRegions a.regions).joinFromHomeRegion g a.petition with
        | error e => rfl
        | ok x => rfl
      · simp only [if_neg h, ← joinFromOuterRegion_map]
        cases (c.withRegions a.regions).joinFromOuterRegion g a.petition with
        | error e => rfl
        | ok x => rfl
    | _ => rfl

/-! ### Where one node is written to -/

theorem addMember_spec {c c' : ImcConfig} {group node : ℕ} (hg : group ≠ 0)
    (h : c.addMember group node = .ok c') :
    Same c c' ∧ c'.mapOfGroupMapsForOuterRegions = c.mapOfGroupMapsForOuterRegions ∧
      ∀ k n, c'.groupEntry k n =
        if k = group ∧ n = node then some .add else c.groupEntry k n := by
  unfold addMember addNodeRangeToGroup at h
  cases hx : c.changeGroup (addToGroup group) false node node with
  | error e => simp [hx, Bind.bind, Except.bind] at h
  | ok x =>
    obtain ⟨d, saved⟩ := x
    simp only [hx, Bind.bind, Except.bind, Pure.pure, Except.pure, Except.ok.injEq] at h
    subst h
    obtain ⟨maps, store, hr, rfl⟩ := changeGroup_eq_ok hx
    refine ⟨Same.rfl, rfl, fun k n => ?_⟩
    have hn : (node ≤ n ∧ n ≤ node) ↔ n = node := by omega
    simpa [groupEntry, hg, hn, addToGroup] using changeRange_entry hr k n

theorem delNodeRangeFromGroup_spec {c c' : ImcConfig} {group node : ℕ} (hg : group ≠ 0)
    (h : c.delNodeRangeFromGroup group node node false = .ok c') :
    Same c c' ∧ c'.mapOfGroupMapsForOuterRegions = c.mapOfGroupMapsForOuterRegions ∧
      ∀ k n, c'.groupEntry k n =
        if k = group ∧ n = node then some .remove else c.groupEntry k n := by
  unfold delNodeRangeFromGroup at h
  cases hx : c.changeGroup (delFromGroup group) false node node with
  | error e => simp [hx, Bind.bind, Except.bind] at h
  | ok x =>
    obtain ⟨d, saved⟩ := x
    simp only [hx, Bind.bind, Except.bind, Pure.pure, Except.pure, Except.ok.injEq] at h
    subst h
    obtain ⟨maps, store, hr, rfl⟩ := changeGroup_eq_ok hx
    refine ⟨Same.rfl, rfl, fun k n => ?_⟩
    have hn : (node ≤ n ∧ n ≤ node) ↔ n = node := by omega
    simpa [groupEntry, hg, hn, delFromGroup] using changeRange_entry hr k n

theorem addNodeRangeToGroupForOuterRegions_spec {c c' : ImcConfig} {group node : ℕ}
    (hg : group ≠ 0) (h : c.addNodeRangeToGroupForOuterRegions group node node = .ok c') :
    Same c c' ∧ c'.mapOfGroupMaps = c.mapOfGroupMaps ∧
      ∀ k n, c'.outerEntry k n =
        if k = group ∧ n = node then some .add else c.outerEntry k n := by
  unfold addNodeRangeToGroupForOuterRegions at h
  obtain ⟨maps, store, saved, hr, rfl⟩ := changeGroupForOuterRegions_eq_ok h
  refine ⟨Same.rfl, rfl, fun k n => ?_⟩
  have hn : (node ≤ n ∧ n ≤ node) ↔ n = node := by omega
  simpa [outerEntry, hg, hn, addToGroup] using changeRange_entry hr k n

theorem addOuterMember_spec {c c' : ImcConfig} {group node : ℕ} (hg : group ≠ 0)
    (h : c.addOuterMember group node = .ok c') :
    Same c c' ∧
      (∀ k n, c'.groupEntry k n =
        if k = group ∧ n = c.localIpnNodeNum ∧ c.isRouting = true then some .add
        else c.groupEntry k n) ∧
      ∀ k n, c'.outerEntry k n =
        if k = group ∧ n = node then some .add else c.outerEntry k n := by
  unfold addOuterMember at h
  cases hx : c.addNodeRangeToGroupForOuterRegions group node node with
  | error e => simp [hx, Bind.bind, Except.bind] at h
  | ok d =>
    obtain ⟨hsame, hmaps, houter⟩ := addNodeRangeToGroupForOuterRegions_spec hg hx
    have hentry : ∀ k n, d.groupEntry k n = c.groupEntry k n := by simp [groupEntry, hmaps]
    simp only [hx, Bind.bind, Except.bind] at h
    rw [hsame.2.2, hsame.1] at h
    by_cases hrouting : c.isRouting = true
    · rw [if_pos hrouting] at h
      obtain ⟨hsame', houter', hentry'⟩ := addMember_spec hg h
      refine ⟨hsame.trans hsame', fun k n => ?_, fun k n => ?_⟩
      · simp [hentry', hentry, hrouting]
      · rw [← houter]
        simp [outerEntry, houter']
    · rw [if_neg hrouting] at h
      cases h
      exact ⟨hsame, by simp [hentry, hrouting], houter⟩

theorem ask?_pos {c : ImcConfig} {b : ImcBundle} {n g : ℕ} {k : Asked}
    (h : c.ask? b = some (n, g, k)) : n ≠ 0 ∧ g ≠ 0 ∧ b.source.nodeNum = n := by
  unfold ask? at h
  rw [ite_eq_iff] at h
  obtain ⟨-, h⟩ | ⟨-, h⟩ := h
  · cases h
  cases hp : b.payload with
  | petition group f =>
    simp only [hp] at h
    rw [ite_eq_iff] at h
    obtain ⟨-, h⟩ | ⟨h0, h⟩ := h
    · cases h
    simp only [Option.some.injEq, Prod.mk.injEq] at h
    obtain ⟨rfl, rfl, -⟩ := h
    exact ⟨fun h => h0 (Or.inl h), fun h => h0 (Or.inr h), rfl⟩
  | _ => simp [hp] at h

/-- A petition writes what its kind says, and nothing else. -/
theorem petitionStep_spec {c c' : ImcConfig} {a : Arrival} (h : c.petitionStep a = .ok c') :
    Same c c' ∧
      (∀ g n, c'.groupEntry g n =
        ((c.groupWrite n g a).map some).getD (c.groupEntry g n)) ∧
      ∀ g n, c'.outerEntry g n =
        ((c.outerWrite n g a).map some).getD (c.outerEntry g n) := by
  rw [petitionStep_eq] at h
  cases hask : c.ask? a.petition with
  | none =>
    simp only [hask] at h
    cases h
    refine ⟨Same.rfl, fun g n => ?_, fun g n => ?_⟩
    · simp [groupWrite, asked, joinsFromOutside, hask]
      rfl
    · simp [outerWrite, asked, hask]
      rfl
  | some x =>
    obtain ⟨m, k, kind⟩ := x
    obtain ⟨-, hk, -⟩ := ask?_pos hask
    have hrouting : (c.withRegions a.regions).isRouting = c.isRouting := rfl
    have hlocal : (c.withRegions a.regions).localIpnNodeNum = c.localIpnNodeNum := rfl
    cases kind with
    | leave =>
      simp only [hask] at h
      obtain ⟨hsame, houter, hentry⟩ := delNodeRangeFromGroup_spec hk h
      refine ⟨Same.rfl.trans hsame, fun g n => ?_, fun g n => ?_⟩
      · rw [hentry]
        by_cases hg : g = k <;> by_cases hn : n = m <;>
          simp [groupWrite, asked, joinsFromOutside, hask, hg, hn, withRegions, groupEntry]
      · simp [outerWrite, asked, hask, outerEntry, houter, withRegions]
    | joinSeen =>
      simp only [hask] at h
      cases h
      refine ⟨Same.rfl, fun g n => ?_, fun g n => ?_⟩
      · simp [groupWrite, asked, joinsFromOutside, hask, withRegions, groupEntry]
      · simp [outerWrite, asked, hask, withRegions, outerEntry]
    | join =>
      simp only [hask] at h
      by_cases hhome : c.isHome a m = true
      · rw [if_pos hhome] at h
        obtain ⟨hsame, houter, hentry⟩ := addMember_spec hk h
        refine ⟨Same.rfl.trans hsame, fun g n => ?_, fun g n => ?_⟩
        · rw [hentry]
          by_cases hg : g = k <;> by_cases hn : n = m <;>
            simp [groupWrite, asked, joinsFromOutside, hask, hg, hn, hhome, withRegions, groupEntry]
        · by_cases hn : n = m <;>
            simp [outerWrite, asked, hask, hn, hhome, outerEntry, houter, withRegions]
      · rw [if_neg hhome] at h
        obtain ⟨hsame, hentry, houter⟩ := addOuterMember_spec hk h
        rw [hrouting, hlocal] at hentry
        refine ⟨Same.rfl.trans hsame, fun g n => ?_, fun g n => ?_⟩
        · have hhome' : c.isHome a m = false := by simpa using hhome
          have hwrite : c.groupWrite n g a =
              if g = k ∧ n = c.localIpnNodeNum ∧ c.isRouting = true then some .add else none := by
            by_cases hn : n = m
            · subst hn
              by_cases hg : g = k <;>
                simp [groupWrite, asked, joinsFromOutside, hask, hg, hhome', Ne.symm]
            · by_cases hg : g = k <;>
                simp [groupWrite, asked, joinsFromOutside, hask, hg, hn, hhome', Ne.symm]
          rw [hentry, hwrite]
          split_ifs <;> rfl
        · rw [houter]
          by_cases hg : g = k <;> by_cases hn : n = m <;>
            simp [outerWrite, asked, hask, hg, hn, hhome, withRegions, outerEntry]

/-! ### Petitions that return -/

/-- The loops over node numbers end. -/
def Ends (c : ImcConfig) (a : Arrival) : Prop :=
  match c.ask? a.petition with
  | some (n, _, .leave) => n < 2 ^ 64 - 1
  | some (n, _, .join) =>
    n < 2 ^ 64 - 1 ∧ (c.isHome a n = false → c.isRouting = true → c.localIpnNodeNum < 2 ^ 64 - 1)
  | _ => True

instance (c : ImcConfig) (a : Arrival) : Decidable (c.Ends a) :=
  match h : c.ask? a.petition with
  | some (n, _, .leave) => decidable_of_iff (n < 2 ^ 64 - 1) (by simp [Ends, h])
  | some (n, _, .join) =>
    decidable_of_iff (n < 2 ^ 64 - 1 ∧
      (c.isHome a n = false → c.isRouting = true → c.localIpnNodeNum < 2 ^ 64 - 1))
      (by simp [Ends, h])
  | some (_, _, .joinSeen) => isTrue (by simp [Ends, h])
  | none => isTrue (by simp [Ends, h])

theorem Same.ends {c c' : ImcConfig} (h : Same c c') (a : Arrival) : c'.Ends a ↔ c.Ends a := by
  unfold Ends
  simp only [h.ask?, h.isHome, h.1, h.2.2]

theorem addMember_isOk {c : ImcConfig} {group node : ℕ} (hg : group ≠ 0) :
    (∃ c', c.addMember group node = .ok c') ↔ node < 2 ^ 64 - 1 := by
  have hr := changeRange_isOk (addToGroup group) (c.saves false) c.mapOfGroupMaps c.store node node
  simp only [addToGroup, hg, lt_irrefl, false_or] at hr
  rw [← hr]
  unfold addMember addNodeRangeToGroup changeGroup
  simp only [addToGroup]
  cases changeRange { recType := .group, num := group, operation := .add } (c.saves false)
    c.mapOfGroupMaps c.store node node with
  | error e => simp [Bind.bind, Except.bind]
  | ok y => simp [Bind.bind, Except.bind, Pure.pure, Except.pure]

theorem delNodeRangeFromGroup_isOk {c : ImcConfig} {group node : ℕ} (hg : group ≠ 0) :
    (∃ c', c.delNodeRangeFromGroup group node node false = .ok c') ↔ node < 2 ^ 64 - 1 := by
  have hr := changeRange_isOk (delFromGroup group) (c.saves false) c.mapOfGroupMaps c.store node node
  simp only [delFromGroup, hg, lt_irrefl, false_or] at hr
  rw [← hr]
  unfold delNodeRangeFromGroup changeGroup
  simp only [delFromGroup]
  cases changeRange { recType := .group, num := group, operation := .remove } (c.saves false)
    c.mapOfGroupMaps c.store node node with
  | error e => simp [Bind.bind, Except.bind]
  | ok y => simp [Bind.bind, Except.bind, Pure.pure, Except.pure]

theorem addNodeRangeToGroupForOuterRegions_isOk {c : ImcConfig} {group node : ℕ} (hg : group ≠ 0) :
    (∃ c', c.addNodeRangeToGroupForOuterRegions group node node = .ok c') ↔ node < 2 ^ 64 - 1 := by
  have hr := changeRange_isOk (addToGroup group) false c.mapOfGroupMapsForOuterRegions c.store node
    node
  simp only [addToGroup, hg, lt_irrefl, false_or] at hr
  rw [← hr]
  unfold addNodeRangeToGroupForOuterRegions changeGroupForOuterRegions
  simp only [addToGroup]
  cases changeRange { recType := .group, num := group, operation := .add } false
    c.mapOfGroupMapsForOuterRegions c.store node node with
  | error e => simp [Bind.bind, Except.bind]
  | ok y => simp [Bind.bind, Except.bind, Pure.pure, Except.pure]

theorem addOuterMember_isOk {c : ImcConfig} {group node : ℕ} (hg : group ≠ 0) :
    (∃ c', c.addOuterMember group node = .ok c') ↔
      node < 2 ^ 64 - 1 ∧ (c.isRouting = true → c.localIpnNodeNum < 2 ^ 64 - 1) := by
  rw [← addNodeRangeToGroupForOuterRegions_isOk hg]
  unfold addOuterMember
  cases hx : c.addNodeRangeToGroupForOuterRegions group node node with
  | error e => simp [Bind.bind, Except.bind]
  | ok d =>
    obtain ⟨hsame, -, -⟩ := addNodeRangeToGroupForOuterRegions_spec hg hx
    simp only [Bind.bind, Except.bind, hsame.2.2, hsame.1, Except.ok.injEq, exists_eq', true_and]
    by_cases hrouting : c.isRouting = true
    · simp only [hrouting, if_true, addMember_isOk hg, true_implies]
    · simp [hrouting, Pure.pure, Except.pure]

theorem petitionStep_isOk (c : ImcConfig) (a : Arrival) :
    (∃ c', c.petitionStep a = .ok c') ↔ c.Ends a := by
  rw [petitionStep_eq]
  unfold Ends
  cases hask : c.ask? a.petition with
  | none => simp
  | some x =>
    obtain ⟨m, k, kind⟩ := x
    obtain ⟨-, hk, -⟩ := ask?_pos hask
    cases kind with
    | leave => exact delNodeRangeFromGroup_isOk hk
    | joinSeen => simp
    | join =>
      simp only
      by_cases hhome : c.isHome a m = true
      · simp only [hhome, if_true, addMember_isOk hk, Bool.true_eq_false, false_implies, and_true]
      · rw [if_neg hhome, addOuterMember_isOk hk]
        simp only [Bool.not_eq_true] at hhome
        simp only [hhome, true_implies]
        rfl

/-- A run returns if each of its petitions does. -/
theorem petitionStep_run_isOk (c : ImcConfig) (l : List Arrival) :
    (∃ c', run petitionStep c l = .ok c') ↔ ∀ a ∈ l, c.Ends a := by
  induction l generalizing c with
  | nil => simp [run]
  | cons a l ih =>
    rw [List.forall_mem_cons, ← petitionStep_isOk, run]
    cases h : c.petitionStep a with
    | error e => simp
    | ok d =>
      have hsame := (petitionStep_spec h).1
      simp only [ih, hsame.ends, Except.ok.injEq, exists_eq', true_and]

/-! ## The destinations of a later bundle -/

/-- What a list of changes leaves of a node, if all that concern it do the same. -/
theorem foldl_dests {ι : Type*} {o : ImcState → ι → ImcState} (node : ι → ℕ)
    {f : Option Bool → Option Bool} (hf : ∀ x, f (f x) = f x) {l : List ι} {n : ℕ}
    (hself : ∀ s, ∀ i ∈ l, node i = n → (o s i).dests.find? n = f (s.dests.find? n))
    (hne : ∀ s, ∀ i ∈ l, node i ≠ n → (o s i).dests.find? n = s.dests.find? n) (s : ImcState) :
    (l.foldl o s).dests.find? n =
      if ∃ i ∈ l, node i = n then f (s.dests.find? n) else s.dests.find? n := by
  induction l generalizing s with
  | nil => simp
  | cons i l ih =>
    rw [List.foldl_cons, ih (fun s j hj => hself s j (List.mem_cons_of_mem _ hj))
      (fun s j hj => hne s j (List.mem_cons_of_mem _ hj))]
    by_cases hi : node i = n
    · rw [hself s i List.mem_cons_self hi, hf]
      simp [hi]
    · rw [hne s i List.mem_cons_self hi]
      simp [hi]

/-- What the list of a group leaves of a node. -/
def afterHomeList (entry : Option Operation) (d : Option Bool) : Option Bool :=
  match entry with
  | some .add => some (d.getD false)
  | some _ => some true
  | none => d

def afterOuterList (entry : Option Operation) (d : Option Bool) : Option Bool :=
  if entry.isSome then some (d.getD false) else d

theorem afterHomeList_idem (entry : Option Operation) (d : Option Bool) :
    afterHomeList entry (afterHomeList entry d) = afterHomeList entry d := by
  rcases entry with _ | _ | _ | _ <;> rfl

theorem exists_values_iff {m : RecMap} {n : ℕ} :
    (∃ r ∈ m.values, r.nodeOrIdNum = n) ↔ (m.find? n).isSome := by
  rw [Option.isSome_iff_exists]
  constructor
  · rintro ⟨r, hr, rfl⟩
    exact ⟨r, RecMap.mem_values.mp hr⟩
  · rintro ⟨r, hr⟩
    have hn := RecMap.find?_node hr
    exact ⟨r, RecMap.mem_values.mpr (hn ▸ hr), hn⟩

theorem updateFromHomeRegionGroupList_dests (c : ImcConfig) (group : ℕ) (s : ImcState) {n : ℕ}
    (hn : 0 < n) :
    (c.updateFromHomeRegionGroupList group s).dests.find? n =
      afterHomeList (c.groupEntry group n) (s.dests.find? n) := by
  unfold updateFromHomeRegionGroupList groupEntry entryIn getMap
  cases hm : c.mapOfGroupMaps.find? group with
  | none => rfl
  | some m =>
    have hrec : ∀ r ∈ m.values, r.nodeOrIdNum = n → m.find? n = some r := fun r hr hrn =>
      hrn ▸ RecMap.mem_values.mp hr
    have hfold := foldl_dests RegionGroupRec.nodeOrIdNum (n := n) (l := m.values)
      (o := fun s r => if r.operation == .add then s.addImcDestNode r.nodeOrIdNum
        else s.imcDestNodeHandled r.nodeOrIdNum)
      (f := afterHomeList ((m.find? n).map (·.operation))) (afterHomeList_idem _)
    simp only [Option.getD_some]
    rw [hfold]
    · simp only [exists_values_iff]
      cases m.find? n <;> rfl
    · rintro s r hr rfl
      rw [hrec r hr rfl]
      cases hop : r.operation <;>
        simp [hop, afterHomeList, ImcState.dests_addImcDestNode, ImcState.dests_imcDestNodeHandled, hn]
    · intro s r hr hne
      cases hop : r.operation <;>
        simp [ImcState.dests_addImcDestNode, ImcState.dests_imcDestNodeHandled, Ne.symm hne]

theorem updateFromOuterRegionsGroupList_dests (c : ImcConfig) (group : ℕ) (s : ImcState) {n : ℕ}
    (hn : 0 < n) :
    (c.updateFromOuterRegionsGroupList group s).dests.find? n =
      afterOuterList (c.outerEntry group n) (s.dests.find? n) := by
  unfold updateFromOuterRegionsGroupList outerEntry entryIn getMap
  cases hm : c.mapOfGroupMapsForOuterRegions.find? group with
  | none => rfl
  | some m =>
    simp only [Option.getD_some]
    rw [foldl_dests (fun e : ℕ × RegionGroupRec => e.1) (f := fun x => some (x.getD false))
      (l := m.recs.entries) (n := n)]
    · have hmem : (∃ e ∈ m.recs.entries, e.1 = n) ↔ (m.find? n).isSome := by
        rw [Option.isSome_iff_exists]
        simp [RecMap.find?, OrdMap.find?_eq_some_iff]
      simp only [hmem]
      cases m.find? n <;> simp [afterOuterList]
    · intro x
      rfl
    · rintro s e he rfl
      simp [ImcState.dests_addImcDestNode, hn]
    · intro s e he hne
      simp [ImcState.dests_addImcDestNode, Ne.symm hne]

/-- Changes of a list of which each keeps something keep it together. -/
theorem foldl_keeps {ι α : Type*} {o : ImcState → ι → ImcState} {p : ImcState → α}
    (h : ∀ s i, p (o s i) = p s) (l : List ι) (s : ImcState) : p (l.foldl o s) = p s := by
  induction l generalizing s with
  | nil => rfl
  | cons i l ih => rw [List.foldl_cons, ih, h]

theorem updateFromHomeRegionGroupList_other (c : ImcConfig) (group : ℕ) (s : ImcState) :
    (c.updateFromHomeRegionGroupList group s).other = s.other := by
  unfold updateFromHomeRegionGroupList
  split
  · apply foldl_keeps
    intro s r
    split <;> simp
  · rfl

/-- The nodes that a bundle has been at are handled first. -/
def handledFirst (c : ImcConfig) (b : ImcBundle) : ImcState :=
  ((b.imc.imcDestNodeHandled c.localIpnNodeNum).imcDestNodeHandled
    b.prevhop.nodeNum).imcDestNodeHandled b.source.nodeNum

/-- What becomes of a node where nothing was processed before. -/
theorem updateBundleImcDestNodes_dests (c : ImcConfig) {b : ImcBundle} {n : ℕ} (hn : 0 < n)
    (hgroup : b.dest.nodeNum ≠ 0) (hregion : b.imc.isImcRegionProcessed c.homeRegion = false)
    (hseen : b.imc.imcHasProxyBeenProcessedByNode c.localIpnNodeNum = false) :
    (c.updateBundleImcDestNodes b).dests.find? n =
      afterOuterList (c.outerEntry b.dest.nodeNum n)
        (afterHomeList (c.groupEntry b.dest.nodeNum n) ((c.handledFirst b).dests.find? n)) := by
  have hunfold : c.updateBundleImcDestNodes b =
      let s := c.handledFirst b
      let s := if s.isImcRegionProcessed c.homeRegion then s
        else
          (if b.dest.nodeNum = 0 then
            if c.isNodeInHomeRegion b.source.nodeNum then c.updateWithAllRouterNodes s else s
          else c.updateFromHomeRegionGroupList b.dest.nodeNum s).addImcRegionProcessed c.homeRegion
      if b.dest.nodeNum ≠ 0 ∧ s.imcHasProxyBeenProcessedByNode c.localIpnNodeNum = false then
        (c.updateFromOuterRegionsGroupList b.dest.nodeNum s).addImcProcessedByNode c.localIpnNodeNum
      else s := rfl
  have hother : (c.handledFirst b).other = b.imc.other := by simp [handledFirst]
  rw [hunfold]
  generalize c.handledFirst b = s at hother ⊢
  have hregion' : s.isImcRegionProcessed c.homeRegion = false := by
    rw [← hregion]
    simp only [ImcState.isImcRegionProcessed, ImcState.regions_of_other hother]
  simp only [hregion', hgroup, if_false, Bool.false_eq_true, ne_eq, not_false_eq_true, true_and]
  generalize ht : (c.updateFromHomeRegionGroupList b.dest.nodeNum s).addImcRegionProcessed
    c.homeRegion = t
  have hseen' : t.imcHasProxyBeenProcessedByNode c.localIpnNodeNum = false := by
    have hprocessed : t.processedBy = b.imc.processedBy := by
      rw [← ht, ← ImcState.processedBy_of_other hother,
        ← ImcState.processedBy_of_other (c.updateFromHomeRegionGroupList_other b.dest.nodeNum s)]
      rfl
    rw [← hseen]
    simp only [ImcState.imcHasProxyBeenProcessedByNode, hprocessed]
  obtain ⟨m, hm⟩ := (c.updateFromOuterRegionsGroupList b.dest.nodeNum t).addImcProcessedByNode_eq
    c.localIpnNodeNum
  have hkeep : ∀ u : ImcState, ({ u with processedByNodesMap := m } : ImcState).dests = u.dests :=
    fun _ => rfl
  have hadded : t.dests = (c.updateFromHomeRegionGroupList b.dest.nodeNum s).dests := by
    rw [← ht]
    rfl
  rw [if_pos hseen', hm, hkeep, c.updateFromOuterRegionsGroupList_dests b.dest.nodeNum t hn, hadded,
    c.updateFromHomeRegionGroupList_dests b.dest.nodeNum s hn]

/-- A node that has nothing to do with where the bundle is and comes from. -/
theorem handledFirst_dests (c : ImcConfig) {b : ImcBundle} {n : ℕ} (hlocal : n ≠ c.localIpnNodeNum)
    (hprev : n ≠ b.prevhop.nodeNum) (hsource : n ≠ b.source.nodeNum) :
    (c.handledFirst b).dests.find? n = b.imc.dests.find? n := by
  simp [handledFirst, ImcState.dests_imcDestNodeHandled, hlocal, hprev, hsource]

theorem handledFirst_dests_local (c : ImcConfig) (b : ImcBundle) (h : 0 < c.localIpnNodeNum) :
    (c.handledFirst b).dests.find? c.localIpnNodeNum = some true := by
  unfold handledFirst
  apply ImcState.keepsHandled_imcDestNodeHandled
  apply ImcState.keepsHandled_imcDestNodeHandled
  simp [ImcState.dests_imcDestNodeHandled, h]

/-! ## The latest petition -/

/-- The last petition of a node for a group. -/
def latest (c : ImcConfig) (node group : ℕ) (l : List Arrival) : Option Asked :=
  (l.filterMap (c.asked node group)).getLast?

/-- A bundle for a group at its start, which the node neither sent nor passed on. -/
structure Fresh (c : ImcConfig) (b : ImcBundle) (group node : ℕ) : Prop where
  dest : ∃ service, b.dest = .imc group service
  notSource : node ≠ b.source.nodeNum
  notPrevhop : node ≠ b.prevhop.nodeNum
  region : b.imc.isImcRegionProcessed c.homeRegion = false
  processedBy : b.imc.imcHasProxyBeenProcessedByNode c.localIpnNodeNum = false
  notHandled : b.imc.dests.find? node ≠ some true

/-- The bundle goes to the node if and only if the latest petition is a join. -/
def LatestDecides (c c' : ImcConfig) (node group : ℕ) (l : List Arrival) (b : ImcBundle) : Prop :=
  (c'.updateBundleImcDestNodes b).dests.find? node = some false ↔
    c.latest node group l = some .join ∨ c.latest node group l = some .joinSeen

/-- Nodes of outer regions have joined, and each that did has left since. -/
def OutsidersLeft (c : ImcConfig) (group : ℕ) (l : List Arrival) : Prop :=
  (∃ a ∈ l, c.joinsFromOutside group a = true ∧ a.petition.source.nodeNum ≠ c.localIpnNodeNum) ∧
    ∀ a ∈ l, c.joinsFromOutside group a = true →
      a.petition.source.nodeNum ≠ c.localIpnNodeNum →
      c.latest a.petition.source.nodeNum group l = some .leave

/-- What a petition of this node itself writes. -/
def ownWrite (c : ImcConfig) (group : ℕ) (a : Arrival) : Option Operation :=
  match c.asked c.localIpnNodeNum group a with
  | some .leave => some .remove
  | some .join => some .add
  | _ => none

/-- This node is a member by its own petitions, or was one before. -/
def IsOwnMember (c : ImcConfig) (group : ℕ) (l : List Arrival) : Prop :=
  lastWrite (fun a => (c.ownWrite group a).map some) (c.groupEntry group c.localIpnNodeNum) l =
    some .add

/-- Behind the last outsider this node lists itself only for its own sake. -/
def OutsidersForgotten (c c' : ImcConfig) (group : ℕ) (l : List Arrival) : Prop :=
  c.OutsidersLeft group l → c'.groupEntry group c.localIpnNodeNum = some .add →
    c.IsOwnMember group l

/-- Listed from the start, or a destination of the bundle already. -/
def Known (c : ImcConfig) (node group : ℕ) (b : ImcBundle) : Prop :=
  c.groupEntry group node = some .add ∨
    c.groupEntry group node = none ∧
      ((c.outerEntry group node).isSome = true ∨ b.imc.dests.find? node = some false)

/-- The latest petition leaves, or the joins before it are not undone. -/
def Counts (c : ImcConfig) (node group : ℕ) (l : List Arrival) (b : ImcBundle) (home : Bool) :
    Prop :=
  c.latest node group l = some .leave ∨
    node ≠ c.localIpnNodeNum ∧
      if home then
        (∃ l₁ a l₂, l = l₁ ++ a :: l₂ ∧ c.asked node group a = some .join ∧
          ∀ x ∈ l₂, c.asked node group x ≠ some .leave) ∨
        (∀ a ∈ l, c.asked node group a ≠ some .leave) ∧ c.Known node group b
      else
        (∀ a ∈ l, c.asked node group a ≠ some .leave) ∧
          (c.Known node group b ∨
            c.groupEntry group node = none ∧ ∃ a ∈ l, c.asked node group a = some .join)

/-- No outsiders have come and gone, or this node is a member anyway, or has left by itself since
the last of them joined. -/
def LeavesLast (c : ImcConfig) (group : ℕ) (l : List Arrival) : Prop :=
  c.OutsidersLeft group l → c.IsOwnMember group l ∨
    ∃ l₁ a l₂, l = l₁ ++ a :: l₂ ∧ c.asked c.localIpnNodeNum group a = some .leave ∧
      ∀ x ∈ l₂, c.joinsFromOutside group x = false

/-! ### What a run leaves in the records -/

theorem petitionStep_run_entry {c c' : ImcConfig} {l : List Arrival}
    (h : run petitionStep c l = .ok c') (node group : ℕ) :
    Same c c' ∧
      c'.groupEntry group node =
        lastWrite (fun a => (c.groupWrite node group a).map some) (c.groupEntry group node) l ∧
      c'.outerEntry group node =
        lastWrite (fun a => (c.outerWrite node group a).map some) (c.outerEntry group node) l := by
  have hstep : ∀ s a s', Same c s → s.petitionStep a = .ok s' → Same c s' ∧
      s'.groupEntry group node =
        ((c.groupWrite node group a).map some).getD (s.groupEntry group node) ∧
      s'.outerEntry group node =
        ((c.outerWrite node group a).map some).getD (s.outerEntry group node) := by
    intro s a s' hs h
    obtain ⟨hsame, hgroup, houter⟩ := petitionStep_spec h
    simp only [hs.groupWrite] at hgroup
    simp only [hs.outerWrite] at houter
    exact ⟨hs.trans hsame, hgroup group node, houter group node⟩
  have hgroup := run_lastWrite (fun s => s.groupEntry group node) (P := Same c)
    (fun s a s' hs h => ⟨(hstep s a s' hs h).1, (hstep s a s' hs h).2.1⟩) Same.rfl h
  have houter := run_lastWrite (fun s => s.outerEntry group node) (P := Same c)
    (fun s a s' hs h => ⟨(hstep s a s' hs h).1, (hstep s a s' hs h).2.2⟩) Same.rfl h
  exact ⟨hgroup.1, hgroup.2, houter.2⟩

/-- Whether a node is a destination, by its records. -/
theorem after_eq_false {group outer : Option Operation} {d : Option Bool} (hd : d ≠ some true) :
    afterOuterList outer (afterHomeList group d) = some false ↔
      group = some .add ∨ group = none ∧ (outer.isSome = true ∨ d = some false) := by
  rcases d with _ | _ | _
  · rcases group with _ | _ | _ | _ <;> cases outer <;> simp [afterOuterList, afterHomeList]
  · rcases group with _ | _ | _ | _ <;> cases outer <;> simp [afterOuterList, afterHomeList]
  · exact absurd rfl hd

section
variable {c c' : ImcConfig} {l : List Arrival} {node group : ℕ} {b : ImcBundle}

theorem asked_pos {a : Arrival} (h : c.asked node group a ≠ none) : node ≠ 0 ∧ group ≠ 0 := by
  unfold asked at h
  cases hask : c.ask? a.petition with
  | none => simp [hask] at h
  | some x =>
    obtain ⟨m, k, kind⟩ := x
    simp only [hask] at h
    obtain ⟨hm, hk, -⟩ := ask?_pos hask
    by_cases hif : node = m ∧ group = k
    · exact ⟨hif.1 ▸ hm, hif.2 ▸ hk⟩
    · exact absurd (if_neg hif) h

/-- The records of another node are written to by its own petitions alone. -/
theorem groupWrite_of_ne (hne : node ≠ c.localIpnNodeNum) (a : Arrival) :
    c.groupWrite node group a =
      match c.asked node group a with
      | some .leave => some .remove
      | some .join => if c.isHome a node then some .add else none
      | _ => none := by
  unfold groupWrite
  rcases c.asked node group a with _ | _ | _ | _ <;> simp [hne]

/-- Whether another node is a destination after a run. -/
theorem isDestination_iff (hrun : run petitionStep c l = .ok c') (hnode : 0 < node)
    (hgroup : group ≠ 0) (hne : node ≠ c.localIpnNodeNum) (hb : Fresh c b group node) :
    (c'.updateBundleImcDestNodes b).dests.find? node = some false ↔
      c'.groupEntry group node = some .add ∨
        c'.groupEntry group node = none ∧
          ((c'.outerEntry group node).isSome = true ∨ b.imc.dests.find? node = some false) := by
  obtain ⟨hsame, -, -⟩ := petitionStep_run_entry hrun node group
  obtain ⟨service, hdest⟩ := hb.dest
  have hnum : b.dest.nodeNum = group := by rw [hdest]; rfl
  rw [updateBundleImcDestNodes_dests c' hnode (hnum ▸ hgroup) (by rw [hsame.2.1]; exact hb.region)
    (by rw [hsame.1]; exact hb.processedBy), hnum,
    handledFirst_dests c' (by rw [hsame.1]; exact hne) hb.notPrevhop hb.notSource]
  exact after_eq_false hb.notHandled

/-- The latest petition splits the run. -/
theorem latest_eq_some {k : Asked} (h : c.latest node group l = some k) :
    ∃ l₁ a l₂, l = l₁ ++ a :: l₂ ∧ c.asked node group a = some k ∧
      ∀ x ∈ l₂, c.asked node group x = none :=
  getLast?_filterMap_eq_some.mp h

theorem latest_ne_none (h : ∃ a ∈ l, c.asked node group a ≠ none) :
    c.latest node group l ≠ none := by
  obtain ⟨a, ha, hne⟩ := h
  intro hnone
  rw [latest, List.getLast?_eq_none_iff, List.filterMap_eq_nil_iff] at hnone
  exact hne (hnone a ha)

/-- After a latest petition that leaves, the record says so. -/
theorem groupEntry_of_latest_leave (hrun : run petitionStep c l = .ok c')
    (hne : node ≠ c.localIpnNodeNum) (hlast : c.latest node group l = some .leave) :
    c'.groupEntry group node = some .remove := by
  obtain ⟨l₁, a, l₂, rfl, ha, hl₂⟩ := latest_eq_some hlast
  rw [(petitionStep_run_entry hrun node group).2.1, lastWrite_eq_iff]
  refine Or.inl ⟨l₁, a, l₂, rfl, ?_, fun x hx => ?_⟩
  · simp [groupWrite_of_ne hne, ha]
  · simp [groupWrite_of_ne hne, hl₂ x hx]

/-- A record of the home region. -/
theorem isDestination_home (hrun : run petitionStep c l = .ok c') (hnode : 0 < node)
    (hgroup : group ≠ 0) (hne : node ≠ c.localIpnNodeNum) (hb : Fresh c b group node)
    (hregion : ∀ a ∈ l, c.isHome a node = true) :
    (c'.updateBundleImcDestNodes b).dests.find? node = some false ↔
      (∃ l₁ a l₂, l = l₁ ++ a :: l₂ ∧ c.asked node group a = some .join ∧
          ∀ x ∈ l₂, c.asked node group x ≠ some .leave) ∨
        (∀ a ∈ l, c.asked node group a ≠ some .leave) ∧ c.Known node group b := by
  obtain ⟨-, hentry, houter⟩ := petitionStep_run_entry hrun node group
  have hwrite : ∀ a ∈ l, c.groupWrite node group a =
      match c.asked node group a with
      | some .leave => some .remove
      | some .join => some .add
      | _ => none := by
    intro a ha
    rw [groupWrite_of_ne hne, hregion a ha]
    rfl
  have houter' : c'.outerEntry group node = c.outerEntry group node := by
    rw [houter, lastWrite_of_forall]
    intro a ha
    simp [outerWrite, hregion a ha]
  rw [isDestination_iff hrun hnode hgroup hne hb, houter']
  have hadd : ∀ a ∈ l, (c.groupWrite node group a).map some = some (some Operation.add) ↔
      c.asked node group a = some .join := by
    intro a ha
    rw [hwrite a ha]
    rcases c.asked node group a with _ | _ | _ | _ <;> simp
  have hnone : ∀ a ∈ l, (c.groupWrite node group a).map some = none →
      c.asked node group a ≠ some .leave := by
    intro a ha h hleave
    rw [hwrite a ha, hleave] at h
    cases h
  have hquiet : ∀ a ∈ l, c.asked node group a ≠ some .leave →
      (c.groupWrite node group a).map some = none ∨
        (c.groupWrite node group a).map some = some (some Operation.add) := by
    intro a ha h
    rw [hwrite a ha]
    rcases hask : c.asked node group a with _ | _ | _ | _
    · simp
    · exact absurd hask h
    · simp
    · simp
  constructor
  · rintro (h | ⟨h, hknown⟩)
    · rw [hentry, lastWrite_eq_iff] at h
      obtain ⟨l₁, a, l₂, rfl, ha, hl₂⟩ | ⟨hall, hinit⟩ := h
      · refine Or.inl ⟨l₁, a, l₂, rfl, (hadd a (by simp)).mp ha, fun x hx => ?_⟩
        exact hnone x (by simp [hx]) (hl₂ x hx)
      · exact Or.inr ⟨fun a ha => hnone a ha (hall a ha), Or.inl hinit⟩
    · rw [hentry, lastWrite_eq_iff] at h
      obtain ⟨l₁, a, l₂, -, ha, -⟩ | ⟨hall, hinit⟩ := h
      · cases hw : c.groupWrite node group a <;> simp [hw] at ha
      · exact Or.inr ⟨fun a ha => hnone a ha (hall a ha), Or.inr ⟨hinit, hknown⟩⟩
  · rintro (⟨l₁, a, l₂, rfl, ha, hl₂⟩ | ⟨hall, hknown⟩)
    · left
      rw [hentry, lastWrite_append]
      apply lastWrite_of_same
      · intro x hx
        apply hquiet x (List.mem_append_right _ hx)
        obtain rfl | hx := List.mem_cons.mp hx
        · simp [ha]
        · exact hl₂ x hx
      · exact ⟨a, List.mem_cons_self, (hadd a (by simp)).mpr ha⟩
    · by_cases hjoin : ∃ a ∈ l, c.asked node group a = some .join
      · left
        obtain ⟨a, ha, hja⟩ := hjoin
        rw [hentry]
        exact lastWrite_of_same (fun x hx => hquiet x hx (hall x hx)) ⟨a, ha, (hadd a ha).mpr hja⟩
      · have hkeep : c'.groupEntry group node = c.groupEntry group node := by
          rw [hentry]
          apply lastWrite_of_forall
          intro a ha
          exact (hquiet a ha (hall a ha)).resolve_right fun h => hjoin ⟨a, ha, (hadd a ha).mp h⟩
        rw [hkeep]
        exact hknown

/-- A record of a node from outside. -/
theorem isDestination_outer (hrun : run petitionStep c l = .ok c') (hnode : 0 < node)
    (hgroup : group ≠ 0) (hne : node ≠ c.localIpnNodeNum) (hb : Fresh c b group node)
    (hregion : ∀ a ∈ l, c.isHome a node = false) :
    (c'.updateBundleImcDestNodes b).dests.find? node = some false ↔
      (∀ a ∈ l, c.asked node group a ≠ some .leave) ∧
        (c.Known node group b ∨
          c.groupEntry group node = none ∧ ∃ a ∈ l, c.asked node group a = some .join) := by
  obtain ⟨-, hentry, houter⟩ := petitionStep_run_entry hrun node group
  have hwrite : ∀ a ∈ l, c.groupWrite node group a =
      if c.asked node group a = some .leave then some .remove else none := by
    intro a ha
    rw [groupWrite_of_ne hne, hregion a ha]
    rcases c.asked node group a with _ | _ | _ | _ <;> simp
  have hjoined : (c'.outerEntry group node).isSome = true ↔
      (c.outerEntry group node).isSome = true ∨ ∃ a ∈ l, c.asked node group a = some .join := by
    have hw : ∀ a ∈ l, c.outerWrite node group a =
        if c.asked node group a = some .join then some .add else none := by
      intro a ha
      simp [outerWrite, hregion a ha]
    by_cases hjoin : ∃ a ∈ l, c.asked node group a = some .join
    · have hadd : c'.outerEntry group node = some .add := by
        rw [houter]
        obtain ⟨a, ha, hja⟩ := hjoin
        apply lastWrite_of_same
        · intro x hx
          rw [hw x hx]
          split_ifs <;> simp
        · exact ⟨a, ha, by simp [hw a ha, hja]⟩
      simp [hadd, hjoin]
    · have hkeep : c'.outerEntry group node = c.outerEntry group node := by
        rw [houter]
        apply lastWrite_of_forall
        intro a ha
        have hna : c.asked node group a ≠ some .join := fun h => hjoin ⟨a, ha, h⟩
        simp [hw a ha, hna]
      simp [hkeep, hjoin]
  rw [isDestination_iff hrun hnode hgroup hne hb, hjoined]
  by_cases hleave : ∃ a ∈ l, c.asked node group a = some .leave
  · obtain ⟨a, ha, hla⟩ := hleave
    have hremove : c'.groupEntry group node = some .remove := by
      rw [hentry]
      apply lastWrite_of_same
      · intro x hx
        rw [hwrite x hx]
        split_ifs <;> simp
      · exact ⟨a, ha, by simp [hwrite a ha, hla]⟩
    simp only [hremove, reduceCtorEq, false_and, or_false, Option.some.injEq, false_iff, not_and]
    exact fun h => absurd hla (h a ha)
  · have hnoleave : ∀ a ∈ l, c.asked node group a ≠ some .leave := fun a ha h =>
      hleave ⟨a, ha, h⟩
    have hkeep : c'.groupEntry group node = c.groupEntry group node := by
      rw [hentry]
      apply lastWrite_of_forall
      intro a ha
      simp [hwrite a ha, hnoleave a ha]
    rw [hkeep, Known, and_iff_right hnoleave]
    constructor
    · rintro (h | ⟨h, (ho | hj) | hd⟩)
      · exact Or.inl (Or.inl h)
      · exact Or.inl (Or.inr ⟨h, Or.inl ho⟩)
      · exact Or.inr ⟨h, hj⟩
      · exact Or.inl (Or.inr ⟨h, Or.inr hd⟩)
    · rintro ((h | ⟨h, ho | hd⟩) | ⟨h, hj⟩)
      · exact Or.inl h
      · exact Or.inr ⟨h, Or.inl (Or.inl ho)⟩
      · exact Or.inr ⟨h, Or.inr hd⟩
      · exact Or.inr ⟨h, Or.inl (Or.inr hj)⟩

/-- The first half, for a node that is not this one. -/
theorem latestDecides_iff (hrun : run petitionStep c l = .ok c')
    (hasked : ∃ a ∈ l, c.asked node group a ≠ none) {home : Bool}
    (hregion : ∀ a ∈ l, c.isHome a node = home) (hb : Fresh c b group node) :
    c.LatestDecides c' node group l b ↔ c.Counts node group l b home := by
  have hsome := latest_ne_none hasked
  obtain ⟨a₀, -, ha₀⟩ := hasked
  obtain ⟨hnode, hgroup⟩ := asked_pos ha₀
  by_cases hne : node = c.localIpnNodeNum
  · have hsame := (petitionStep_run_entry hrun node group).1
    obtain ⟨service, hdest⟩ := hb.dest
    have hnum : b.dest.nodeNum = group := by rw [hdest]; rfl
    have hlocal : (c'.handledFirst b).dests.find? node = some true := by
      have hpos : 0 < c'.localIpnNodeNum := by rw [hsame.1, ← hne]; omega
      rw [hne, ← hsame.1]
      exact c'.handledFirst_dests_local b hpos
    have hhandled : (c'.updateBundleImcDestNodes b).dests.find? node = some true := by
      rw [updateBundleImcDestNodes_dests c' (by omega) (hnum ▸ hgroup)
        (by rw [hsame.2.1]; exact hb.region) (by rw [hsame.1]; exact hb.processedBy), hlocal]
      rcases c'.groupEntry b.dest.nodeNum node with _ | _ | _ | _ <;>
        cases c'.outerEntry b.dest.nodeNum node <;> rfl
    unfold LatestDecides Counts
    rw [hhandled]
    rcases hlast : c.latest node group l with _ | _ | _ | _
    · exact absurd hlast hsome
    all_goals simp [hne]
  · unfold LatestDecides Counts
    rcases hlast : c.latest node group l with _ | _ | _ | _
    · exact absurd hlast hsome
    · have hremove := groupEntry_of_latest_leave hrun hne hlast
      rw [isDestination_iff hrun (by omega) hgroup hne hb, hremove]
      simp
    all_goals
      cases home with
      | true =>
        rw [isDestination_home hrun (by omega) hgroup hne hb hregion]
        simp [hne]
      | false =>
        rw [isDestination_outer hrun (by omega) hgroup hne hb hregion]
        simp [hne]

/-- The second half. -/
theorem outsidersForgotten_iff (hrun : run petitionStep c l = .ok c')
    (hrouting : c.isRouting = true) :
    c.OutsidersForgotten c' group l ↔ c.LeavesLast group l := by
  have hentry := (petitionStep_run_entry hrun c.localIpnNodeNum group).2.1
  have hleaves : ∀ a, c.asked c.localIpnNodeNum group a = some .leave →
      c.groupWrite c.localIpnNodeNum group a = some .remove := by
    intro a ha
    simp [groupWrite, ha]
  have hown : ∀ a, c.joinsFromOutside group a = false →
      c.groupWrite c.localIpnNodeNum group a = c.ownWrite group a := by
    intro a ha
    unfold groupWrite ownWrite
    rcases hask : c.asked c.localIpnNodeNum group a with _ | _ | _ | _
    · simp [ha]
    · simp
    · have hhome : c.isHome a c.localIpnNodeNum = true := by
        unfold asked at hask
        unfold joinsFromOutside at ha
        cases hx : c.ask? a.petition with
        | none => simp [hx] at hask
        | some x =>
          obtain ⟨m, k, kind⟩ := x
          simp only [hx] at hask ha
          by_cases hif : c.localIpnNodeNum = m ∧ group = k
          · rw [if_pos hif] at hask
            obtain rfl := Option.some.inj hask
            simp only [hif.2, beq_self_eq_true, Bool.true_and, Bool.not_eq_false'] at ha
            rw [hif.1]
            exact ha
          · rw [if_neg hif] at hask
            cases hask
      simp [hhome]
    · simp [ha]
  have hadds : ∀ a, c.joinsFromOutside group a = true →
      c.groupWrite c.localIpnNodeNum group a ≠ none := by
    intro a ha
    unfold groupWrite
    split_ifs <;> simp_all
  unfold OutsidersForgotten LeavesLast
  constructor
  · intro h hleft
    by_cases hlisted : c'.groupEntry group c.localIpnNodeNum = some .add
    · exact Or.inl (h hleft hlisted)
    · right
      obtain ⟨⟨a, ha, hja, -⟩, -⟩ := hleft
      have hcases := lastWrite_eq_iff.mp hentry.symm
      obtain ⟨l₁, x, l₂, rfl, hx, hl₂⟩ | ⟨hall, -⟩ := hcases
      · refine ⟨l₁, x, l₂, rfl, ?_, fun y hy => ?_⟩
        · by_contra hnl
          apply hlisted
          unfold groupWrite at hx
          rw [if_neg hnl] at hx
          split_ifs at hx <;> simp_all
        · have hy₂ := hl₂ y hy
          by_contra hjy
          rw [Bool.not_eq_false] at hjy
          simp only [Option.map_eq_none_iff] at hy₂
          unfold groupWrite at hy₂
          split_ifs at hy₂
          simp_all
      · have hnone := hall a ha
        simp only [Option.map_eq_none_iff] at hnone
        exact absurd hnone (hadds a hja)
  · intro h hleft hlisted
    obtain hmember | ⟨l₁, x, l₂, rfl, hx, hl₂⟩ := h hleft
    · exact hmember
    · unfold IsOwnMember
      rw [lastWrite_append, lastWrite_cons]
      rw [lastWrite_append, lastWrite_cons, hleaves x hx] at hentry
      have hwx : c.ownWrite group x = some .remove := by simp [ownWrite, hx]
      rw [hwx, ← hlisted, hentry]
      apply lastWrite_congr
      intro y hy
      rw [hown y (hl₂ y hy)]

/-- The latest petition of each node decides, and no entry is left for outsiders that are gone,
exactly if no loop runs on, joins come to count and this node leaves behind the outsiders. -/
theorem petitionStep_run_latestDecides_iff {home : Bool} (hrouting : c.isRouting = true)
    (hasked : ∃ a ∈ l, c.asked node group a ≠ none) (hregion : ∀ a ∈ l, c.isHome a node = home)
    (hb : Fresh c b group node) :
    (∃ c', run petitionStep c l = .ok c' ∧ c.LatestDecides c' node group l b ∧
        c.OutsidersForgotten c' group l) ↔
      (∀ a ∈ l, c.Ends a) ∧ c.Counts node group l b home ∧ c.LeavesLast group l := by
  rw [← petitionStep_run_isOk]
  constructor
  · rintro ⟨c', hrun, hfirst, hsecond⟩
    exact ⟨⟨c', hrun⟩, (latestDecides_iff hrun hasked hregion hb).mp hfirst,
      (outsidersForgotten_iff hrun hrouting).mp hsecond⟩
  · rintro ⟨⟨c', hrun⟩, hfirst, hsecond⟩
    exact ⟨c', hrun, (latestDecides_iff hrun hasked hregion hb).mpr hfirst,
      (outsidersForgotten_iff hrun hrouting).mpr hsecond⟩

end

/-! ### Small runs -/

/-- A router with node 2 in its home region. -/
def border : ImcConfig :=
  { localIpnNodeNum := 1, homeRegion := 1, imcRouterEnabled := true }

def borderRegions : MapOfMaps :=
  OrdMap.empty.insert 1 (RecMap.empty.put
    { recType := .region, regionOrGroupNum := 1, nodeOrIdNum := 2, operation := .add })

/-- A node joins group 7 or leaves it. -/
def petitionFrom (node joinOrUnjoin : ℕ) : Arrival where
  regions := borderRegions
  petition := { source := .ipn node 0, dest := .imc 0 0, payload := .petition 7 joinOrUnjoin }

/-- A bundle for group 7. -/
def toGroup : ImcBundle := { source := .ipn 3 1, dest := .imc 7 0, payload := .malformed }

theorem petitionStep_run_latestDecides_rejoin :
    ∃ c', run petitionStep border [petitionFrom 2 1, petitionFrom 2 0, petitionFrom 2 1] = .ok c' ∧
      border.LatestDecides c' 2 7 [petitionFrom 2 1, petitionFrom 2 0, petitionFrom 2 1] toGroup ∧
      border.OutsidersForgotten c' 7 [petitionFrom 2 1, petitionFrom 2 0, petitionFrom 2 1] := by
  have hfresh : Fresh border toGroup 7 2 :=
    ⟨⟨0, rfl⟩, by decide, by decide, by decide, by decide, by decide⟩
  have hcounts : border.Counts 2 7 [petitionFrom 2 1, petitionFrom 2 0, petitionFrom 2 1] toGroup
      true :=
    Or.inr ⟨by decide, Or.inl ⟨[petitionFrom 2 1, petitionFrom 2 0], petitionFrom 2 1, [], rfl,
      by decide +kernel, by simp⟩⟩
  have hnone : ∀ a ∈ [petitionFrom 2 1, petitionFrom 2 0, petitionFrom 2 1],
      border.joinsFromOutside 7 a = false := by decide +kernel
  have hhome : ∀ a ∈ [petitionFrom 2 1, petitionFrom 2 0, petitionFrom 2 1],
      border.isHome a 2 = true := by decide +kernel
  apply (petitionStep_run_latestDecides_iff (by decide) ⟨petitionFrom 2 1, by simp, by decide +kernel⟩
    hhome hfresh).mpr
  refine ⟨by decide +kernel, hcounts, fun hleft => ?_⟩
  obtain ⟨⟨a, ha, hja, -⟩, -⟩ := hleft
  rw [hnone a ha] at hja
  cases hja

/-- A node of an outer region that left and joined again does not get the bundle. -/
theorem petitionStep_run_not_latestDecides :
    border.isRouting = true ∧ Fresh border toGroup 7 20 ∧
      ∃ c', run petitionStep border [petitionFrom 20 1, petitionFrom 20 0, petitionFrom 20 1] =
          .ok c' ∧
        ¬ border.LatestDecides c' 20 7 [petitionFrom 20 1, petitionFrom 20 0, petitionFrom 20 1]
          toGroup := by
  have hlatest : border.latest 20 7 [petitionFrom 20 1, petitionFrom 20 0, petitionFrom 20 1] =
      some .join := by decide +kernel
  have hrun : ∃ c', run petitionStep border [petitionFrom 20 1, petitionFrom 20 0, petitionFrom 20 1] =
      .ok c' ∧ (c'.updateBundleImcDestNodes toGroup).dests.find? 20 = some true := by
    decide +kernel
  obtain ⟨c', hok, hdest⟩ := hrun
  refine ⟨by decide, ⟨⟨0, rfl⟩, by decide, by decide, by decide, by decide, by decide⟩, c', hok, ?_⟩
  intro hdecides
  rw [hdecides.mpr (Or.inl hlatest)] at hdest
  cases hdest

end ImcConfig

end Dtnme.Imc
