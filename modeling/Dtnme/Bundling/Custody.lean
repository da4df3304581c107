import Dtnme.Library.OrdMap
import Dtnme.Library.Transition
import Dtnme.Library.Word
import Dtnme.Bundling.BlockInfo

/-! # Custody

A bundle in custody is on the list of custody bundles and has one of two flags set. With a custody id
it is also filed under that id, on the list of its custody destination. `CustodyList` keeps one list
for each destination next to the last id that it gave out; a list that was not made yet is an empty
one. The bundles are live.
-/

namespace Dtnme.Bundling
open Library

/-- Who a bundle's custodian is to this node. -/
inductive Custodian
  | null
  | self
  | other
  deriving DecidableEq, Repr

/-- What custody uses of a bundle. Its mappings are those for the lists of destinations, and an
iterator of such a list is the key it points to. -/
structure CustodyBundle where
  localCustody : Bool := false
  bibeCustody : Bool := false
  custodyId : ℕ := 0
  custodyDest : String := "bpv6"
  custodian : Custodian := .null
  mappings : String → Option ℕ := fun _ => none

structure DestinationList where
  lastCustodyId : ℕ := 0
  destList : OrdMap ℕ ℕ := .empty
  deriving DecidableEq

structure Custody where
  bundles : ℕ → CustodyBundle
  lists : String → DestinationList := fun _ => {}
  custodyBundles : List ℕ := []

namespace Custody

def setBundle (s : Custody) (b : ℕ) (v : CustodyBundle) : Custody :=
  { s with bundles := Function.update s.bundles b v }

def setList (s : Custody) (dest : String) (v : DestinationList) : Custody :=
  { s with lists := Function.update s.lists dest v }

/-- The bundle under an id on the list of a destination. -/
def find (s : Custody) (dest : String) (custodyId : ℕ) : Option ℕ :=
  (s.lists dest).destList.find? custodyId

def lastCustodyId (s : Custody) (dest : String) : ℕ := (s.lists dest).lastCustodyId

/-! ## Lists of destinations -/

/-- The bundle is filed under a key. -/
def file (s : Custody) (dest : String) (key b : ℕ) : Custody :=
  (s.setList dest { s.lists dest with destList := (s.lists dest).destList.insert key b }).setBundle b
    { s.bundles b with mappings := Function.update (s.bundles b).mappings dest (some key) }

/-- `BundleListIntMap::add_bundle`. -/
def addBundle (s : Custody) (dest : String) (key b : ℕ) : Except Fault Custody :=
  if ((s.bundles b).mappings dest).isSome then .ok s
  else if (s.find dest key).isSome then .error .assertFailed
  else .ok (s.file dest key b)

/-- The bundle is taken off. -/
def unfile (s : Custody) (dest : String) (key b : ℕ) : Custody :=
  (s.setList dest { s.lists dest with destList := (s.lists dest).destList.erase key }).setBundle b
    { s.bundles b with mappings := Function.update (s.bundles b).mappings dest none }

/-- `BundleListIntMap::erase` of a bundle. -/
def eraseBundle (s : Custody) (dest : String) (b : ℕ) : Except Fault Custody :=
  match (s.bundles b).mappings dest with
  | none => .ok s
  | some key =>
    match s.find dest key with
    | none => .error .undefined
    | some c => if c = b then .ok (s.unfile dest key b) else .error .assertFailed

/-- The loop of `BundleListIntMap::erase` of a key. -/
def eraseLoop (dest : String) (key : ℕ) : ℕ → Custody → Except Fault Custody
  | 0, s => if (s.find dest key).isSome then .error .noReturn else .ok s
  | n + 1, s =>
    match s.find dest key with
    | none => .ok s
    | some b => do
      let s ← s.eraseBundle dest b
      eraseLoop dest key n s

/-- A round takes a bundle off the list or changes nothing, so no more rounds than bundles can lead
to the end. -/
def eraseKey (s : Custody) (dest : String) (key : ℕ) : Except Fault Custody :=
  eraseLoop dest key (s.lists dest).destList.size s

/-- `CustodyList::insert`: a bundle without an id is given the next one. -/
def insert (s : Custody) (b : ℕ) : Except Fault Custody :=
  let dest := (s.bundles b).custodyDest
  let custodyId := (s.bundles b).custodyId
  if custodyId = 0 then
    let next := u64 (s.lastCustodyId dest + 1)
    ((s.setList dest { s.lists dest with lastCustodyId := next }).setBundle b
      { s.bundles b with custodyId := next }).addBundle dest next b
  else if s.lastCustodyId dest < custodyId then
    (s.setList dest { s.lists dest with lastCustodyId := custodyId }).addBundle dest custodyId b
  else s.addBundle dest custodyId b

/-- `CustodyList::erase`. -/
def erase (s : Custody) (b : ℕ) : Except Fault Custody :=
  s.eraseKey (s.bundles b).custodyDest (s.bundles b).custodyId

/-- `erase_from_custodyid_list`, and its copy for BIBE. -/
def eraseFromCustodyidList (s : Custody) (b : ℕ) : Except Fault Custody :=
  if 0 < (s.bundles b).custodyId then do
    let s ← s.erase b
    pure (s.setBundle b { s.bundles b with custodyId := 0 })
  else .ok s

/-! ## Operations of the daemon -/

/-- `BundleList::push_back` and `BundleList::erase` on the list of custody bundles. -/
def pushBack (s : Custody) (b : ℕ) : Custody :=
  if b ∈ s.custodyBundles then s else { s with custodyBundles := s.custodyBundles ++ [b] }

def eraseCustodyBundle (s : Custody) (b : ℕ) : Custody :=
  { s with custodyBundles := s.custodyBundles.erase b }

/-- `BundleDaemonACS::accept_custody`. -/
def acsAcceptCustody (s : Custody) (b : ℕ) (acsEnabled : Bool) : Except Fault Custody :=
  if 0 < (s.bundles b).custodyId then s.insert b
  else if acsEnabled then s.insert b
  else .ok s

/-- `BundleDaemonACS::bibe_accept_custody`. -/
def bibeAcceptCustody (s : Custody) (b : ℕ) : Except Fault Custody :=
  if (s.bundles b).custodyId = 0 then s.insert b else .error .assertFailed

/-- `accept_custody`, where aggregate signals are enabled for the bundle's destination or not. -/
def acceptCustody (s : Custody) (b : ℕ) (acsEnabled : Bool) : Except Fault Custody :=
  if (s.bundles b).localCustody then .ok s
  else if (s.bundles b).custodian = .self then .ok s
  else do
    let s := s.setBundle b
      { s.bundles b with custodian := .self, localCustody := true, bibeCustody := true }
    let s ← s.acsAcceptCustody b acsEnabled
    pure (s.pushBack b)

def acceptBibeCustody (s : Custody) (b : ℕ) (bibeCustodyDest : String) : Except Fault Custody :=
  if (s.bundles b).bibeCustody then .ok s
  else if (s.bundles b).localCustody then
    .ok (s.setBundle b { s.bundles b with bibeCustody := true })
  else do
    let s := s.setBundle b { s.bundles b with bibeCustody := true, custodyDest := bibeCustodyDest }
    let s ← s.bibeAcceptCustody b
    pure (s.pushBack b)

/-- The flags and the custodian of a bundle that is released. -/
def released (v : CustodyBundle) : CustodyBundle :=
  if v.localCustody then
    { v with custodian := .null, localCustody := false, bibeCustody := false }
  else { v with bibeCustody := false }

def releaseCustody (s : Custody) (b : ℕ) : Except Fault Custody :=
  if !(s.bundles b).localCustody && !(s.bundles b).bibeCustody then .ok s
  else
    ((s.setBundle b (released (s.bundles b))).eraseCustodyBundle b).eraseFromCustodyidList b

def switchBp6ToBibeCustody (s : Custody) (b : ℕ) (bibeCustodyDest : String) :
    Except Fault Custody := do
  let s ← s.eraseFromCustodyidList b
  (s.setBundle b { s.bundles b with custodyDest := bibeCustodyDest }).bibeAcceptCustody b

@[simp] theorem setBundle_lists (s : Custody) (b : ℕ) (v : CustodyBundle) :
    (s.setBundle b v).lists = s.lists := rfl

@[simp] theorem setBundle_custodyBundles (s : Custody) (b : ℕ) (v : CustodyBundle) :
    (s.setBundle b v).custodyBundles = s.custodyBundles := rfl

@[simp] theorem find_setBundle (s : Custody) (b : ℕ) (v : CustodyBundle) :
    (s.setBundle b v).find = s.find := rfl

@[simp] theorem lastCustodyId_setBundle (s : Custody) (b : ℕ) (v : CustodyBundle) :
    (s.setBundle b v).lastCustodyId = s.lastCustodyId := rfl

@[simp] theorem setBundle_self (s : Custody) (b : ℕ) (v : CustodyBundle) :
    (s.setBundle b v).bundles b = v := Function.update_self ..

@[simp] theorem setBundle_ne (s : Custody) {b c : ℕ} (v : CustodyBundle) (h : c ≠ b) :
    (s.setBundle b v).bundles c = s.bundles c := Function.update_of_ne h ..

@[simp] theorem setList_bundles (s : Custody) (d : String) (v : DestinationList) :
    (s.setList d v).bundles = s.bundles := rfl

theorem find_setList (s : Custody) (d d' : String) (v : DestinationList) (k : ℕ) :
    (s.setList d v).find d' k = if d' = d then v.destList.find? k else s.find d' k := by
  change (Function.update s.lists d v d').destList.find? k = _
  rw [Function.update_apply]
  split_ifs <;> rfl

theorem lastCustodyId_setList (s : Custody) (d d' : String) (v : DestinationList) :
    (s.setList d v).lastCustodyId d' = if d' = d then v.lastCustodyId else s.lastCustodyId d' := by
  change (Function.update s.lists d v d').lastCustodyId = _
  rw [Function.update_apply]
  split_ifs <;> rfl

theorem find_file (s : Custody) (d d' : String) (k j b : ℕ) :
    (s.file d k b).find d' j = if d' = d ∧ j = k then some b else s.find d' j := by
  rw [file, find_setBundle, find_setList]
  by_cases hd : d' = d
  · subst hd
    by_cases hj : j = k <;> simp [hj, find]
  · simp [hd]

theorem find_unfile (s : Custody) (d d' : String) (k j b : ℕ) :
    (s.unfile d k b).find d' j = if d' = d ∧ j = k then none else s.find d' j := by
  rw [unfile, find_setBundle, find_setList]
  by_cases hd : d' = d
  · subst hd
    by_cases hj : j = k <;> simp [hj, find]
  · simp [hd]

@[simp] theorem lastCustodyId_file (s : Custody) (d d' : String) (k b : ℕ) :
    (s.file d k b).lastCustodyId d' = s.lastCustodyId d' := by
  rw [file, lastCustodyId_setBundle, lastCustodyId_setList]
  split_ifs with h
  · rw [h]
    rfl
  · rfl

@[simp] theorem lastCustodyId_unfile (s : Custody) (d d' : String) (k b : ℕ) :
    (s.unfile d k b).lastCustodyId d' = s.lastCustodyId d' := by
  rw [unfile, lastCustodyId_setBundle, lastCustodyId_setList]
  split_ifs with h
  · rw [h]
    rfl
  · rfl

theorem file_bundles_self (s : Custody) (d : String) (k b : ℕ) : (s.file d k b).bundles b =
    { s.bundles b with mappings := Function.update (s.bundles b).mappings d (some k) } :=
  setBundle_self ..

theorem unfile_bundles_self (s : Custody) (d : String) (k b : ℕ) : (s.unfile d k b).bundles b =
    { s.bundles b with mappings := Function.update (s.bundles b).mappings d none } :=
  setBundle_self ..

theorem file_bundles_ne (s : Custody) (d : String) (k : ℕ) {b c : ℕ} (h : c ≠ b) :
    (s.file d k b).bundles c = s.bundles c := setBundle_ne _ _ h

theorem unfile_bundles_ne (s : Custody) (d : String) (k : ℕ) {b c : ℕ} (h : c ≠ b) :
    (s.unfile d k b).bundles c = s.bundles c := setBundle_ne _ _ h

/-! ## Bundles are filed where they say -/

/-- Mappings and lists agree, a bundle is filed under its own destination and id, and the ids of a
list were given out there. -/
structure Filed (s : Custody) : Prop where
  mapped : ∀ d b k, (s.bundles b).mappings d = some k ↔ s.find d k = some b
  own : ∀ d k b, s.find d k = some b → (s.bundles b).custodyDest = d ∧ (s.bundles b).custodyId = k
  issued : ∀ d k b, s.find d k = some b → 0 < k ∧ k ≤ s.lastCustodyId d

/-- A bundle that is on no list. -/
def Unfiled (s : Custody) (b : ℕ) : Prop := ∀ d k, s.find d k ≠ some b

theorem Filed.unfiled_of_zero {s : Custody} (h : Filed s) {b : ℕ}
    (hb : (s.bundles b).custodyId = 0) : Unfiled s b := by
  intro d k hk
  have hid := (h.own d k b hk).2
  have := (h.issued d k b hk).1
  omega

/-- Other fields of a bundle do not matter. -/
theorem Filed.setBundle {s : Custody} (h : Filed s) {b : ℕ} {v : CustodyBundle}
    (hmap : v.mappings = (s.bundles b).mappings)
    (hown : Unfiled s b ∨
      (v.custodyDest = (s.bundles b).custodyDest ∧ v.custodyId = (s.bundles b).custodyId)) :
    Filed (s.setBundle b v) := by
  refine ⟨fun d c k => ?_, fun d k c hc => ?_, h.issued⟩
  · by_cases hc : c = b
    · subst hc
      rw [setBundle_self, hmap]
      exact h.mapped d c k
    · rw [setBundle_ne s v hc]
      exact h.mapped d c k
  · by_cases hcb : c = b
    · subst hcb
      rcases hown with hfree | ⟨hdest, hid⟩
      · exact absurd hc (hfree d k)
      · rw [setBundle_self, hdest, hid]
        exact h.own d k c hc
    · rw [setBundle_ne s v hcb]
      exact h.own d k c hc

theorem find_raise (s : Custody) (d : String) (n : ℕ) :
    (s.setList d { s.lists d with lastCustodyId := n }).find = s.find := by
  funext d' k
  rw [find_setList]
  split_ifs with hd
  · rw [hd]
    rfl
  · rfl

theorem Filed.raise {s : Custody} (h : Filed s) (d : String) {n : ℕ} (hn : s.lastCustodyId d ≤ n) :
    Filed (s.setList d { s.lists d with lastCustodyId := n }) := by
  refine ⟨fun d' b k => ?_, fun d' k b hk => ?_, fun d' k b hk => ?_⟩
  · rw [find_raise]
    exact h.mapped d' b k
  · rw [find_raise] at hk
    exact h.own d' k b hk
  · rw [find_raise] at hk
    obtain ⟨hpos, hle⟩ := h.issued d' k b hk
    refine ⟨hpos, ?_⟩
    rw [lastCustodyId_setList]
    split_ifs with hd
    · subst hd
      exact le_trans hle hn
    · exact hle

theorem Filed.file {s : Custody} (h : Filed s) {d : String} {k b : ℕ} (hfree : s.find d k = none)
    (hmap : (s.bundles b).mappings d = none) (hdest : (s.bundles b).custodyDest = d)
    (hid : (s.bundles b).custodyId = k) (hpos : 0 < k) (hle : k ≤ s.lastCustodyId d) :
    Filed (s.file d k b) := by
  refine ⟨fun d' c j => ?_, fun d' j c hc => ?_, fun d' j c hc => ?_⟩
  · rw [find_file]
    by_cases hcb : c = b
    · subst hcb
      rw [file_bundles_self]
      dsimp only
      rw [Function.update_apply]
      by_cases hd : d' = d
      · subst hd
        by_cases hj : j = k
        · simp [hj]
        · have hnone : s.find d' j ≠ some c := fun hf => by
            rw [(h.mapped d' c j).mpr hf] at hmap
            simp at hmap
          simp [hj, Ne.symm hj, hnone]
      · simp [hd, h.mapped d' c j]
    · rw [file_bundles_ne s d k hcb, h.mapped]
      by_cases hdj : d' = d ∧ j = k
      · obtain ⟨rfl, rfl⟩ := hdj
        simp [hfree, Ne.symm hcb]
      · simp [hdj]
  · rw [find_file] at hc
    by_cases hdj : d' = d ∧ j = k
    · rw [if_pos hdj] at hc
      obtain rfl := Option.some.inj hc
      rw [file_bundles_self]
      exact ⟨hdest.trans hdj.1.symm, hid.trans hdj.2.symm⟩
    · rw [if_neg hdj] at hc
      by_cases hcb : c = b
      · subst hcb
        rw [file_bundles_self]
        exact h.own d' j c hc
      · rw [file_bundles_ne s d k hcb]
        exact h.own d' j c hc
  · rw [lastCustodyId_file]
    rw [find_file] at hc
    by_cases hdj : d' = d ∧ j = k
    · obtain ⟨rfl, rfl⟩ := hdj
      exact ⟨hpos, hle⟩
    · rw [if_neg hdj] at hc
      exact h.issued d' j c hc

theorem Filed.unfile {s : Custody} (h : Filed s) {d : String} {k b : ℕ} (hb : s.find d k = some b) :
    Filed (s.unfile d k b) := by
  refine ⟨fun d' c j => ?_, fun d' j c hc => ?_, fun d' j c hc => ?_⟩
  · rw [find_unfile]
    by_cases hcb : c = b
    · subst hcb
      rw [unfile_bundles_self]
      dsimp only
      rw [Function.update_apply]
      by_cases hd : d' = d
      · subst hd
        have hone : s.find d' j = some c → j = k := fun hj =>
          (h.own d' j c hj).2.symm.trans (h.own d' k c hb).2
        by_cases hj : j = k
        · simp [hj]
        · simp [hj, mt hone hj]
      · simp [hd, h.mapped d' c j]
    · rw [unfile_bundles_ne s d k hcb, h.mapped]
      by_cases hdj : d' = d ∧ j = k
      · obtain ⟨rfl, rfl⟩ := hdj
        simp [hb, Ne.symm hcb]
      · simp [hdj]
  · rw [find_unfile] at hc
    have hc : s.find d' j = some c := by
      split_ifs at hc
      exact hc
    by_cases hcb : c = b
    · subst hcb
      rw [unfile_bundles_self]
      exact h.own d' j c hc
    · rw [unfile_bundles_ne s d k hcb]
      exact h.own d' j c hc
  · rw [lastCustodyId_unfile]
    rw [find_unfile] at hc
    split_ifs at hc
    exact h.issued d' j c hc

/-! ## What insertion and erasure do -/

/-- There is an id left to give out for the destination of the bundle. -/
def Room (s : Custody) (b : ℕ) : Prop :=
  s.lastCustodyId (s.bundles b).custodyDest + 1 < 2 ^ 64

instance (s : Custody) (b : ℕ) : Decidable (Room s b) := by
  unfold Room
  infer_instance

/-- The state with the next id given out to `b`. -/
def numbered (s : Custody) (b : ℕ) : Custody :=
  (s.setList (s.bundles b).custodyDest { s.lists (s.bundles b).custodyDest with
    lastCustodyId := s.lastCustodyId (s.bundles b).custodyDest + 1 }).setBundle b
      { s.bundles b with custodyId := s.lastCustodyId (s.bundles b).custodyDest + 1 }

theorem find_numbered (s : Custody) (b : ℕ) : (s.numbered b).find = s.find := by
  rw [numbered, find_setBundle, find_raise]

theorem lastCustodyId_numbered (s : Custody) (b : ℕ) (d : String) :
    (s.numbered b).lastCustodyId d = if d = (s.bundles b).custodyDest then s.lastCustodyId d + 1
      else s.lastCustodyId d := by
  rw [numbered, lastCustodyId_setBundle, lastCustodyId_setList]
  split_ifs with hd
  · rw [hd]
  · rfl

theorem Filed.numbered {s : Custody} (h : Filed s) {b : ℕ} (hb : (s.bundles b).custodyId = 0) :
    Filed (s.numbered b) := by
  have hraise := h.raise (s.bundles b).custodyDest (Nat.le_succ _)
  refine hraise.setBundle (v := { s.bundles b with
    custodyId := s.lastCustodyId (s.bundles b).custodyDest + 1 }) rfl (.inl fun d k => ?_)
  rw [find_raise]
  exact h.unfiled_of_zero hb d k

/-- A bundle without an id is filed under the next one. -/
theorem Filed.insert_new {s : Custody} (h : Filed s) {b : ℕ} (hb : (s.bundles b).custodyId = 0)
    (hroom : Room s b) : s.insert b = .ok ((s.numbered b).file (s.bundles b).custodyDest
      (s.lastCustodyId (s.bundles b).custodyDest + 1) b) ∧
    Filed ((s.numbered b).file (s.bundles b).custodyDest
      (s.lastCustodyId (s.bundles b).custodyDest + 1) b) := by
  have hfree : s.find (s.bundles b).custodyDest (s.lastCustodyId (s.bundles b).custodyDest + 1) =
      none := by
    by_contra hne
    obtain ⟨c, hc⟩ := Option.ne_none_iff_exists'.mp hne
    have := (h.issued _ _ _ hc).2
    omega
  have hmap : (s.bundles b).mappings (s.bundles b).custodyDest = none := by
    by_contra hne
    obtain ⟨k, hk⟩ := Option.ne_none_iff_exists'.mp hne
    exact h.unfiled_of_zero hb _ k ((h.mapped _ b k).mp hk)
  have hself : (s.numbered b).bundles b = { s.bundles b with
      custodyId := s.lastCustodyId (s.bundles b).custodyDest + 1 } := setBundle_self ..
  have hfree' : (s.numbered b).find (s.bundles b).custodyDest
      (s.lastCustodyId (s.bundles b).custodyDest + 1) = none := by
    rw [find_numbered]
    exact hfree
  have hmap' : ((s.numbered b).bundles b).mappings (s.bundles b).custodyDest = none := by
    rw [hself]
    exact hmap
  constructor
  · rw [Custody.insert, if_pos hb, u64_of_lt hroom]
    change (s.numbered b).addBundle _ _ b = _
    rw [addBundle, hmap', hfree']
    rfl
  · apply (h.numbered hb).file hfree' hmap'
    · rw [hself]
    · rw [hself]
    · exact Nat.succ_pos _
    · rw [lastCustodyId_numbered, if_pos rfl]

/-- A bundle that is filed already stays where it is. -/
theorem Filed.insert_filed {s : Custody} (h : Filed s) {b : ℕ}
    (hb : s.find (s.bundles b).custodyDest (s.bundles b).custodyId = some b) : s.insert b = .ok s := by
  obtain ⟨hpos, hle⟩ := h.issued _ _ _ hb
  rw [Custody.insert, if_neg (by omega), if_neg (by omega), addBundle, (h.mapped _ b _).mpr hb]
  rfl

theorem Filed.eraseBundle_eq {s : Custody} (h : Filed s) {d : String} {k b : ℕ}
    (hb : s.find d k = some b) : s.eraseBundle d b = .ok (s.unfile d k b) := by
  rw [eraseBundle, (h.mapped d b k).mpr hb]
  simp only [hb, if_true]

/-- The bundle under a key is taken off in one round. -/
theorem Filed.eraseKey_eq {s : Custody} (h : Filed s) {d : String} {k b : ℕ}
    (hb : s.find d k = some b) : s.eraseKey d k = .ok (s.unfile d k b) := by
  have hpos : 0 < (s.lists d).destList.size := by
    have hmem := OrdMap.find?_eq_some_iff.mp hb
    exact List.length_pos_of_mem hmem
  obtain ⟨n, hn⟩ := Nat.exists_eq_succ_of_ne_zero hpos.ne'
  have hgone : (s.unfile d k b).find d k = none := by
    rw [find_unfile, if_pos ⟨rfl, rfl⟩]
  rw [eraseKey, hn, eraseLoop, hb]
  simp only [h.eraseBundle_eq hb, bind, Except.bind]
  cases n with
  | zero => rw [eraseLoop, hgone]; rfl
  | succ n => rw [eraseLoop, hgone]

theorem eraseKey_none {s : Custody} {d : String} {k : ℕ} (hb : s.find d k = none) :
    s.eraseKey d k = .ok s := by
  rw [eraseKey]
  cases (s.lists d).destList.size with
  | zero => rw [eraseLoop, hb]; rfl
  | succ n => rw [eraseLoop, hb]

/-- After `erase_from_custodyid_list` the bundle has no id and is on no list; nothing else
changes. -/
structure Withdrawn (s t : Custody) (b : ℕ) : Prop where
  filed : Filed t
  unfiled : Unfiled t b
  find : ∀ d k c, c ≠ b → (t.find d k = some c ↔ s.find d k = some c)
  last : ∀ d, t.lastCustodyId d = s.lastCustodyId d
  bundle : ∃ m, t.bundles b = { s.bundles b with custodyId := 0, mappings := m }
  bundles : ∀ c, c ≠ b → t.bundles c = s.bundles c
  custodyBundles : t.custodyBundles = s.custodyBundles

theorem Filed.eraseFromCustodyidList {s : Custody} (h : Filed s) {b : ℕ}
    (hb : (s.bundles b).custodyId ≠ 0 →
      s.find (s.bundles b).custodyDest (s.bundles b).custodyId = some b) :
    ∃ t, s.eraseFromCustodyidList b = .ok t ∧ Withdrawn s t b := by
  by_cases hid : (s.bundles b).custodyId = 0
  · refine ⟨s, by rw [Custody.eraseFromCustodyidList, if_neg (by omega)], ?_⟩
    exact ⟨h, h.unfiled_of_zero hid, fun _ _ _ _ => Iff.rfl, fun _ => rfl,
      ⟨(s.bundles b).mappings, by rw [← hid]⟩, fun _ _ => rfl, rfl⟩
  · have hf := hb hid
    have hself := s.unfile_bundles_self (s.bundles b).custodyDest (s.bundles b).custodyId b
    have hgone : Unfiled (s.unfile (s.bundles b).custodyDest (s.bundles b).custodyId b) b := by
      intro d k hk
      rw [find_unfile] at hk
      split_ifs at hk with hdk
      exact hdk ⟨(h.own d k b hk).1.symm, (h.own d k b hk).2.symm⟩
    refine ⟨(s.unfile (s.bundles b).custodyDest (s.bundles b).custodyId b).setBundle b
      { (s.unfile (s.bundles b).custodyDest (s.bundles b).custodyId b).bundles b with
        custodyId := 0 }, ?_, ?_, hgone, fun d k c hc => ?_, fun d => ?_, ?_, fun c hc => ?_, rfl⟩
    · rw [Custody.eraseFromCustodyidList, if_pos (Nat.pos_of_ne_zero hid), erase, h.eraseKey_eq hf]
      rfl
    · exact (h.unfile hf).setBundle rfl (.inl hgone)
    · rw [find_setBundle, find_unfile]
      by_cases hdk : d = (s.bundles b).custodyDest ∧ k = (s.bundles b).custodyId
      · rw [if_pos hdk, hdk.1, hdk.2, hf]
        simp [Ne.symm hc]
      · rw [if_neg hdk]
    · rw [lastCustodyId_setBundle, lastCustodyId_unfile]
    · rw [setBundle_self, hself]
      exact ⟨_, rfl⟩
    · rw [setBundle_ne _ _ hc, unfile_bundles_ne _ _ _ hc]

/-! ## Flags, lists and ids agree -/

def InCustody (s : Custody) (b : ℕ) : Prop :=
  (s.bundles b).localCustody = true ∨ (s.bundles b).bibeCustody = true

instance (s : Custody) (b : ℕ) : Decidable (InCustody s b) := by
  unfold InCustody
  infer_instance

/-- The bundles in custody are on the list of custody bundles, once, and those with an id are in
custody and filed under it. -/
structure Consistent (s : Custody) : Prop where
  filed : Filed s
  listed : ∀ b, b ∈ s.custodyBundles ↔ InCustody s b
  nodup : s.custodyBundles.Nodup
  numbered : ∀ b, (s.bundles b).custodyId ≠ 0 →
    InCustody s b ∧ s.find (s.bundles b).custodyDest (s.bundles b).custodyId = some b

/-- New bundles, with custodians of their own. -/
def initial (custodian : ℕ → Custodian) : Custody where
  bundles b := { custodian := custodian b }

theorem consistent_initial (custodian : ℕ → Custodian) : Consistent (initial custodian) where
  filed := ⟨fun _ _ _ => by simp [initial, find], fun _ _ _ h => by simp [initial, find] at h,
    fun _ _ _ h => by simp [initial, find] at h⟩
  listed _ := by simp [initial, InCustody]
  nodup := List.nodup_nil
  numbered _ h := absurd rfl h

theorem pushBack_of_mem {s : Custody} {b : ℕ} (h : b ∈ s.custodyBundles) : s.pushBack b = s :=
  if_pos h

theorem pushBack_bundles (s : Custody) (b : ℕ) : (s.pushBack b).bundles = s.bundles := by
  unfold pushBack
  split_ifs <;> rfl

theorem find_pushBack (s : Custody) (b : ℕ) : (s.pushBack b).find = s.find := by
  unfold pushBack
  split_ifs <;> rfl

theorem lastCustodyId_pushBack (s : Custody) (b : ℕ) :
    (s.pushBack b).lastCustodyId = s.lastCustodyId := by
  unfold pushBack
  split_ifs <;> rfl

theorem mem_pushBack {s : Custody} {b c : ℕ} :
    c ∈ (s.pushBack b).custodyBundles ↔ c ∈ s.custodyBundles ∨ c = b := by
  unfold pushBack
  split_ifs with h
  · constructor
    · exact .inl
    · rintro (hc | rfl)
      · exact hc
      · exact h
  · simp

theorem nodup_pushBack {s : Custody} (h : s.custodyBundles.Nodup) (b : ℕ) :
    (s.pushBack b).custodyBundles.Nodup := by
  unfold pushBack
  split_ifs with hb
  · exact h
  · exact List.Nodup.append h (List.nodup_singleton b) (by simpa using hb)

theorem Filed.pushBack {s : Custody} (h : Filed s) (b : ℕ) : Filed (s.pushBack b) := by
  refine ⟨?_, ?_, ?_⟩
  · rw [pushBack_bundles, find_pushBack]
    exact h.mapped
  · rw [pushBack_bundles, find_pushBack]
    exact h.own
  · rw [find_pushBack, lastCustodyId_pushBack]
    exact h.issued

/-- A bundle is taken into custody, or stays there, while nothing else changes. -/
theorem Consistent.hold {s t : Custody} (h : Consistent s) {b : ℕ} (hfiled : Filed t)
    (hother : ∀ c, c ≠ b → t.bundles c = s.bundles c)
    (hfind : ∀ d k c, c ≠ b → s.find d k = some c → t.find d k = some c)
    (hlist : t.custodyBundles = s.custodyBundles) (hb : InCustody t b)
    (hid : (t.bundles b).custodyId ≠ 0 →
      t.find (t.bundles b).custodyDest (t.bundles b).custodyId = some b) :
    Consistent (t.pushBack b) where
  filed := hfiled.pushBack b
  listed c := by
    rw [mem_pushBack, hlist, h.listed, InCustody, InCustody, pushBack_bundles]
    by_cases hc : c = b
    · subst hc
      exact ⟨fun _ => hb, fun _ => .inr rfl⟩
    · rw [hother c hc]
      simp [hc]
  nodup := nodup_pushBack (by rw [hlist]; exact h.nodup) b
  numbered c hne := by
    rw [pushBack_bundles] at hne
    rw [InCustody, pushBack_bundles, find_pushBack]
    by_cases hc : c = b
    · subst hc
      exact ⟨hb, hid hne⟩
    · rw [hother c hc] at hne ⊢
      obtain ⟨hin, hf⟩ := h.numbered c hne
      exact ⟨hin, hfind _ _ c hc hf⟩

/-- The next id is given out to a bundle without one. -/
theorem Filed.insert_new_spec {s : Custody} (h : Filed s) {b : ℕ}
    (hb : (s.bundles b).custodyId = 0) (hroom : Room s b) :
    ∃ t, s.insert b = .ok t ∧ Filed t ∧ (∀ c, c ≠ b → t.bundles c = s.bundles c) ∧
      (∀ d k c, c ≠ b → s.find d k = some c → t.find d k = some c) ∧
      t.custodyBundles = s.custodyBundles ∧ (InCustody s b → InCustody t b) ∧
      t.find (t.bundles b).custodyDest (t.bundles b).custodyId = some b ∧
      (t.bundles b).custodyId = s.lastCustodyId (s.bundles b).custodyDest + 1 ∧
      ∀ d, t.lastCustodyId d = if d = (s.bundles b).custodyDest then s.lastCustodyId d + 1
        else s.lastCustodyId d := by
  obtain ⟨heq, hfiled⟩ := h.insert_new hb hroom
  have hself : (s.numbered b).bundles b = { s.bundles b with
      custodyId := s.lastCustodyId (s.bundles b).custodyDest + 1 } := setBundle_self ..
  refine ⟨_, heq, hfiled, fun c hc => ?_, fun d k c hc hf => ?_, rfl, fun hin => ?_, ?_, ?_,
    fun d => ?_⟩
  · rw [file_bundles_ne _ _ _ hc]
    exact setBundle_ne _ _ hc
  · rw [find_file, find_numbered]
    have hne : ¬ (d = (s.bundles b).custodyDest ∧
        k = s.lastCustodyId (s.bundles b).custodyDest + 1) := by
      rintro ⟨rfl, rfl⟩
      have := (h.issued _ _ _ hf).2
      omega
    rw [if_neg hne]
    exact hf
  · rw [InCustody, file_bundles_self, hself]
    exact hin
  · rw [file_bundles_self, hself, find_file]
    simp
  · rw [file_bundles_self, hself]
  · rw [lastCustodyId_file, lastCustodyId_numbered]

theorem Consistent.acceptCustody {s : Custody} (h : Consistent s) {b : ℕ} (hroom : Room s b)
    (acsEnabled : Bool) : ∃ t, s.acceptCustody b acsEnabled = .ok t ∧ Consistent t := by
  by_cases hl : (s.bundles b).localCustody = true
  · exact ⟨s, by rw [Custody.acceptCustody, if_pos hl], h⟩
  by_cases hc : (s.bundles b).custodian = .self
  · exact ⟨s, by rw [Custody.acceptCustody, if_neg hl, if_pos hc], h⟩
  rw [Custody.acceptCustody, if_neg hl, if_neg hc]
  -- the flags are set first
  generalize hs₁ : s.setBundle b { s.bundles b with
    custodian := .self, localCustody := true, bibeCustody := true } = s₁
  have hself : s₁.bundles b = { s.bundles b with
      custodian := .self, localCustody := true, bibeCustody := true } := by
    rw [← hs₁, setBundle_self]
  have hne : ∀ c, c ≠ b → s₁.bundles c = s.bundles c := fun c hc => by rw [← hs₁, setBundle_ne _ _ hc]
  have hfind : s₁.find = s.find := by rw [← hs₁, find_setBundle]
  have hlist : s₁.custodyBundles = s.custodyBundles := by rw [← hs₁]; rfl
  have hin : InCustody s₁ b := .inl (by rw [hself])
  have hfiled : Filed s₁ := by
    rw [← hs₁]
    exact h.filed.setBundle rfl (.inr ⟨rfl, rfl⟩)
  by_cases hid : (s.bundles b).custodyId = 0
  · have hid₁ : (s₁.bundles b).custodyId = 0 := by rw [hself]; exact hid
    cases acsEnabled with
    | true =>
      have hroom₁ : Room s₁ b := by
        rw [Room, hself, ← hs₁]
        exact hroom
      obtain ⟨t, ht, htf, hto, htk, htl, htin, hts, -⟩ := hfiled.insert_new_spec hid₁ hroom₁
      refine ⟨t.pushBack b, ?_, h.hold htf (fun c hc => (hto c hc).trans (hne c hc))
        (fun d k c hc hf => htk d k c hc (by rw [hfind]; exact hf)) (htl.trans hlist) (htin hin)
        (fun _ => hts)⟩
      simp only [acsAcceptCustody, hid₁, lt_irrefl, if_false, if_true, ht, bind, Except.bind]
      rfl
    | false =>
      refine ⟨s₁.pushBack b, ?_, h.hold hfiled hne (fun d k c _ hf => by rw [hfind]; exact hf) hlist
        hin (fun hne => absurd hid₁ hne)⟩
      simp only [acsAcceptCustody, hid₁, lt_irrefl, if_false, Bool.false_eq_true, bind, Except.bind]
      rfl
  · -- an id from BIBE custody stays
    have hf₁ : s₁.find (s₁.bundles b).custodyDest (s₁.bundles b).custodyId = some b := by
      rw [hfind, hself]
      exact (h.numbered b hid).2
    have hpos : 0 < (s₁.bundles b).custodyId := by
      rw [hself]
      exact Nat.pos_of_ne_zero hid
    refine ⟨s₁.pushBack b, ?_, h.hold hfiled hne (fun d k c _ hf => by rw [hfind]; exact hf) hlist
      hin (fun _ => hf₁)⟩
    simp only [acsAcceptCustody, if_pos hpos, hfiled.insert_filed hf₁, bind, Except.bind]
    rfl

/-- A bundle without an id is given one for a destination. -/
theorem Consistent.bibeAcceptCustody {s t : Custody} (h : Consistent s) {b : ℕ} (hfiled : Filed t)
    (hother : ∀ c, c ≠ b → t.bundles c = s.bundles c)
    (hfind : ∀ d k c, c ≠ b → s.find d k = some c → t.find d k = some c)
    (hlist : t.custodyBundles = s.custodyBundles) (hb : InCustody t b)
    (hid : (t.bundles b).custodyId = 0) (hroom : Room t b) :
    ∃ u, t.bibeAcceptCustody b = .ok u ∧ u.custodyBundles = s.custodyBundles ∧
      Consistent (u.pushBack b) := by
  obtain ⟨u, hu, huf, huo, huk, hul, huin, hus, -⟩ := hfiled.insert_new_spec hid hroom
  refine ⟨u, ?_, hul.trans hlist, h.hold huf (fun c hc => (huo c hc).trans (hother c hc))
    (fun d k c hc hf => huk d k c hc (hfind d k c hc hf)) (hul.trans hlist) (huin hb) (fun _ => hus)⟩
  rw [Custody.bibeAcceptCustody, if_pos hid, hu]

theorem Consistent.acceptBibeCustody {s : Custody} (h : Consistent s) {b : ℕ} {dest : String}
    (hroom : s.lastCustodyId dest + 1 < 2 ^ 64) :
    ∃ t, s.acceptBibeCustody b dest = .ok t ∧ Consistent t := by
  by_cases hbibe : (s.bundles b).bibeCustody = true
  · exact ⟨s, by rw [Custody.acceptBibeCustody, if_pos hbibe], h⟩
  by_cases hl : (s.bundles b).localCustody = true
  · refine ⟨s.setBundle b { s.bundles b with bibeCustody := true }, ?_, ?_⟩
    · rw [Custody.acceptBibeCustody, if_neg hbibe, if_pos hl]
    · have hmem : b ∈ (s.setBundle b { s.bundles b with bibeCustody := true }).custodyBundles :=
        (h.listed b).mpr (.inl hl)
      rw [← pushBack_of_mem hmem]
      refine h.hold (h.filed.setBundle rfl (.inr ⟨rfl, rfl⟩)) (fun c hc => setBundle_ne _ _ hc)
        (fun d k c _ hf => hf) rfl (.inr (by rw [setBundle_self])) (fun hne => ?_)
      rw [setBundle_self] at hne ⊢
      exact (h.numbered b hne).2
  · have hid : (s.bundles b).custodyId = 0 := by
      by_contra hne
      rcases (h.numbered b hne).1 with hin | hin
      · exact hl hin
      · exact hbibe hin
    have hself := s.setBundle_self b { s.bundles b with bibeCustody := true, custodyDest := dest }
    obtain ⟨u, hu, hul, huc⟩ := h.bibeAcceptCustody (b := b)
      (t := s.setBundle b { s.bundles b with bibeCustody := true, custodyDest := dest })
      (h.filed.setBundle rfl (.inl (h.filed.unfiled_of_zero hid))) (fun c hc => setBundle_ne _ _ hc)
      (fun d k c _ hf => hf) rfl (.inr (by rw [hself])) (by rw [hself]; exact hid)
      (by rw [Room, hself]; exact hroom)
    refine ⟨u.pushBack b, ?_, huc⟩
    rw [Custody.acceptBibeCustody, if_neg hbibe, if_neg hl]
    simp only [hu, bind, Except.bind]
    rfl

theorem Consistent.switchBp6ToBibeCustody {s : Custody} (h : Consistent s) {b : ℕ} {dest : String}
    (hb : InCustody s b) (hroom : s.lastCustodyId dest + 1 < 2 ^ 64) :
    ∃ t, s.switchBp6ToBibeCustody b dest = .ok t ∧ Consistent t := by
  obtain ⟨t, ht, hw⟩ := h.filed.eraseFromCustodyidList (fun hne => (h.numbered b hne).2)
  obtain ⟨m, hm⟩ := hw.bundle
  have hself := t.setBundle_self b { t.bundles b with custodyDest := dest }
  obtain ⟨u, hu, hul, huc⟩ := h.bibeAcceptCustody (b := b)
    (t := t.setBundle b { t.bundles b with custodyDest := dest })
    (hw.filed.setBundle rfl (.inl hw.unfiled))
    (fun c hc => (setBundle_ne _ _ hc).trans (hw.bundles c hc))
    (fun d k c hc hf => (hw.find d k c hc).mpr hf) hw.custodyBundles
    (by rw [InCustody, hself, hm]; exact hb) (by rw [hself, hm])
    (by rw [Room, hself, lastCustodyId_setBundle, hw.last]; exact hroom)
  have hmem : b ∈ u.custodyBundles := by
    rw [hul]
    exact (h.listed b).mpr hb
  rw [pushBack_of_mem hmem] at huc
  refine ⟨u, ?_, huc⟩
  rw [Custody.switchBp6ToBibeCustody]
  simp only [ht, bind, Except.bind]
  exact hu

/-- `t` is `s` without the custody of `b`. -/
structure ReleasedFrom (s t : Custody) (b : ℕ) : Prop where
  filed : Filed t
  unfiled : Unfiled t b
  find : ∀ d k c, c ≠ b → (t.find d k = some c ↔ s.find d k = some c)
  last : ∀ d, t.lastCustodyId d = s.lastCustodyId d
  out : ¬ InCustody t b
  id : (t.bundles b).custodyId = 0
  bundles : ∀ c, c ≠ b → t.bundles c = s.bundles c
  custodyBundles : t.custodyBundles = s.custodyBundles.erase b

theorem Filed.releaseCustody {s : Custody} (h : Filed s) {b : ℕ} (hin : InCustody s b)
    (hb : (s.bundles b).custodyId ≠ 0 →
      s.find (s.bundles b).custodyDest (s.bundles b).custodyId = some b) :
    ∃ t, s.releaseCustody b = .ok t ∧ ReleasedFrom s t b := by
  generalize hv : released (s.bundles b) = v
  have hvmap : v.mappings = (s.bundles b).mappings ∧ v.custodyDest = (s.bundles b).custodyDest ∧
      v.custodyId = (s.bundles b).custodyId ∧ v.localCustody = false ∧ v.bibeCustody = false := by
    rw [← hv, released]
    by_cases hl : (s.bundles b).localCustody = true
    · simp [hl]
    · simp [hl]
  obtain ⟨hmap, hdest, hid, hloc, hbibe⟩ := hvmap
  have hself : ((s.setBundle b v).eraseCustodyBundle b).bundles b = v := setBundle_self ..
  have hfiled : Filed ((s.setBundle b v).eraseCustodyBundle b) := by
    obtain ⟨h₁, h₂, h₃⟩ := h.setBundle (v := v) hmap (.inr ⟨hdest, hid⟩)
    exact ⟨h₁, h₂, h₃⟩
  obtain ⟨t, ht, hw⟩ := hfiled.eraseFromCustodyidList (b := b) (fun hne => by
    rw [hself, hid] at hne
    rw [hself, hdest, hid]
    exact hb hne)
  obtain ⟨m, hm⟩ := hw.bundle
  rw [hself] at hm
  refine ⟨t, ?_, hw.filed, hw.unfiled, hw.find, hw.last, ?_, by rw [hm],
    fun c hc => (hw.bundles c hc).trans (setBundle_ne _ _ hc), hw.custodyBundles⟩
  · rw [Custody.releaseCustody, if_neg, hv, ht]
    rcases hin with hin | hin <;> simp [hin]
  · rw [InCustody, hm]
    simp [hloc, hbibe]

/-- A bundle with nothing of custody about it. -/
def Free (s : Custody) (b : ℕ) : Prop :=
  ¬ InCustody s b ∧ b ∉ s.custodyBundles ∧ (s.bundles b).custodyId = 0 ∧ Unfiled s b

theorem Consistent.releaseCustody {s : Custody} (h : Consistent s) (b : ℕ) :
    ∃ t, s.releaseCustody b = .ok t ∧ Consistent t ∧ Free t b := by
  by_cases hin : InCustody s b
  · obtain ⟨t, ht, hr⟩ := h.filed.releaseCustody hin (fun hne => (h.numbered b hne).2)
    refine ⟨t, ht, ⟨hr.filed, fun c => ?_, ?_, fun c hc => ?_⟩, hr.out, ?_, hr.id, hr.unfiled⟩
    · rw [hr.custodyBundles, h.nodup.mem_erase_iff, h.listed]
      by_cases hc : c = b
      · subst hc
        simp [hr.out]
      · simp [hc, InCustody, hr.bundles c hc]
    · rw [hr.custodyBundles]
      exact h.nodup.erase b
    · by_cases hcb : c = b
      · subst hcb
        exact absurd hr.id hc
      · rw [hr.bundles c hcb] at hc
        rw [InCustody, hr.bundles c hcb]
        obtain ⟨hcin, hcf⟩ := h.numbered c hc
        exact ⟨hcin, (hr.find _ _ c hcb).mpr hcf⟩
    · rw [hr.custodyBundles, h.nodup.mem_erase_iff]
      simp
  · have hid : (s.bundles b).custodyId = 0 := by
      by_contra hne
      exact hin (h.numbered b hne).1
    refine ⟨s, ?_, h, hin, fun hmem => hin ((h.listed b).mp hmem), hid, h.filed.unfiled_of_zero hid⟩
    rw [Custody.releaseCustody, if_pos]
    rw [InCustody, not_or] at hin
    simp [hin]

/-! ## Whole runs -/

inductive Op
  | acceptCustody (b : ℕ) (acsEnabled : Bool)
  | acceptBibeCustody (b : ℕ) (bibeCustodyDest : String)
  | switchBp6ToBibeCustody (b : ℕ) (bibeCustodyDest : String)
  | releaseCustody (b : ℕ)

def step (s : Custody) : Op → Except Fault Custody
  | .acceptCustody b acsEnabled => s.acceptCustody b acsEnabled
  | .acceptBibeCustody b dest => s.acceptBibeCustody b dest
  | .switchBp6ToBibeCustody b dest => s.switchBp6ToBibeCustody b dest
  | .releaseCustody b => s.releaseCustody b

/-- Only a bundle in custody is switched to BIBE, and a destination does not run out of ids. -/
def Regular (s : Custody) : Op → Prop
  | .acceptCustody b _ => Room s b
  | .acceptBibeCustody _ dest => s.lastCustodyId dest + 1 < 2 ^ 64
  | .switchBp6ToBibeCustody b dest => InCustody s b ∧ s.lastCustodyId dest + 1 < 2 ^ 64
  | .releaseCustody _ => True

instance (s : Custody) (op : Op) : Decidable (Regular s op) := by
  unfold Regular
  split <;> infer_instance

theorem Consistent.step {s : Custody} (h : Consistent s) {op : Op} (hop : Regular s op) :
    ∃ t, s.step op = .ok t ∧ Consistent t := by
  cases op with
  | acceptCustody b acsEnabled => exact h.acceptCustody hop acsEnabled
  | acceptBibeCustody b dest => exact h.acceptBibeCustody hop
  | switchBp6ToBibeCustody b dest => exact h.switchBp6ToBibeCustody hop.1 hop.2
  | releaseCustody b =>
    obtain ⟨t, ht, hc, -⟩ := h.releaseCustody b
    exact ⟨t, ht, hc⟩

/-- The records of custody agree: the list of custody bundles with the flags, without repetition, and
a bundle's id with the one place where it is filed. -/
def Agrees (s : Custody) : Prop :=
  s.custodyBundles.Nodup ∧ ∀ b, (b ∈ s.custodyBundles ↔ InCustody s b) ∧
    ((s.bundles b).custodyId ≠ 0 ↔
      s.find (s.bundles b).custodyDest (s.bundles b).custodyId = some b) ∧
    ∀ d k, s.find d k = some b → d = (s.bundles b).custodyDest ∧ k = (s.bundles b).custodyId

theorem Consistent.agrees {s : Custody} (h : Consistent s) : Agrees s := by
  refine ⟨h.nodup, fun b => ⟨h.listed b, ⟨fun hne => (h.numbered b hne).2, fun hf => ?_⟩,
    fun d k hf => ⟨(h.filed.own d k b hf).1.symm, (h.filed.own d k b hf).2.symm⟩⟩⟩
  exact (h.filed.issued _ _ _ hf).1.ne'

/-- Along every regular run no assertion fails, the records agree, and a release would leave nothing
of custody about any bundle. -/
theorem custody_run (custodian : ℕ → Custodian) (ops : List Op)
    (hops : Meets step Regular (initial custodian) ops) :
    ∃ s, run step (initial custodian) ops = .ok s ∧ Agrees s ∧
      ∀ b, ∃ t, s.releaseCustody b = .ok t ∧ Free t b := by
  obtain ⟨s, hs, hc⟩ := run_invariant (fun s _ => Consistent s) (fun s _ op h hop => h.step hop)
    (consistent_initial custodian) hops
  refine ⟨s, hs, hc.agrees, fun b => ?_⟩
  obtain ⟨t, ht, -, hfree⟩ := hc.releaseCustody b
  exact ⟨t, ht, hfree⟩

theorem custody_run_switched :
    ∃ s, run step (initial fun _ => .other) [.acceptCustody 0 true, .acceptBibeCustody 1 "ipn:7.0",
        .acceptCustody 1 true, .switchBp6ToBibeCustody 0 "ipn:7.0", .releaseCustody 1,
        .acceptCustody 2 false] = .ok s ∧ Agrees s ∧
      ∀ b, ∃ t, s.releaseCustody b = .ok t ∧ Free t b :=
  custody_run _ _ (by decide +kernel)

/-- A bundle that is not in custody is switched, and then taken into BIBE custody: an assertion
fails. -/
theorem switched_without_custody :
    ¬ ∃ s, run step (initial fun _ => .null)
      [.switchBp6ToBibeCustody 0 "ipn:7.0", .acceptBibeCustody 0 "ipn:7.0"] = .ok s ∧ Agrees s := by
  have hfault : (run step (initial fun _ => .null)
      [.switchBp6ToBibeCustody 0 "ipn:7.0", .acceptBibeCustody 0 "ipn:7.0"]).isOk = false := by
    decide +kernel
  rintro ⟨s, hs, -⟩
  rw [hs] at hfault
  cases hfault

end Custody

end Dtnme.Bundling
