import Dtnme.Bundling.ImcState

/-! # Records of regions and groups

A record tells that a node was added to or removed from a region or a group; removing leaves the
record behind, with the other operation. A change that is asked to be saved is written to the data
store, under a key that the record's type and numbers make, unless the record in memory already
says the same and is known to be in the store. Others change the record in memory only.
-/

namespace Dtnme.Imc
open Library Bundling

/-! ## Records -/

/-- `IMC_REC_TYPE_*`. -/
inductive RecType
  | region
  | group
  | manualJoin
  | regionDbClear
  | groupDbClear
  | manualJoinDbClear
  | homeRegion
  deriving DecidableEq, Repr

def RecType.code : RecType → ℤ
  | region => 1
  | group => 2
  | manualJoin => 3
  | regionDbClear => -1
  | groupDbClear => -2
  | manualJoinDbClear => -3
  | homeRegion => -999

/-- `IMC_REC_OPERATION_*`, or 0. -/
inductive Operation
  | unset
  | add
  | remove
  deriving DecidableEq, Repr

structure RegionGroupRec where
  recType : RecType
  regionOrGroupNum : ℕ := 0
  nodeOrIdNum : ℕ := 0
  operation : Operation := .unset
  isRouterNode : Bool := false
  inDatastore : Bool := false
  deriving DecidableEq, Repr

/-- Texts of keys: three numbers with underscores between them, or one of the names. -/
inductive Key
  | numbered (recType : ℤ) (regionOrGroup nodeOrId : ℕ)
  | homeRegion
  | clearRegionDb
  | clearGroupDb
  | clearManualJoinDb
  deriving DecidableEq, Repr

namespace Key

def code : Key → ℕ ×ₗ ℤ ×ₗ ℕ ×ₗ ℕ
  | numbered t r n => toLex (0, toLex (t, toLex (r, n)))
  | homeRegion => toLex (1, toLex (0, toLex (0, 0)))
  | clearRegionDb => toLex (2, toLex (0, toLex (0, 0)))
  | clearGroupDb => toLex (3, toLex (0, toLex (0, 0)))
  | clearManualJoinDb => toLex (4, toLex (0, toLex (0, 0)))

theorem code_injective : Function.Injective code := by
  intro a b h
  cases a <;> cases b <;> simp_all [code]

instance : LinearOrder Key := LinearOrder.lift' code code_injective

end Key

namespace RegionGroupRec

/-- `set_key_string` and `durable_key`. -/
def durableKey (r : RegionGroupRec) : Key :=
  match r.recType with
  | .homeRegion => .homeRegion
  | .regionDbClear => .clearRegionDb
  | .groupDbClear => .clearGroupDb
  | t => .numbered t.code r.regionOrGroupNum r.nodeOrIdNum

/-- What a record is after it was written and read again. -/
def serialized (r : RegionGroupRec) : RegionGroupRec := { r with inDatastore := false }

end RegionGroupRec

/-! ## The data store -/

/-- The table of records, each under its own key. -/
structure Store where
  recs : OrdMap Key RegionGroupRec
  keyed : ∀ k r, recs.find? k = some r → r.durableKey = k

namespace Store

instance : DecidableEq Store := fun a b =>
  decidable_of_iff (a.recs = b.recs) ⟨fun h => by cases a; cases b; simp_all, fun h => h ▸ rfl⟩

def empty : Store := ⟨.empty, by simp⟩

instance : Inhabited Store := ⟨empty⟩

def find? (s : Store) (k : Key) : Option RegionGroupRec := s.recs.find? k

def put (s : Store) (r : RegionGroupRec) : Store where
  recs := s.recs.insert r.durableKey r.serialized
  keyed k r' h := by
    rw [OrdMap.find?_insert] at h
    split_ifs at h with hk
    · exact Option.some.inj h ▸ hk.symm
    · exact s.keyed k r' h

def erase (s : Store) (k : Key) : Store where
  recs := s.recs.erase k
  keyed j r h := by
    rw [OrdMap.find?_erase] at h
    split_ifs at h
    exact s.keyed j r h

/-- A key that exists is an error, which is logged. -/
def add (s : Store) (r : RegionGroupRec) : Store :=
  match s.find? r.durableKey with
  | some _ => s
  | none => s.put r

/-- So is one that does not exist, here. -/
def update (s : Store) (r : RegionGroupRec) : Store :=
  match s.find? r.durableKey with
  | some _ => s.put r
  | none => s

def addOrUpdate (s : Store) (r : RegionGroupRec) : Store :=
  if r.inDatastore then s.update r else s.add r

@[simp] theorem find?_empty (k : Key) : empty.find? k = none := rfl

@[simp] theorem find?_put (s : Store) (r : RegionGroupRec) (k : Key) :
    (s.put r).find? k = if k = r.durableKey then some r.serialized else s.find? k := by
  by_cases hk : k = r.durableKey <;> simp [find?, put, hk]

@[simp] theorem find?_erase (s : Store) (j k : Key) :
    (s.erase j).find? k = if k = j then none else s.find? k := by
  by_cases hk : k = j <;> simp [find?, erase, hk]

end Store

/-! ## Maps of records -/

/-- Records under their node numbers. -/
structure RecMap where
  recs : OrdMap ℕ RegionGroupRec
  keyed : ∀ n r, recs.find? n = some r → r.nodeOrIdNum = n

namespace RecMap

instance : DecidableEq RecMap := fun a b =>
  decidable_of_iff (a.recs = b.recs) ⟨fun h => by cases a; cases b; simp_all, fun h => h ▸ rfl⟩

def empty : RecMap := ⟨.empty, by simp⟩

instance : Inhabited RecMap := ⟨empty⟩

def find? (m : RecMap) (node : ℕ) : Option RegionGroupRec := m.recs.find? node

/-- Set the record of its node. -/
def put (m : RecMap) (r : RegionGroupRec) : RecMap where
  recs := m.recs.insert r.nodeOrIdNum r
  keyed n r' h := by
    rw [OrdMap.find?_insert] at h
    split_ifs at h with hn
    · exact (Option.some.inj h) ▸ hn.symm
    · exact m.keyed n r' h

/-- The records in the order of their nodes. -/
def values (m : RecMap) : List RegionGroupRec := m.recs.values

@[simp] theorem find?_empty (node : ℕ) : empty.find? node = none := rfl

@[simp] theorem find?_put (m : RecMap) (r : RegionGroupRec) (node : ℕ) :
    (m.put r).find? node = if node = r.nodeOrIdNum then some r else m.find? node :=
  OrdMap.find?_insert ..

theorem find?_node {m : RecMap} {node : ℕ} {r : RegionGroupRec} (h : m.find? node = some r) :
    r.nodeOrIdNum = node :=
  m.keyed node r h

/-- A record is in the map under its own node. -/
theorem mem_values {m : RecMap} {r : RegionGroupRec} :
    r ∈ m.values ↔ m.find? r.nodeOrIdNum = some r := by
  constructor
  · intro h
    obtain ⟨⟨n, r'⟩, hp, rfl⟩ := List.mem_map.mp h
    have hf : m.find? n = some r' := OrdMap.find?_eq_some_iff.mpr hp
    exact (find?_node hf).symm ▸ hf
  · intro h
    exact List.mem_map.mpr ⟨_, OrdMap.find?_eq_some_iff.mp h, rfl⟩

end RecMap

abbrev MapOfMaps := OrdMap ℕ RecMap

/-- `get_region_map` and `get_group_map`, which make a map that is not there. -/
def getMap (maps : MapOfMaps) (num : ℕ) : RecMap := (maps.find? num).getD .empty

/-! ## Changing records -/

/-- What one of the functions asks for, of each node of a range. -/
structure Change where
  recType : RecType
  num : ℕ
  operation : Operation
  /-- Given where the flag of a router is set as well. -/
  isRouterNode : Option Bool := none
  deriving DecidableEq, Repr

/-- `add_or_update_in_datastore` of a record that was written to, if it is to be saved. -/
def saveRec (save : Bool) (r : RegionGroupRec) (s : Store) : RegionGroupRec × Store × Bool :=
  if save then ({ r with inDatastore := true }, s.addOrUpdate r, true) else (r, s, false)

namespace Change

/-- The record of a node that has none. -/
def fresh (c : Change) (node : ℕ) : RegionGroupRec where
  recType := c.recType
  regionOrGroupNum := c.num
  nodeOrIdNum := node
  operation := c.operation
  isRouterNode := c.isRouterNode.getD false

/-- A record that says something else, or that is not known to be in the store. -/
def applies (c : Change) (r : RegionGroupRec) : Bool :=
  r.operation != c.operation || !r.inDatastore || c.isRouterNode.any (· != r.isRouterNode)

def update (c : Change) (r : RegionGroupRec) : RegionGroupRec :=
  { r with operation := c.operation, isRouterNode := c.isRouterNode.getD r.isRouterNode }

/-- The record of a node, the store, and whether the record was saved. -/
def apply (c : Change) (save : Bool) (old : Option RegionGroupRec) (node : ℕ) (s : Store) :
    RegionGroupRec × Store × Bool :=
  match old with
  | none => saveRec save (c.fresh node) s
  | some r => if c.applies r then saveRec save (c.update r) s else (r, s, false)

/-- A map, the store, and whether some record was saved. -/
structure Changed where
  map : RecMap
  store : Store
  saved : Bool := false
  deriving DecidableEq

def node (c : Change) (save : Bool) (x : Changed) (n : ℕ) : Changed :=
  let (r, s, saved) := c.apply save (x.map.find? n) n x.store
  ⟨x.map.put r, s, x.saved || saved⟩

/-- The loop over a range of node numbers. The counter is of the type of the last number, so that
the loop does not end where that is the largest one. -/
def range (c : Change) (save : Bool) (x : Changed) (start stop : ℕ) : Except Fault Changed :=
  if stop < 2 ^ 64 - 1 then
    .ok ((List.range' start (stop + 1 - start)).foldl (c.node save) x)
  else .error .noReturn

/-! ### What a change leaves -/

variable (c : Change) (save : Bool)

@[simp] theorem fresh_node (n : ℕ) : (c.fresh n).nodeOrIdNum = n := rfl

@[simp] theorem fresh_operation (n : ℕ) : (c.fresh n).operation = c.operation := rfl

@[simp] theorem update_node (r : RegionGroupRec) : (c.update r).nodeOrIdNum = r.nodeOrIdNum := rfl

@[simp] theorem update_operation (r : RegionGroupRec) : (c.update r).operation = c.operation := rfl

@[simp] theorem saveRec_node (r : RegionGroupRec) (s : Store) :
    (saveRec save r s).1.nodeOrIdNum = r.nodeOrIdNum := by
  unfold saveRec
  split_ifs <;> rfl

@[simp] theorem saveRec_operation (r : RegionGroupRec) (s : Store) :
    (saveRec save r s).1.operation = r.operation := by
  unfold saveRec
  split_ifs <;> rfl

theorem apply_node {old : Option RegionGroupRec} {n : ℕ} (h : ∀ r, old = some r → r.nodeOrIdNum = n)
    (s : Store) : (c.apply save old n s).1.nodeOrIdNum = n := by
  cases old with
  | none => simp [apply]
  | some r =>
    simp only [apply]
    split_ifs <;> simp [h r rfl]

theorem apply_operation (old : Option RegionGroupRec) (n : ℕ) (s : Store) :
    (c.apply save old n s).1.operation = c.operation := by
  cases old with
  | none => simp [apply]
  | some r =>
    simp only [apply]
    split_ifs with ha
    · simp
    · simp only [applies, Bool.or_eq_true, not_or, bne_iff_ne, ne_eq, not_not] at ha
      exact ha.1.1

theorem node_find?_self (x : Changed) (n : ℕ) :
    ((c.node save x n).map.find? n).map (·.operation) = some c.operation := by
  have hn : (c.apply save (x.map.find? n) n x.store).1.nodeOrIdNum = n :=
    c.apply_node save (fun r hr => RecMap.find?_node hr) x.store
  simp only [node, RecMap.find?_put, hn, if_true, Option.map_some, apply_operation]

theorem node_find?_of_ne (x : Changed) {n m : ℕ} (h : m ≠ n) :
    (c.node save x n).map.find? m = x.map.find? m := by
  have hn : (c.apply save (x.map.find? n) n x.store).1.nodeOrIdNum = n :=
    c.apply_node save (fun r hr => RecMap.find?_node hr) x.store
  simp only [node, RecMap.find?_put, hn, h, if_false]

/-- Each node of a list ends with the operation, and the other ones keep what they have. -/
theorem foldl_node_operation (l : List ℕ) (x : Changed) (n : ℕ) :
    ((l.foldl (c.node save) x).map.find? n).map (·.operation) =
      if n ∈ l then some c.operation else (x.map.find? n).map (·.operation) := by
  induction l generalizing x with
  | nil => simp
  | cons m l ih =>
    rw [List.foldl_cons, ih]
    by_cases hm : n = m
    · subst hm
      simp [node_find?_self]
    · simp [hm, node_find?_of_ne c save x hm]

theorem range_eq_ok {x y : Changed} {start stop : ℕ} (h : c.range save x start stop = .ok y) :
    stop < 2 ^ 64 - 1 ∧ y = (List.range' start (stop + 1 - start)).foldl (c.node save) x := by
  unfold range at h
  split_ifs at h with hstop
  exact ⟨hstop, (Except.ok.inj h).symm⟩

end Change

end Dtnme.Imc
