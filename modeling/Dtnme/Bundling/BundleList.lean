import Dtnme.Library.Transition
import Dtnme.Bundling.BlockInfo

/-! # Lists of bundles

A `BundleList` is a linked list next to a count of its elements, and each bundle keeps a mapping for
every list it is on: the list and the iterator. A list holds a reference on each of its bundles.
References are booked by who took them, as the arguments of `add_ref` and `del_ref` name it. The
notifier of a list is left out.
-/

namespace Dtnme.Bundling
open Library

/-- `BundleMapping`; an iterator is the node it points to. -/
structure BundleMapping where
  list : ℕ
  position : ℕ
  deriving DecidableEq, Repr

/-- What the lists use of a bundle. The references of `none` are those that no list took. -/
structure ListedBundle where
  fragOffset : ℕ
  freed : Bool
  mappings : List BundleMapping
  refcount : ℤ
  refs : Option ℕ → ℤ

/-- A list's nodes with their bundles, and `list_size_`. -/
structure BundleList where
  list : List (ℕ × ℕ)
  listSize : ℤ
  deriving DecidableEq, Repr

/-- All bundles and all lists. Nodes are numbered as they are made. -/
structure BundleLists where
  bundles : ℕ → ListedBundle
  lists : ℕ → BundleList
  nextNode : ℕ

inductive SortOrder
  | priority
  | fragOffset
  deriving DecidableEq, Repr

/-- `d` more references of an owner. -/
def ListedBundle.book (v : ListedBundle) (owner : Option ℕ) (d : ℤ) : ListedBundle :=
  { v with refcount := v.refcount + d, refs := fun o => if o = owner then v.refs o + d else v.refs o }

namespace BundleLists

def setBundle (s : BundleLists) (b : ℕ) (v : ListedBundle) : BundleLists :=
  { s with bundles := Function.update s.bundles b v }

def setList (s : BundleLists) (l : ℕ) (v : BundleList) : BundleLists :=
  { s with lists := Function.update s.lists l v }

/-! ## References -/

/-- `Bundle::add_ref` of a bundle that has a reference; the first one also puts it on the list of
all bundles. -/
def addRef (s : BundleLists) (owner : Option ℕ) (b : ℕ) : Except Fault BundleLists :=
  if (s.bundles b).freed then .error .assertFailed
  else .ok (s.setBundle b ((s.bundles b).book owner 1))

/-- `Bundle::del_ref`: with one reference left the bundle is freed. -/
def delRef (s : BundleLists) (owner : Option ℕ) (b : ℕ) : Except Fault BundleLists :=
  let v := (s.bundles b).book owner (-1)
  if v.refcount = 1 then
    if v.freed then .error .assertFailed else .ok (s.setBundle b { v with freed := true })
  else if 0 < v.refcount then
    if v.freed then .error .assertFailed else .ok (s.setBundle b v)
  else if v.refcount = 0 then
    if v.freed then .ok (s.setBundle b v) else .error .assertFailed
  else .ok (s.setBundle b v)

/-! ## Operations -/

/-- `BundleMappings::find`. -/
def mapping? (s : BundleLists) (l b : ℕ) : Option BundleMapping :=
  (s.bundles b).mappings.find? (·.list == l)

def isQueuedOn (s : BundleLists) (l b : ℕ) : Bool := (s.mapping? l b).isSome

/-- The node is made in front of the `i`-th one. -/
def insertNode (s : BundleLists) (l b i : ℕ) : BundleLists :=
  { (s.setList l ⟨(s.lists l).list.insertIdx i (s.nextNode, b), (s.lists l).listSize + 1⟩).setBundle b
      { s.bundles b with mappings := (s.bundles b).mappings ++ [⟨l, s.nextNode⟩] } with
    nextNode := s.nextNode + 1 }

def addBundle (s : BundleLists) (l b i : ℕ) : Except Fault BundleLists :=
  if (s.bundles b).freed then .ok s
  else if s.isQueuedOn l b then .ok s
  else (s.insertNode l b i).addRef (some l) b

def pushFront (s : BundleLists) (l b : ℕ) : Except Fault BundleLists := s.addBundle l b 0

def pushBack (s : BundleLists) (l b : ℕ) : Except Fault BundleLists :=
  s.addBundle l b (s.lists l).list.length

/-- Where the scan of `insert_sorted` stops. -/
def sortedPosition (s : BundleLists) (l b : ℕ) : ℕ :=
  ((s.lists l).list.takeWhile (fun e =>
    !decide ((s.bundles b).fragOffset < (s.bundles e.2).fragOffset))).length

def insertSorted (s : BundleLists) (l b : ℕ) (sortOrder : SortOrder) : Except Fault BundleLists :=
  match sortOrder with
  | .fragOffset => s.addBundle l b (s.sortedPosition l b)
  | .priority => if (s.lists l).list.isEmpty then s.addBundle l b 0 else .error .panic

/-- `insert_random`, given what `random` returned. The iterator is moved by the size of the list. -/
def insertRandom (s : BundleLists) (l b random : ℕ) : Except Fault BundleLists :=
  let location := if (s.lists l).listSize = 0 then 0 else (random % (s.lists l).listSize).toNat
  if location ≤ (s.lists l).list.length then s.addBundle l b location else .error .undefined

/-- Unlink a node that holds `b`. -/
def eraseNode (s : BundleLists) (l node : ℕ) : BundleLists :=
  s.setList l ⟨(s.lists l).list.filter (·.1 != node), (s.lists l).listSize - 1⟩

/-- `del_bundle`. An iterator of no node of the list must not be used. -/
def delBundle (s : BundleLists) (l node : ℕ) : Except Fault (BundleLists × ℕ) :=
  match (s.lists l).list.find? (·.1 == node) with
  | none => .error .undefined
  | some (_, b) =>
    match s.mapping? l b with
    | none => .ok (s.eraseNode l node, b)
    | some m =>
      if m.position = node then
        .ok ((s.setBundle b { s.bundles b with
          mappings := (s.bundles b).mappings.erase m }).eraseNode l node, b)
      else .error .assertFailed

/-- `pop_front` and `pop_back` with the node at that end; the caller is given a reference. -/
def popNode (s : BundleLists) (l : ℕ) (node : Option (ℕ × ℕ)) : Except Fault (BundleLists × Option ℕ) :=
  if (s.lists l).listSize = 0 then .ok (s, none)
  else
    match node with
    | none => .error .undefined
    | some (node, _) => do
      let (s, b) ← s.delBundle l node
      let s ← s.addRef none b
      let s ← s.delRef (some l) b
      pure (s, some b)

def popFront (s : BundleLists) (l : ℕ) : Except Fault (BundleLists × Option ℕ) :=
  s.popNode l (s.lists l).list.head?

def popBack (s : BundleLists) (l : ℕ) : Except Fault (BundleLists × Option ℕ) :=
  s.popNode l (s.lists l).list.getLast?

/-- `erase` of an iterator. -/
def eraseIter (s : BundleLists) (l node : ℕ) : Except Fault BundleLists := do
  let (s, b) ← s.delBundle l node
  s.delRef (some l) b

/-- `erase` of a bundle. -/
def erase (s : BundleLists) (l bundle : ℕ) : Except Fault BundleLists :=
  match s.mapping? l bundle with
  | none => .ok s
  | some m =>
    match (s.lists l).list.find? (·.1 == m.position) with
    | none => .error .undefined
    | some (_, b) => if b = bundle then s.eraseIter l m.position else .error .assertFailed

/-- The loop of `move_contents`, for so many bundles. A list without bundles but with a size gives
no bundle to push. -/
def moveLoop (l other : ℕ) : ℕ → BundleLists → Except Fault BundleLists
  | n, s =>
    if (s.lists l).list.isEmpty then .ok s
    else
      match n with
      | 0 => .error .noReturn
      | n + 1 => do
        match ← s.popFront l with
        | (_, none) => .error .undefined
        | (s, some b) =>
          let s ← s.pushBack other b
          let s ← s.delRef none b
          moveLoop l other n s

/-- As many rounds as there are bundles: a list that is moved to itself keeps them, and the loop
would not end. -/
def moveContents (s : BundleLists) (l other : ℕ) : Except Fault BundleLists :=
  moveLoop l other (s.lists l).list.length s

def clear (s : BundleLists) (l : ℕ) : BundleLists :=
  s.setList l { s.lists l with list := [] }

/-- The operations on the lists, and references that others take and drop. -/
inductive Op
  | pushFront (l b : ℕ)
  | pushBack (l b : ℕ)
  | insertSorted (l b : ℕ) (sortOrder : SortOrder)
  | insertRandom (l b random : ℕ)
  | popFront (l : ℕ)
  | popBack (l : ℕ)
  | erase (l b : ℕ)
  | eraseIter (l node : ℕ)
  | moveContents (l other : ℕ)
  | clear (l : ℕ)
  | addRef (b : ℕ)
  | delRef (b : ℕ)
  deriving DecidableEq

def step (s : BundleLists) : Op → Except Fault BundleLists
  | .pushFront l b => s.pushFront l b
  | .pushBack l b => s.pushBack l b
  | .insertSorted l b o => s.insertSorted l b o
  | .insertRandom l b r => s.insertRandom l b r
  | .popFront l => (s.popFront l).map (·.1)
  | .popBack l => (s.popBack l).map (·.1)
  | .erase l b => s.erase l b
  | .eraseIter l node => s.eraseIter l node
  | .moveContents l other => s.moveContents l other
  | .clear l => .ok (s.clear l)
  | .addRef b => s.addRef none b
  | .delRef b => s.delRef none b

/-- Empty lists, and bundles that are referenced from elsewhere. -/
def initial (fragOffset others : ℕ → ℕ) : BundleLists where
  bundles b := ⟨fragOffset b, false, [], others b + 2, fun o => if o = none then others b + 2 else 0⟩
  lists _ := ⟨[], 0⟩
  nextNode := 0

@[simp] theorem setBundle_lists (s : BundleLists) (b : ℕ) (v : ListedBundle) :
    (s.setBundle b v).lists = s.lists := rfl

@[simp] theorem setBundle_nextNode (s : BundleLists) (b : ℕ) (v : ListedBundle) :
    (s.setBundle b v).nextNode = s.nextNode := rfl

@[simp] theorem setBundle_self (s : BundleLists) (b : ℕ) (v : ListedBundle) :
    (s.setBundle b v).bundles b = v := Function.update_self ..

@[simp] theorem setBundle_ne (s : BundleLists) {b c : ℕ} (v : ListedBundle) (h : c ≠ b) :
    (s.setBundle b v).bundles c = s.bundles c := Function.update_of_ne h ..

@[simp] theorem setList_bundles (s : BundleLists) (l : ℕ) (v : BundleList) :
    (s.setList l v).bundles = s.bundles := rfl

@[simp] theorem setList_nextNode (s : BundleLists) (l : ℕ) (v : BundleList) :
    (s.setList l v).nextNode = s.nextNode := rfl

@[simp] theorem setList_self (s : BundleLists) (l : ℕ) (v : BundleList) :
    (s.setList l v).lists l = v := Function.update_self ..

@[simp] theorem setList_ne (s : BundleLists) {l k : ℕ} (v : BundleList) (h : k ≠ l) :
    (s.setList l v).lists k = s.lists k := Function.update_of_ne h ..

/-! ## The invariant -/

/-- The bundles of a list, in order. -/
def members (s : BundleLists) (l : ℕ) : List ℕ := (s.lists l).list.map (·.2)

/-- Sizes, mappings and references are those of the lists' nodes, and every bundle has two
references from elsewhere, so that it stays live. -/
structure Inv (s : BundleLists) : Prop where
  size : ∀ l, (s.lists l).listSize = (s.lists l).list.length
  members : ∀ l, (s.members l).Nodup
  nodes : ∀ l, ((s.lists l).list.map (·.1)).Nodup
  made : ∀ l, ∀ e ∈ (s.lists l).list, e.1 < s.nextNode
  mapped : ∀ l b n, ⟨l, n⟩ ∈ (s.bundles b).mappings ↔ (n, b) ∈ (s.lists l).list
  mappings : ∀ b, ((s.bundles b).mappings.map (·.list)).Nodup
  refs : ∀ l b, (s.bundles b).refs (some l) = (s.members l).count b
  live : ∀ b, (s.bundles b).freed = false ∧ 2 ≤ (s.bundles b).refs none
  refcount : ∀ b, (s.bundles b).refcount = (s.bundles b).refs none + (s.bundles b).mappings.length

theorem inv_initial (fragOffset others : ℕ → ℕ) : Inv (initial fragOffset others) where
  size _ := rfl
  members _ := List.nodup_nil
  nodes _ := List.nodup_nil
  made _ e he := absurd he List.not_mem_nil
  mapped _ _ _ := by simp [initial]
  mappings _ := List.nodup_nil
  refs _ _ := rfl
  live _ := by simp [initial]
  refcount _ := by simp [initial]

/-- `t` is `s` with `b` put on the list `l` at the node `n`, and `d` more references from
elsewhere. -/
structure Linked (s t : BundleLists) (l b n : ℕ) (d : ℤ) : Prop where
  lists : ∀ k, k ≠ l → t.lists k = s.lists k
  list : (t.lists l).list.Perm ((n, b) :: (s.lists l).list)
  size : (t.lists l).listSize = (s.lists l).listSize + 1
  bundles : ∀ c, c ≠ b → t.bundles c = s.bundles c
  mappings : (t.bundles b).mappings.Perm (⟨l, n⟩ :: (s.bundles b).mappings)
  freed : (t.bundles b).freed = (s.bundles b).freed
  refs_list : (t.bundles b).refs (some l) = (s.bundles b).refs (some l) + 1
  refs : ∀ k, k ≠ l → (t.bundles b).refs (some k) = (s.bundles b).refs (some k)
  refs_none : (t.bundles b).refs none = (s.bundles b).refs none + d
  refcount : (t.bundles b).refcount = (s.bundles b).refcount + 1 + d

namespace Linked

variable {s t : BundleLists} {l b n : ℕ} {d : ℤ}

theorem mem_list (h : Linked s t l b n d) (k m c : ℕ) :
    (m, c) ∈ (t.lists k).list ↔ (k = l ∧ m = n ∧ c = b) ∨ (m, c) ∈ (s.lists k).list := by
  by_cases hk : k = l
  · subst hk
    rw [h.list.mem_iff, List.mem_cons]
    simp
  · simp [h.lists k hk, hk]

theorem mem_mappings (h : Linked s t l b n d) (k m c : ℕ) :
    ⟨k, m⟩ ∈ (t.bundles c).mappings ↔
      (k = l ∧ m = n ∧ c = b) ∨ ⟨k, m⟩ ∈ (s.bundles c).mappings := by
  by_cases hc : c = b
  · subst hc
    rw [h.mappings.mem_iff, List.mem_cons]
    simp
  · simp [h.bundles c hc, hc]

theorem members_perm (h : Linked s t l b n d) : (t.members l).Perm (b :: s.members l) :=
  h.list.map Prod.snd

theorem members_ne (h : Linked s t l b n d) {k : ℕ} (hk : k ≠ l) : t.members k = s.members k := by
  rw [members, h.lists k hk]
  rfl

theorem refs_count (h : Linked s t l b n d) (k c : ℕ) :
    (t.bundles c).refs (some k) - (t.members k).count c =
      (s.bundles c).refs (some k) - (s.members k).count c := by
  by_cases hk : k = l
  · subst hk
    rw [h.members_perm.count_eq]
    by_cases hc : c = b
    · subst hc
      rw [h.refs_list, List.count_cons_self]
      push_cast
      ring
    · rw [h.bundles c hc, List.count_cons_of_ne (Ne.symm hc)]
  · rw [h.members_ne hk]
    by_cases hc : c = b
    · subst hc
      rw [h.refs k hk]
    · rw [h.bundles c hc]

theorem refcount_length (h : Linked s t l b n d) (c : ℕ) :
    (t.bundles c).refcount - (t.bundles c).refs none - (t.bundles c).mappings.length =
      (s.bundles c).refcount - (s.bundles c).refs none - (s.bundles c).mappings.length := by
  by_cases hc : c = b
  · subst hc
    rw [h.refcount, h.refs_none, h.mappings.length_eq, List.length_cons]
    push_cast
    ring
  · rw [h.bundles c hc]

/-- Putting a bundle on a list that it is not on. -/
theorem inv (h : Linked s t l b n d) (hs : Inv s) (hb : b ∉ s.members l) (hn : n = s.nextNode)
    (hnext : t.nextNode = s.nextNode + 1) (hd : 0 ≤ d) : Inv t where
  size k := by
    by_cases hk : k = l
    · subst hk
      rw [h.size, hs.size, h.list.length_eq, List.length_cons]
      push_cast
      ring
    · rw [h.lists k hk, hs.size]
  members k := by
    by_cases hk : k = l
    · subst hk
      exact h.members_perm.nodup_iff.mpr (List.nodup_cons.mpr ⟨hb, hs.members k⟩)
    · rw [h.members_ne hk]
      exact hs.members k
  nodes k := by
    by_cases hk : k = l
    · subst hk
      refine (h.list.map (·.1)).nodup_iff.mpr (List.nodup_cons.mpr ⟨fun hmem => ?_, hs.nodes k⟩)
      obtain ⟨e, he, hen⟩ := List.mem_map.mp hmem
      exact absurd (hs.made k e he) (by rw [hen, hn]; exact lt_irrefl _)
    · rw [h.lists k hk]
      exact hs.nodes k
  made k e he := by
    rw [hnext]
    rcases (h.mem_list k e.1 e.2).mp he with ⟨_, he, _⟩ | he
    · omega
    · exact lt_trans (hs.made k _ he) (Nat.lt_succ_self _)
  mapped k c m := by rw [h.mem_mappings, h.mem_list, hs.mapped]
  mappings c := by
    by_cases hc : c = b
    · subst hc
      refine (h.mappings.map (·.list)).nodup_iff.mpr (List.nodup_cons.mpr ⟨fun hmem => ?_, hs.mappings c⟩)
      obtain ⟨⟨k, m⟩, hm, hk⟩ := List.mem_map.mp hmem
      obtain rfl : k = l := hk
      exact hb (List.mem_map.mpr ⟨(m, c), (hs.mapped k c m).mp hm, rfl⟩)
    · rw [h.bundles c hc]
      exact hs.mappings c
  refs k c := by
    have := h.refs_count k c
    rw [hs.refs k c] at this
    omega
  live c := by
    by_cases hc : c = b
    · subst hc
      rw [h.freed, h.refs_none]
      exact ⟨(hs.live c).1, by linarith [(hs.live c).2]⟩
    · rw [h.bundles c hc]
      exact hs.live c
  refcount c := by
    have := h.refcount_length c
    rw [hs.refcount c] at this
    omega

/-- Taking a bundle off a list. -/
theorem inv_of_linked (h : Linked s t l b n d) (ht : Inv t) (hnext : s.nextNode = t.nextNode)
    (hd : d ≤ 0) : Inv s where
  size k := by
    by_cases hk : k = l
    · subst hk
      have hsize := ht.size k
      rw [h.size, h.list.length_eq, List.length_cons] at hsize
      push_cast at hsize
      linarith
    · rw [← h.lists k hk, ht.size]
  members k := by
    by_cases hk : k = l
    · subst hk
      exact (List.nodup_cons.mp (h.members_perm.nodup_iff.mp (ht.members k))).2
    · rw [← h.members_ne hk]
      exact ht.members k
  nodes k := by
    by_cases hk : k = l
    · subst hk
      exact (List.nodup_cons.mp ((h.list.map (·.1)).nodup_iff.mp (ht.nodes k))).2
    · rw [← h.lists k hk]
      exact ht.nodes k
  made k e he := by
    rw [hnext]
    exact ht.made k e ((h.mem_list k e.1 e.2).mpr (.inr he))
  mapped k c m := by
    -- the node and the mapping that are gone occurred once
    have hnode : (n, b) ∉ (s.lists l).list := by
      have hnodup := (List.nodup_cons.mp ((h.list.map (·.1)).nodup_iff.mp (ht.nodes l))).1
      exact fun hmem => hnodup (List.mem_map.mpr ⟨(n, b), hmem, rfl⟩)
    have hmap : ⟨l, n⟩ ∉ (s.bundles b).mappings := by
      have hnodup := (List.nodup_cons.mp ((h.mappings.map (·.list)).nodup_iff.mp (ht.mappings b))).1
      exact fun hmem => hnodup (List.mem_map.mpr ⟨⟨l, n⟩, hmem, rfl⟩)
    have hiff := ht.mapped k c m
    rw [h.mem_mappings, h.mem_list] at hiff
    by_cases hnew : k = l ∧ m = n ∧ c = b
    · obtain ⟨rfl, rfl, rfl⟩ := hnew
      simp [hnode, hmap]
    · simpa [hnew] using hiff
  mappings c := by
    by_cases hc : c = b
    · subst hc
      exact (List.nodup_cons.mp ((h.mappings.map (·.list)).nodup_iff.mp (ht.mappings c))).2
    · rw [← h.bundles c hc]
      exact ht.mappings c
  refs k c := by
    have := h.refs_count k c
    rw [ht.refs k c] at this
    omega
  live c := by
    by_cases hc : c = b
    · subst hc
      have hlive := ht.live c
      rw [h.freed, h.refs_none] at hlive
      exact ⟨hlive.1, by linarith [hlive.2]⟩
    · rw [← h.bundles c hc]
      exact ht.live c
  refcount c := by
    have := h.refcount_length c
    rw [ht.refcount c] at this
    omega

end Linked

/-! ## Each operation keeps it -/

theorem find?_of_nodup {α κ : Type*} [DecidableEq κ] {f : α → κ} {l : List α} {a : α}
    (hl : (l.map f).Nodup) (ha : a ∈ l) : l.find? (fun x => f x == f a) = some a := by
  induction l with
  | nil => simp at ha
  | cons x l ih =>
    obtain ⟨hx, hl⟩ := List.nodup_cons.mp hl
    rcases List.mem_cons.mp ha with rfl | ha
    · simp
    · have hne : f x ≠ f a := fun he => hx (List.mem_map.mpr ⟨a, ha, he.symm⟩)
      rw [List.find?_cons_of_neg (by simpa using hne), ih hl ha]

theorem perm_cons_filter {α κ : Type*} [DecidableEq κ] {f : α → κ} {l : List α} {a : α}
    (hl : (l.map f).Nodup) (ha : a ∈ l) : l.Perm (a :: l.filter (fun x => f x != f a)) := by
  induction l with
  | nil => simp at ha
  | cons x l ih =>
    obtain ⟨hx, hl⟩ := List.nodup_cons.mp hl
    rcases List.mem_cons.mp ha with rfl | ha
    · have hall : l.filter (fun y => f y != f a) = l := by
        apply List.filter_eq_self.mpr
        intro y hy
        simpa using fun he => hx (List.mem_map.mpr ⟨y, hy, he⟩)
      rw [List.filter_cons_of_neg (by simp), hall]
    · have hne : f x ≠ f a := fun he => hx (List.mem_map.mpr ⟨a, ha, he.symm⟩)
      rw [List.filter_cons_of_pos (by simpa using hne)]
      exact ((ih hl ha).cons x).trans (List.Perm.swap ..)

/-- A change of one bundle's references from elsewhere that leaves two of them. -/
theorem Inv.setBundle {s : BundleLists} (h : Inv s) {b : ℕ} {d : ℤ} {v : ListedBundle}
    (hfreed : v.freed = false) (hmap : v.mappings = (s.bundles b).mappings)
    (hlist : ∀ l, v.refs (some l) = (s.bundles b).refs (some l))
    (hnone : v.refs none = (s.bundles b).refs none + d)
    (hcount : v.refcount = (s.bundles b).refcount + d) (htwo : 2 ≤ (s.bundles b).refs none + d) :
    Inv (s.setBundle b v) := by
  have hsame : ∀ c, ((s.setBundle b v).bundles c).mappings = (s.bundles c).mappings ∧
      ∀ l, ((s.setBundle b v).bundles c).refs (some l) = (s.bundles c).refs (some l) := by
    intro c
    by_cases hc : c = b
    · subst hc
      rw [setBundle_self]
      exact ⟨hmap, hlist⟩
    · rw [setBundle_ne s v hc]
      exact ⟨rfl, fun _ => rfl⟩
  refine ⟨h.size, h.members, h.nodes, h.made, fun l c n => ?_, fun c => ?_, fun l c => ?_,
    fun c => ?_, fun c => ?_⟩
  · rw [(hsame c).1]
    exact h.mapped l c n
  · rw [(hsame c).1]
    exact h.mappings c
  · rw [(hsame c).2]
    exact h.refs l c
  · by_cases hc : c = b
    · subst hc
      rw [setBundle_self, hnone]
      exact ⟨hfreed, htwo⟩
    · rw [setBundle_ne s v hc]
      exact h.live c
  · by_cases hc : c = b
    · subst hc
      rw [setBundle_self, hcount, hnone, hmap, h.refcount]
      ring
    · rw [setBundle_ne s v hc]
      exact h.refcount c

theorem addRef_eq {s : BundleLists} {b : ℕ} (o : Option ℕ) (h : (s.bundles b).freed = false) :
    s.addRef o b = .ok (s.setBundle b ((s.bundles b).book o 1)) := by
  rw [addRef, if_neg (by simp [h])]

theorem delRef_eq {s : BundleLists} {b : ℕ} (o : Option ℕ) (h : (s.bundles b).freed = false)
    (hcount : 2 < (s.bundles b).refcount) :
    s.delRef o b = .ok (s.setBundle b ((s.bundles b).book o (-1))) := by
  have hbook : ((s.bundles b).book o (-1)).refcount = (s.bundles b).refcount - 1 := rfl
  rw [delRef, if_neg (by omega), if_pos (by omega), if_neg (by simp [ListedBundle.book, h])]

theorem Inv.addRef {s : BundleLists} (h : Inv s) (b : ℕ) :
    ∃ t, s.addRef none b = .ok t ∧ Inv t := by
  refine ⟨_, addRef_eq none (h.live b).1, h.setBundle (d := 1) (h.live b).1 rfl ?_ ?_ rfl ?_⟩
  · intro l
    simp [ListedBundle.book]
  · simp [ListedBundle.book]
  · linarith [(h.live b).2]

theorem Inv.delRef {s : BundleLists} (h : Inv s) {b : ℕ} (hb : 3 ≤ (s.bundles b).refs none) :
    ∃ t, s.delRef none b = .ok t ∧ Inv t ∧ t.lists = s.lists := by
  have hcount : 2 < (s.bundles b).refcount := by
    rw [h.refcount]
    omega
  refine ⟨_, delRef_eq none (h.live b).1 hcount,
    h.setBundle (d := -1) (h.live b).1 rfl ?_ ?_ rfl ?_, rfl⟩
  · intro l
    simp [ListedBundle.book]
  · simp [ListedBundle.book]
  · linarith

theorem Inv.mapping? {s : BundleLists} (h : Inv s) {l b n : ℕ} (hmem : (n, b) ∈ (s.lists l).list) :
    s.mapping? l b = some ⟨l, n⟩ :=
  find?_of_nodup (f := BundleMapping.list) (h.mappings b) ((h.mapped l b n).mpr hmem)

theorem Inv.isQueuedOn_iff {s : BundleLists} (h : Inv s) {l b : ℕ} :
    s.isQueuedOn l b = true ↔ b ∈ s.members l := by
  constructor
  · intro hq
    obtain ⟨⟨k, n⟩, hm⟩ := Option.isSome_iff_exists.mp hq
    obtain rfl : k = l := by simpa using List.find?_some hm
    exact List.mem_map.mpr ⟨(n, b), (h.mapped k b n).mp (List.mem_of_find?_eq_some hm), rfl⟩
  · intro hm
    obtain ⟨⟨n, c⟩, hmem, rfl⟩ := List.mem_map.mp hm
    rw [isQueuedOn, h.mapping? hmem]
    rfl

theorem insertNode_bundles_self (s : BundleLists) (l b i : ℕ) : (s.insertNode l b i).bundles b =
    { s.bundles b with mappings := (s.bundles b).mappings ++ [⟨l, s.nextNode⟩] } :=
  setBundle_self ..

theorem insertNode_lists_self (s : BundleLists) (l b i : ℕ) : (s.insertNode l b i).lists l =
    ⟨(s.lists l).list.insertIdx i (s.nextNode, b), (s.lists l).listSize + 1⟩ :=
  setList_self ..

theorem linked_insertNode (s : BundleLists) (l b : ℕ) {i : ℕ} (hi : i ≤ (s.lists l).list.length) :
    Linked s ((s.insertNode l b i).setBundle b (((s.insertNode l b i).bundles b).book (some l) 1))
      l b s.nextNode 0 where
  lists k hk := setList_ne s _ hk
  list := by
    rw [setBundle_lists, insertNode_lists_self]
    exact List.perm_insertIdx _ _ hi
  size := by rw [setBundle_lists, insertNode_lists_self]
  bundles c hc := by
    rw [setBundle_ne _ _ hc]
    exact setBundle_ne _ _ hc
  mappings := by
    rw [setBundle_self, insertNode_bundles_self]
    exact List.perm_append_singleton _ _
  freed := by
    rw [setBundle_self, insertNode_bundles_self]
    rfl
  refs_list := by simp [insertNode_bundles_self, ListedBundle.book]
  refs k hk := by simp [insertNode_bundles_self, ListedBundle.book, hk]
  refs_none := by simp [insertNode_bundles_self, ListedBundle.book]
  refcount := by simp [insertNode_bundles_self, ListedBundle.book]

/-- A bundle is put on a list, or it is there already; the references from elsewhere stay. -/
theorem Inv.addBundle {s : BundleLists} (h : Inv s) (l b : ℕ) {i : ℕ}
    (hi : i ≤ (s.lists l).list.length) :
    ∃ t, s.addBundle l b i = .ok t ∧ Inv t ∧ (∀ k, k ≠ l → t.lists k = s.lists k) ∧
      ∀ c, (t.bundles c).refs none = (s.bundles c).refs none := by
  rw [BundleLists.addBundle, if_neg (by simp [(h.live b).1])]
  by_cases hq : s.isQueuedOn l b = true
  · rw [if_pos hq]
    exact ⟨s, rfl, h, fun _ _ => rfl, fun _ => rfl⟩
  · have hlink := s.linked_insertNode l b hi
    have hlive : ((s.insertNode l b i).bundles b).freed = false := by
      rw [insertNode_bundles_self]
      exact (h.live b).1
    rw [if_neg hq, addRef_eq _ hlive]
    refine ⟨_, rfl, hlink.inv h ?_ rfl rfl le_rfl, hlink.lists, fun c => ?_⟩
    · rwa [← h.isQueuedOn_iff]
    · by_cases hc : c = b
      · subst hc
        rw [hlink.refs_none, add_zero]
      · rw [hlink.bundles c hc]

/-- The bundle without its mapping for a node. -/
def unmapped (s : BundleLists) (l b n : ℕ) : ListedBundle :=
  { s.bundles b with mappings := (s.bundles b).mappings.erase ⟨l, n⟩ }

/-- `del_bundle` at a node of the list. -/
theorem Inv.delBundle_eq {s : BundleLists} (h : Inv s) {l b n : ℕ}
    (hmem : (n, b) ∈ (s.lists l).list) :
    s.delBundle l n = .ok ((s.setBundle b (s.unmapped l b n)).eraseNode l n, b) := by
  have hfind : (s.lists l).list.find? (·.1 == n) = some (n, b) :=
    find?_of_nodup (f := Prod.fst) (h.nodes l) hmem
  rw [BundleLists.delBundle, hfind]
  dsimp only
  rw [h.mapping? hmem]
  exact if_pos rfl

/-- The node is gone from the list and from the mappings, the list's reference is dropped, and the
references from elsewhere grow by `d`. -/
theorem Inv.linked_delBundle {s t : BundleLists} (h : Inv s) {l b n : ℕ} {d : ℤ}
    (hmem : (n, b) ∈ (s.lists l).list) (hlists : t.lists = (s.eraseNode l n).lists)
    (hne : ∀ c, c ≠ b → t.bundles c = s.bundles c)
    (hb : t.bundles b = ((s.unmapped l b n).book none d).book (some l) (-1)) :
    Linked t s l b n (-d) where
  lists k hk := by
    rw [hlists]
    exact (setList_ne _ _ hk).symm
  list := by
    rw [hlists, eraseNode, setList_self]
    exact perm_cons_filter (f := Prod.fst) (h.nodes l) hmem
  size := by
    rw [hlists, eraseNode, setList_self]
    ring
  bundles c hc := (hne c hc).symm
  mappings := by
    rw [hb]
    exact List.perm_cons_erase ((h.mapped l b n).mpr hmem)
  freed := by rw [hb]; rfl
  refs_list := by simp [hb, ListedBundle.book, unmapped]
  refs k hk := by simp [hb, ListedBundle.book, unmapped, hk]
  refs_none := by simp [hb, ListedBundle.book, unmapped]
  refcount := by
    simp only [hb, ListedBundle.book, unmapped]
    ring

theorem Inv.eraseIter {s : BundleLists} (h : Inv s) {l b n : ℕ}
    (hmem : (n, b) ∈ (s.lists l).list) : ∃ t, s.eraseIter l n = .ok t ∧ Inv t := by
  have hb : (((s.setBundle b (s.unmapped l b n)).eraseNode l n)).bundles b = s.unmapped l b n :=
    setBundle_self ..
  have hcount : 2 < (s.unmapped l b n).refcount := by
    change 2 < (s.bundles b).refcount
    have hlen := List.length_pos_of_mem ((h.mapped l b n).mpr hmem)
    have := (h.live b).2
    rw [h.refcount]
    omega
  rw [BundleLists.eraseIter, h.delBundle_eq hmem]
  refine ⟨_, delRef_eq (some l) (by rw [hb]; exact (h.live b).1) (by rw [hb]; exact hcount), ?_⟩
  refine Linked.inv_of_linked (d := -0) (h.linked_delBundle (d := 0) hmem rfl (fun c hc => ?_) ?_)
    h rfl (by simp)
  · rw [setBundle_ne _ _ hc]
    exact setBundle_ne _ _ hc
  · rw [setBundle_self, hb]
    simp [ListedBundle.book]

/-- The bundle at one end is taken off, and the caller has one more reference to it. -/
theorem Inv.popNode {s : BundleLists} (h : Inv s) {l b n : ℕ} (hmem : (n, b) ∈ (s.lists l).list) :
    ∃ t, s.popNode l (some (n, b)) = .ok (t, some b) ∧ Inv t ∧
      t.lists = (s.eraseNode l n).lists ∧ 3 ≤ (t.bundles b).refs none := by
  have hsize : (s.lists l).listSize ≠ 0 := by
    rw [h.size]
    have := List.length_pos_of_mem hmem
    omega
  have hb : (((s.setBundle b (s.unmapped l b n)).eraseNode l n)).bundles b = s.unmapped l b n :=
    setBundle_self ..
  have hlive : (s.unmapped l b n).freed = false := (h.live b).1
  have hcount : 2 < ((s.unmapped l b n).book none 1).refcount := by
    change 2 < (s.bundles b).refcount + 1
    have := (h.live b).2
    rw [h.refcount]
    omega
  rw [BundleLists.popNode, if_neg hsize]
  simp only [h.delBundle_eq hmem, bind, Except.bind]
  rw [addRef_eq none (by rw [hb]; exact hlive), hb]
  simp only []
  rw [delRef_eq (some l) (by rw [setBundle_self]; exact hlive) (by rw [setBundle_self]; exact hcount)]
  refine ⟨_, rfl, ?_, rfl, ?_⟩
  · refine Linked.inv_of_linked (d := -1) (h.linked_delBundle (d := 1) hmem rfl (fun c hc => ?_) ?_)
      h rfl (by simp)
    · rw [setBundle_ne _ _ hc, setBundle_ne _ _ hc]
      exact setBundle_ne _ _ hc
    · rw [setBundle_self, setBundle_self]
  · rw [setBundle_self, setBundle_self]
    have := (h.live b).2
    simp only [ListedBundle.book, unmapped, reduceCtorEq, if_false, if_true]
    omega

theorem Inv.popFront {s : BundleLists} (h : Inv s) (l : ℕ) :
    ∃ t r, s.popFront l = .ok (t, r) ∧ Inv t := by
  rw [BundleLists.popFront]
  rcases hl : (s.lists l).list.head? with _ | ⟨n, b⟩
  · have hsize : (s.lists l).listSize = 0 := by
      rw [h.size, List.head?_eq_none_iff.mp hl]
      rfl
    exact ⟨s, none, if_pos hsize, h⟩
  · obtain ⟨t, ht, hinv, -, -⟩ := h.popNode (List.mem_of_mem_head? hl)
    exact ⟨t, some b, ht, hinv⟩

theorem Inv.popBack {s : BundleLists} (h : Inv s) (l : ℕ) :
    ∃ t r, s.popBack l = .ok (t, r) ∧ Inv t := by
  rw [BundleLists.popBack]
  rcases hl : (s.lists l).list.getLast? with _ | ⟨n, b⟩
  · have hsize : (s.lists l).listSize = 0 := by
      rw [h.size, List.getLast?_eq_none_iff.mp hl]
      rfl
    exact ⟨s, none, if_pos hsize, h⟩
  · obtain ⟨t, ht, hinv, -, -⟩ := h.popNode (List.mem_of_mem_getLast? hl)
    exact ⟨t, some b, ht, hinv⟩

theorem Inv.erase {s : BundleLists} (h : Inv s) (l b : ℕ) : ∃ t, s.erase l b = .ok t ∧ Inv t := by
  rw [BundleLists.erase]
  rcases hm : s.mapping? l b with _ | ⟨k, n⟩
  · exact ⟨s, rfl, h⟩
  · obtain rfl : k = l := by simpa using List.find?_some hm
    have hmem := (h.mapped k b n).mp (List.mem_of_find?_eq_some hm)
    have hfind : (s.lists k).list.find? (·.1 == n) = some (n, b) :=
      find?_of_nodup (f := Prod.fst) (h.nodes k) hmem
    simp only [hfind, if_true]
    exact h.eraseIter hmem

/-- Every round takes one bundle off the list. -/
theorem Inv.moveLoop {l other : ℕ} (hne : l ≠ other) {k : ℕ} {s : BundleLists} (h : Inv s)
    (hk : (s.lists l).list.length ≤ k) : ∃ t, BundleLists.moveLoop l other k s = .ok t ∧ Inv t := by
  induction k generalizing s with
  | zero =>
    have hnil : (s.lists l).list.isEmpty = true := by simpa using hk
    exact ⟨s, by rw [BundleLists.moveLoop, if_pos hnil], h⟩
  | succ k ih =>
    by_cases hnil : (s.lists l).list.isEmpty = true
    · exact ⟨s, by rw [BundleLists.moveLoop, if_pos hnil], h⟩
    · obtain ⟨⟨n, b⟩, rest, hl⟩ := List.exists_cons_of_ne_nil (by simpa using hnil)
      obtain ⟨t, ht, htinv, htl, htb⟩ := h.popNode (l := l) (b := b) (n := n) (by rw [hl]; exact List.mem_cons_self)
      obtain ⟨u, hu, huinv, hul, hub⟩ := htinv.addBundle other b (le_refl (t.lists other).list.length)
      obtain ⟨v, hv, hvinv, hvl⟩ := huinv.delRef (b := b) (by rw [hub]; exact htb)
      have hfront : s.popFront l = .ok (t, some b) := by
        rw [BundleLists.popFront, hl]
        exact ht
      rw [BundleLists.moveLoop, if_neg hnil]
      simp only [hfront, bind, Except.bind, pushBack, hu, hv]
      apply ih hvinv
      rw [hvl, hul l hne, htl, eraseNode, setList_self]
      have hlen : (s.lists l).list.length = ((s.lists l).list.filter (·.1 != n)).length + 1 :=
        (perm_cons_filter (f := Prod.fst) (a := (n, b)) (h.nodes l)
          (by rw [hl]; exact List.mem_cons_self)).length_eq
      change ((s.lists l).list.filter (·.1 != n)).length ≤ k
      omega

theorem Inv.insertRandom {s : BundleLists} (h : Inv s) (l b random : ℕ) :
    ∃ t, s.insertRandom l b random = .ok t ∧ Inv t := by
  have hlocation : (if (s.lists l).listSize = 0 then 0 else (random % (s.lists l).listSize).toNat) ≤
      (s.lists l).list.length := by
    split_ifs with hz
    · exact Nat.zero_le _
    · have hpos : 0 < (s.lists l).listSize := by
        have := h.size l
        omega
      have := Int.emod_lt_of_pos (random : ℤ) hpos
      have := h.size l
      omega
  obtain ⟨t, ht, hinv, -⟩ := h.addBundle l b hlocation
  exact ⟨t, by rw [BundleLists.insertRandom, if_pos hlocation, ht], hinv⟩

theorem Inv.insertSorted {s : BundleLists} (h : Inv s) (l b : ℕ) {o : SortOrder}
    (ho : o = .fragOffset ∨ (s.lists l).list = []) : ∃ t, s.insertSorted l b o = .ok t ∧ Inv t := by
  cases o with
  | fragOffset =>
    have hpos : s.sortedPosition l b ≤ (s.lists l).list.length := (List.takeWhile_prefix _).length_le
    obtain ⟨t, ht, hinv, -⟩ := h.addBundle l b hpos
    exact ⟨t, ht, hinv⟩
  | priority =>
    have hnil : (s.lists l).list = [] := by simpa using ho
    obtain ⟨t, ht, hinv, -⟩ := h.addBundle l b (Nat.zero_le (s.lists l).list.length)
    refine ⟨t, ?_, hinv⟩
    rw [BundleLists.insertSorted, hnil, ← ht]
    rfl

theorem Inv.moveContents {s : BundleLists} (h : Inv s) {l other : ℕ}
    (hl : l ≠ other ∨ (s.lists l).list = []) : ∃ t, s.moveContents l other = .ok t ∧ Inv t := by
  rcases hl with hne | hnil
  · exact h.moveLoop hne le_rfl
  · refine ⟨s, ?_, h⟩
    rw [BundleLists.moveContents, BundleLists.moveLoop.eq_def]
    simp [hnil]

/-! ## Whole runs -/

/-- A list is cleared only when it is empty, and not moved to itself unless it is; bundles are not
sorted into a list by priority unless it is empty; an iterator points into its list; and a reference
that is dropped is not one of the last two from elsewhere. -/
def Sound (s : BundleLists) : Op → Prop
  | .insertSorted l _ o => o = .fragOffset ∨ (s.lists l).list = []
  | .eraseIter l node => node ∈ (s.lists l).list.map (·.1)
  | .moveContents l other => l ≠ other ∨ (s.lists l).list = []
  | .clear l => (s.lists l).list = []
  | .delRef b => 3 ≤ (s.bundles b).refs none
  | _ => True

instance (s : BundleLists) (op : Op) : Decidable (Sound s op) := by
  unfold Sound
  split <;> infer_instance

theorem Inv.step {s : BundleLists} (h : Inv s) {op : Op} (hop : Sound s op) :
    ∃ t, s.step op = .ok t ∧ Inv t := by
  cases op with
  | pushFront l b =>
    obtain ⟨t, ht, hinv, -⟩ := h.addBundle l b (Nat.zero_le (s.lists l).list.length)
    exact ⟨t, ht, hinv⟩
  | pushBack l b =>
    obtain ⟨t, ht, hinv, -⟩ := h.addBundle l b (le_refl (s.lists l).list.length)
    exact ⟨t, ht, hinv⟩
  | insertSorted l b o => exact h.insertSorted l b hop
  | insertRandom l b r => exact h.insertRandom l b r
  | popFront l =>
    obtain ⟨t, r, ht, hinv⟩ := h.popFront l
    exact ⟨t, by rw [BundleLists.step, ht]; rfl, hinv⟩
  | popBack l =>
    obtain ⟨t, r, ht, hinv⟩ := h.popBack l
    exact ⟨t, by rw [BundleLists.step, ht]; rfl, hinv⟩
  | erase l b => exact h.erase l b
  | eraseIter l node =>
    obtain ⟨⟨n, b⟩, hmem, rfl⟩ := List.mem_map.mp hop
    exact h.eraseIter hmem
  | moveContents l other => exact h.moveContents hop
  | clear l =>
    have hclear : s.clear l = s := by
      have hl : ({ s.lists l with list := [] } : BundleList) = s.lists l := by rw [← hop]
      rw [BundleLists.clear, hl]
      simp [setList]
    exact ⟨s, by rw [BundleLists.step, hclear], h⟩
  | addRef b => exact h.addRef b
  | delRef b =>
    obtain ⟨t, ht, hinv, -⟩ := h.delRef hop
    exact ⟨t, ht, hinv⟩

/-- What the lists are to represent: the size is the number of elements and no bundle occurs twice;
a bundle is on a list if it has exactly one mapping for it, which points to its node, and otherwise
it has none; and the references held for a list are as many as its elements. -/
def Represents (s : BundleLists) : Prop := ∀ l,
  (s.lists l).listSize = (s.members l).length ∧ (s.members l).Nodup ∧
  (∀ b, b ∈ s.members l ↔ ∃ n, (s.bundles b).mappings.filter (·.list == l) = [⟨l, n⟩] ∧
    (n, b) ∈ (s.lists l).list) ∧
  (∀ b, b ∉ s.members l →
    (s.bundles b).mappings.filter (·.list == l) = [] ∧ (s.bundles b).refs (some l) = 0) ∧
  ((s.members l).map (fun b => (s.bundles b).refs (some l))).sum = (s.lists l).listSize

theorem Inv.filter_mappings {s : BundleLists} (h : Inv s) {l b n : ℕ}
    (hmem : (n, b) ∈ (s.lists l).list) :
    (s.bundles b).mappings.filter (·.list == l) = [⟨l, n⟩] := by
  have hperm := perm_cons_filter (f := BundleMapping.list) (h.mappings b) ((h.mapped l b n).mpr hmem)
  have hrest : (((s.bundles b).mappings.filter (fun x => x.list != l)).filter (·.list == l)) = [] := by
    simp [List.filter_filter]
  have := hperm.filter (·.list == l)
  rw [List.filter_cons_of_pos (by simp)] at this
  change List.Perm _ (_ :: (((s.bundles b).mappings.filter (fun x => x.list != l)).filter (·.list == l))) at this
  rw [hrest] at this
  exact List.perm_singleton.mp this

theorem Inv.represents {s : BundleLists} (h : Inv s) : Represents s := by
  intro l
  have hsize : (s.lists l).listSize = (s.members l).length := by rw [h.size, BundleLists.members, List.length_map]
  refine ⟨hsize, h.members l, fun b => ⟨fun hb => ?_, fun ⟨n, _, hn⟩ => ?_⟩, fun b hb => ⟨?_, ?_⟩, ?_⟩
  · obtain ⟨⟨n, c⟩, hmem, rfl⟩ := List.mem_map.mp hb
    exact ⟨n, h.filter_mappings hmem, hmem⟩
  · exact List.mem_map.mpr ⟨(n, b), hn, rfl⟩
  · rw [List.filter_eq_nil_iff]
    rintro ⟨k, n⟩ hm hk
    obtain rfl : k = l := by simpa using hk
    exact hb (List.mem_map.mpr ⟨(n, b), (h.mapped k b n).mp hm, rfl⟩)
  · rw [h.refs, List.count_eq_zero_of_not_mem hb]
    rfl
  · have hone : (s.members l).map (fun b => (s.bundles b).refs (some l)) =
        (s.members l).map (fun _ => (1 : ℤ)) := by
      apply List.map_congr_left
      intro b hb
      rw [h.refs, List.count_eq_one_of_mem (h.members l) hb]
      rfl
    rw [hone, hsize, List.map_const', List.sum_replicate, nsmul_one]

/-- Along every run that meets the conditions the lists represent what they are to, and no assertion
fails. -/
theorem bundleLists_run (fragOffset others : ℕ → ℕ) (ops : List Op)
    (hops : Meets step Sound (initial fragOffset others) ops) :
    ∃ s, run step (initial fragOffset others) ops = .ok s ∧ Represents s := by
  obtain ⟨s, hs, hinv⟩ := run_invariant (fun s _ => Inv s) (fun s _ op h hop => h.step hop)
    (inv_initial fragOffset others) hops
  exact ⟨s, hs, hinv.represents⟩

theorem bundleLists_run_moved :
    ∃ s, run step (initial (fun b => b) (fun _ => 0)) [.pushBack 0 2, .insertSorted 0 1 .fragOffset,
      .insertRandom 0 3 5, .pushFront 1 3, .moveContents 0 1, .clear 0, .eraseIter 1 3, .popBack 1,
      .erase 1 2] = .ok s ∧ Represents s :=
  bundleLists_run _ _ _ (by decide +kernel)

/-- A cleared list keeps its size, and its bundles keep their mappings. -/
theorem clear_keeps_size :
    ¬ ∃ s, run step (initial (fun _ => 0) (fun _ => 0)) [.pushBack 0 0, .clear 0] = .ok s ∧
      Represents s := by
  rintro ⟨s, hs, hr⟩
  obtain rfl := Except.ok.inj hs
  exact absurd (hr 0).1 (by decide +kernel)

end BundleLists

end Dtnme.Bundling
