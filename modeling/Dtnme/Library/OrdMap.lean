import Mathlib

/-! # Ordered maps with bound iterators

A finite map kept as a strictly sorted association list. The operations are the
ones an ordered tree map offers: lookup, assignment, erasure, and the iterators
found by a lower bound, an upper bound, or a step back from a key. Each is
characterized through `find?`, so clients never look at the list.
-/

namespace Dtnme.Library

/-- A strictly sorted association list. The order is part of the value. -/
structure OrdMap (κ α : Type*) [LinearOrder κ] where
  entries : List (κ × α)
  sorted : entries.Pairwise (fun a b => a.1 < b.1)

namespace OrdMap

variable {κ α β : Type*} [LinearOrder κ]

instance [DecidableEq α] : DecidableEq (OrdMap κ α) := fun m n =>
  decidable_of_iff (m.entries = n.entries) ⟨fun h => by cases m; cases n; simp_all, fun h => by rw [h]⟩

def empty : OrdMap κ α := ⟨[], List.Pairwise.nil⟩

instance : Inhabited (OrdMap κ α) := ⟨empty⟩

def size (m : OrdMap κ α) : ℕ := m.entries.length

def isEmpty (m : OrdMap κ α) : Bool := m.entries.isEmpty

def lookup (k : κ) : List (κ × α) → Option α
  | [] => none
  | (j, v) :: l => if j = k then some v else lookup k l

def find? (m : OrdMap κ α) (k : κ) : Option α := lookup k m.entries

def put (k : κ) (v : α) : List (κ × α) → List (κ × α)
  | [] => [(k, v)]
  | (j, w) :: l => if k < j then (k, v) :: (j, w) :: l else
      if k = j then (k, v) :: l else (j, w) :: put k v l

theorem mem_put {k : κ} {v : α} {l : List (κ × α)} {p : κ × α} (hp : p ∈ put k v l) :
    p = (k, v) ∨ p ∈ l := by
  induction l with
  | nil => simpa [put] using hp
  | cons q l ih =>
    obtain ⟨j, w⟩ := q
    simp only [put] at hp
    split_ifs at hp with h₁ h₂
    · simpa using hp
    · rcases List.mem_cons.mp hp with h | h
      · exact Or.inl h
      · exact Or.inr (List.mem_cons_of_mem _ h)
    · rcases List.mem_cons.mp hp with h | h
      · exact Or.inr (h ▸ List.mem_cons_self)
      · exact (ih h).imp id (List.mem_cons_of_mem _)

theorem put_sorted (k : κ) (v : α) (l : List (κ × α)) (hl : l.Pairwise (fun a b => a.1 < b.1)) :
    (put k v l).Pairwise (fun a b => a.1 < b.1) := by
  induction l with
  | nil => simp [put]
  | cons q l ih =>
    obtain ⟨j, w⟩ := q
    obtain ⟨hj, hl⟩ := List.pairwise_cons.mp hl
    simp only [put]
    split_ifs with h₁ h₂
    · refine List.pairwise_cons.mpr ⟨?_, List.pairwise_cons.mpr ⟨hj, hl⟩⟩
      intro p hp
      rcases List.mem_cons.mp hp with rfl | hp
      · exact h₁
      · exact h₁.trans (hj p hp)
    · exact List.pairwise_cons.mpr ⟨fun p hp => h₂ ▸ hj p hp, hl⟩
    · refine List.pairwise_cons.mpr ⟨?_, ih hl⟩
      intro p hp
      rcases mem_put hp with rfl | hp
      · exact lt_of_le_of_ne (not_lt.mp h₁) (Ne.symm h₂)
      · exact hj p hp

/-- Assignment through a key: `m[k] = v`. -/
def insert (m : OrdMap κ α) (k : κ) (v : α) : OrdMap κ α :=
  ⟨put k v m.entries, put_sorted k v m.entries m.sorted⟩

def erase (m : OrdMap κ α) (k : κ) : OrdMap κ α :=
  ⟨m.entries.filter (fun p => decide (p.1 ≠ k)), m.sorted.filter _⟩

/-- Keep the entries whose value passes a test. -/
def filter (m : OrdMap κ α) (p : κ → α → Bool) : OrdMap κ α :=
  ⟨m.entries.filter (fun e => p e.1 e.2), m.sorted.filter _⟩

/-- Change every value in place, keeping its key. -/
def mapVal (m : OrdMap κ α) (f : κ → α → β) : OrdMap κ β :=
  ⟨m.entries.map (fun e => (e.1, f e.1 e.2)), by
    rw [List.pairwise_map]
    exact m.sorted⟩

/-- First entry whose key is not below `k`. -/
def lowerBound? (m : OrdMap κ α) (k : κ) : Option (κ × α) :=
  m.entries.find? (fun p => decide (k ≤ p.1))

/-- First entry whose key is above `k`. -/
def upperBound? (m : OrdMap κ α) (k : κ) : Option (κ × α) :=
  m.entries.find? (fun p => decide (k < p.1))

/-- The entry just before key `k`: one step back from an iterator at `k`. -/
def prev? (m : OrdMap κ α) (k : κ) : Option (κ × α) :=
  m.entries.reverse.find? (fun p => decide (p.1 < k))

/-- The entry with the largest key: one step back from the end. -/
def last? (m : OrdMap κ α) : Option (κ × α) := m.entries.getLast?

def first? (m : OrdMap κ α) : Option (κ × α) := m.entries.head?

def values (m : OrdMap κ α) : List α := m.entries.map (·.2)

theorem lookup_eq_some_iff {k : κ} {v : α} {l : List (κ × α)}
    (hl : l.Pairwise (fun a b => a.1 < b.1)) : lookup k l = some v ↔ (k, v) ∈ l := by
  induction l with
  | nil => simp [lookup]
  | cons q l ih =>
    obtain ⟨j, w⟩ := q
    obtain ⟨hj, hl⟩ := List.pairwise_cons.mp hl
    simp only [lookup]
    split_ifs with h
    · subst h
      constructor
      · rintro ⟨⟩
        exact List.mem_cons_self
      · intro hm
        rcases List.mem_cons.mp hm with h | h
        · cases h
          rfl
        · exact absurd (hj _ h) (lt_irrefl _)
    · rw [ih hl, List.mem_cons]
      constructor
      · exact Or.inr
      · rintro (h' | h')
        · cases h'
          exact absurd rfl h
        · exact h'

theorem find?_eq_some_iff {m : OrdMap κ α} {k : κ} {v : α} :
    m.find? k = some v ↔ (k, v) ∈ m.entries := lookup_eq_some_iff m.sorted

theorem find?_eq_none_iff {m : OrdMap κ α} {k : κ} :
    m.find? k = none ↔ ∀ v, (k, v) ∉ m.entries := by
  rw [Option.eq_none_iff_forall_ne_some]
  exact forall_congr' fun v => not_congr find?_eq_some_iff

theorem forall_find?_iff {m : OrdMap κ α} {p : κ → α → Prop} :
    (∀ k v, m.find? k = some v → p k v) ↔ ∀ e ∈ m.entries, p e.1 e.2 := by
  constructor
  · intro h e he
    exact h e.1 e.2 (find?_eq_some_iff.mpr he)
  · intro h k v hk
    exact h (k, v) (find?_eq_some_iff.mp hk)

theorem exists_find?_iff {m : OrdMap κ α} {p : κ → α → Prop} :
    (∃ k v, m.find? k = some v ∧ p k v) ↔ ∃ e ∈ m.entries, p e.1 e.2 := by
  constructor
  · rintro ⟨k, v, hk, hp⟩
    exact ⟨(k, v), find?_eq_some_iff.mp hk, hp⟩
  · rintro ⟨e, he, hp⟩
    exact ⟨e.1, e.2, find?_eq_some_iff.mpr he, hp⟩

instance decidableForallFind (m : OrdMap κ α) (p : κ → α → Prop) [∀ k v, Decidable (p k v)] :
    Decidable (∀ k v, m.find? k = some v → p k v) := decidable_of_iff _ forall_find?_iff.symm

instance decidableExistsFind (m : OrdMap κ α) (p : κ → α → Prop) [∀ k v, Decidable (p k v)] :
    Decidable (∃ k v, m.find? k = some v ∧ p k v) := decidable_of_iff _ exists_find?_iff.symm

@[simp] theorem find?_empty (k : κ) : (empty : OrdMap κ α).find? k = none := rfl

/-- Lookups determine the map. -/
@[ext] theorem ext {m n : OrdMap κ α} (h : ∀ k, m.find? k = n.find? k) : m = n := by
  have hmem : ∀ p : κ × α, p ∈ m.entries ↔ p ∈ n.entries := by
    rintro ⟨k, v⟩
    rw [← find?_eq_some_iff, ← find?_eq_some_iff, h]
  have hnodup : ∀ m : OrdMap κ α, m.entries.Nodup := fun m =>
    m.sorted.imp fun hab he => by
      rw [he] at hab
      exact lt_irrefl _ hab
  have hperm : m.entries.Perm n.entries :=
    (List.perm_ext_iff_of_nodup (hnodup m) (hnodup n)).mpr hmem
  have hlist : m.entries = n.entries := by
    refine List.Perm.eq_of_pairwise ?_ m.sorted n.sorted hperm
    intro a b _ _ hab hba
    exact absurd (hab.trans hba) (lt_irrefl _)
  cases m
  cases n
  simp_all

theorem lookup_put (k j : κ) (v : α) (l : List (κ × α)) :
    lookup j (put k v l) = if j = k then some v else lookup j l := by
  induction l with
  | nil =>
    simp only [put, lookup]
    split_ifs with h₁ h₂ h₂ <;> simp_all
  | cons q l ih =>
    obtain ⟨i, w⟩ := q
    simp only [put]
    split_ifs with h₁ h₂ h₃ h₃ <;> simp only [lookup] <;> grind

@[simp] theorem find?_insert (m : OrdMap κ α) (k j : κ) (v : α) :
    (m.insert k v).find? j = if j = k then some v else m.find? j :=
  lookup_put k j v m.entries

@[simp] theorem find?_erase (m : OrdMap κ α) (k j : κ) :
    (m.erase k).find? j = if j = k then none else m.find? j := by
  apply Option.ext
  intro v
  rw [find?_eq_some_iff]
  simp only [erase, List.mem_filter, decide_eq_true_eq]
  split_ifs with h
  · simp [h]
  · rw [find?_eq_some_iff]
    simp [h]

@[simp] theorem find?_mapVal (m : OrdMap κ α) (f : κ → α → β) (k : κ) :
    (m.mapVal f).find? k = (m.find? k).map (f k) := by
  apply Option.ext
  intro v
  rw [find?_eq_some_iff]
  simp only [mapVal, List.mem_map, Prod.mk.injEq, Prod.exists, Option.map_eq_some_iff,
    find?_eq_some_iff]
  constructor
  · rintro ⟨a, b, hm, rfl, rfl⟩
    exact ⟨b, hm, rfl⟩
  · rintro ⟨b, hm, rfl⟩
    exact ⟨k, b, hm, rfl, rfl⟩

/-! ## Iterators -/

omit [LinearOrder κ] in
/-- The first hit of a test precedes, in the order of the list, every other hit. -/
private theorem find?_first {l : List (κ × α)} {r : κ → κ → Prop}
    (hr : ∀ a b, r a b → ¬ r b a) (hl : l.Pairwise (fun a b => r a.1 b.1))
    (t : κ → Bool) {p : κ × α} (h : l.find? (fun q => t q.1) = some p) :
    p ∈ l ∧ t p.1 = true ∧ ∀ q ∈ l, r q.1 p.1 → t q.1 = false := by
  induction l with
  | nil => simp at h
  | cons q l ih =>
    obtain ⟨hq, hl⟩ := List.pairwise_cons.mp hl
    rw [List.find?_cons] at h
    cases ht : t q.1 with
    | true =>
      rw [ht] at h
      cases h
      refine ⟨List.mem_cons_self, ht, ?_⟩
      intro s hs hlt
      rcases List.mem_cons.mp hs with rfl | hs
      · exact absurd hlt (hr _ _ hlt)
      · exact absurd hlt (hr _ _ (hq s hs))
    | false =>
      rw [ht] at h
      obtain ⟨hp, htp, hlt⟩ := ih hl h
      refine ⟨List.mem_cons_of_mem _ hp, htp, ?_⟩
      intro s hs hs'
      rcases List.mem_cons.mp hs with rfl | hs
      · exact ht
      · exact hlt s hs hs'

theorem lowerBound?_eq_some {m : OrdMap κ α} {k j : κ} {v : α}
    (h : m.lowerBound? k = some (j, v)) :
    m.find? j = some v ∧ k ≤ j ∧ ∀ i, k ≤ i → i < j → m.find? i = none := by
  obtain ⟨hm, hk, hlt⟩ := find?_first (r := (· < ·)) (fun _ _ => not_lt_of_gt) m.sorted (fun i => decide (k ≤ i)) h
  refine ⟨find?_eq_some_iff.mpr hm, of_decide_eq_true hk, fun i hki hij => ?_⟩
  refine find?_eq_none_iff.mpr fun w hw => ?_
  exact absurd hki (of_decide_eq_false (hlt (i, w) hw hij))

theorem lowerBound?_eq_none {m : OrdMap κ α} {k : κ} (h : m.lowerBound? k = none) :
    ∀ i, k ≤ i → m.find? i = none := by
  intro i hi
  refine find?_eq_none_iff.mpr fun w hw => ?_
  have := List.find?_eq_none.mp h (i, w) hw
  exact this (decide_eq_true hi)

theorem upperBound?_eq_some {m : OrdMap κ α} {k j : κ} {v : α}
    (h : m.upperBound? k = some (j, v)) :
    m.find? j = some v ∧ k < j ∧ ∀ i, k < i → i < j → m.find? i = none := by
  obtain ⟨hm, hk, hlt⟩ := find?_first (r := (· < ·)) (fun _ _ => not_lt_of_gt) m.sorted (fun i => decide (k < i)) h
  refine ⟨find?_eq_some_iff.mpr hm, of_decide_eq_true hk, fun i hki hij => ?_⟩
  refine find?_eq_none_iff.mpr fun w hw => ?_
  exact absurd hki (of_decide_eq_false (hlt (i, w) hw hij))

theorem upperBound?_eq_none {m : OrdMap κ α} {k : κ} (h : m.upperBound? k = none) :
    ∀ i, k < i → m.find? i = none := by
  intro i hi
  refine find?_eq_none_iff.mpr fun w hw => ?_
  have := List.find?_eq_none.mp h (i, w) hw
  exact this (decide_eq_true hi)

theorem prev?_eq_some {m : OrdMap κ α} {k j : κ} {v : α} (h : m.prev? k = some (j, v)) :
    m.find? j = some v ∧ j < k ∧ ∀ i, j < i → i < k → m.find? i = none := by
  have hs : m.entries.reverse.Pairwise (fun a b => b.1 < a.1) := by
    rw [List.pairwise_reverse]
    exact m.sorted
  obtain ⟨hm, hk, hlt⟩ := find?_first (r := fun a b => b < a) (fun _ _ => not_lt_of_gt) hs
    (fun i => decide (i < k)) h
  refine ⟨find?_eq_some_iff.mpr (List.mem_reverse.mp hm), of_decide_eq_true hk, ?_⟩
  intro i hji hik
  refine find?_eq_none_iff.mpr fun w hw => ?_
  exact absurd hik (of_decide_eq_false (hlt (i, w) (List.mem_reverse.mpr hw) hji))

theorem prev?_eq_none {m : OrdMap κ α} {k : κ} (h : m.prev? k = none) :
    ∀ i, i < k → m.find? i = none := by
  intro i hi
  refine find?_eq_none_iff.mpr fun w hw => ?_
  have := List.find?_eq_none.mp h (i, w) (List.mem_reverse.mpr hw)
  exact this (decide_eq_true hi)

theorem last?_eq_some {m : OrdMap κ α} {j : κ} {v : α} (h : m.last? = some (j, v)) :
    m.find? j = some v ∧ ∀ i, j < i → m.find? i = none := by
  obtain ⟨l, hl⟩ := List.getLast?_eq_some_iff.mp h
  have hs := m.sorted
  rw [hl, List.pairwise_append] at hs
  refine ⟨find?_eq_some_iff.mpr (by rw [hl]; simp), fun i hji => ?_⟩
  refine find?_eq_none_iff.mpr fun w hw => ?_
  rw [hl] at hw
  rcases List.mem_append.mp hw with hw | hw
  · exact absurd (hs.2.2 _ hw (j, v) (by simp)) (not_lt.mpr hji.le)
  · have : i = j := by simpa using congrArg Prod.fst (List.mem_singleton.mp hw)
    exact absurd hji (by rw [this]; exact lt_irrefl _)

theorem last?_eq_none {m : OrdMap κ α} (h : m.last? = none) (i : κ) : m.find? i = none := by
  have : m.entries = [] := List.getLast?_eq_none_iff.mp h
  refine find?_eq_none_iff.mpr fun w hw => ?_
  rw [this] at hw
  cases hw

theorem first?_eq_some {m : OrdMap κ α} {j : κ} {v : α} (h : m.first? = some (j, v)) :
    m.find? j = some v ∧ ∀ i w, m.find? i = some w → j ≤ i := by
  obtain ⟨l, hl⟩ := List.head?_eq_some_iff.mp h
  have hs := m.sorted
  rw [hl, List.pairwise_cons] at hs
  constructor
  · apply find?_eq_some_iff.mpr
    simp [hl]
  · intro i w hi
    have hmem := find?_eq_some_iff.mp hi
    rw [hl] at hmem
    rcases List.mem_cons.mp hmem with heq | hin
    · exact (congrArg Prod.fst heq).ge
    · exact (hs.1 _ hin).le

theorem first?_eq_none {m : OrdMap κ α} (h : m.first? = none) (i : κ) : m.find? i = none := by
  have hnil : m.entries = [] := List.head?_eq_none_iff.mp h
  apply find?_eq_none_iff.mpr
  simp [hnil]

/-- The entries from the lower bound of `k` on, with the one before it if there is one. -/
def fromBefore (m : OrdMap κ α) (k : κ) : List (κ × α) :=
  match (m.lowerBound? k).elim m.last? (fun e => (m.prev? e.1).orElse fun _ => some e) with
  | some (j, _) => m.entries.filter (fun p => decide (j ≤ p.1))
  | none => []

/-- The entries left out lie below another entry below `k`. -/
theorem fromBefore_eq (m : OrdMap κ α) (k : κ) :
    ∃ q, m.fromBefore k = m.entries.filter (fun p => decide (q ≤ p.1)) ∧
      ∀ i w, m.find? i = some w → i < q → q < k ∧ ∃ v, m.find? q = some v := by
  unfold fromBefore
  cases hlower : m.lowerBound? k with
  | none =>
    have hnone := lowerBound?_eq_none hlower
    cases hlast : m.last? with
    | none =>
      have hempty : m.entries = [] := List.getLast?_eq_none_iff.mp hlast
      refine ⟨k, by simp [hempty], fun i w hi => ?_⟩
      simp [last?_eq_none hlast] at hi
    | some e =>
      obtain ⟨j, v⟩ := e
      have hj := (last?_eq_some hlast).1
      refine ⟨j, by simp, fun i w _ _ => ⟨?_, v, hj⟩⟩
      by_contra hge
      simp [hnone j (not_lt.mp hge)] at hj
  | some e =>
    obtain ⟨j, v⟩ := e
    obtain ⟨-, -, hfirst⟩ := lowerBound?_eq_some hlower
    cases hprev : m.prev? j with
    | none =>
      refine ⟨j, by simp [hprev], fun i w hi hlt => ?_⟩
      simp [prev?_eq_none hprev i hlt] at hi
    | some e' =>
      obtain ⟨i', w'⟩ := e'
      obtain ⟨hi', hij, -⟩ := prev?_eq_some hprev
      refine ⟨i', by simp [hprev], fun i w _ _ => ⟨?_, w', hi'⟩⟩
      by_contra hge
      simp [hfirst i' (not_lt.mp hge) hij] at hi'

/-- The smallest key. -/
def firstKey? (m : OrdMap κ α) : Option κ := m.first?.map Prod.fst

theorem firstKey?_of_first? {m : OrdMap κ α} {j : κ} {v : α} (h : m.first? = some (j, v)) :
    m.firstKey? = some j := by simp [firstKey?, h]

/-- A new entry comes first, or the first entry stays. -/
theorem firstKey?_insert (m : OrdMap κ α) (k : κ) (v : α) :
    (m.insert k v).firstKey? = some k ∨ (m.insert k v).firstKey? = m.firstKey? := by
  obtain ⟨entries, sorted⟩ := m
  cases entries with
  | nil => exact Or.inl rfl
  | cons e l =>
    simp only [firstKey?, first?, insert, put]
    split_ifs
    · exact Or.inl rfl
    · exact Or.inl rfl
    · exact Or.inr rfl

theorem isEmpty_iff {m : OrdMap κ α} : m.isEmpty = true ↔ ∀ k, m.find? k = none := by
  constructor
  · intro h k
    refine find?_eq_none_iff.mpr fun w hw => ?_
    rw [List.isEmpty_iff.mp h] at hw
    cases hw
  · intro h
    have : m = empty := ext fun k => by rw [h, find?_empty]
    rw [this]
    rfl

/-! ## Sums over the values -/

/-- The total of a measure over all values. -/
def sum (m : OrdMap κ α) (f : α → ℕ) : ℕ := (m.entries.map (fun p => f p.2)).sum

@[simp] theorem sum_empty (f : α → ℕ) : (empty : OrdMap κ α).sum f = 0 := rfl

private theorem sum_put {k : κ} {v : α} {l : List (κ × α)} (f : α → ℕ)
    (h : lookup k l = none) :
    ((put k v l).map (fun p => f p.2)).sum = f v + (l.map (fun p => f p.2)).sum := by
  induction l with
  | nil => simp [put]
  | cons q l ih =>
    obtain ⟨j, w⟩ := q
    simp only [lookup] at h
    split_ifs at h with hj
    simp only [put]
    split_ifs with h₁ h₂
    · simp
    · exact absurd h₂.symm hj
    · simp only [List.map_cons, List.sum_cons, ih h]
      omega

theorem sum_insert {m : OrdMap κ α} {k : κ} {v : α} (f : α → ℕ) (h : m.find? k = none) :
    (m.insert k v).sum f = f v + m.sum f := sum_put f h

theorem erase_insert {m : OrdMap κ α} {k : κ} {v : α} (h : m.find? k = some v) :
    (m.erase k).insert k v = m := by
  ext1 j
  rw [find?_insert, find?_erase]
  split_ifs with hj
  · rw [hj, h]
  · rfl

theorem sum_erase {m : OrdMap κ α} {k : κ} {v : α} (f : α → ℕ) (h : m.find? k = some v) :
    m.sum f = f v + (m.erase k).sum f := by
  conv_lhs => rw [← erase_insert h]
  exact sum_insert f (by simp)

theorem sum_update {m : OrdMap κ α} {k : κ} {v w : α} (f : α → ℕ) (h : m.find? k = some v) :
    (m.insert k w).sum f + f v = m.sum f + f w := by
  have hagain : m.insert k w = (m.erase k).insert k w := by
    ext1 j
    simp only [find?_insert, find?_erase]
    split_ifs <;> rfl
  rw [hagain, sum_insert f (by simp), sum_erase f h]
  omega

theorem sum_insert_le (m : OrdMap κ α) (k : κ) (v : α) (f : α → ℕ) :
    (m.insert k v).sum f ≤ f v + m.sum f := by
  cases h : m.find? k with
  | none => exact (sum_insert f h).le
  | some w =>
    have := sum_update (w := v) f h
    omega

/-- Entries put in one after the other under distinct new keys. -/
theorem sum_foldl_insert {ι : Type*} (key : ι → κ) (val : ι → α) (f : α → ℕ) {l : List ι}
    (hl : l.Pairwise (fun a b => key a ≠ key b)) {m : OrdMap κ α}
    (hm : ∀ a ∈ l, m.find? (key a) = none) :
    (l.foldl (fun m a => m.insert (key a) (val a)) m).sum f =
      (l.map (fun a => f (val a))).sum + m.sum f := by
  induction l generalizing m with
  | nil => simp
  | cons a l ih =>
    obtain ⟨ha, hl⟩ := List.pairwise_cons.mp hl
    have hnew : ∀ b ∈ l, (m.insert (key a) (val a)).find? (key b) = none := by
      intro b hb
      rw [find?_insert, if_neg (ha b hb).symm]
      exact hm b (List.mem_cons_of_mem _ hb)
    rw [List.foldl_cons, ih hl hnew, sum_insert f (hm a List.mem_cons_self), List.map_cons,
      List.sum_cons]
    omega

/-- The entries up to a key, read downwards, begin with that key. -/
theorem entries_upto_reverse {m : OrdMap κ α} {k : κ} {v : α} (h : m.find? k = some v) :
    (m.entries.filter (fun p => decide (p.1 ≤ k))).reverse =
      (k, v) :: (m.entries.filter (fun p => decide (p.1 < k))).reverse := by
  have hs := m.sorted
  have hm := find?_eq_some_iff.mp h
  clear h
  induction hl : m.entries generalizing m with
  | nil =>
    rw [hl] at hm
    cases hm
  | cons q l ih =>
    rw [hl] at hs hm
    obtain ⟨hq, hl⟩ := List.pairwise_cons.mp hs
    rcases List.mem_cons.mp hm with rfl | hm
    · have hnot : ∀ p ∈ l, ¬ p.1 ≤ k := fun p hp => not_le.mpr (hq p hp)
      have hnot' : ∀ p ∈ l, ¬ p.1 < k := fun p hp => not_lt.mpr (hq p hp).le
      rw [List.filter_cons_of_pos (by simp), List.filter_cons_of_neg (by simp),
        List.filter_eq_nil_iff.mpr (by simpa using hnot),
        List.filter_eq_nil_iff.mpr (by simpa using hnot')]
      rfl
    · have hlt : q.1 < k := hq _ hm
      rw [List.filter_cons_of_pos (by simpa using hlt.le),
        List.filter_cons_of_pos (by simpa using hlt), List.reverse_cons, List.reverse_cons,
        ih (m := ⟨l, hl⟩) hl hm rfl, List.cons_append]

private theorem put_last {k : κ} {v : α} {l : List (κ × α)} (h : ∀ p ∈ l, p.1 < k) :
    put k v l = l ++ [(k, v)] := by
  induction l with
  | nil => rfl
  | cons q l ih =>
    have hq := h q List.mem_cons_self
    rw [put, if_neg hq.not_gt, if_neg hq.ne', ih fun p hp => h p (List.mem_cons_of_mem _ hp)]
    rfl

/-- A key above all others goes to the end. -/
theorem entries_insert_last {m : OrdMap κ α} {k : κ} {v : α} (h : ∀ p ∈ m.entries, p.1 < k) :
    (m.insert k v).entries = m.entries ++ [(k, v)] := put_last h

theorem entries_nodup (m : OrdMap κ α) : m.entries.Nodup :=
  m.sorted.imp (fun h he => h.ne (congrArg Prod.fst he))

/-- A new entry, wherever it goes. -/
theorem entries_insert_perm {m : OrdMap κ α} {k : κ} {v : α} (h : m.find? k = none) :
    (m.insert k v).entries.Perm ((k, v) :: m.entries) := by
  have hnew : (k, v) ∉ m.entries := find?_eq_none_iff.mp h v
  refine (List.perm_ext_iff_of_nodup (entries_nodup _)
    (List.nodup_cons.mpr ⟨hnew, entries_nodup m⟩)).mpr (fun ⟨j, w⟩ => ?_)
  rw [← find?_eq_some_iff, find?_insert, List.mem_cons, ← find?_eq_some_iff]
  by_cases hj : j = k
  · simp [hj, h, eq_comm]
  · simp [hj]

theorem sum_one (m : OrdMap κ α) : m.sum (fun _ => 1) = m.size := by
  simp [sum, size]

theorem size_erase {m : OrdMap κ α} {k : κ} {v : α} (h : m.find? k = some v) :
    (m.erase k).size + 1 = m.size := by
  have hsum := sum_erase (fun _ => 1) h
  rw [sum_one, sum_one] at hsum
  omega

theorem size_insert {m : OrdMap κ α} {k : κ} {v : α} (h : m.find? k = none) :
    (m.insert k v).size = m.size + 1 := by
  rw [← sum_one, sum_insert _ h, sum_one, Nat.add_comm]

/-! ## Insertion that keeps what is there -/

/-- An entry under the key would stay. -/
def insertNew (m : OrdMap κ α) (p : κ × α) : OrdMap κ α :=
  if (m.find? p.1).isSome then m else m.insert p.1 p.2

theorem find?_insertNew (m : OrdMap κ α) (p : κ × α) (k : κ) :
    (m.insertNew p).find? k = (m.find? k).or (if k = p.1 then some p.2 else none) := by
  rw [insertNew]
  cases hp : m.find? p.1 with
  | some v =>
    by_cases hk : k = p.1
    · simp [hk, hp]
    · simp [hk]
  | none =>
    by_cases hk : k = p.1
    · simp [hk, hp]
    · simp [hk]

theorem size_insertNew_le (m : OrdMap κ α) (p : κ × α) : (m.insertNew p).size ≤ m.size + 1 := by
  rw [insertNew]
  split_ifs with h
  · exact Nat.le_succ _
  · exact (size_insert (Option.not_isSome_iff_eq_none.mp h)).le

theorem size_foldl_insertNew_le (m : OrdMap κ α) (l : List (κ × α)) :
    (l.foldl insertNew m).size ≤ m.size + l.length := by
  induction l generalizing m with
  | nil => exact le_rfl
  | cons p l ih =>
    have hp := size_insertNew_le m p
    have hl := ih (m.insertNew p)
    rw [List.foldl_cons, List.length_cons]
    omega

/-- Every entry is new exactly if the keys are distinct and none of them is there. -/
theorem size_foldl_insertNew_iff (m : OrdMap κ α) (l : List (κ × α)) :
    (l.foldl insertNew m).size = m.size + l.length ↔
      (l.map Prod.fst).Nodup ∧ ∀ p ∈ l, m.find? p.1 = none := by
  induction l generalizing m with
  | nil => simp
  | cons p l ih =>
    rw [List.foldl_cons, List.length_cons, List.map_cons, List.nodup_cons, List.forall_mem_cons]
    cases hp : m.find? p.1 with
    | some v =>
      have hold : m.insertNew p = m := by rw [insertNew, if_pos (by simp [hp])]
      have hle := size_foldl_insertNew_le m l
      rw [hold]
      refine iff_of_false (by omega) ?_
      rintro ⟨-, hnone, -⟩
      cases hnone
    | none =>
      have hnew : m.insertNew p = m.insert p.1 p.2 := by rw [insertNew, if_neg (by simp [hp])]
      have hsize : m.size + (l.length + 1) = (m.insertNew p).size + l.length := by
        rw [hnew, size_insert hp]
        omega
      rw [hsize, ih, hnew]
      have hfind : (∀ q ∈ l, (m.insert p.1 p.2).find? q.1 = none) ↔
          p.1 ∉ l.map Prod.fst ∧ ∀ q ∈ l, m.find? q.1 = none := by
        constructor
        · intro h
          refine ⟨?_, fun q hq => ?_⟩
          · intro hmem
            obtain ⟨q, hq, hkey⟩ := List.mem_map.mp hmem
            have := h q hq
            rw [find?_insert, if_pos hkey] at this
            cases this
          · have := h q hq
            rw [find?_insert] at this
            split_ifs at this
            exact this
        · rintro ⟨hnot, h⟩ q hq
          rw [find?_insert, if_neg, h q hq]
          rintro hkey
          exact hnot (List.mem_map.mpr ⟨q, hq, hkey⟩)
      rw [hfind]
      tauto

/-- With distinct keys every entry is found. -/
theorem find?_foldl_insertNew {m : OrdMap κ α} {l : List (κ × α)}
    (hnodup : (l.map Prod.fst).Nodup) (hnew : ∀ p ∈ l, m.find? p.1 = none) {k : κ} {v : α} :
    (l.foldl insertNew m).find? k = some v ↔ m.find? k = some v ∨ (k, v) ∈ l := by
  induction l generalizing m with
  | nil => simp
  | cons p l ih =>
    obtain ⟨hp, hl⟩ := List.forall_mem_cons.mp hnew
    rw [List.map_cons, List.nodup_cons] at hnodup
    obtain ⟨hnot, hnodup⟩ := hnodup
    rw [List.foldl_cons, ih hnodup]
    · rw [find?_insertNew, List.mem_cons]
      by_cases hk : k = p.1
      · subst hk
        simp [hp, Prod.ext_iff, eq_comm]
      · simp [hk, Prod.ext_iff]
    · intro q hq
      rw [find?_insertNew, hl q hq, Option.none_or, if_neg]
      intro hkey
      exact hnot (List.mem_map.mpr ⟨q, hq, hkey⟩)

end OrdMap

end Dtnme.Library
