import Dtnme.Bundling.Acs
import Dtnme.Library.Runs
import Dtnme.Library.Transition

/-! # The entry map of a pending custody signal

The entries stand for a set of custody ids: they are its maximal runs, and the difference
of an entry is taken from the greatest smaller id. An addition puts one id into the set.
Which entries change, and by how many bytes, follows from the neighbours of that id.
-/

namespace Dtnme.Bundling
open Library Runs

/-! ## The greatest smaller id -/

/-- The greatest member below a number, or zero. -/
def below (S : Finset ℕ) (k : ℕ) : ℕ := (S.filter (· < k)).sup id

variable {S : Finset ℕ} {c k r : ℕ}

theorem le_below {x : ℕ} (hx : x ∈ S) (hlt : x < k) : x ≤ below S k :=
  Finset.le_sup (f := id) (Finset.mem_filter.mpr ⟨hx, hlt⟩)

theorem below_eq (hle : ∀ x ∈ S, x < k → x ≤ r) (hr : r = 0 ∨ (r ∈ S ∧ r < k)) : below S k = r := by
  apply le_antisymm
  · refine Finset.sup_le fun x hx => ?_
    obtain ⟨hx, hlt⟩ := Finset.mem_filter.mp hx
    exact hle x hx hlt
  · rcases hr with rfl | ⟨hr, hlt⟩
    · exact Nat.zero_le _
    · exact le_below hr hlt

theorem below_mem (h : below S k ≠ 0) : below S k ∈ S ∧ below S k < k := by
  have hne : (S.filter (· < k)).Nonempty := by
    by_contra hempty
    rw [Finset.not_nonempty_iff_eq_empty] at hempty
    exact h (by simp [below, hempty])
  obtain ⟨x, hx, hsup⟩ := Finset.exists_mem_eq_sup (S.filter (· < k)) hne id
  rw [below, hsup]
  exact Finset.mem_filter.mp hx

theorem below_lt (hk : 0 < k) : below S k < k := by
  by_cases h : below S k = 0
  · rw [h]
    exact hk
  · exact (below_mem h).2

/-- An added id that is not below, or is below a smaller member, changes nothing. -/
theorem below_insert_of_le (h : k ≤ c ∨ ∃ x ∈ S, c ≤ x ∧ x < k) :
    below (insert c S) k = below S k := by
  refine below_eq ?_ ?_
  · intro x hx hlt
    rcases Finset.mem_insert.mp hx with rfl | hx
    · rcases h with hk | ⟨y, hy, hxy, hyk⟩
      · omega
      · exact hxy.trans (le_below hy hyk)
    · exact le_below hx hlt
  · by_cases hz : below S k = 0
    · exact Or.inl hz
    · obtain ⟨hm, hlt⟩ := below_mem hz
      exact Or.inr ⟨Finset.mem_insert_of_mem hm, hlt⟩

/-- An added id right below becomes the greatest one. -/
theorem below_insert_self (hlt : c < k) (h : ∀ x ∈ S, x < k → x < c) :
    below (insert c S) k = c := by
  refine below_eq ?_ (Or.inr ⟨Finset.mem_insert_self c S, hlt⟩)
  intro x hx hxk
  rcases Finset.mem_insert.mp hx with rfl | hx
  · exact le_rfl
  · exact (h x hx hxk).le

/-- Two numbers with no member between them. -/
theorem below_congr {n : ℕ} (hcn : c ≤ n) (hnext : ∀ x ∈ S, x < n → x < c) :
    below S n = below S c := by
  refine below_eq (fun x hx hxn => le_below hx (hnext x hx hxn)) ?_
  by_cases hz : below S c = 0
  · exact Or.inl hz
  · obtain ⟨hm, hlt⟩ := below_mem hz
    exact Or.inr ⟨hm, by omega⟩

/-! ## Entries of a set -/

/-- The entry of a run of a set, from its left edge and its number of ids. -/
def entryAt (S : Finset ℕ) (left len : ℕ) : AcsEntry :=
  ⟨left, left - below S left, len, encodingLen (left - below S left) + encodingLen len⟩

/-- The blocks of an entry map, from left edges to right edges. -/
def rightEdges (m : OrdMap ℕ AcsEntry) (k : ℕ) : Option ℕ :=
  (m.find? k).map (fun e => e.leftEdge + e.lengthOfFill - 1)

/-- The entries list the maximal runs of a set of custody ids. -/
structure EntriesOf (m : OrdMap ℕ AcsEntry) (S : Finset ℕ) : Prop where
  ids : ∀ x ∈ S, 1 ≤ x ∧ x < 2 ^ 64
  entry : ∀ {k e}, m.find? k = some e → e = entryAt S k e.lengthOfFill ∧ 1 ≤ e.lengthOfFill
  blocks : Decomposes (rightEdges m) (S : Set ℕ)

namespace EntriesOf

variable {m m' : OrdMap ℕ AcsEntry} {e : AcsEntry}

theorem empty : EntriesOf .empty ∅ where
  ids x hx := by simp at hx
  entry h := by simp at h
  blocks := Decomposes.empty.congr (fun _ => rfl) (by simp)

theorem keyed (h : EntriesOf m S) (hf : m.find? k = some e) : e.leftEdge = k := by
  rw [(h.entry hf).1, entryAt]

theorem diff (h : EntriesOf m S) (hf : m.find? k = some e) :
    e.diffToPrevRightEdge = k - below S k := by
  rw [(h.entry hf).1, entryAt]

theorem size (h : EntriesOf m S) (hf : m.find? k = some e) :
    e.sdnvLength = encodingLen (k - below S k) + encodingLen e.lengthOfFill := by
  conv_lhs => rw [(h.entry hf).1, entryAt]

theorem rightEdges_eq (h : EntriesOf m S) (hf : m.find? k = some e) :
    rightEdges m k = some (k + e.lengthOfFill - 1) := by
  rw [rightEdges, hf, Option.map_some, h.keyed hf]

/-- The ids of an entry. -/
theorem mem (h : EntriesOf m S) (hf : m.find? k = some e) {x : ℕ} (hk : k ≤ x)
    (hx : x < k + e.lengthOfFill) : x ∈ S := by
  have := h.blocks.mem (h.rightEdges_eq hf) hk (by omega)
  exact this

theorem covered (h : EntriesOf m S) {x : ℕ} (hx : x ∈ S) :
    ∃ k e, m.find? k = some e ∧ k ≤ x ∧ x < k + e.lengthOfFill := by
  obtain ⟨k, b, hf, hk, hb⟩ := (h.blocks.covers x).mp hx
  obtain ⟨e, he, rfl⟩ := Option.map_eq_some_iff.mp hf
  have hleft := h.keyed he
  have hlen := (h.entry he).2
  exact ⟨k, e, he, hk, by omega⟩

theorem gap (h : EntriesOf m S) {k' : ℕ} {e' : AcsEntry} (hf : m.find? k = some e)
    (hf' : m.find? k' = some e') (hlt : k < k') : k + e.lengthOfFill < k' := by
  have := h.blocks.gap (h.rightEdges_eq hf) (h.rightEdges_eq hf') hlt
  have := (h.entry hf).2
  omega

theorem bound (h : EntriesOf m S) (hf : m.find? k = some e) :
    1 ≤ k ∧ k + e.lengthOfFill ≤ 2 ^ 64 := by
  have hlen := (h.entry hf).2
  have hfirst := h.ids k (h.mem hf le_rfl (by omega))
  have hlast := h.ids (k + e.lengthOfFill - 1) (h.mem hf (by omega) (by omega))
  omega

/-- No id of the set lies right behind an entry. -/
theorem after_not_mem (h : EntriesOf m S) (hf : m.find? k = some e) : k + e.lengthOfFill ∉ S := by
  have hlen := (h.entry hf).2
  have := h.blocks.succ_not_mem (h.rightEdges_eq hf)
  rwa [show k + e.lengthOfFill - 1 + 1 = k + e.lengthOfFill by omega] at this

/-- The greatest id below an entry that has a previous entry. -/
theorem below_prev (h : EntriesOf m S) {j : ℕ} {p : AcsEntry} (hp : m.find? j = some p)
    (hlt : j < k) (hnone : ∀ i, j < i → i < k → m.find? i = none) (hend : j + p.lengthOfFill ≤ k) :
    below S k = j + p.lengthOfFill - 1 := by
  have hlen := (h.entry hp).2
  refine below_eq ?_ (Or.inr ⟨h.mem hp (by omega) (by omega), by omega⟩)
  intro x hx hxk
  obtain ⟨i, e, hi, hix, hxi⟩ := h.covered hx
  rcases lt_trichotomy i j with hij | rfl | hij
  · have := h.gap hi hp hij
    omega
  · rw [hp] at hi
    cases hi
    omega
  · rw [hnone i hij (by omega)] at hi
    cases hi

theorem below_first (h : EntriesOf m S) (hnone : ∀ i, i < k → m.find? i = none) : below S k = 0 := by
  refine below_eq ?_ (Or.inl rfl)
  intro x hx hxk
  obtain ⟨i, e, hi, hix, -⟩ := h.covered hx
  rw [hnone i (by omega)] at hi
  cases hi

/-- An entry whose difference does not change stays the same. -/
theorem find_entryAt (h : EntriesOf m S) (hk : below (insert c S) k = below S k) :
    m.find? k = (rightEdges m k).map (fun b => entryAt (insert c S) k (b + 1 - k)) := by
  cases hf : m.find? k with
  | none => rw [rightEdges, hf, Option.map_none, Option.map_none]
  | some e =>
    obtain ⟨he, hlen⟩ := h.entry hf
    rw [h.rightEdges_eq hf, Option.map_some, Option.some.injEq, he]
    simp only [entryAt, hk]
    rw [show k + e.lengthOfFill - 1 + 1 - k = e.lengthOfFill by omega]

/-- The id joins everything that it touches into one block, and the other entries follow. -/
theorem grow (h : EntriesOf m S) {a b : ℕ} (hid : 1 ≤ c ∧ c < 2 ^ 64) (hac : a ≤ c) (hcb : c ≤ b)
    (hfill : ∀ x, a ≤ x → x ≤ b → x = c ∨ x ∈ S) (hlow : ∀ x ∈ S, x < a → x + 1 < a)
    (hhigh : ∀ x ∈ S, b < x → b + 1 < x)
    (hfind : ∀ k, m'.find? k = if k = a then some (entryAt (insert c S) a (b + 1 - a)) else
      if a ≤ k ∧ k ≤ b then none else
        (rightEdges m k).map (fun b => entryAt (insert c S) k (b + 1 - k))) :
    EntriesOf m' (insert c S) := by
  have hedges : ∀ k, rightEdges m' k = if k = a then some b else
      if a ≤ k ∧ k ≤ b then none else rightEdges m k := by
    intro k
    rw [rightEdges, hfind]
    split_ifs with h₁ h₂
    · rw [Option.map_some, entryAt]
      simp only
      rw [show a + (b + 1 - a) - 1 = b by omega]
    · rfl
    · cases hf : m.find? k with
      | none => rw [rightEdges, hf]; rfl
      | some e =>
        have hlen := (h.entry hf).2
        rw [h.rightEdges_eq hf, Option.map_some, Option.map_some, entryAt]
        simp only
        rw [show k + (k + e.lengthOfFill - 1 + 1 - k) - 1 = k + e.lengthOfFill - 1 by omega]
  have hblock : ∀ p q, rightEdges m p = some q → p ∈ S ∧ q ∈ S ∧ p ≤ q := fun p q hpq =>
    ⟨h.blocks.mem hpq le_rfl (h.blocks.ordered hpq), h.blocks.mem hpq (h.blocks.ordered hpq) le_rfl,
      h.blocks.ordered hpq⟩
  refine ⟨?_, ?_, ?_⟩
  · intro x hx
    rcases Finset.mem_insert.mp hx with rfl | hx
    · exact hid
    · exact h.ids x hx
  · intro k e hf
    rw [hfind] at hf
    split_ifs at hf with h₁ h₂
    · subst h₁
      cases hf
      exact ⟨rfl, by simp only [entryAt]; omega⟩
    · obtain ⟨q, hq, rfl⟩ := Option.map_eq_some_iff.mp hf
      have := h.blocks.ordered hq
      exact ⟨rfl, by simp only [entryAt]; omega⟩
  · refine h.blocks.replace (hac.trans hcb) ?_ ?_ ?_ hedges ?_
    · intro p q hpq hpa
      obtain ⟨-, hq, hle⟩ := hblock p q hpq
      rcases Nat.lt_or_ge q a with hqa | hqa
      · exact hlow q hq hqa
      · have ha : a - 1 ∈ S := h.blocks.mem hpq (by omega) (by omega)
        have := hlow (a - 1) ha (by omega)
        omega
    · intro p q hpq hap hpb
      obtain ⟨-, hq, hle⟩ := hblock p q hpq
      by_contra hlt
      have hb : b + 1 ∈ S := h.blocks.mem hpq (by omega) (by omega)
      have := hhigh (b + 1) hb (by omega)
      omega
    · intro p q hpq hbp
      obtain ⟨hp, -, -⟩ := hblock p q hpq
      exact hhigh p hp hbp
    · intro x
      rw [Finset.mem_coe, Finset.mem_insert, Finset.mem_coe]
      constructor
      · rintro (rfl | hx)
        · exact Or.inr ⟨hac, hcb⟩
        · exact Or.inl hx
      · rintro (hx | ⟨h₁, h₂⟩)
        · exact Or.inr hx
        · exact hfill x h₁ h₂

/-! ## The six ways of adding an id -/

theorem not_mem_find (h : EntriesOf m S) (hc : c ∉ S) : m.find? c = none := by
  cases hf : m.find? c with
  | none => rfl
  | some e =>
    have hlen := (h.entry hf).2
    exact absurd (h.mem hf le_rfl (by omega)) hc

/-- Above everything, touching nothing. -/
theorem insertAtEnd (h : EntriesOf m S) (hid : 1 ≤ c ∧ c < 2 ^ 64) (hlast : ∀ x ∈ S, x + 1 < c) :
    EntriesOf (m.insert c (entryAt (insert c S) c 1)) (insert c S) := by
  refine h.grow hid le_rfl le_rfl (fun x _ _ => Or.inl (by omega)) (fun x hx _ => hlast x hx)
    (fun x hx _ => by have := hlast x hx; omega) fun k => ?_
  rw [OrdMap.find?_insert]
  by_cases hk : k = c
  · rw [if_pos hk, if_pos hk, Nat.add_sub_cancel_left]
  · rw [if_neg hk, if_neg hk, if_neg (by omega)]
    cases hf : m.find? k with
    | none => rw [rightEdges, hf]; rfl
    | some e =>
      have hmem := hlast k (h.mem hf le_rfl (by have := (h.entry hf).2; omega))
      rw [← hf]
      exact h.find_entryAt (below_insert_of_le (Or.inl (by omega)))

theorem left_mem (h : EntriesOf m S) (hf : m.find? k = some e) : k ∈ S := by
  have hlen := (h.entry hf).2
  exact h.mem hf le_rfl (by omega)

/-- Only the next entry is concerned by a new greatest smaller id. -/
theorem find_other (h : EntriesOf m S) {n : ℕ} (hn : n ∈ S) (hcn : c < n)
    (hnext : ∀ x ∈ S, x < n → x < c) (hk : k ≠ n) :
    m.find? k = (rightEdges m k).map (fun b => entryAt (insert c S) k (b + 1 - k)) := by
  cases hf : m.find? k with
  | none => rw [rightEdges, hf]; rfl
  | some e =>
    rw [← hf]
    apply h.find_entryAt
    apply below_insert_of_le
    rcases Nat.lt_or_ge c k with hlt | hge
    · refine Or.inr ⟨n, hn, hcn.le, ?_⟩
      have := hnext k (h.left_mem hf)
      omega
    · exact Or.inl hge

/-- Below some entry, touching nothing. -/
theorem insertBefore (h : EntriesOf m S) {n : ℕ} (hid : 1 ≤ c ∧ c < 2 ^ 64)
    (hn : m.find? n = some e) (hcn : c + 1 < n) (hnext : ∀ x ∈ S, x < n → x + 1 < c) :
    EntriesOf ((m.insert c (entryAt (insert c S) c 1)).insert n
      (entryAt (insert c S) n e.lengthOfFill)) (insert c S) := by
  have hhigh : ∀ x ∈ S, c < x → c + 1 < x := by
    intro x hx hcx
    rcases Nat.lt_or_ge x n with hxn | hxn
    · have := hnext x hx hxn
      omega
    · omega
  refine h.grow hid le_rfl le_rfl (fun x _ _ => Or.inl (by omega))
    (fun x hx hxc => hnext x hx (by omega)) hhigh fun k => ?_
  rw [OrdMap.find?_insert, OrdMap.find?_insert]
  by_cases hkn : k = n
  · subst hkn
    have hlen := (h.entry hn).2
    rw [if_pos rfl, if_neg (by omega), if_neg (by omega), h.rightEdges_eq hn, Option.map_some,
      show k + e.lengthOfFill - 1 + 1 - k = e.lengthOfFill by omega]
  · by_cases hkc : k = c
    · rw [if_neg hkn, if_pos hkc, if_pos hkc, Nat.add_sub_cancel_left]
    · rw [if_neg hkn, if_neg hkc, if_neg hkc, if_neg (by omega)]
      exact h.find_other (h.left_mem hn) (by omega)
        (fun x hx hxn => by have := hnext x hx hxn; omega) hkn

theorem find_inside (h : EntriesOf m S) {j : ℕ} (hj : m.find? j = some e) (hjk : j < k)
    (hke : k ≤ j + e.lengthOfFill) : m.find? k = none := by
  cases hf : m.find? k with
  | none => rfl
  | some e' =>
    have := h.gap hj hf hjk
    omega

theorem before_lt (h : EntriesOf m S) {j x : ℕ} (hj : m.find? j = some e) (hx : x ∈ S)
    (hxj : x < j) : x + 1 < j := by
  have hpred : j - 1 ∉ S := h.blocks.pred_not_mem (h.rightEdges_eq hj) (by omega)
  by_contra hge
  rw [show j - 1 = x by omega] at hpred
  exact hpred hx

/-- The id goes right behind an entry, and the next entry, if there is one, is farther away. -/
theorem extend (h : EntriesOf m S) {j : ℕ} (hid : 1 ≤ c ∧ c < 2 ^ 64) (hj : m.find? j = some e)
    (hjc : j + e.lengthOfFill = c) (hhigh : ∀ x ∈ S, c < x → c + 1 < x)
    (hat : m'.find? j = some (entryAt (insert c S) j (e.lengthOfFill + 1)))
    (hfind : ∀ k, k ≠ j → m'.find? k =
      (rightEdges m k).map (fun b => entryAt (insert c S) k (b + 1 - k))) :
    EntriesOf m' (insert c S) := by
  have hlen := (h.entry hj).2
  refine h.grow hid (a := j) (b := c) (by omega) le_rfl ?_ (fun x hx => h.before_lt hj hx) hhigh
    fun k => ?_
  · intro x hjx hxc
    by_cases hx : x = c
    · exact Or.inl hx
    · exact Or.inr (h.mem hj hjx (by omega))
  · by_cases hkj : k = j
    · rw [if_pos hkj, hkj, hat, show c + 1 - j = e.lengthOfFill + 1 by omega]
    · rw [if_neg hkj, hfind k hkj]
      split_ifs with hin
      · rw [rightEdges, h.find_inside hj (by omega) (by omega)]
        rfl
      · rfl

theorem extendAtEnd (h : EntriesOf m S) {j : ℕ} (hid : 1 ≤ c ∧ c < 2 ^ 64)
    (hj : m.find? j = some e) (hjc : j + e.lengthOfFill = c) (hlast : ∀ x ∈ S, x < c) :
    EntriesOf (m.insert j (entryAt (insert c S) j (e.lengthOfFill + 1))) (insert c S) := by
  refine h.extend hid hj hjc (fun x hx hcx => absurd (hlast x hx) (by omega)) (by simp) fun k hk => ?_
  rw [OrdMap.find?_insert, if_neg hk]
  cases hf : m.find? k with
  | none => rw [rightEdges, hf]; rfl
  | some e =>
    have := hlast k (h.left_mem hf)
    rw [← hf]
    exact h.find_entryAt (below_insert_of_le (Or.inl (by omega)))

theorem extendBefore (h : EntriesOf m S) {j n : ℕ} {e' : AcsEntry} (hid : 1 ≤ c ∧ c < 2 ^ 64)
    (hj : m.find? j = some e) (hjc : j + e.lengthOfFill = c) (hn : m.find? n = some e')
    (hcn : c + 1 < n) (hnext : ∀ x ∈ S, x < n → x < c) :
    EntriesOf ((m.insert j (entryAt (insert c S) j (e.lengthOfFill + 1))).insert n
      (entryAt (insert c S) n e'.lengthOfFill)) (insert c S) := by
  have hlen := (h.entry hj).2
  have hlen' := (h.entry hn).2
  refine h.extend hid hj hjc ?_ ?_ fun k hk => ?_
  · intro x hx hcx
    have := hnext x hx
    omega
  · rw [OrdMap.find?_insert, if_neg (by omega), OrdMap.find?_insert, if_pos rfl]
  · rw [OrdMap.find?_insert, OrdMap.find?_insert]
    by_cases hkn : k = n
    · rw [if_pos hkn, hkn, h.rightEdges_eq hn, Option.map_some,
        show n + e'.lengthOfFill - 1 + 1 - n = e'.lengthOfFill by omega]
    · rw [if_neg hkn, if_neg hk]
      exact h.find_other (h.left_mem hn) (by omega) hnext hkn

/-- The id goes right before an entry and does not reach the one before it. -/
theorem prepend (h : EntriesOf m S) {n : ℕ} (hid : 1 ≤ c ∧ c < 2 ^ 64) (hn : m.find? n = some e)
    (hcn : c + 1 = n) (hnext : ∀ x ∈ S, x < n → x + 1 < c) :
    EntriesOf ((m.erase n).insert c (entryAt (insert c S) c (e.lengthOfFill + 1))) (insert c S) := by
  have hlen := (h.entry hn).2
  refine h.grow hid (a := c) (b := c + e.lengthOfFill) le_rfl (by omega) ?_
    (fun x hx hxc => hnext x hx (by omega)) ?_ fun k => ?_
  · intro x hcx hxb
    by_cases hx : x = c
    · exact Or.inl hx
    · exact Or.inr (h.mem hn (by omega) (by omega))
  · intro x hx hbx
    have hafter := h.after_not_mem hn
    by_contra hge
    rw [show n + e.lengthOfFill = x by omega] at hafter
    exact hafter hx
  · rw [OrdMap.find?_insert, OrdMap.find?_erase]
    by_cases hkc : k = c
    · rw [if_pos hkc, if_pos hkc, show c + e.lengthOfFill + 1 - c = e.lengthOfFill + 1 by omega]
    · rw [if_neg hkc, if_neg hkc]
      by_cases hkn : k = n
      · rw [if_pos hkn, if_pos (by omega)]
      · rw [if_neg hkn, h.find_other (c := c) (h.left_mem hn) (by omega)
          (fun x hx hxn => by have := hnext x hx hxn; omega) hkn]
        split_ifs with hin
        · rw [rightEdges, h.find_inside hn (by omega) (by omega)]
          rfl
        · rfl

/-- The id joins two entries. -/
theorem join (h : EntriesOf m S) {j n : ℕ} {e' : AcsEntry} (hid : 1 ≤ c ∧ c < 2 ^ 64)
    (hj : m.find? j = some e) (hjc : j + e.lengthOfFill = c) (hn : m.find? n = some e')
    (hcn : c + 1 = n) :
    EntriesOf ((m.insert j (entryAt (insert c S) j (e.lengthOfFill + e'.lengthOfFill + 1))).erase n)
      (insert c S) := by
  have hlen := (h.entry hj).2
  have hlen' := (h.entry hn).2
  refine h.grow hid (a := j) (b := c + e'.lengthOfFill) (by omega) (by omega) ?_
    (fun x hx => h.before_lt hj hx) ?_ fun k => ?_
  · intro x hjx hxb
    rcases lt_trichotomy x c with hlt | heq | hgt
    · exact Or.inr (h.mem hj hjx (by omega))
    · exact Or.inl heq
    · exact Or.inr (h.mem hn (by omega) (by omega))
  · intro x hx hbx
    have hafter := h.after_not_mem hn
    by_contra hge
    rw [show n + e'.lengthOfFill = x by omega] at hafter
    exact hafter hx
  · rw [OrdMap.find?_erase, OrdMap.find?_insert]
    by_cases hkj : k = j
    · rw [if_neg (by omega), if_pos hkj, if_pos hkj,
        show c + e'.lengthOfFill + 1 - j = e.lengthOfFill + e'.lengthOfFill + 1 by omega]
    · rw [if_neg hkj, if_neg hkj]
      by_cases hkn : k = n
      · rw [if_pos hkn, if_pos (by omega)]
      · rw [if_neg hkn, h.find_other (c := c) (h.left_mem hn) (by omega) ?_ hkn]
        · split_ifs with hin
          · have hnone : m.find? k = none := by
              rcases Nat.lt_or_ge k n with hlt | hge
              · exact h.find_inside hj (by omega) (by omega)
              · exact h.find_inside hn (by omega) (by omega)
            rw [rightEdges, hnone]
            rfl
          · rfl
        · intro x hx hxn
          have := h.before_lt hn hx hxn
          omega

end EntriesOf

/-! ## Planning and carrying out -/

/-- A plan that puts the id into the set, with the change in bytes that it announces. -/
structure Planned (m : OrdMap ℕ AcsEntry) (S : Finset ℕ) (c : ℕ) (ch : AcsChanges) : Prop where
  op : ch.aeOp ≠ .noop
  entries : EntriesOf (applyToMap m ch c) (insert c S)
  size : ((applyToMap m ch c).sum (·.sdnvLength) : ℤ) = m.sum (·.sdnvLength) + ch.delta
  few : ch.delta ≤ 11

variable {pacs : PendingAcs}

theorem encodingLen_le_ten {n : ℕ} (h : n < 2 ^ 64) : encodingLen n ≤ 10 := encodingLen_le_max h

theorem entryAt_one :
    entryAt (insert c S) c 1 = ⟨c, c - below S c, 1, encodingLen (c - below S c) + 1⟩ := by
  rw [entryAt, below_insert_of_le (Or.inl le_rfl), encodingLen_of_lt (show 1 < 128 by norm_num)]

/-- An id behind the start of an entry, and not of the set, is behind its end. -/
theorem EntriesOf.end_le {m : OrdMap ℕ AcsEntry} {e : AcsEntry} (h : EntriesOf m S) {j : ℕ}
    (hj : m.find? j = some e) (hjc : j < c) (hc : c ∉ S) : j + e.lengthOfFill ≤ c := by
  by_contra hlt
  exact hc (h.mem hj (by omega) (by omega))

/-- The first entry. -/
theorem planned_insertFirst (h : EntriesOf pacs.acsEntryMap S) (hid : 1 ≤ c ∧ c < 2 ^ 64)
    (hnone : ∀ k, pacs.acsEntryMap.find? k = none) :
    Planned pacs.acsEntryMap S c
      { aeOp := .insertFirstEntry, delta := (encodingLen c + 1 : ℕ), newEntryDiff := c
        newEntrySize := encodingLen c + 1 } := by
  have hbelow : below S c = 0 := h.below_first fun i _ => hnone i
  have hlen := encodingLen_le_ten hid.2
  have hmap : applyToMap pacs.acsEntryMap
      { aeOp := .insertFirstEntry, delta := (encodingLen c + 1 : ℕ), newEntryDiff := c
        newEntrySize := encodingLen c + 1 } c =
      pacs.acsEntryMap.insert c (entryAt (insert c S) c 1) := by
    rw [entryAt_one, hbelow]
    simp [applyToMap, updateNext, updateEntry, addAcsEntry, hnone]
  refine ⟨by simp, ?_, ?_, by simp only; omega⟩
  · rw [hmap]
    refine h.insertAtEnd hid fun x hx => ?_
    obtain ⟨k, e, hk, -⟩ := h.covered hx
    rw [hnone k] at hk
    cases hk
  · rw [hmap, OrdMap.sum_insert _ (hnone c), entryAt_one, hbelow]
    simp only [Nat.sub_zero]
    omega

/-- The last entry grows. -/
theorem planned_extendLast (h : EntriesOf pacs.acsEntryMap S) (hid : 1 ≤ c ∧ c < 2 ^ 64) {j : ℕ}
    {e : AcsEntry} (hj : pacs.acsEntryMap.find? j = some e) (hend : c = j + e.lengthOfFill)
    (hmem : ∀ x ∈ S, x < c) :
    Planned pacs.acsEntryMap S c
      { aeOp := .extendEntry
        delta := ((encodingLen e.diffToPrevRightEdge + encodingLen (e.lengthOfFill + 1) : ℕ) : ℤ) -
          e.sdnvLength
        entry := some j
        newEntrySize := encodingLen e.diffToPrevRightEdge + encodingLen (e.lengthOfFill + 1) } := by
  have hlen := (h.entry hj).2
  have hpos := (h.bound hj).1
  have hsize := h.size hj
  have hentry : entryAt (insert c S) j (e.lengthOfFill + 1) = ⟨j, e.diffToPrevRightEdge,
      e.lengthOfFill + 1, encodingLen e.diffToPrevRightEdge + encodingLen (e.lengthOfFill + 1)⟩ := by
    rw [entryAt, below_insert_of_le (Or.inl (by omega)), ← h.diff hj]
  have hmap : applyToMap pacs.acsEntryMap
      { aeOp := .extendEntry
        delta := ((encodingLen e.diffToPrevRightEdge + encodingLen (e.lengthOfFill + 1) : ℕ) : ℤ) -
          e.sdnvLength
        entry := some j
        newEntrySize := encodingLen e.diffToPrevRightEdge + encodingLen (e.lengthOfFill + 1) } c =
      pacs.acsEntryMap.insert j (entryAt (insert c S) j (e.lengthOfFill + 1)) := by
    rw [hentry]
    simp [applyToMap, updateNext, updateEntry, hj, h.keyed hj,
      u64_of_lt (show e.lengthOfFill + 1 < 2 ^ 64 by omega)]
  have hgrow := encodingLen_succ_le (show e.lengthOfFill + 1 < 2 ^ 64 by omega)
  refine ⟨by simp, ?_, ?_, ?_⟩
  · rw [hmap]
    exact h.extendAtEnd hid hj hend.symm hmem
  · rw [hmap]
    have hsum := OrdMap.sum_update (w := entryAt (insert c S) j (e.lengthOfFill + 1))
      (·.sdnvLength) hj
    rw [hentry] at hsum ⊢
    simp only at hsum ⊢
    omega
  · simp only
    rw [← h.diff hj] at hsize
    omega

/-- A new last entry. -/
theorem planned_insertLast (h : EntriesOf pacs.acsEntryMap S) (hid : 1 ≤ c ∧ c < 2 ^ 64)
    (hfree : pacs.acsEntryMap.find? c = none) (hmem : ∀ x ∈ S, x + 1 < c) :
    Planned pacs.acsEntryMap S c
      { aeOp := .insertEntryAtEnd, delta := (encodingLen (c - below S c) + 1 : ℕ)
        newEntryDiff := c - below S c, newEntrySize := encodingLen (c - below S c) + 1 } := by
  have hmap : applyToMap pacs.acsEntryMap
      { aeOp := .insertEntryAtEnd, delta := (encodingLen (c - below S c) + 1 : ℕ)
        newEntryDiff := c - below S c, newEntrySize := encodingLen (c - below S c) + 1 } c =
      pacs.acsEntryMap.insert c (entryAt (insert c S) c 1) := by
    rw [entryAt_one]
    simp [applyToMap, updateNext, updateEntry, addAcsEntry, hfree]
  have hten := encodingLen_le_ten (show c - below S c < 2 ^ 64 by omega)
  refine ⟨by simp, ?_, ?_, by simp only; omega⟩
  · rw [hmap]
    exact h.insertAtEnd hid hmem
  · rw [hmap, OrdMap.sum_insert _ hfree, entryAt_one]
    simp only
    omega

/-- The ids of the set end with the last entry. -/
theorem EntriesOf.lt_last (h : EntriesOf pacs.acsEntryMap S) {j : ℕ} {e : AcsEntry}
    (hj : pacs.acsEntryMap.find? j = some e)
    (hmax : ∀ k, j < k → pacs.acsEntryMap.find? k = none) : ∀ x ∈ S, x < j + e.lengthOfFill := by
  intro x hx
  obtain ⟨k, e', hk, hkx, hxk⟩ := h.covered hx
  rcases lt_trichotomy k j with hlt | rfl | hgt
  · have := h.gap hk hj hlt
    have := (h.entry hj).2
    omega
  · rw [hj] at hk
    cases hk
    exact hxk
  · rw [hmax k hgt] at hk
    cases hk

/-- The id is above every left edge. -/
theorem planned_determineAtEnd (h : EntriesOf pacs.acsEntryMap S) (hc : c ∉ S)
    (hid : 1 ≤ c ∧ c < 2 ^ 64) (hlb : pacs.acsEntryMap.lowerBound? c = none) :
    Planned pacs.acsEntryMap S c (determineAtEnd pacs c) := by
  have habove := OrdMap.lowerBound?_eq_none hlb
  unfold determineAtEnd
  cases hlast : pacs.acsEntryMap.last? with
  | none => exact planned_insertFirst h hid (OrdMap.last?_eq_none hlast)
  | some ke =>
    obtain ⟨j, e⟩ := ke
    obtain ⟨hj, hmax⟩ := OrdMap.last?_eq_some hlast
    have hjc : j < c := by
      by_contra hge
      rw [habove j (by omega)] at hj
      cases hj
    have hend := h.end_le hj hjc hc
    have hlen := (h.entry hj).2
    have hpos := (h.bound hj).1
    have hmem := h.lt_last hj hmax
    simp only [h.keyed hj]
    rw [u64_of_lt (show j + e.lengthOfFill < 2 ^ 64 by omega)]
    by_cases heq : c = j + e.lengthOfFill
    · rw [if_pos heq, u64_of_lt (show e.lengthOfFill + 1 < 2 ^ 64 by omega)]
      exact planned_extendLast h hid hj heq fun x hx => heq ▸ hmem x hx
    · have hbelow : below S c = j + e.lengthOfFill - 1 :=
        h.below_prev hj hjc (fun i hi _ => hmax i hi) hend
      have hdiff : c - (j + (e.lengthOfFill - 1)) = c - below S c := by
        rw [hbelow]
        omega
      rw [if_neg heq, u64Sub_of_le (show e.lengthOfFill < 2 ^ 64 by omega) hlen,
        u64_of_lt (by omega), u64Sub_of_le hid.2 (by omega), hdiff]
      refine planned_insertLast h hid (h.not_mem_find hc) fun x hx => ?_
      have := hmem x hx
      omega

/-- The id goes right before the entry found. -/
theorem planned_planPrepend {n : ℕ} {e : AcsEntry} (h : EntriesOf pacs.acsEntryMap S)
    (hid : 1 ≤ c ∧ c < 2 ^ 64) (hc : c ∉ S) (hn : pacs.acsEntryMap.find? n = some e)
    (hcn : c + 1 = n) (hnext : ∀ x ∈ S, x < n → x + 1 < c) :
    Planned pacs.acsEntryMap S c (planPrepend n e) := by
  have hlen := (h.entry hn).2
  have hbound := (h.bound hn).2
  have hbelow : below S n = below S c := below_congr (by omega) fun x hx hxn => by
    have := hnext x hx hxn
    omega
  have hltc : below S c < c := below_lt (by omega)
  have hdiff : u64Sub e.diffToPrevRightEdge 1 = c - below S c := by
    rw [h.diff hn, hbelow, u64Sub_of_le (by omega) (by omega)]
    omega
  have hentry : entryAt (insert c S) c (e.lengthOfFill + 1) =
      ⟨c, c - below S c, e.lengthOfFill + 1,
        encodingLen (c - below S c) + encodingLen (e.lengthOfFill + 1)⟩ := by
    rw [entryAt, below_insert_of_le (Or.inl le_rfl)]
  have hfill : u64 (e.lengthOfFill + 1) = e.lengthOfFill + 1 := u64_of_lt (by omega)
  have hmap : applyToMap pacs.acsEntryMap (planPrepend n e) c =
      (pacs.acsEntryMap.erase n).insert c (entryAt (insert c S) c (e.lengthOfFill + 1)) := by
    rw [hentry]
    simp only [planPrepend, applyToMap, prependEntry, hn, hdiff, hfill]
  have hfree : (pacs.acsEntryMap.erase n).find? c = none := by
    rw [OrdMap.find?_erase, if_neg (by omega), h.not_mem_find hc]
  have hshrink := encodingLen_mono (show n - below S n < 2 ^ 64 by omega)
    (show c - below S c ≤ n - below S n by omega)
  have hgrow := encodingLen_succ_le (show e.lengthOfFill + 1 < 2 ^ 64 by omega)
  have hsize := h.size hn
  refine ⟨by simp [planPrepend], ?_, ?_, ?_⟩
  · rw [hmap]
    exact h.prepend hid hn hcn hnext
  · rw [hmap, OrdMap.sum_insert _ hfree, hentry]
    have hsum := OrdMap.sum_erase (·.sdnvLength) hn
    simp only [planPrepend, hdiff, hfill]
    omega
  · simp only [planPrepend, hdiff, hfill]
    omega

/-- The id touches neither the entry found nor the one before it. -/
theorem planned_planInsert {n : ℕ} {e : AcsEntry} (h : EntriesOf pacs.acsEntryMap S)
    (hid : 1 ≤ c ∧ c < 2 ^ 64) (hc : c ∉ S) (hn : pacs.acsEntryMap.find? n = some e)
    (hcn : c + 1 < n) (hnext : ∀ x ∈ S, x < n → x + 1 < c) :
    Planned pacs.acsEntryMap S c (planInsert c n e) := by
  have hlen := (h.entry hn).2
  have hbound := (h.bound hn).2
  have hbelow : below S n = below S c := below_congr (by omega) fun x hx hxn => by
    have := hnext x hx hxn
    omega
  have hltc : below S c < c := below_lt (by omega)
  have hnextDiff : u64Sub e.leftEdge c = n - c := by
    rw [h.keyed hn, u64Sub_of_le (by omega) (by omega)]
  have hdiff : u64Sub e.diffToPrevRightEdge (n - c) = c - below S c := by
    rw [h.diff hn, hbelow, u64Sub_of_le (by omega) (by omega)]
    omega
  have hself : below (insert c S) n = c := below_insert_self (by omega) fun x hx hxn => by
    have := hnext x hx hxn
    omega
  have hentry : entryAt (insert c S) n e.lengthOfFill =
      { e with diffToPrevRightEdge := n - c
               sdnvLength := encodingLen (n - c) + encodingLen e.lengthOfFill } := by
    rw [entryAt, hself, h.keyed hn]
  have hfree := h.not_mem_find hc
  have hmap : applyToMap pacs.acsEntryMap (planInsert c n e) c =
      (pacs.acsEntryMap.insert c (entryAt (insert c S) c 1)).insert n
        (entryAt (insert c S) n e.lengthOfFill) := by
    rw [hentry, entryAt_one]
    simp only [planInsert, applyToMap, updateNext, updateEntry, addAcsEntry, hnextDiff, hdiff, hfree,
      Option.isSome_none, Bool.false_eq_true, if_false, OrdMap.find?_insert]
    rw [if_neg (by omega), hn]
  have hshrink := encodingLen_mono (show n - below S n < 2 ^ 64 by omega)
    (show n - c ≤ n - below S n by omega)
  have hten := encodingLen_le_ten (show c - below S c < 2 ^ 64 by omega)
  have hsize := h.size hn
  refine ⟨by simp [planInsert], ?_, ?_, ?_⟩
  · rw [hmap]
    exact h.insertBefore hid hn hcn hnext
  · have hn' : (pacs.acsEntryMap.insert c (entryAt (insert c S) c 1)).find? n = some e := by
      rw [OrdMap.find?_insert, if_neg (by omega), hn]
    have hsum := OrdMap.sum_update (w := entryAt (insert c S) n e.lengthOfFill) (·.sdnvLength) hn'
    rw [OrdMap.sum_insert _ hfree, entryAt_one, hentry] at hsum
    rw [hmap, hentry, entryAt_one]
    simp only [planInsert, hnextDiff, hdiff] at hsum ⊢
    omega
  · simp only [planInsert, hnextDiff, hdiff]
    omega

/-- The id goes right behind the entry before the one found. -/
theorem planExtend_planned {j n : ℕ} {p e : AcsEntry} (h : EntriesOf pacs.acsEntryMap S)
    (hid : 1 ≤ c ∧ c < 2 ^ 64) (hprev : pacs.acsEntryMap.prev? n = some (j, p))
    (hjc : j + p.lengthOfFill = c) (hn : pacs.acsEntryMap.find? n = some e) (hcn : c + 1 < n)
    (hnext : ∀ x ∈ S, x < n → x < c) :
    ∃ ch, planExtend pacs c n e = .ok ch ∧ Planned pacs.acsEntryMap S c ch := by
  obtain ⟨hj, hjn, -⟩ := OrdMap.prev?_eq_some hprev
  have hlen := (h.entry hj).2
  have hlen' := (h.entry hn).2
  have hpos := (h.bound hj).1
  have hbound := (h.bound hn).2
  have hbelow : below S n = c - 1 := by
    refine below_eq (fun x hx hxn => by have := hnext x hx hxn; omega) (Or.inr ⟨?_, by omega⟩)
    exact h.mem hj (by omega) (by omega)
  have hself : below (insert c S) n = c := below_insert_self (by omega) hnext
  have hnextDiff : u64Sub e.diffToPrevRightEdge 1 = n - c := by
    rw [h.diff hn, hbelow, u64Sub_of_le (by omega) (by omega)]
    omega
  have hfill : u64 (p.lengthOfFill + 1) = p.lengthOfFill + 1 := u64_of_lt (by omega)
  have hplan : planExtend pacs c n e = .ok
      { aeOp := .extendEntry
        delta := ((encodingLen p.diffToPrevRightEdge + encodingLen (p.lengthOfFill + 1) : ℕ) : ℤ) +
          (encodingLen (n - c) + encodingLen e.lengthOfFill : ℕ) - (p.sdnvLength + e.sdnvLength)
        entry := some j, nextEntry := some n
        newEntrySize := encodingLen p.diffToPrevRightEdge + encodingLen (p.lengthOfFill + 1)
        newNextSize := encodingLen (n - c) + encodingLen e.lengthOfFill
        newEntryDiff := p.diffToPrevRightEdge, newNextDiff := n - c } := by
    unfold planExtend
    rw [hprev]
    simp only [h.keyed hj]
    rw [u64_of_lt (by omega), if_neg (not_not.mpr hjc), hnextDiff, hfill]
  have hentry : entryAt (insert c S) j (p.lengthOfFill + 1) =
      { p with lengthOfFill := p.lengthOfFill + 1
               sdnvLength := encodingLen p.diffToPrevRightEdge + encodingLen (p.lengthOfFill + 1) } := by
    rw [entryAt, below_insert_of_le (Or.inl (by omega)), ← h.diff hj, h.keyed hj]
  have hentry' : entryAt (insert c S) n e.lengthOfFill =
      { e with diffToPrevRightEdge := n - c
               sdnvLength := encodingLen (n - c) + encodingLen e.lengthOfFill } := by
    rw [entryAt, hself, h.keyed hn]
  refine ⟨_, hplan, by simp, ?_, ?_, ?_⟩
  · have hmap := h.extendBefore hid hj hjc hn hcn hnext
    rw [hentry, hentry'] at hmap
    simp only [applyToMap, updateNext, updateEntry, hj, hfill, OrdMap.find?_insert]
    rw [if_neg (by omega), hn]
    exact hmap
  · have hn' : (pacs.acsEntryMap.insert j (entryAt (insert c S) j (p.lengthOfFill + 1))).find? n =
        some e := by
      rw [OrdMap.find?_insert, if_neg (by omega), hn]
    have hsum := OrdMap.sum_update (w := entryAt (insert c S) j (p.lengthOfFill + 1))
      (·.sdnvLength) hj
    have hsum' := OrdMap.sum_update (w := entryAt (insert c S) n e.lengthOfFill) (·.sdnvLength) hn'
    rw [hentry] at hsum hsum'
    rw [hentry'] at hsum'
    simp only [applyToMap, updateNext, updateEntry, hj, hfill, OrdMap.find?_insert]
    rw [if_neg (by omega), hn]
    simp only at hsum hsum' ⊢
    omega
  · have hshrink := encodingLen_mono (show n - below S n < 2 ^ 64 by omega)
      (show n - c ≤ n - below S n by omega)
    have hgrow := encodingLen_succ_le (show p.lengthOfFill + 1 < 2 ^ 64 by omega)
    have hsize := h.size hj
    have hsize' := h.size hn
    rw [← h.diff hj] at hsize
    simp only
    omega

/-- The id joins the entry found with the one before it. -/
theorem fillGap_joins {j n : ℕ} {p e : AcsEntry} (h : EntriesOf pacs.acsEntryMap S)
    (hid : 1 ≤ c ∧ c < 2 ^ 64) (hprev : pacs.acsEntryMap.prev? n = some (j, p))
    (hjc : j + p.lengthOfFill = c) (hn : pacs.acsEntryMap.find? n = some e) (hcn : c + 1 = n) :
    ∃ m' : OrdMap ℕ AcsEntry, ∃ d : ℤ, fillGap pacs c n e = .ok (
        { pacs with acsEntryMap := m', numCustodyIds := u32 (pacs.numCustodyIds + 1)
                    acsPayloadLength := u32OfInt (pacs.acsPayloadLength + d) }, {}) ∧
      EntriesOf m' (insert c S) ∧
      (m'.sum (·.sdnvLength) : ℤ) = pacs.acsEntryMap.sum (·.sdnvLength) + d ∧ d ≤ 0 := by
  obtain ⟨hj, hjn, -⟩ := OrdMap.prev?_eq_some hprev
  have hlen := (h.entry hj).2
  have hlen' := (h.entry hn).2
  have hpos := (h.bound hj).1
  have hbound := (h.bound hn).2
  have hbelow : below S n = c - 1 := by
    refine below_eq (fun x hx hxn => ?_) (Or.inr ⟨?_, by omega⟩)
    · have := h.before_lt hn hx hxn
      omega
    · exact h.mem hj (by omega) (by omega)
  have hfill : u64 (p.lengthOfFill + u64 (e.lengthOfFill + 1)) =
      p.lengthOfFill + e.lengthOfFill + 1 := by
    rw [u64_of_lt (show e.lengthOfFill + 1 < 2 ^ 64 by omega), u64_of_lt (by omega)]
    omega
  have hadd := encodingLen_add_le (show p.lengthOfFill + e.lengthOfFill + 1 < 2 ^ 64 by omega)
  have hsize := h.size hj
  have hsize' := h.size hn
  rw [← h.diff hj] at hsize
  rw [hbelow, show n - (c - 1) = 2 by omega, encodingLen_of_lt (show 2 < 128 by norm_num)] at hsize'
  have hentry : entryAt (insert c S) j (p.lengthOfFill + e.lengthOfFill + 1) =
      { p with lengthOfFill := p.lengthOfFill + e.lengthOfFill + 1
               sdnvLength := encodingLen p.diffToPrevRightEdge +
                 encodingLen (p.lengthOfFill + e.lengthOfFill + 1) } := by
    rw [entryAt, below_insert_of_le (Or.inl (by omega)), ← h.diff hj, h.keyed hj]
  refine ⟨(pacs.acsEntryMap.insert j (entryAt (insert c S) j
    (p.lengthOfFill + e.lengthOfFill + 1))).erase n,
    ((encodingLen p.diffToPrevRightEdge + encodingLen (p.lengthOfFill + e.lengthOfFill + 1) : ℕ) : ℤ) -
      (e.sdnvLength + p.sdnvLength : ℕ), ?_, h.join hid hj hjc hn hcn, ?_, by omega⟩
  · unfold fillGap
    rw [hprev]
    simp only [h.keyed hj]
    rw [u64_of_lt (by omega), if_neg (not_not.mpr hjc.symm), hfill, if_neg (by omega), hentry, h.keyed hj]
  · have hn' : (pacs.acsEntryMap.insert j (entryAt (insert c S) j
        (p.lengthOfFill + e.lengthOfFill + 1))).find? n = some e := by
      rw [OrdMap.find?_insert, if_neg (by omega), hn]
    have hsum := OrdMap.sum_update (w := entryAt (insert c S) j
      (p.lengthOfFill + e.lengthOfFill + 1)) (·.sdnvLength) hj
    have hsum' := OrdMap.sum_erase (·.sdnvLength) hn'
    rw [hentry] at hsum hsum' ⊢
    simp only at hsum hsum' ⊢
    omega

/-- Either the plan puts the id into the set, or two entries were joined at once. -/
theorem determineAcsChanges_spec (h : EntriesOf pacs.acsEntryMap S) (hc : c ∉ S)
    (hid : 1 ≤ c ∧ c < 2 ^ 64) :
    (∃ ch, determineAcsChanges pacs c = .ok (pacs, ch) ∧ Planned pacs.acsEntryMap S c ch) ∨
    (∃ m' : OrdMap ℕ AcsEntry, ∃ d : ℤ, determineAcsChanges pacs c = .ok (
        { pacs with acsEntryMap := m', numCustodyIds := u32 (pacs.numCustodyIds + 1)
                    acsPayloadLength := u32OfInt (pacs.acsPayloadLength + d) }, {}) ∧
      EntriesOf m' (insert c S) ∧
      (m'.sum (·.sdnvLength) : ℤ) = pacs.acsEntryMap.sum (·.sdnvLength) + d ∧ d ≤ 0) := by
  unfold determineAcsChanges
  cases hlb : pacs.acsEntryMap.lowerBound? c with
  | none => exact Or.inl ⟨_, rfl, planned_determineAtEnd h hc hid hlb⟩
  | some ne =>
    obtain ⟨n, e⟩ := ne
    obtain ⟨hn, hle, hnone⟩ := OrdMap.lowerBound?_eq_some hlb
    have hcn : c < n := by
      rcases Nat.lt_or_ge c n with hlt | hge
      · exact hlt
      · exact absurd (h.left_mem hn) (by rwa [show n = c by omega])
    have hbound := (h.bound hn).2
    have hlen := (h.entry hn).2
    have hnext : ∀ x ∈ S, x < n → x < c := by
      intro x hx hxn
      obtain ⟨k, e', hk, hkx, hxk⟩ := h.covered hx
      have hkc : k < c := by
        by_contra hge
        rw [hnone k (by omega) (by omega)] at hk
        cases hk
      have := h.end_le hk hkc hc
      omega
    have hprev : below S n ≠ 0 → ∃ j p, pacs.acsEntryMap.prev? n = some (j, p) ∧
        below S n = j + p.lengthOfFill - 1 ∧ 1 ≤ p.lengthOfFill := by
      intro hz
      cases hp : pacs.acsEntryMap.prev? n with
      | none => exact absurd (h.below_first (OrdMap.prev?_eq_none hp)) hz
      | some jp =>
        obtain ⟨j, p⟩ := jp
        obtain ⟨hj, hjn, hbetween⟩ := OrdMap.prev?_eq_some hp
        exact ⟨j, p, rfl, h.below_prev hj hjn hbetween (by have := h.gap hj hn hjn; omega),
          (h.entry hj).2⟩
    have hlow : below S n < c := by
      by_cases hz : below S n = 0
      · omega
      · exact hnext _ (below_mem hz).1 (below_mem hz).2
    have hone : ∀ x ∈ S, x < n → x ≤ below S n ∧ 1 ≤ x := fun x hx hxn =>
      ⟨le_below hx hxn, (h.ids x hx).1⟩
    simp only [h.keyed hn, h.diff hn]
    rw [if_neg hcn.ne, u64Sub_of_le (by omega) (by omega), u64Sub_of_le (by omega) (by omega),
      u64_of_lt (by omega)]
    by_cases hadj : c = n - 1
    · rw [if_pos hadj]
      by_cases hgap : n - below S n = 2 ∧ n ≠ 2
      · rw [if_pos hgap]
        obtain ⟨j, p, hp, hbelow, hplen⟩ := hprev (by omega)
        exact Or.inr (fillGap_joins h hid hp (by omega) hn (by omega))
      · rw [if_neg hgap]
        refine Or.inl ⟨_, rfl, planned_planPrepend h hid hc hn (by omega) fun x hx hxn => ?_⟩
        have := hone x hx hxn
        omega
    · rw [if_neg hadj]
      by_cases hext : 1 < c ∧ c = n - (n - below S n) + 1
      · rw [if_pos hext]
        obtain ⟨j, p, hp, hbelow, hplen⟩ := hprev (by omega)
        obtain ⟨ch, hplan, hplanned⟩ := planExtend_planned h hid hp (by omega) hn (by omega) hnext
        rw [hplan]
        exact Or.inl ⟨ch, rfl, hplanned⟩
      · rw [if_neg hext]
        refine Or.inl ⟨_, rfl, planned_planInsert h hid hc hn (by omega) fun x hx hxn => ?_⟩
        have := hone x hx hxn
        omega

/-! ## The bytes of the entries -/

/-- Entries in order, each with its difference from the right edge before it. -/
def Chained : ℕ → List AcsEntry → Prop
  | _, [] => True
  | r, e :: rest => r < e.leftEdge ∧ 1 ≤ e.lengthOfFill ∧ e.leftEdge + e.lengthOfFill ≤ 2 ^ 64 ∧
      e.diffToPrevRightEdge = e.leftEdge - r ∧
      e.sdnvLength = encodingLen e.diffToPrevRightEdge + encodingLen e.lengthOfFill ∧
      Chained (e.leftEdge + e.lengthOfFill - 1) rest

/-- What is left of the entries when those up to a right edge are done. -/
theorem EntriesOf.chained_from {m : OrdMap ℕ AcsEntry} (h : EntriesOf m S) {l : List (ℕ × AcsEntry)}
    (hl : l.Pairwise (fun a b => a.1 < b.1)) (hm : ∀ p ∈ l, m.find? p.1 = some p.2)
    (hdone : ∀ k e, m.find? k = some e → k + e.lengthOfFill ≤ r + 1 ∨ (k, e) ∈ l)
    (hr : r = 0 ∨ r ∈ S) (hgt : ∀ p ∈ l, r < p.1) : Chained r (l.map (·.2)) := by
  induction l generalizing r with
  | nil => trivial
  | cons p l ih =>
    obtain ⟨k, e⟩ := p
    obtain ⟨hk, hl⟩ := List.pairwise_cons.mp hl
    have hf : m.find? k = some e := hm (k, e) List.mem_cons_self
    have hrk : r < k := hgt (k, e) List.mem_cons_self
    have hlen := (h.entry hf).2
    have hbelow : below S k = r := by
      refine below_eq ?_ ?_
      · intro x hx hxk
        obtain ⟨j, e', hj, hjx, hxj⟩ := h.covered hx
        rcases hdone j e' hj with hle | hin
        · omega
        · rcases List.mem_cons.mp hin with heq | hin
          · cases heq
            omega
          · have := hk _ hin
            simp only at this
            omega
      · rcases hr with hz | hm
        · exact Or.inl hz
        · exact Or.inr ⟨hm, hrk⟩
    have hleft := h.keyed hf
    change Chained r (e :: l.map (·.2))
    refine ⟨by omega, hlen, by rw [hleft]; exact (h.bound hf).2, ?_, ?_, ?_⟩
    · rw [h.diff hf, hbelow, hleft]
    · rw [h.size hf, h.diff hf]
    · rw [hleft]
      refine ih hl (fun p hp => hm p (List.mem_cons_of_mem _ hp)) ?_ ?_ ?_
      · intro j e' hj
        rcases hdone j e' hj with hle | hin
        · exact Or.inl (by omega)
        · rcases List.mem_cons.mp hin with heq | hin
          · cases heq
            exact Or.inl (by omega)
          · exact Or.inr hin
      · exact Or.inr (h.mem hf (by omega) (by omega))
      · intro p hp
        have := h.gap hf (hm p (List.mem_cons_of_mem _ hp)) (hk p hp)
        omega

theorem EntriesOf.chained {m : OrdMap ℕ AcsEntry} (h : EntriesOf m S) : Chained 0 m.values := by
  refine h.chained_from m.sorted (fun p hp => OrdMap.find?_eq_some_iff.mpr hp) ?_ (Or.inl rfl) ?_
  · exact fun k e hk => Or.inr (OrdMap.find?_eq_some_iff.mp hk)
  · intro p hp
    exact (h.bound (OrdMap.find?_eq_some_iff.mpr hp)).1

/-- The bytes of entries: differences and lengths in turn. -/
def wireOf (l : List AcsEntry) : List UInt8 :=
  l.flatMap (fun e => encodeLoop maxLength 0 e.diffToPrevRightEdge [] ++
    encodeLoop maxLength 0 e.lengthOfFill [])

theorem encode_of_le {val : ℕ} {len : ℤ} (hlen : (encodingLen val : ℤ) ≤ len) (hbig : len < 2 ^ 64) :
    encode val (u64OfInt len) = some (encodeLoop maxLength 0 val []) := by
  rw [encode, if_neg]
  unfold u64OfInt
  omega

/-- The loop writes chained entries if its room is at least their length. -/
theorem encodeEntries_chained {l : List AcsEntry} (hl : Chained r l) {n : ℤ}
    (hlen : ((l.map (·.sdnvLength)).sum : ℕ) ≤ n) (hbig : n < 2 ^ 64) :
    encodeEntries l r n = .ok (wireOf l) ∧
      (wireOf l).length = (l.map (·.sdnvLength)).sum := by
  induction l generalizing r n with
  | nil => exact ⟨rfl, rfl⟩
  | cons e l ih =>
    obtain ⟨hr, hfill, hbound, hdiff, hsize, hl⟩ := hl
    rw [List.map_cons, List.sum_cons] at hlen ⊢
    have h₁ := length_encodeLoop (show e.diffToPrevRightEdge < 2 ^ 64 by omega)
    have h₂ := length_encodeLoop (show e.lengthOfFill < 2 ^ 64 by omega)
    have hpos := encodingLen_pos e.diffToPrevRightEdge
    obtain ⟨hrest, hcount⟩ := ih (n := n - encodingLen e.diffToPrevRightEdge -
      encodingLen e.lengthOfFill) hl (by omega) (by omega)
    constructor
    · rw [encodeEntries]
      simp only
      rw [u64Sub_of_le (by omega) (by omega), if_neg (not_not.mpr hdiff.symm), ← hdiff,
        encode_of_le (by omega) hbig]
      simp only [h₁]
      rw [encode_of_le (by omega) (by omega)]
      simp only [h₂]
      rw [if_neg (not_not.mpr hsize.symm), u64Sub_of_le (show e.lengthOfFill < 2 ^ 64 by omega) hfill,
        u64_of_lt (by omega), show e.leftEdge + (e.lengthOfFill - 1) =
          e.leftEdge + e.lengthOfFill - 1 by omega, hrest]
      simp only [Except.map, wireOf, List.flatMap_cons, List.append_assoc]
    · rw [wireOf, List.flatMap_cons, List.length_append, List.length_append, h₁, h₂, hsize, ← hcount]
      rfl

end Dtnme.Bundling
