import Mathlib

/-! # Run decompositions

A set of numbers is kept as a partial function from left edges to right edges.
The function is the canonical decomposition when its blocks are ordered, leave
a gap between each other and cover the set: then they are the maximal intervals.
-/

namespace Dtnme.Library.Runs

/-- `[a, b]` is a maximal interval of `S`. -/
def IsRun (S : Set ℕ) (a b : ℕ) : Prop :=
  a ≤ b ∧ Set.Icc a b ⊆ S ∧ b + 1 ∉ S ∧ ∀ c, c + 1 = a → c ∉ S

/-- The blocks of `f` are disjoint, never adjacent, and cover exactly `S`. -/
structure Decomposes (f : ℕ → Option ℕ) (S : Set ℕ) : Prop where
  ordered : ∀ {a b}, f a = some b → a ≤ b
  gap : ∀ {a b c d}, f a = some b → f c = some d → a < c → b + 1 < c
  covers : ∀ x, x ∈ S ↔ ∃ a b, f a = some b ∧ a ≤ x ∧ x ≤ b

/-- The first `n` numbers all belong to `S` and the next one does not. -/
def PrefixLength (S : Set ℕ) (n : ℕ) : Prop := (∀ x < n, x ∈ S) ∧ n ∉ S

namespace Decomposes

variable {f g : ℕ → Option ℕ} {S T : Set ℕ} {a b c d x : ℕ}

theorem empty : Decomposes (fun _ => none) ∅ where
  ordered h := by simp at h
  gap h := by simp at h
  covers x := by simp

theorem mem (h : Decomposes f S) (hf : f a = some b) (ha : a ≤ x) (hb : x ≤ b) : x ∈ S :=
  (h.covers x).mpr ⟨a, b, hf, ha, hb⟩

/-- A point of a block lies in no other block. -/
theorem unique (h : Decomposes f S) (hf : f a = some b) (hg : f c = some d)
    (ha : a ≤ x) (hb : x ≤ b) (hc : c ≤ x) (hd : x ≤ d) : a = c := by
  rcases lt_trichotomy a c with hlt | heq | hlt
  · have := h.gap hf hg hlt
    omega
  · exact heq
  · have := h.gap hg hf hlt
    omega

theorem succ_not_mem (h : Decomposes f S) (hf : f a = some b) : b + 1 ∉ S := by
  intro hb
  obtain ⟨c, d, hg, hc, hd⟩ := (h.covers _).mp hb
  have hab := h.ordered hf
  rcases lt_trichotomy a c with hlt | heq | hlt
  · have := h.gap hf hg hlt
    omega
  · subst heq
    rw [hf] at hg
    cases hg
    omega
  · have := h.gap hg hf hlt
    omega

theorem pred_not_mem (h : Decomposes f S) (hf : f a = some b) (hc : c + 1 = a) : c ∉ S := by
  intro hm
  obtain ⟨p, q, hg, hp, hq⟩ := (h.covers _).mp hm
  have hlt : p < a := by omega
  have := h.gap hg hf hlt
  omega

/-- The blocks are exactly the maximal intervals. -/
theorem isRun_iff (h : Decomposes f S) : f a = some b ↔ IsRun S a b := by
  constructor
  · intro hf
    exact ⟨h.ordered hf, fun x hx => h.mem hf hx.1 hx.2, h.succ_not_mem hf,
      fun c hc => h.pred_not_mem hf hc⟩
  · rintro ⟨hab, hsub, hsucc, hpred⟩
    obtain ⟨c, d, hg, hc, hd⟩ := (h.covers a).mp (hsub ⟨le_rfl, hab⟩)
    have hca : c = a := by
      by_contra hne
      refine hpred (a - 1) (by omega) (h.mem hg (by omega) (by omega))
    subst hca
    rcases lt_trichotomy b d with hlt | heq | hlt
    · exact absurd (h.mem hg (by omega) (by omega)) hsucc
    · rw [hg, heq]
    · exact absurd (hsub ⟨by omega, by omega⟩) (h.succ_not_mem hg)

/-- An interval of members lies inside one block. -/
theorem inside (h : Decomposes f S) (hab : a ≤ b) (hsub : ∀ x, a ≤ x → x ≤ b → x ∈ S) :
    ∃ c d, f c = some d ∧ c ≤ a ∧ b ≤ d := by
  obtain ⟨c, d, hf, hc, hd⟩ := (h.covers a).mp (hsub a le_rfl hab)
  refine ⟨c, d, hf, hc, ?_⟩
  by_contra hlt
  exact h.succ_not_mem hf (hsub (d + 1) (by omega) (by omega))

theorem prefixLength_of_some (h : Decomposes f S) (hf : f 0 = some b) : PrefixLength S (b + 1) :=
  ⟨fun x hx => h.mem hf (Nat.zero_le x) (by omega), h.succ_not_mem hf⟩

theorem prefixLength_of_none (h : Decomposes f S) (hf : f 0 = none) : PrefixLength S 0 := by
  refine ⟨fun x hx => absurd hx (Nat.not_lt_zero x), fun hm => ?_⟩
  obtain ⟨c, d, hg, hc, -⟩ := (h.covers 0).mp hm
  have hc0 : c = 0 := Nat.le_zero.mp hc
  subst hc0
  rw [hf] at hg
  cases hg

theorem prefixLength (h : Decomposes f S) : PrefixLength S ((f 0).elim 0 (· + 1)) := by
  cases hf : f 0 with
  | none => exact h.prefixLength_of_none hf
  | some b => exact h.prefixLength_of_some hf

/-- One block takes the place of every block whose left edge lies in it. -/
theorem replace (h : Decomposes f S) (hab : a ≤ b)
    (hlow : ∀ p q, f p = some q → p < a → q + 1 < a)
    (hin : ∀ p q, f p = some q → a ≤ p → p ≤ b → q ≤ b)
    (hhigh : ∀ p q, f p = some q → b < p → b + 1 < p)
    (hg : ∀ p, g p = if p = a then some b else if a ≤ p ∧ p ≤ b then none else f p)
    (hT : ∀ x, x ∈ T ↔ x ∈ S ∨ (a ≤ x ∧ x ≤ b)) : Decomposes g T := by
  have hcases : ∀ p q, g p = some q →
      (p = a ∧ q = b) ∨ (f p = some q ∧ (p < a ∨ b < p)) := by
    intro p q hpq
    rw [hg] at hpq
    split_ifs at hpq with h₁ h₂
    · exact Or.inl ⟨h₁, (Option.some.inj hpq).symm⟩
    · exact Or.inr ⟨hpq, by omega⟩
  have hself : g a = some b := by rw [hg, if_pos rfl]
  have hout : ∀ p q, f p = some q → p < a ∨ b < p → g p = some q := by
    intro p q hpq hp
    rw [hg, if_neg (by omega), if_neg (by omega)]
    exact hpq
  refine ⟨?_, ?_, ?_⟩
  · intro p q hpq
    rcases hcases p q hpq with ⟨rfl, rfl⟩ | ⟨hf, -⟩
    · exact hab
    · exact h.ordered hf
  · intro p q r s hpq hrs hlt
    rcases hcases p q hpq with ⟨rfl, rfl⟩ | ⟨hf, hp⟩ <;>
      rcases hcases r s hrs with ⟨rfl, rfl⟩ | ⟨hf', hr⟩
    · omega
    · exact hhigh r s hf' (by omega)
    · exact hlow p q hf hlt
    · exact h.gap hf hf' hlt
  · intro x
    rw [hT, h.covers]
    constructor
    · rintro (⟨p, q, hf, hp, hq⟩ | hx)
      · by_cases hpin : a ≤ p ∧ p ≤ b
        · exact ⟨a, b, hself, by omega, hq.trans (hin p q hf hpin.1 hpin.2)⟩
        · exact ⟨p, q, hout p q hf (by omega), hp, hq⟩
      · exact ⟨a, b, hself, hx.1, hx.2⟩
    · rintro ⟨p, q, hpq, hp, hq⟩
      rcases hcases p q hpq with ⟨rfl, rfl⟩ | ⟨hf, -⟩
      · exact Or.inr ⟨hp, hq⟩
      · exact Or.inl ⟨p, q, hf, hp, hq⟩

/-- Equal blocks and equal sets. -/
theorem congr (h : Decomposes f S) (hg : ∀ p, g p = f p) (hT : ∀ x, x ∈ T ↔ x ∈ S) :
    Decomposes g T := by
  obtain rfl : g = f := funext hg
  obtain rfl : T = S := Set.ext hT
  exact h

end Decomposes

/-- Disjoint intervals below `N` have at most `N` points together, and cover everything
below `N` once they have that many. -/
theorem packed {α : Type*} (start stop : α → ℕ) (l : List α) (lo : ℕ) {N : ℕ}
    (hl : l.Pairwise (fun a b => stop a < start b)) (hne : ∀ a ∈ l, start a ≤ stop a)
    (hlo : ∀ a ∈ l, lo ≤ start a) (hN : ∀ a ∈ l, stop a < N) (hlN : lo ≤ N) :
    (l.map (fun a => stop a + 1 - start a)).sum + lo ≤ N ∧
      ((l.map (fun a => stop a + 1 - start a)).sum + lo = N →
        ∀ x, lo ≤ x → x < N → ∃ a ∈ l, start a ≤ x ∧ x ≤ stop a) := by
  induction l generalizing lo with
  | nil =>
    refine ⟨by simpa using hlN, fun h x h₁ h₂ => ?_⟩
    simp only [List.map_nil, List.sum_nil] at h
    omega
  | cons a l ih =>
    obtain ⟨ha, hl⟩ := List.pairwise_cons.mp hl
    have hane := hne a List.mem_cons_self
    have halo := hlo a List.mem_cons_self
    have haN := hN a List.mem_cons_self
    -- the tail lives above the head
    obtain ⟨hsum, hcov⟩ := ih (stop a + 1) hl (fun b hb => hne b (List.mem_cons_of_mem _ hb))
      (fun b hb => ha b hb) (fun b hb => hN b (List.mem_cons_of_mem _ hb)) haN
    simp only [List.map_cons, List.sum_cons]
    refine ⟨by omega, fun h x h₁ h₂ => ?_⟩
    by_cases hx : x ≤ stop a
    · exact ⟨a, List.mem_cons_self, by omega, hx⟩
    · obtain ⟨b, hb, hbx⟩ := hcov (by omega) x (by omega) h₂
      exact ⟨b, List.mem_cons_of_mem _ hb, hbx⟩

end Dtnme.Library.Runs
