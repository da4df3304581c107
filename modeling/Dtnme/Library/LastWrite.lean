import Dtnme.Library.Transition

/-! # Registers of a run

Some inputs write to a register and the others leave it as it is. At the end of a run the register
holds what the last input that writes to it wrote, or what it held at the start.
-/

namespace Dtnme.Library

variable {σ ι ε α : Type*} {w : ι → Option α} {l : List ι}

/-- What the inputs leave in a register. -/
def lastWrite (w : ι → Option α) (a : α) (l : List ι) : α := (l.filterMap w).getLast?.getD a

@[simp] theorem lastWrite_nil (a : α) : lastWrite w a [] = a := rfl

theorem lastWrite_cons (a : α) (i : ι) (l : List ι) :
    lastWrite w a (i :: l) = lastWrite w ((w i).getD a) l := by
  unfold lastWrite
  cases h : w i with
  | none => simp [h]
  | some b => simp [h, List.getLast?_cons]

theorem lastWrite_append (a : α) (l₁ l₂ : List ι) :
    lastWrite w a (l₁ ++ l₂) = lastWrite w (lastWrite w a l₁) l₂ := by
  induction l₁ generalizing a with
  | nil => rfl
  | cons i l₁ ih => rw [List.cons_append, lastWrite_cons, ih, lastWrite_cons]

theorem lastWrite_congr {w' : ι → Option α} (a : α) (h : ∀ i ∈ l, w i = w' i) :
    lastWrite w a l = lastWrite w' a l := by
  unfold lastWrite
  rw [List.filterMap_congr h]

/-- The last input that writes splits the list. -/
theorem getLast?_filterMap_eq_some {b : α} :
    (l.filterMap w).getLast? = some b ↔
      ∃ l₁ i l₂, l = l₁ ++ i :: l₂ ∧ w i = some b ∧ ∀ j ∈ l₂, w j = none := by
  constructor
  · intro h
    induction l using List.reverseRecOn with
    | nil => simp at h
    | append_singleton l i ih =>
      cases hi : w i with
      | none =>
        obtain ⟨l₁, k, l₂, rfl, hk, hnone⟩ := ih (by simpa [hi] using h)
        exact ⟨l₁, k, l₂ ++ [i], by simp, hk, by simpa [or_imp, forall_and, hi] using hnone⟩
      | some c =>
        have hc : c = b := by simpa [hi] using h
        exact ⟨l, i, [], rfl, hc ▸ hi, by simp⟩
  · rintro ⟨l₁, i, l₂, rfl, hi, hnone⟩
    have hl₂ : l₂.filterMap w = [] := List.filterMap_eq_nil_iff.mpr hnone
    simp [List.filterMap_append, hi, hl₂]

theorem lastWrite_of_forall {a : α} (h : ∀ i ∈ l, w i = none) : lastWrite w a l = a := by
  rw [lastWrite, List.filterMap_eq_nil_iff.mpr h]
  rfl

/-- Inputs that all write the same, and of which one does write. -/
theorem lastWrite_of_same {a b : α} (h : ∀ i ∈ l, w i = none ∨ w i = some b)
    (hex : ∃ i ∈ l, w i = some b) : lastWrite w a l = b := by
  induction l generalizing a with
  | nil => simp at hex
  | cons i l ih =>
    rw [lastWrite_cons]
    have hl : ∀ j ∈ l, w j = none ∨ w j = some b := fun j hj => h j (List.mem_cons_of_mem _ hj)
    by_cases hlater : ∃ j ∈ l, w j = some b
    · exact ih hl hlater
    · have hnone : ∀ j ∈ l, w j = none := fun j hj =>
        (hl j hj).resolve_right fun hw => hlater ⟨j, hj, hw⟩
      obtain ⟨k, hk, hkw⟩ := hex
      obtain rfl | hk := List.mem_cons.mp hk
      · rw [lastWrite_of_forall hnone, hkw]
        rfl
      · exact absurd ⟨k, hk, hkw⟩ hlater

/-- A register holds a value because an input wrote it, or because none wrote anything. -/
theorem lastWrite_eq_iff {a b : α} :
    lastWrite w a l = b ↔
      (∃ l₁ i l₂, l = l₁ ++ i :: l₂ ∧ w i = some b ∧ ∀ j ∈ l₂, w j = none) ∨
        (∀ i ∈ l, w i = none) ∧ a = b := by
  rw [← getLast?_filterMap_eq_some, lastWrite]
  cases h : (l.filterMap w).getLast? with
  | none =>
    have hnil : ∀ i ∈ l, w i = none := by simpa using h
    simp only [Option.getD_none, reduceCtorEq, false_or]
    exact ⟨fun hab => ⟨hnil, hab⟩, And.right⟩
  | some c =>
    have hne : ¬ ∀ i ∈ l, w i = none := by
      intro hall
      rw [List.filterMap_eq_nil_iff.mpr hall] at h
      cases h
    simp [hne]

/-- Each step that succeeds writes to the register what its input says. -/
theorem run_lastWrite (get : σ → α) {step : σ → ι → Except ε σ} {P : σ → Prop}
    (hstep : ∀ s i s', P s → step s i = .ok s' → P s' ∧ get s' = (w i).getD (get s))
    {s s' : σ} (hs : P s) (h : run step s l = .ok s') :
    P s' ∧ get s' = lastWrite w (get s) l := by
  induction l generalizing s with
  | nil =>
    cases h
    exact ⟨hs, rfl⟩
  | cons i l ih =>
    simp only [run] at h
    cases h₁ : step s i with
    | error e => simp [h₁] at h
    | ok s₁ =>
      rw [h₁] at h
      obtain ⟨hs₁, hget⟩ := hstep s i s₁ hs h₁
      rw [lastWrite_cons, ← hget]
      exact ih hs₁ h

end Dtnme.Library
