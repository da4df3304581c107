import Mathlib

/-! # Runs of a partial step function

A step takes a state and an input and may fault. A run feeds a list of inputs. An
invariant that may speak about the inputs so far, and that every step keeps under
a condition on the state before it, holds along every run that meets the condition.
-/

namespace Dtnme.Library

variable {σ ι ε : Type*}

/-- Feed the inputs one after another; the first fault ends the run. -/
def run (step : σ → ι → Except ε σ) : σ → List ι → Except ε σ
  | s, [] => .ok s
  | s, i :: l =>
    match step s i with
    | .ok s' => run step s' l
    | .error e => .error e

/-- Every step of the run meets a condition on the state before it and the input. -/
def Meets (step : σ → ι → Except ε σ) (P : σ → ι → Prop) : σ → List ι → Prop
  | _, [] => True
  | s, i :: l => P s i ∧
    match step s i with
    | .ok s' => Meets step P s' l
    | .error _ => True

instance Meets.decidable (step : σ → ι → Except ε σ) (P : σ → ι → Prop)
    [∀ s i, Decidable (P s i)] : ∀ s l, Decidable (Meets step P s l)
  | _, [] => inferInstanceAs (Decidable True)
  | s, i :: l =>
    match h : step s i with
    | .ok s' =>
      have := Meets.decidable step P s' l
      decidable_of_iff (P s i ∧ Meets step P s' l) (by simp only [Meets, h])
    | .error _ => decidable_of_iff (P s i) (by simp only [Meets, h, and_true])

instance decidableExistsOk (x : Except ε σ) (P : σ → Prop) [DecidablePred P] :
    Decidable (∃ s, x = .ok s ∧ P s) :=
  match x with
  | .ok s => decidable_of_iff (P s) ⟨fun h => ⟨s, rfl, h⟩, by
      rintro ⟨t, ht, h⟩
      cases ht
      exact h⟩
  | .error _ => isFalse (by
      rintro ⟨t, ht, -⟩
      cases ht)

instance decidableEqError [DecidableEq ε] (x : Except ε σ) (e : ε) : Decidable (x = .error e) :=
  match x with
  | .ok _ => isFalse (by
      intro h
      cases h)
  | .error e' => decidable_of_iff (e' = e) (by simp only [Except.error.injEq])

variable {step : σ → ι → Except ε σ} {P : σ → ι → Prop}

theorem Meets.take {s : σ} {l : List ι} (h : Meets step P s l) (n : ℕ) :
    Meets step P s (l.take n) := by
  induction l generalizing s n with
  | nil => simpa using h
  | cons i l ih =>
    cases n with
    | zero => trivial
    | succ n =>
      obtain ⟨hi, hl⟩ := h
      refine ⟨hi, ?_⟩
      cases hs : step s i with
      | ok s' =>
        rw [hs] at hl
        exact ih hl n
      | error e => trivial

/-- The rest of a run from the state its first part reaches. -/
theorem Meets.drop {s s' : σ} {l : List ι} (h : Meets step P s l) {n : ℕ}
    (hrun : run step s (l.take n) = .ok s') : Meets step P s' (l.drop n) := by
  induction l generalizing s n with
  | nil => simp [Meets]
  | cons i l ih =>
    cases n with
    | zero =>
      cases hrun
      exact h
    | succ n =>
      rw [List.take_succ_cons, run] at hrun
      cases hs : step s i with
      | ok s₁ =>
        rw [hs] at hrun
        have hl := h.2
        rw [hs] at hl
        exact ih hl hrun
      | error e =>
        rw [hs] at hrun
        cases hrun

/-- The condition on the step after a part of the run. -/
theorem Meets.at_index {s s' : σ} {l : List ι} (h : Meets step P s l) {n : ℕ}
    (hrun : run step s (l.take n) = .ok s') {i : ι} (hi : l[n]? = some i) : P s' i := by
  induction l generalizing s n with
  | nil => simp at hi
  | cons j l ih =>
    obtain ⟨hj, hl⟩ := h
    cases n with
    | zero =>
      cases hrun
      cases hi
      exact hj
    | succ n =>
      rw [List.take_succ_cons, run] at hrun
      cases hs : step s j with
      | ok s₁ =>
        rw [hs] at hl hrun
        exact ih hl hrun hi
      | error e =>
        rw [hs] at hrun
        cases hrun

/-- A run that does not meet the condition meets it up to a first step that breaks it. -/
theorem exists_first_break {s : σ} {l : List ι} (h : ¬ Meets step P s l) :
    ∃ n i s', l[n]? = some i ∧ Meets step P s (l.take n) ∧
      run step s (l.take n) = .ok s' ∧ ¬ P s' i := by
  induction l generalizing s with
  | nil => exact absurd trivial h
  | cons i l ih =>
    by_cases hi : P s i
    · cases hs : step s i with
      | error e => exact absurd (by simp [Meets, hi, hs]) h
      | ok s₁ =>
        have hl : ¬ Meets step P s₁ l := fun hl => h (by simp [Meets, hi, hs, hl])
        obtain ⟨n, j, s', hj, hmeets, hrun, hbreak⟩ := ih hl
        refine ⟨n + 1, j, s', hj, ?_, ?_, hbreak⟩
        · simp [Meets, hi, hs, hmeets]
        · simp [run, hs, hrun]
    · exact ⟨0, i, s, rfl, trivial, rfl, hi⟩

theorem Meets.of_forall {Q : ι → Prop} (s : σ) {l : List ι} (hQ : ∀ i ∈ l, Q i) :
    Meets step (fun _ i => Q i) s l := by
  induction l generalizing s with
  | nil => trivial
  | cons i l ih =>
    refine ⟨hQ i List.mem_cons_self, ?_⟩
    cases hs : step s i with
    | ok s' => exact ih s' fun j hj => hQ j (List.mem_cons_of_mem _ hj)
    | error e => trivial

theorem Meets.and {Q : σ → ι → Prop} {s : σ} {l : List ι} (h : Meets step P s l)
    (h' : Meets step Q s l) : Meets step (fun s i => P s i ∧ Q s i) s l := by
  induction l generalizing s with
  | nil => trivial
  | cons i l ih =>
    obtain ⟨hi, hl⟩ := h
    obtain ⟨hi', hl'⟩ := h'
    refine ⟨⟨hi, hi'⟩, ?_⟩
    cases hs : step s i with
    | ok s' =>
      rw [hs] at hl hl'
      exact ih hl hl'
    | error e => trivial

theorem Meets.and_forall {Q : ι → Prop} {s : σ} {l : List ι} (h : Meets step P s l)
    (hQ : ∀ i ∈ l, Q i) : Meets step (fun s i => P s i ∧ Q i) s l :=
  h.and (Meets.of_forall s hQ)

theorem run_append (s : σ) (l₁ l₂ : List ι) :
    run step s (l₁ ++ l₂) = (run step s l₁).bind fun s' => run step s' l₂ := by
  induction l₁ generalizing s with
  | nil => rfl
  | cons i l₁ ih =>
    simp only [List.cons_append, run]
    cases step s i with
    | ok s' => exact ih s'
    | error e => rfl

/-- Part of a run, and the part that follows it. -/
theorem run_take_add (s : σ) (l : List ι) (m k : ℕ) :
    run step s (l.take (m + k)) =
      (run step s (l.take m)).bind fun s' => run step s' ((l.drop m).take k) := by
  rw [List.take_add, run_append]

private theorem run_invariant_from {Inv : σ → List ι → Prop} {s : σ} {past l : List ι}
    (hstep : ∀ s past' i, past' ++ [i] <+: past ++ l → Inv s past' → P s i →
      ∃ s', step s i = .ok s' ∧ Inv s' (past' ++ [i]))
    (hs : Inv s past) (hl : Meets step P s l) :
    ∃ s', run step s l = .ok s' ∧ Inv s' (past ++ l) := by
  induction l generalizing s past with
  | nil => exact ⟨s, rfl, by simpa using hs⟩
  | cons i l ih =>
    obtain ⟨hi, hl⟩ := hl
    have happend : past ++ i :: l = (past ++ [i]) ++ l := by simp
    rw [happend] at hstep ⊢
    obtain ⟨s', hs', hinv⟩ := hstep s past i (List.prefix_append _ _) hs hi
    rw [hs'] at hl
    obtain ⟨s'', hrun, hend⟩ := ih hstep hinv hl
    refine ⟨s'', ?_, hend⟩
    simp only [run, hs', hrun]

/-- A kept invariant holds at the end of the run, and the run does not fault. A step may use that
the inputs so far begin the list. -/
theorem run_invariant_prefix (Inv : σ → List ι → Prop) {s : σ} {l : List ι}
    (hstep : ∀ s past i, past ++ [i] <+: l → Inv s past → P s i →
      ∃ s', step s i = .ok s' ∧ Inv s' (past ++ [i]))
    (hs : Inv s []) (hl : Meets step P s l) : ∃ s', run step s l = .ok s' ∧ Inv s' l :=
  run_invariant_from hstep hs hl

theorem run_invariant (Inv : σ → List ι → Prop)
    (hstep : ∀ s past i, Inv s past → P s i → ∃ s', step s i = .ok s' ∧ Inv s' (past ++ [i]))
    {s : σ} {l : List ι} (hs : Inv s []) (hl : Meets step P s l) :
    ∃ s', run step s l = .ok s' ∧ Inv s' l :=
  run_invariant_prefix Inv (fun s past i _ => hstep s past i) hs hl

private theorem run_ok_invariant_from {Inv : σ → List ι → Prop} {s s' : σ} {past l : List ι}
    (hstep : ∀ s past' i s', past' ++ [i] <+: past ++ l → Inv s past' → step s i = .ok s' →
      Inv s' (past' ++ [i]))
    (hs : Inv s past) (hrun : run step s l = .ok s') : Inv s' (past ++ l) := by
  induction l generalizing s past with
  | nil =>
    cases hrun
    simpa using hs
  | cons i l ih =>
    have happend : past ++ i :: l = (past ++ [i]) ++ l := by simp
    rw [happend] at hstep ⊢
    simp only [run] at hrun
    cases hs' : step s i with
    | error e => simp [hs'] at hrun
    | ok s₁ =>
      rw [hs'] at hrun
      exact ih hstep (hstep s past i s₁ (List.prefix_append _ _) hs hs') hrun

/-- What every step that succeeds keeps holds at the end of a run that succeeds. -/
theorem run_ok_invariant (Inv : σ → List ι → Prop) {s s' : σ} {l : List ι}
    (hstep : ∀ s past i s', past ++ [i] <+: l → Inv s past → step s i = .ok s' →
      Inv s' (past ++ [i]))
    (hs : Inv s []) (hrun : run step s l = .ok s') : Inv s' l :=
  run_ok_invariant_from hstep hs hrun

/-- What holds at the end of a run and not at its start comes to hold at one of its steps. -/
theorem exists_step_change {Q : σ → Prop} {s t : σ} {l : List ι} (hs : ¬ Q s) (ht : Q t)
    (hrun : run step s l = .ok t) : ∃ n i u v, l[n]? = some i ∧
      run step s (l.take n) = .ok u ∧ step u i = .ok v ∧ ¬ Q u ∧ Q v := by
  induction l generalizing s with
  | nil =>
    cases hrun
    exact absurd ht hs
  | cons i l ih =>
    rw [run] at hrun
    cases hnext : step s i with
    | error e => simp [hnext] at hrun
    | ok s' =>
      simp only [hnext] at hrun
      by_cases hs' : Q s'
      · exact ⟨0, i, s, s', rfl, rfl, hnext, hs, hs'⟩
      · obtain ⟨n, j, u, v, hj, htake, hstep, hu, hv⟩ := ih hs' hrun
        refine ⟨n + 1, j, u, v, hj, ?_, hstep, hu, hv⟩
        simp only [List.take_succ_cons, run, hnext, htake]

/-- A run comes to its end exactly if its steps meet the condition under which a step does. -/
theorem run_isOk_iff {Inv : σ → Prop} {Q : ι → Prop}
    (hok : ∀ s i, Inv s → Q i → ((∃ s', step s i = .ok s') ↔ P s i))
    (hstep : ∀ s i s', Inv s → Q i → step s i = .ok s' → Inv s')
    {s : σ} {l : List ι} (hs : Inv s) (hl : ∀ i ∈ l, Q i) :
    (∃ s', run step s l = .ok s') ↔ Meets step P s l := by
  induction l generalizing s with
  | nil => simp [run, Meets]
  | cons i l ih =>
    have hi := hl i List.mem_cons_self
    rw [run, Meets, ← hok s i hs hi]
    cases hnext : step s i with
    | error e => simp
    | ok s' => simp [ih (hstep s i s' hs hi hnext) fun j hj => hl j (List.mem_cons_of_mem i hj)]

/-- Where a step that is allowed keeps an invariant exactly if it meets a condition, a run keeps it
throughout exactly if all of its steps do. -/
theorem throughout_iff {Inv : σ → Prop} {Legal : σ → ι → Prop}
    (hstep : ∀ s i, Inv s → Legal s i → ((∃ s', step s i = .ok s' ∧ Inv s') ↔ P s i))
    {s : σ} {l : List ι} (hs : Inv s) (hlegal : Meets step Legal s l) :
    (∀ n, ∃ s', run step s (l.take n) = .ok s' ∧ Inv s') ↔ Meets step P s l := by
  induction l generalizing s with
  | nil => simp [run, Meets, hs]
  | cons i l ih =>
    obtain ⟨hi, hl⟩ := hlegal
    constructor
    · intro h
      obtain ⟨s₁, hrun, hs₁⟩ := h 1
      have hnext : step s i = .ok s₁ := by
        cases hx : step s i with
        | error e => simp [run, hx] at hrun
        | ok s' => simpa [run, hx] using hrun
      rw [hnext] at hl
      rw [Meets, hnext]
      refine ⟨(hstep s i hs hi).mp ⟨s₁, hnext, hs₁⟩, (ih hs₁ hl).mp fun n => ?_⟩
      obtain ⟨s', hrun', hs'⟩ := h (n + 1)
      exact ⟨s', by simpa [run, hnext] using hrun', hs'⟩
    · rintro ⟨hP, hmeets⟩ n
      obtain ⟨s₁, hnext, hs₁⟩ := (hstep s i hs hi).mpr hP
      rw [hnext] at hl hmeets
      cases n with
      | zero => exact ⟨s, rfl, hs⟩
      | succ n =>
        obtain ⟨s', hrun, hs'⟩ := (ih hs₁ hl).mpr hmeets n
        exact ⟨s', by simpa [run, hnext] using hrun, hs'⟩

end Dtnme.Library
