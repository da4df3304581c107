import Mathlib

/-! # Logged computations

A computation that may fail and keeps a log of what it did. A property of all events of
a sequence splits into the property of its first part and of what follows a success. A
weakest precondition says both at once: all events are good and a result, if there is
one, meets a postcondition.
-/

namespace Dtnme.Library

structure Logged (ε α : Type) where
  events : List ε
  result : Option α

namespace Logged

variable {ε α β : Type}

def fail : Logged ε α := ⟨[], none⟩

def note (e : ε) : Logged ε Unit := ⟨[e], some ()⟩

protected def bind (x : Logged ε α) (f : α → Logged ε β) : Logged ε β :=
  match x.result with
  | none => ⟨x.events, none⟩
  | some a => ⟨x.events ++ (f a).events, (f a).result⟩

instance : Monad (Logged ε) where
  pure a := ⟨[], some a⟩
  bind := Logged.bind

@[simp] theorem result_pure (a : α) : (pure a : Logged ε α).result = some a := rfl

@[simp] theorem result_fail : (fail : Logged ε α).result = none := rfl

@[simp] theorem result_note (e : ε) : (note e).result = some () := rfl

@[simp] theorem result_bind (x : Logged ε α) (f : α → Logged ε β) :
    (x >>= f).result = x.result.bind (fun a => (f a).result) := by
  cases x with
  | mk events result =>
    cases result with
    | none => rfl
    | some a => rfl

theorem result_bind_eq_some {x : Logged ε α} {f : α → Logged ε β} {b : β} :
    (x >>= f).result = some b ↔ ∃ a, x.result = some a ∧ (f a).result = some b := by
  rw [result_bind, Option.bind_eq_some_iff]

/-- Every event of the log has a property. -/
def All (p : ε → Prop) (x : Logged ε α) : Prop := ∀ e ∈ x.events, p e

instance (p : ε → Prop) [DecidablePred p] (x : Logged ε α) : Decidable (x.All p) :=
  inferInstanceAs (Decidable (∀ e ∈ x.events, p e))

variable {p : ε → Prop}

@[simp] theorem all_pure (a : α) : (pure a : Logged ε α).All p := by
  intro e he
  cases he

@[simp] theorem all_fail : (fail : Logged ε α).All p := by
  intro e he
  cases he

@[simp] theorem all_note (e : ε) : (note e).All p ↔ p e := by
  simp [All, note]

theorem all_bind (x : Logged ε α) (f : α → Logged ε β) :
    (x >>= f).All p ↔ x.All p ∧ ∀ a, x.result = some a → (f a).All p := by
  cases x with
  | mk events result =>
    cases result with
    | none => simp [All, bind, Logged.bind]
    | some a => simp [All, bind, Logged.bind, or_imp, forall_and]

/-- All events have a property, and a result has another one. -/
def Wp (p : ε → Prop) (x : Logged ε α) (q : α → Prop) : Prop :=
  x.All p ∧ ∀ a, x.result = some a → q a

variable {q : α → Prop}

theorem wp_true {x : Logged ε α} : x.Wp p (fun _ => True) ↔ x.All p :=
  and_iff_left fun _ _ => trivial

@[simp] theorem wp_pure (a : α) : (pure a : Logged ε α).Wp p q ↔ q a := by
  simp [Wp]

@[simp] theorem wp_fail : (fail : Logged ε α).Wp p q := by
  simp [Wp]

@[simp] theorem wp_note (e : ε) (q : Unit → Prop) : (note e).Wp p q ↔ p e ∧ q () := by
  rw [Wp, all_note]
  exact and_congr_right fun _ => ⟨fun h => h () rfl, fun h _ _ => h⟩

theorem wp_bind (x : Logged ε α) (f : α → Logged ε β) (q : β → Prop) :
    (x >>= f).Wp p q ↔ x.Wp p (fun a => (f a).Wp p q) := by
  unfold Wp
  rw [all_bind, and_assoc]
  refine and_congr_right fun _ => ?_
  simp only [result_bind_eq_some]
  constructor
  · rintro ⟨hall, hres⟩ a ha
    exact ⟨hall a ha, fun b hb => hres b ⟨a, ha, hb⟩⟩
  · intro h
    refine ⟨fun a ha => (h a ha).1, ?_⟩
    rintro b ⟨a, ha, hb⟩
    exact (h a ha).2 b hb

end Logged

end Dtnme.Library
