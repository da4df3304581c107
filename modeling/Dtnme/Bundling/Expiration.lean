import Mathlib

/-! # The time a bundle has left

Lifetimes, creation times and ages are 64-bit words of milliseconds, BPv6's seconds being scaled
on the way in. The time left is their difference taken as a signed word, so it is right as long
as the stored words are and the difference fits.
-/

namespace Dtnme.Bundling.Expiration

/-- The fields of `Bundle` that its age and its lifetime are read from. -/
structure Bundle where
  isBpv6 : Bool
  secsOrMillisecs : UInt64
  expirationMillis : UInt64 := 0
  prevBundleAgeMillis : UInt64 := 0
  hasBundleAgeBlock : Bool := false
  deriving DecidableEq, Repr

/-- The current time in milliseconds, and `elapsed_ms` of the time of reception. -/
structure Clock where
  currentTimeMillis : UInt64
  elapsedMs : UInt64

namespace Bundle

def setExpirationSecs (b : Bundle) (e : UInt64) : Bundle := { b with expirationMillis := e * 1000 }

def setExpirationMillis (b : Bundle) (e : UInt64) : Bundle := { b with expirationMillis := e }

def setPrevBundleAgeMillis (b : Bundle) (t : UInt64) : Bundle :=
  { b with prevBundleAgeMillis := t, hasBundleAgeBlock := true }

def creationTimeMillis (b : Bundle) : UInt64 :=
  if b.isBpv6 then b.secsOrMillisecs * 1000 else b.secsOrMillisecs

def currentBundleAgeMillis (b : Bundle) (c : Clock) : UInt64 :=
  if b.hasBundleAgeBlock then b.prevBundleAgeMillis + c.elapsedMs
  else c.currentTimeMillis - b.creationTimeMillis

/-- The difference that `time_to_expiration_millis` assigns to an `int64_t`. -/
def signedDifference (b : Bundle) (c : Clock) : ℤ :=
  (b.expirationMillis - b.currentBundleAgeMillis c).toInt64.toInt

def timeToExpirationMillis (b : Bundle) (c : Clock) : ℤ :=
  if b.signedDifference c < 0 then -1 else b.signedDifference c

end Bundle

/-- What a bundle says about its life: the primary block's creation time and lifetime, in the unit
of its version, and the age block's age. -/
structure Wire where
  isBpv6 : Bool
  creation : UInt64
  lifetime : UInt64
  age : Option UInt64

namespace Wire

/-- The bundle that the block processors fill in. -/
def consume (w : Wire) : Bundle :=
  let bundle : Bundle := { isBpv6 := w.isBpv6, secsOrMillisecs := w.creation }
  let bundle := if w.isBpv6 then bundle.setExpirationSecs w.lifetime
    else bundle.setExpirationMillis w.lifetime
  match w.age with
  | some t => bundle.setPrevBundleAgeMillis t
  | none => bundle

/-- Milliseconds in the unit of the bundle's version. -/
def unit (w : Wire) : ℤ := if w.isBpv6 then 1000 else 1

def lifetimeMillis (w : Wire) : ℤ := w.unit * w.lifetime.toNat

def creationMillis (w : Wire) : ℤ := w.unit * w.creation.toNat

/-- The age as a number: below 0 for a bundle from the future. -/
def ageMillis (w : Wire) (c : Clock) : ℤ :=
  match w.age with
  | some t => t.toNat + c.elapsedMs.toNat
  | none => c.currentTimeMillis.toNat - w.creationMillis

def timeLeft (w : Wire) (c : Clock) : ℤ := w.lifetimeMillis - w.ageMillis c

/-- -1 for an age over the lifetime, else the difference up to the largest signed word. -/
def Exact (w : Wire) (c : Clock) : Prop :=
  w.consume.timeToExpirationMillis c =
    if w.lifetimeMillis < w.ageMillis c then -1 else min (w.timeLeft c) (2 ^ 63 - 1)

/-- Every word that the computation goes through is the number it stands for. -/
structure NoWrap (w : Wire) (c : Clock) : Prop where
  lifetime : (w.consume.expirationMillis.toNat : ℤ) = w.lifetimeMillis
  creation : w.age = none → (w.consume.creationTimeMillis.toNat : ℤ) = w.creationMillis
  age : ((w.consume.currentBundleAgeMillis c).toNat : ℤ) = w.ageMillis c
  difference : w.consume.signedDifference c = w.timeLeft c

/-! ## The stored words are the numbers modulo the width -/

@[simp] theorem consume_isBpv6 (w : Wire) : w.consume.isBpv6 = w.isBpv6 := by
  unfold consume Bundle.setExpirationSecs Bundle.setExpirationMillis
  split_ifs <;> cases w.age <;> rfl

@[simp] theorem consume_secsOrMillisecs (w : Wire) :
    w.consume.secsOrMillisecs = w.creation := by
  unfold consume Bundle.setExpirationSecs Bundle.setExpirationMillis
  split_ifs <;> cases w.age <;> rfl

@[simp] theorem consume_hasBundleAgeBlock (w : Wire) :
    w.consume.hasBundleAgeBlock = w.age.isSome := by
  unfold consume Bundle.setExpirationSecs Bundle.setExpirationMillis
  split_ifs <;> cases w.age <;> rfl

theorem consume_prevBundleAgeMillis {w : Wire} {t : UInt64} (h : w.age = some t) :
    w.consume.prevBundleAgeMillis = t := by
  simp [consume, h, Bundle.setPrevBundleAgeMillis]

theorem consume_expirationMillis (w : Wire) :
    (w.consume.expirationMillis.toNat : ℤ) = w.lifetimeMillis % 2 ^ 64 := by
  have hlt := w.lifetime.toNat_lt
  unfold consume lifetimeMillis unit Bundle.setExpirationSecs Bundle.setExpirationMillis
  split_ifs <;> cases w.age <;>
    simp [Bundle.setPrevBundleAgeMillis, UInt64.toNat_mul] <;> omega

theorem creationTimeMillis_consume (w : Wire) :
    (w.consume.creationTimeMillis.toNat : ℤ) = w.creationMillis % 2 ^ 64 := by
  have hlt := w.creation.toNat_lt
  unfold Bundle.creationTimeMillis creationMillis unit
  rw [consume_isBpv6, consume_secsOrMillisecs]
  split_ifs
  · simp [UInt64.toNat_mul]
    omega
  · omega

theorem currentBundleAgeMillis_consume (w : Wire) (c : Clock) :
    ((w.consume.currentBundleAgeMillis c).toNat : ℤ) = w.ageMillis c % 2 ^ 64 := by
  have hcreation := creationTimeMillis_consume w
  unfold Bundle.currentBundleAgeMillis ageMillis
  rw [consume_hasBundleAgeBlock]
  cases h : w.age with
  | some t =>
    simp [consume_prevBundleAgeMillis h, UInt64.toNat_add]
  | none =>
    simp [UInt64.toNat_sub]
    omega

/-- The signed word that stands for a number. -/
def wrap (d : ℤ) : ℤ := if d % 2 ^ 64 < 2 ^ 63 then d % 2 ^ 64 else d % 2 ^ 64 - 2 ^ 64

theorem toInt64_toInt (x : UInt64) : x.toInt64.toInt = wrap x.toNat := by
  have hlt := x.toNat_lt
  have hint : x.toInt64.toInt = (x.toNat : ℤ).bmod (2 ^ 64) :=
    BitVec.toInt_eq_toNat_bmod x.toBitVec
  rw [hint, Int.bmod, wrap]
  split_ifs <;> omega

theorem signedDifference_consume (w : Wire) (c : Clock) :
    w.consume.signedDifference c = wrap (w.timeLeft c) := by
  have hlifetime := consume_expirationMillis w
  have hage := currentBundleAgeMillis_consume w c
  unfold Bundle.signedDifference timeLeft
  rw [toInt64_toInt, UInt64.toNat_sub]
  have hmod : (((2 ^ 64 - (w.consume.currentBundleAgeMillis c).toNat +
      w.consume.expirationMillis.toNat) % 2 ^ 64 : ℕ) : ℤ) =
      (w.lifetimeMillis - w.ageMillis c) % 2 ^ 64 := by
    have hlt := (w.consume.currentBundleAgeMillis c).toNat_lt
    omega
  rw [hmod, wrap, wrap, Int.emod_emod]

/-! ## When the result is right -/

theorem wrap_eq_iff (d : ℤ) : wrap d = d ↔ -2 ^ 63 ≤ d ∧ d < 2 ^ 63 := by
  unfold wrap
  split_ifs <;> omega

/-- The result is right when the time left fits, and by accident for a difference that wraps to the
cap or to another negative number. -/
theorem exact_iff (w : Wire) (c : Clock) :
    w.Exact c ↔
      (-2 ^ 63 ≤ w.timeLeft c ∧ w.timeLeft c < 2 ^ 63) ∨
      (2 ^ 63 ≤ w.timeLeft c ∧ w.timeLeft c % 2 ^ 64 = 2 ^ 63 - 1) ∨
      (w.timeLeft c < -2 ^ 63 ∧ 2 ^ 63 ≤ w.timeLeft c % 2 ^ 64) := by
  have hexpired : w.lifetimeMillis < w.ageMillis c ↔ w.timeLeft c < 0 := by
    unfold timeLeft
    omega
  unfold Exact Bundle.timeToExpirationMillis
  rw [signedDifference_consume]
  simp only [hexpired]
  generalize w.timeLeft c = d
  unfold wrap
  split_ifs <;> omega

theorem noWrap_iff (w : Wire) (c : Clock) :
    w.NoWrap c ↔ w.lifetimeMillis < 2 ^ 64 ∧
      (w.age = none → w.creationMillis ≤ c.currentTimeMillis.toNat) ∧
      (∀ t, w.age = some t → t.toNat + c.elapsedMs.toNat < 2 ^ 64) ∧
      -2 ^ 63 ≤ w.timeLeft c ∧ w.timeLeft c < 2 ^ 63 := by
  have hlifetime := consume_expirationMillis w
  have hcreation := creationTimeMillis_consume w
  have hage := currentBundleAgeMillis_consume w c
  have hnow := c.currentTimeMillis.toNat_lt
  have hlifetime0 : 0 ≤ w.lifetimeMillis := by
    unfold lifetimeMillis unit
    split_ifs <;> omega
  have hcreation0 : 0 ≤ w.creationMillis := by
    unfold creationMillis unit
    split_ifs <;> omega
  constructor
  · intro h
    have h1 := h.lifetime
    have h3 := h.age
    refine ⟨by omega, fun hnone => ?_, fun t hsome => ?_, ?_⟩
    · have hval : w.ageMillis c = c.currentTimeMillis.toNat - w.creationMillis := by
        simp [ageMillis, hnone]
      omega
    · have hval : w.ageMillis c = t.toNat + c.elapsedMs.toNat := by
        simp [ageMillis, hsome]
      omega
    · rw [← wrap_eq_iff, ← signedDifference_consume]
      exact h.difference
  · rintro ⟨hlt, hnone, hsome, hfits⟩
    constructor
    · omega
    · intro h
      have hle := hnone h
      omega
    · cases h : w.age with
      | none =>
        have hle := hnone h
        have hval : w.ageMillis c = c.currentTimeMillis.toNat - w.creationMillis := by
          simp [ageMillis, h]
        omega
      | some t =>
        have hle := hsome t h
        have hval : w.ageMillis c = t.toNat + c.elapsedMs.toNat := by
          simp [ageMillis, h]
        omega
    · rw [signedDifference_consume, wrap_eq_iff]
      exact hfits

/-- The result and every step towards it are right exactly when the scaled lifetime, the age and
the signed difference of the two fit their words. -/
theorem timeToExpirationMillis_exact (w : Wire) (c : Clock) :
    (w.Exact c ∧ w.NoWrap c ↔ w.lifetimeMillis < 2 ^ 64 ∧
      (w.age = none → w.creationMillis ≤ c.currentTimeMillis.toNat) ∧
      (∀ t, w.age = some t → t.toNat + c.elapsedMs.toNat < 2 ^ 64) ∧
      -2 ^ 63 ≤ w.timeLeft c ∧ w.timeLeft c < 2 ^ 63) ∧
    (w.Exact c ↔
      (-2 ^ 63 ≤ w.timeLeft c ∧ w.timeLeft c < 2 ^ 63) ∨
      (2 ^ 63 ≤ w.timeLeft c ∧ w.timeLeft c % 2 ^ 64 = 2 ^ 63 - 1) ∨
      (w.timeLeft c < -2 ^ 63 ∧ 2 ^ 63 ≤ w.timeLeft c % 2 ^ 64)) := by
  constructor
  · rw [noWrap_iff, exact_iff]
    constructor
    · exact And.right
    · intro h
      exact ⟨Or.inl h.2.2.2, h⟩
  · exact exact_iff w c

/-- A fresh BPv7 bundle with the largest lifetime counts as expired. -/
theorem timeToExpirationMillis_largest :
    ¬ ∀ (w : Wire) (c : Clock), w.Exact c ∧ w.NoWrap c := by
  intro h
  have hexact := (h ⟨false, 0, 18446744073709551615, none⟩ ⟨0, 0⟩).1
  unfold Exact at hexact
  revert hexact
  decide +kernel

end Wire

end Dtnme.Bundling.Expiration
