import Dtnme.Library.Transition
import Dtnme.Bundling.BlockInfo

/-! # The payload quota in machine words

`BundleStore` rounds a size up to whole blocks and adds it to the space in use before it compares
with the quota. Both sums are sums of 64-bit words, and the size can be one that a sender declared.
As long as nothing wraps, the counters are those of a store that counts in numbers.
-/

namespace Dtnme.Bundling
open Library

/-- A size in whole blocks, one more than are needed if it fills them. -/
def roundedSize (blockSize durableSize : ℕ) : ℕ := blockSize * ((durableSize + blockSize) / blockSize)

/-- The counters of a store in natural numbers. -/
structure SpaceNumbers where
  blockSize : ℕ := 4096
  payloadQuota : ℕ := 0
  totalSize : ℕ := 0
  totalDiskSize : ℕ := 0
  deriving DecidableEq, Repr

namespace SpaceNumbers

def charge (p : SpaceNumbers) (durableSize : ℕ) : SpaceNumbers :=
  { p with
    totalSize := p.totalSize + durableSize
    totalDiskSize := p.totalDiskSize + roundedSize p.blockSize durableSize }

def uncharge (p : SpaceNumbers) (durableSize : ℕ) : SpaceNumbers :=
  { p with
    totalSize := p.totalSize - durableSize
    totalDiskSize := p.totalDiskSize - roundedSize p.blockSize durableSize }

/-- The counters with the space reserved, if the quota allows it. -/
def tryReservePayloadSpace (p : SpaceNumbers) (durableSize : ℕ) : Option SpaceNumbers :=
  if p.payloadQuota ≠ 0 ∧ p.payloadQuota < p.totalDiskSize + roundedSize p.blockSize durableSize then
    none
  else some (p.charge durableSize)

def releasePayloadSpace (p : SpaceNumbers) (durableSize : ℕ) : Except Fault SpaceNumbers :=
  if roundedSize p.blockSize durableSize ≤ p.totalDiskSize ∧ durableSize ≤ p.totalSize then
    .ok (p.uncharge durableSize)
  else .error .assertFailed

end SpaceNumbers

/-- What `BundleStore` counts, and its part of the configuration. -/
structure StoreCounters where
  blockSize : UInt64 := 4096
  payloadQuota : UInt64 := 0
  totalSize : UInt64 := 0
  maxSize : UInt64 := 0
  totalDiskSize : UInt64 := 0
  maxDiskSize : UInt64 := 0
  blockSize_pos : 0 < blockSize := by decide
  deriving DecidableEq

namespace StoreCounters

def durableDiskSize (s : StoreCounters) (durableSize : UInt64) : UInt64 :=
  s.blockSize * ((durableSize + s.blockSize) / s.blockSize)

def raiseMaxSize (s : StoreCounters) : StoreCounters :=
  if s.maxSize < s.totalSize then { s with maxSize := s.totalSize } else s

def raiseMaxDiskSize (s : StoreCounters) : StoreCounters :=
  if s.maxDiskSize < s.totalDiskSize then { s with maxDiskSize := s.totalDiskSize } else s

def charge (s : StoreCounters) (durableSize : UInt64) : StoreCounters :=
  { s with
    totalSize := s.totalSize + durableSize
    totalDiskSize := s.totalDiskSize + s.durableDiskSize durableSize }

/-- `reserve_payload_space`, for a bundle that has no space yet. -/
def reservePayloadSpace (s : StoreCounters) (durableSize : UInt64) : StoreCounters :=
  (s.charge durableSize).raiseMaxSize.raiseMaxDiskSize

/-- The largest size on disk is brought up to date twice, the largest size not at all. -/
def tryReservePayloadSpace (s : StoreCounters) (durableSize : UInt64) : Bool × StoreCounters :=
  if s.payloadQuota ≠ 0 ∧ s.payloadQuota < s.totalDiskSize + s.durableDiskSize durableSize then
    (false, s)
  else (true, (s.charge durableSize).raiseMaxDiskSize.raiseMaxDiskSize)

def uncharge (s : StoreCounters) (durableSize : UInt64) : StoreCounters :=
  { s with
    totalSize := s.totalSize - durableSize
    totalDiskSize := s.totalDiskSize - s.durableDiskSize durableSize }

def releasePayloadSpace (s : StoreCounters) (durableSize : UInt64) : Except Fault StoreCounters :=
  if s.durableDiskSize durableSize ≤ s.totalDiskSize ∧ durableSize ≤ s.totalSize then
    .ok (s.uncharge durableSize)
  else .error .assertFailed

inductive Op
  | reserve (durableSize : UInt64)
  | tryReserve (durableSize : UInt64)
  | release (durableSize : UInt64)
  deriving DecidableEq

def step (s : StoreCounters) : Op → Except Fault StoreCounters
  | .reserve n => .ok (s.reservePayloadSpace n)
  | .tryReserve n => .ok (s.tryReservePayloadSpace n).2
  | .release n => s.releasePayloadSpace n

@[simp] theorem raiseMaxDiskSize_totalSize (s : StoreCounters) :
    s.raiseMaxDiskSize.totalSize = s.totalSize := by
  unfold raiseMaxDiskSize
  split <;> rfl

@[simp] theorem raiseMaxDiskSize_totalDiskSize (s : StoreCounters) :
    s.raiseMaxDiskSize.totalDiskSize = s.totalDiskSize := by
  unfold raiseMaxDiskSize
  split <;> rfl

@[simp] theorem raiseMaxDiskSize_blockSize (s : StoreCounters) :
    s.raiseMaxDiskSize.blockSize = s.blockSize := by
  unfold raiseMaxDiskSize
  split <;> rfl

@[simp] theorem reservePayloadSpace_blockSize (s : StoreCounters) (durableSize : UInt64) :
    (s.reservePayloadSpace durableSize).blockSize = s.blockSize := by
  rw [reservePayloadSpace, raiseMaxDiskSize_blockSize]
  unfold raiseMaxSize
  split <;> rfl

@[simp] theorem raiseMaxDiskSize_payloadQuota (s : StoreCounters) :
    s.raiseMaxDiskSize.payloadQuota = s.payloadQuota := by
  unfold raiseMaxDiskSize
  split <;> rfl

/-! ## Sizes without a wrap -/

/-- The space on disk that a size takes, as a number. -/
def exactDiskSize (s : StoreCounters) (durableSize : UInt64) : ℕ :=
  roundedSize s.blockSize.toNat durableSize.toNat

/-- Neither the rounding nor the sum with the space in use leaves 64 bits. -/
def NoWrap (s : StoreCounters) (durableSize : UInt64) : Prop :=
  durableSize.toNat + s.blockSize.toNat < 2 ^ 64 ∧
    s.totalDiskSize.toNat + s.exactDiskSize durableSize < 2 ^ 64

/-- No sum of a reservation leaves 64 bits. -/
def Room (s : StoreCounters) (durableSize : UInt64) : Prop :=
  NoWrap s durableSize ∧ s.totalSize.toNat + durableSize.toNat < 2 ^ 64

/-- The size fits into what is left of the quota. -/
def Fits (s : StoreCounters) (durableSize : UInt64) : Prop :=
  s.exactDiskSize durableSize ≤ s.payloadQuota.toNat - s.totalDiskSize.toNat

instance (s : StoreCounters) (durableSize : UInt64) : Decidable (NoWrap s durableSize) := by
  unfold NoWrap
  infer_instance

instance (s : StoreCounters) (durableSize : UInt64) : Decidable (Room s durableSize) := by
  unfold Room
  infer_instance

instance (s : StoreCounters) (durableSize : UInt64) : Decidable (Fits s durableSize) := by
  unfold Fits
  infer_instance

theorem exactDiskSize_le (s : StoreCounters) (durableSize : UInt64) :
    s.exactDiskSize durableSize ≤ durableSize.toNat + s.blockSize.toNat :=
  Nat.mul_div_le _ _

theorem durableDiskSize_toNat {s : StoreCounters} {durableSize : UInt64}
    (h : durableSize.toNat + s.blockSize.toNat < 2 ^ 64) :
    (s.durableDiskSize durableSize).toNat = s.exactDiskSize durableSize := by
  have hle := s.exactDiskSize_le durableSize
  simp only [durableDiskSize, UInt64.toNat_mul, UInt64.toNat_div, UInt64.toNat_add]
  rw [Nat.mod_eq_of_lt h]
  exact Nat.mod_eq_of_lt (lt_of_le_of_lt hle h)

/-- A sum that wraps is less than one block. -/
theorem durableDiskSize_wrapped {s : StoreCounters} {durableSize : UInt64}
    (h : 2 ^ 64 ≤ durableSize.toNat + s.blockSize.toNat) : s.durableDiskSize durableSize = 0 := by
  have hd := durableSize.toNat_lt
  have hb := s.blockSize.toNat_lt
  have hsum : (durableSize.toNat + s.blockSize.toNat) % 2 ^ 64 / s.blockSize.toNat = 0 := by
    rw [Nat.div_eq_zero_iff]
    right
    omega
  apply UInt64.toNat_inj.mp
  simp only [durableDiskSize, UInt64.toNat_mul, UInt64.toNat_div, UInt64.toNat_add, hsum]
  rfl

theorem NoWrap.sum {s : StoreCounters} {durableSize : UInt64} (h : NoWrap s durableSize) :
    (s.totalDiskSize + s.durableDiskSize durableSize).toNat =
      s.totalDiskSize.toNat + s.exactDiskSize durableSize := by
  rw [UInt64.toNat_add, durableDiskSize_toNat h.1, Nat.mod_eq_of_lt h.2]

/-- A sum that wraps is at most the space in use. -/
theorem sum_wrapped {s : StoreCounters} {durableSize : UInt64} (h : ¬ NoWrap s durableSize) :
    s.totalDiskSize + s.durableDiskSize durableSize ≤ s.totalDiskSize := by
  by_cases hround : durableSize.toNat + s.blockSize.toNat < 2 ^ 64
  · have hsum : 2 ^ 64 ≤ s.totalDiskSize.toNat + s.exactDiskSize durableSize :=
      not_lt.mp (fun hlt => h ⟨hround, hlt⟩)
    have hle := s.exactDiskSize_le durableSize
    have ht := s.totalDiskSize.toNat_lt
    rw [UInt64.le_iff_toNat_le, UInt64.toNat_add, durableDiskSize_toNat hround]
    omega
  · rw [durableDiskSize_wrapped (not_lt.mp hround)]
    simp

/-! ## The quota -/

theorem tryReservePayloadSpace_fst {s : StoreCounters} (hquota : 0 < s.payloadQuota)
    (durableSize : UInt64) :
    (s.tryReservePayloadSpace durableSize).1 = true ↔
      s.totalDiskSize + s.durableDiskSize durableSize ≤ s.payloadQuota := by
  have hne : s.payloadQuota ≠ 0 := UInt64.pos_iff_ne_zero.mp hquota
  unfold tryReservePayloadSpace
  split_ifs with h
  · simpa using h.2
  · simpa [hne] using h

theorem tryReservePayloadSpace_success {s : StoreCounters} {durableSize : UInt64}
    (h : (s.tryReservePayloadSpace durableSize).1 = true) :
    (s.tryReservePayloadSpace durableSize).2.totalDiskSize =
      s.totalDiskSize + s.durableDiskSize durableSize := by
  unfold tryReservePayloadSpace at h ⊢
  split_ifs at h ⊢
  simp [charge]

theorem tryReservePayloadSpace_failure {s : StoreCounters} {durableSize : UInt64}
    (h : (s.tryReservePayloadSpace durableSize).1 = false) :
    (s.tryReservePayloadSpace durableSize).2 = s := by
  unfold tryReservePayloadSpace at h ⊢
  split_ifs at h ⊢
  rfl

/-- Space is reserved only if there is some, the quota still holds, and a refusal changes nothing. -/
def QuotaKept (s : StoreCounters) (durableSize : UInt64) : Prop :=
  ((s.tryReservePayloadSpace durableSize).1 = true →
    Fits s durableSize ∧
      (s.tryReservePayloadSpace durableSize).2.totalDiskSize ≤ s.payloadQuota) ∧
  ((s.tryReservePayloadSpace durableSize).1 = false →
    (s.tryReservePayloadSpace durableSize).2 = s)

theorem NoWrap.quotaKept {s : StoreCounters} {durableSize : UInt64} (h : NoWrap s durableSize)
    (hquota : 0 < s.payloadQuota) : QuotaKept s durableSize := by
  refine ⟨fun hok => ?_, tryReservePayloadSpace_failure⟩
  have hle := (tryReservePayloadSpace_fst hquota durableSize).mp hok
  have hnat := UInt64.le_iff_toNat_le.mp hle
  rw [h.sum] at hnat
  constructor
  · unfold Fits
    omega
  · rw [tryReservePayloadSpace_success hok]
    exact hle

/-- The quota cannot be passed by if and only if the sums stay within 64 bits, or the size fits
although they do not. -/
theorem tryReservePayloadSpace_quotaKept_iff (s : StoreCounters) (durableSize : UInt64)
    (hquota : 0 < s.payloadQuota) (htotal : s.totalDiskSize ≤ s.payloadQuota) :
    QuotaKept s durableSize ↔ NoWrap s durableSize ∨ Fits s durableSize := by
  by_cases hwrap : NoWrap s durableSize
  · exact iff_of_true (hwrap.quotaKept hquota) (.inl hwrap)
  · -- a wrapped sum is never refused
    have hle := UInt64.le_trans (sum_wrapped hwrap) htotal
    have hok := (tryReservePayloadSpace_fst hquota durableSize).mpr hle
    constructor
    · intro hkept
      exact .inr (hkept.1 hok).1
    · intro hfits
      have hfits := hfits.resolve_left hwrap
      refine ⟨fun _ => ⟨hfits, ?_⟩, tryReservePayloadSpace_failure⟩
      rw [tryReservePayloadSpace_success hok]
      exact hle

/-- The second of two reservations is refused. -/
theorem tryReservePayloadSpace_quotaKept_iff_small :
    QuotaKept { payloadQuota := 20000, totalSize := 9000, totalDiskSize := 12288 } 8000 ↔
      NoWrap { payloadQuota := 20000, totalSize := 9000, totalDiskSize := 12288 } 8000 ∨
        Fits { payloadQuota := 20000, totalSize := 9000, totalDiskSize := 12288 } 8000 :=
  tryReservePayloadSpace_quotaKept_iff _ _ (by decide) (by decide)

/-- A store that has space for three blocks reserves 2 ^ 64 - 1 bytes and counts no block for them. -/
theorem tryReservePayloadSpace_bypassed :
    ∃ s, run step { payloadQuota := 20000 } [.tryReserve 5000] = .ok s ∧
      0 < s.payloadQuota ∧ s.totalDiskSize ≤ s.payloadQuota ∧
      ¬ QuotaKept s 0xffffffffffffffff := by
  refine ⟨_, rfl, by decide, by decide, fun h => ?_⟩
  have hfits := (h.1 (by decide)).1
  revert hfits
  decide

-- a reservation that is let through makes the largest size grow by nothing
example : (tryReservePayloadSpace { payloadQuota := 20000 } 5000).2 =
    { payloadQuota := 20000, totalSize := 5000, totalDiskSize := 8192, maxDiskSize := 8192 } := by
  decide

/-! ## The store of numbers -/

/-- The numbers that the words stand for. -/
def numbers (s : StoreCounters) : SpaceNumbers :=
  ⟨s.blockSize.toNat, s.payloadQuota.toNat, s.totalSize.toNat, s.totalDiskSize.toNat⟩

/-- The words of a store are the numbers of the other. -/
def Agrees (s : StoreCounters) (p : SpaceNumbers) : Prop :=
  p.blockSize = s.blockSize.toNat ∧ p.payloadQuota = s.payloadQuota.toNat ∧
    p.totalSize = s.totalSize.toNat ∧ p.totalDiskSize = s.totalDiskSize.toNat

/-- Both fail alike, or end with the same numbers. -/
def AgreesOk (x : Except Fault StoreCounters) (y : Except Fault SpaceNumbers) : Prop :=
  match x, y with
  | .ok s, .ok p => Agrees s p
  | .error e, .error e' => e = e'
  | _, _ => False

/-- The operations in numbers. A reservation for a bundle is for one that has no space yet. -/
def numberStep (p : SpaceNumbers) : Op → Except Fault SpaceNumbers
  | .reserve n => .ok (p.charge n.toNat)
  | .tryReserve n => .ok ((p.tryReservePayloadSpace n.toNat).getD p)
  | .release n => p.releasePayloadSpace n.toNat

/-- No sum of the operation leaves 64 bits. -/
def Exact (s : StoreCounters) : Op → Prop
  | .reserve n => Room s n
  | .tryReserve n => Room s n
  | .release n => n.toNat + s.blockSize.toNat < 2 ^ 64

instance (s : StoreCounters) (op : Op) : Decidable (Exact s op) := by
  unfold Exact
  cases op <;> infer_instance

theorem agrees_numbers (s : StoreCounters) : Agrees s s.numbers := ⟨rfl, rfl, rfl, rfl⟩

theorem Agrees.charge {s : StoreCounters} {p : SpaceNumbers} (h : Agrees s p) {durableSize : UInt64}
    (hroom : Room s durableSize) : Agrees (s.charge durableSize) (p.charge durableSize.toNat) := by
  obtain ⟨hwrap, hsize⟩ := hroom
  obtain ⟨hblock, hquota, htotal, hdisk⟩ := h
  refine ⟨hblock, hquota, ?_, ?_⟩
  · change p.totalSize + durableSize.toNat = (s.totalSize + durableSize).toNat
    rw [UInt64.toNat_add, Nat.mod_eq_of_lt hsize, htotal]
  · change p.totalDiskSize + roundedSize p.blockSize durableSize.toNat =
      (s.totalDiskSize + s.durableDiskSize durableSize).toNat
    rw [hwrap.sum, hdisk, hblock]
    rfl

theorem Agrees.raiseMaxDiskSize {s : StoreCounters} {p : SpaceNumbers} (h : Agrees s p) :
    Agrees s.raiseMaxDiskSize p := by
  simpa [Agrees] using h

theorem Agrees.raiseMaxSize {s : StoreCounters} {p : SpaceNumbers} (h : Agrees s p) :
    Agrees s.raiseMaxSize p := by
  unfold StoreCounters.raiseMaxSize
  split_ifs
  · exact h
  · exact h

theorem Agrees.reservePayloadSpace {s : StoreCounters} {p : SpaceNumbers} (h : Agrees s p)
    {durableSize : UInt64} (hroom : Room s durableSize) :
    Agrees (s.reservePayloadSpace durableSize) (p.charge durableSize.toNat) :=
  (h.charge hroom).raiseMaxSize.raiseMaxDiskSize

/-- As long as nothing wraps, a reservation in words is the reservation in numbers. -/
theorem Agrees.tryReservePayloadSpace {s : StoreCounters} {p : SpaceNumbers} (h : Agrees s p)
    {durableSize : UInt64} (hroom : Room s durableSize) :
    ((s.tryReservePayloadSpace durableSize).1 = (p.tryReservePayloadSpace durableSize.toNat).isSome) ∧
      ∀ t ∈ p.tryReservePayloadSpace durableSize.toNat,
        Agrees (s.tryReservePayloadSpace durableSize).2 t := by
  have hcharge := h.charge hroom
  obtain ⟨hblock, hquota, htotal, hdisk⟩ := h
  have hguard : (s.payloadQuota ≠ 0 ∧
      s.payloadQuota < s.totalDiskSize + s.durableDiskSize durableSize) ↔
      (p.payloadQuota ≠ 0 ∧
        p.payloadQuota < p.totalDiskSize + roundedSize p.blockSize durableSize.toNat) := by
    rw [UInt64.lt_iff_toNat_lt, hroom.1.sum, hquota, hdisk, hblock, Ne, ← UInt64.toNat_inj]
    rfl
  unfold StoreCounters.tryReservePayloadSpace SpaceNumbers.tryReservePayloadSpace
  by_cases hfull : s.payloadQuota ≠ 0 ∧
      s.payloadQuota < s.totalDiskSize + s.durableDiskSize durableSize
  · rw [if_pos hfull, if_pos (hguard.mp hfull)]
    simp
  · rw [if_neg hfull, if_neg (mt hguard.mpr hfull)]
    refine ⟨rfl, fun t ht => ?_⟩
    cases ht
    exact hcharge.raiseMaxDiskSize.raiseMaxDiskSize

theorem Agrees.releasePayloadSpace {s : StoreCounters} {p : SpaceNumbers} (h : Agrees s p)
    {durableSize : UInt64} (hround : durableSize.toNat + s.blockSize.toNat < 2 ^ 64) :
    AgreesOk (s.releasePayloadSpace durableSize) (p.releasePayloadSpace durableSize.toNat) := by
  obtain ⟨hblock, hquota, htotal, hdisk⟩ := h
  have hexact : (s.durableDiskSize durableSize).toNat =
      roundedSize p.blockSize durableSize.toNat := by
    rw [durableDiskSize_toNat hround, hblock]
    rfl
  have hguard : (s.durableDiskSize durableSize ≤ s.totalDiskSize ∧ durableSize ≤ s.totalSize) ↔
      (roundedSize p.blockSize durableSize.toNat ≤ p.totalDiskSize ∧
        durableSize.toNat ≤ p.totalSize) := by
    rw [UInt64.le_iff_toNat_le, UInt64.le_iff_toNat_le, hexact, htotal, hdisk]
  unfold StoreCounters.releasePayloadSpace SpaceNumbers.releasePayloadSpace
  by_cases hok : s.durableDiskSize durableSize ≤ s.totalDiskSize ∧ durableSize ≤ s.totalSize
  · rw [if_pos hok, if_pos (hguard.mp hok)]
    refine ⟨hblock, hquota, ?_, ?_⟩
    · change p.totalSize - durableSize.toNat = (s.totalSize - durableSize).toNat
      rw [UInt64.toNat_sub_of_le _ _ hok.2, htotal]
    · change p.totalDiskSize - _ = (s.totalDiskSize - s.durableDiskSize durableSize).toNat
      rw [UInt64.toNat_sub_of_le _ _ hok.1, hdisk, hexact]
  · rw [if_neg hok, if_neg (mt hguard.mpr hok)]
    rfl

theorem Agrees.step {s : StoreCounters} {p : SpaceNumbers} (h : Agrees s p) {op : Op}
    (hexact : Exact s op) : AgreesOk (step s op) (numberStep p op) := by
  cases op with
  | reserve n =>
    exact h.reservePayloadSpace hexact
  | tryReserve n =>
    obtain ⟨hsome, hagrees⟩ := h.tryReservePayloadSpace hexact
    change Agrees (s.tryReservePayloadSpace n).2 ((p.tryReservePayloadSpace n.toNat).getD p)
    cases ht : p.tryReservePayloadSpace n.toNat with
    | none =>
      rw [ht, Option.isSome_none] at hsome
      unfold StoreCounters.tryReservePayloadSpace at hsome ⊢
      split_ifs at hsome ⊢
      exact h
    | some t => exact hagrees t ht
  | release n => exact h.releasePayloadSpace hexact

/-- As long as nothing wraps, every run in words is the run in numbers: both end with the same
failed assertion or with the same numbers. -/
theorem counters_run_agree (s : StoreCounters) (p : SpaceNumbers) (ops : List Op) (h : Agrees s p)
    (hexact : Meets step Exact s ops) : AgreesOk (run step s ops) (run numberStep p ops) := by
  induction ops generalizing s p with
  | nil => exact h
  | cons op ops ih =>
    obtain ⟨hop, hrest⟩ := hexact
    have hstep := h.step hop
    unfold run
    cases hs : step s op with
    | error e =>
      cases hp : numberStep p op with
      | error e' =>
        rw [hs, hp] at hstep
        exact hstep
      | ok q =>
        rw [hs, hp] at hstep
        exact hstep.elim
    | ok t =>
      rw [hs] at hrest
      cases hp : numberStep p op with
      | error e' =>
        rw [hs, hp] at hstep
        exact hstep.elim
      | ok q =>
        rw [hs, hp] at hstep
        exact ih t q hstep hrest

/-- A reservation, one that the quota refuses, and a release. -/
theorem counters_run_agree_refused :
    AgreesOk (run step { payloadQuota := 20000 } [.tryReserve 5000, .tryReserve 13000, .release 5000])
      (run numberStep { payloadQuota := 20000 }
        [.tryReserve 5000, .tryReserve 13000, .release 5000]) :=
  counters_run_agree { payloadQuota := 20000 } { payloadQuota := 20000 } _ ⟨rfl, rfl, rfl, rfl⟩ (by decide)

end StoreCounters

end Dtnme.Bundling
