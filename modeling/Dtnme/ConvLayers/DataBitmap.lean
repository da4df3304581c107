import Dtnme.Bundling.BlockInfo

/-! # Data bitmaps

`SparseBitmap<uint64_t>` keeps the ranges of the set bits in order. A connection extends its bitmaps
from zero only, so that each has at most one range.
-/

namespace Dtnme.ConvLayers
open Bundling

/-- The bits from `start` to `stop`, both included. -/
structure BitRange where
  start : UInt64
  stop : UInt64
  deriving DecidableEq, Repr

abbrev DataBitmap := List BitRange

namespace DataBitmap

/-- Where a new range goes: the ranges in front of it, the last one first, the new or extended range,
and those behind it. Nothing is to do if a range covers it. -/
def place (start stop : UInt64) :
    List BitRange → DataBitmap → Option (List BitRange × BitRange × List BitRange)
  | front, [] => some (front, ⟨start, stop⟩, [])
  | front, i :: rest =>
    if i.start ≤ start ∧ start ≤ i.stop + 1 then
      if stop ≤ i.stop then none else some (front, { i with stop := stop }, rest)
    else if i.start - 1 ≤ stop ∧ stop ≤ i.stop then
      if i.start ≤ start then none else some (front, { i with start := start }, rest)
    else if stop < i.start then some (front, ⟨start, stop⟩, i :: rest)
    else place start stop (i :: front) rest

def compactRight (i : BitRange) : List BitRange → BitRange × List BitRange
  | [] => (i, [])
  | j :: rest =>
    if j.start - 1 ≤ i.stop then
      compactRight { i with stop := if i.stop < j.stop then j.stop else i.stop } rest
    else (i, j :: rest)

def compactLeft (i : BitRange) : List BitRange → List BitRange × BitRange
  | [] => ([], i)
  | j :: front =>
    if i.start - 1 ≤ j.stop then
      compactLeft ⟨if j.start < i.start then j.start else i.start,
        if i.stop < j.stop then j.stop else i.stop⟩ front
    else (j :: front, i)

def validate : DataBitmap → Bool
  | [] => true
  | [i] => i.start ≤ i.stop
  | i :: j :: rest => i.start ≤ i.stop && i.stop < j.start && validate (j :: rest)

/-- Ranges that the new one reaches become part of it. -/
def compact (front : List BitRange) (i : BitRange) (rest : List BitRange) : DataBitmap :=
  let right := compactRight i rest
  let left := compactLeft right.1 front
  left.1.reverse ++ left.2 :: right.2

def set (m : DataBitmap) (start len : UInt64) : Except Fault DataBitmap := do
  require (len ≠ 0)
  match place start (start + len - 1) [] m with
  | none => pure m
  | some (front, i, rest) =>
    require (validate (compact front i rest) = true)
    pure (compact front i rest)

/-- `is_set` of one bit. -/
def isSet (m : DataBitmap) (bit : UInt64) : Bool := m.any (fun i => i.start ≤ bit && bit ≤ i.stop)

def numContiguous : DataBitmap → UInt64
  | [] => 0
  | i :: _ => i.stop - i.start + 1

/-- The first bit behind all that are set. -/
def next (m : DataBitmap) : UInt64 :=
  match m.getLast? with
  | none => 0
  | some i => i.stop + 1

/-- The bits below `n` are set, and bit `n` is not. -/
def Contiguous (m : DataBitmap) (n : UInt64) : Prop := (∀ k < n, m.isSet k = true) ∧ m.isSet n = false

theorem Contiguous.unique {m : DataBitmap} {n k : UInt64} (hn : Contiguous m n)
    (hk : Contiguous m k) : n = k := by
  rcases Nat.lt_trichotomy n.toNat k.toNat with h | h | h
  · exact absurd hn.2 (by simp [hk.1 n h])
  · exact UInt64.toNat_inj.mp h
  · exact absurd hk.2 (by simp [hn.1 k h])

/-! ## The bits below a bound -/

def upTo (n : UInt64) : DataBitmap := if n = 0 then [] else [⟨0, n - 1⟩]

@[simp] theorem upTo_zero : upTo 0 = [] := rfl

theorem upTo_of_ne {n : UInt64} (h : n ≠ 0) : upTo n = [⟨0, n - 1⟩] := if_neg h

theorem numContiguous_upTo (n : UInt64) : numContiguous (upTo n) = n := by
  by_cases h : n = 0
  · simp [h, numContiguous]
  · rw [upTo_of_ne h, numContiguous]
    simp

theorem next_upTo (n : UInt64) : next (upTo n) = n := by
  by_cases h : n = 0
  · simp [h, next]
  · simp [upTo_of_ne h, next]

theorem contiguous_upTo (n : UInt64) : Contiguous (upTo n) n := by
  by_cases h : n = 0
  · subst h
    exact ⟨fun k hk => absurd hk (by simp), rfl⟩
  · rw [upTo_of_ne h]
    have hpos : 0 < n.toNat := by
      rw [Nat.pos_iff_ne_zero]
      exact fun h0 => h (UInt64.toNat_inj.mp h0)
    have hsub : (n - 1).toNat = n.toNat - 1 := by
      have := n.toNat_lt
      rw [UInt64.toNat_sub]
      simp
      omega
    constructor
    · intro k hk
      have hk' := UInt64.lt_iff_toNat_lt.mp hk
      simp [isSet, UInt64.le_iff_toNat_le, hsub]
      omega
    · simp [isSet, UInt64.le_iff_toNat_le, hsub]
      omega

theorem set_one (start stop : UInt64) {i : BitRange} {m : DataBitmap}
    (hplace : place start stop [] m = some ([], i, [])) (hi : i.start ≤ i.stop) {len : UInt64}
    (hlen : len ≠ 0) (hstop : stop = start + len - 1) : set m start len = .ok [i] := by
  subst hstop
  unfold set
  rw [require_of hlen, ok_bind, hplace]
  exact congrArg (· >>= fun _ => pure [i]) (require_of (by simpa [compact, compactRight, compactLeft, validate] using hi))

/-- The bits up to a length are set from the beginning. -/
theorem set_zero (n : UInt64) {len : UInt64} (hlen : len ≠ 0) :
    set (upTo n) 0 len = .ok (upTo (if n < len then len else n)) := by
  have hle : ∀ {a b : UInt64}, a ≠ 0 → b ≠ 0 → (a - 1 ≤ b - 1 ↔ a ≤ b) := by
    intro a b ha hb
    have ha' : a.toNat ≠ 0 := fun h0 => ha (UInt64.toNat_inj.mp h0)
    have hb' : b.toNat ≠ 0 := fun h0 => hb (UInt64.toNat_inj.mp h0)
    have := a.toNat_lt
    have := b.toNat_lt
    simp only [UInt64.le_iff_toNat_le, UInt64.toNat_sub]
    simp
    omega
  by_cases hn : n = 0
  · subst hn
    rw [if_pos (UInt64.pos_iff_ne_zero.mpr hlen), upTo_of_ne hlen]
    exact set_one 0 (len - 1) rfl UInt64.zero_le hlen (by simp)
  · rw [upTo_of_ne hn]
    by_cases h : n < len
    · have hnot : ¬ len ≤ n := UInt64.not_le.mpr h
      rw [if_pos h, upTo_of_ne hlen]
      refine set_one 0 (len - 1) ?_ UInt64.zero_le hlen (by simp)
      simp [place, mt (hle hlen hn).mp hnot]
    · rw [if_neg h, upTo_of_ne hn]
      unfold set
      rw [require_of hlen, ok_bind]
      simp [place, (hle hlen hn).mpr (UInt64.not_lt.mp h)]
      rfl

/-- The bits are extended at the end. -/
theorem set_next {n len : UInt64} (hlen : len ≠ 0) (hsum : n.toNat + len.toNat < 2 ^ 64) :
    set (upTo n) n len = .ok (upTo (n + len)) := by
  have hlen' : len.toNat ≠ 0 := fun h0 => hlen (UInt64.toNat_inj.mp h0)
  have hadd : (n + len).toNat = n.toNat + len.toNat := by
    rw [UInt64.toNat_add]
    exact Nat.mod_eq_of_lt hsum
  have hne : n + len ≠ 0 := fun h0 => by
    have : (n + len).toNat = 0 := by rw [h0]; rfl
    omega
  rw [upTo_of_ne hne]
  by_cases hn : n = 0
  · subst hn
    exact set_one 0 (0 + len - 1) rfl UInt64.zero_le hlen rfl
  · have hn' : n.toNat ≠ 0 := fun h0 => hn (UInt64.toNat_inj.mp h0)
    have hnot : ¬ n + len - 1 ≤ n - 1 := by
      have := n.toNat_lt
      simp only [UInt64.le_iff_toNat_le, UInt64.toNat_sub, hadd]
      simp
      omega
    rw [upTo_of_ne hn]
    refine set_one n (n + len - 1) ?_ UInt64.zero_le hlen rfl
    simp [place, hnot]

end DataBitmap

end Dtnme.ConvLayers
