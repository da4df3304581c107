import Dtnme.Bundling.Fragmentation

/-! # Reactive fragmentation

When only a part of a bundle was sent, the rest of its payload becomes a fragment. The length of this
rest is handed to `create_fragment` as if it were the room of a frame, and what the blocks of the
fragment take is subtracted from it.
-/

namespace Dtnme.Bundling
open Library

/-- `BundleProtocolVersion6::payload_offset`, which both versions use here. -/
def payloadOffset : List BlockInfo → ℕ
  | [] => 0
  | b :: blocks =>
    if b.type = .payload then b.dataOffset else u64 (b.fullLength + payloadOffset blocks)

/-- `BundleProtocol::total_length`; version 7 has a byte before the blocks and one behind them. -/
def protocolTotalLength (bundle : Bundle) (blocks : List BlockInfo) : ℕ :=
  u64 ((if bundle.bpVersion = 6 then 0 else 2) + (blocks.map BlockInfo.fullLength).sum)

/-- `last_block`: a flag in version 6, the payload block in version 7. -/
def lastBlock (bundle : Bundle) (b : BlockInfo) : Bool :=
  if bundle.bpVersion = 6 then
    if b.contents.length < 2 then false else b.blockFlags.testBit 3
  else b.type = .payload

/-- The arguments of `create_fragment` for the tail. -/
def reactiveRequest (bundle : Bundle) (blocks : List BlockInfo) (fragLen : ℕ) : FragmentRequest :=
  { bundle, xmitBlocks := blocks, maxLength := fragLen, lastLen := 0
    fields := if bundle.bpVersion = 6 then subtractedBp6 bundle else fun _ => [fieldsBp7 bundle] }

/-- `try_to_reactively_fragment`, with the tail that is posted as received. -/
def tryToReactivelyFragment (bundle : Bundle) (blocks : List BlockInfo) (bytesSent : ℕ) :
    Except Fault (Option Bundle) :=
  if bundle.doNotFragment then .ok none
  else if bytesSent ≤ payloadOffset blocks then .ok none
  else if protocolTotalLength bundle blocks ≤ bytesSent then .ok none
  else
    let payloadLen := bundle.payload.length
    let payloadSent := min payloadLen (u64Sub bytesSent (payloadOffset blocks))
    if payloadLen ≤ 1 then .ok none
    else if payloadLen ≤ payloadSent then
      match blocks.find? (fun b => b.type = .payload) with
      | none => .error .undefined
      | some payloadBlock =>
        if lastBlock bundle payloadBlock then .error .assertFailed
        else
          -- a byte is kept to go with the trailing blocks
          ((reactiveRequest bundle blocks 1).createFragment (u64Sub payloadLen 1) false true).map some
    else
      ((reactiveRequest bundle blocks (u64Sub payloadLen payloadSent)).createFragment payloadSent
        false true).map some

/-- The first byte of the payload that counts as not sent. -/
def unsentFrom (bundle : Bundle) (blocks : List BlockInfo) (bytesSent : ℕ) : ℕ :=
  min (bundle.payload.length - 1) (bytesSent - payloadOffset blocks)

/-- The tail has the rest of the payload, and no subtraction on the way to its length wraps. -/
structure KeepsUnsent (bundle : Bundle) (blocks : List BlockInfo) (bytesSent : ℕ) (tail : Bundle) :
    Prop where
  payload : tail.payload = bundle.payload.drop (unsentFrom bundle blocks bytesSent)
  fragOffset : tail.fragOffset = bundle.ownOffset + unsentFrom bundle blocks bytesSent
  noWrap : NoBorrow (bundle.payload.length - unsentFrom bundle blocks bytesSent)
    ((reactiveRequest bundle blocks
      (bundle.payload.length - unsentFrom bundle blocks bytesSent)).subtrahends
        (unsentFrom bundle blocks bytesSent) false true)

section

variable {bundle tail : Bundle} {blocks : List BlockInfo} {bytesSent : ℕ}

theorem exceptMap_some {ε α : Type*} {x : Except ε α} {a : α} (h : x.map some = .ok (some a)) :
    x = .ok a := by
  cases x with
  | error e => cases h
  | ok b =>
    cases h
    rfl

/-- A tail is cut off at the first byte that was not sent. -/
theorem tryToReactivelyFragment_eq (hsize : bundle.payload.length < 2 ^ 64)
    (hsent : bytesSent < 2 ^ 64)
    (h : tryToReactivelyFragment bundle blocks bytesSent = .ok (some tail)) :
    1 < bundle.payload.length ∧
      (reactiveRequest bundle blocks
        (bundle.payload.length - unsentFrom bundle blocks bytesSent)).createFragment
          (unsentFrom bundle blocks bytesSent) false true = .ok tail := by
  unfold tryToReactivelyFragment at h
  dsimp only at h
  by_cases hno : bundle.doNotFragment = true
  · simp [hno] at h
  by_cases hhead : bytesSent ≤ payloadOffset blocks
  · simp [hhead] at h
  by_cases htotal : protocolTotalLength bundle blocks ≤ bytesSent
  · simp [hno, hhead, htotal] at h
  by_cases hone : bundle.payload.length ≤ 1
  · simp [hno, hhead, htotal, hone] at h
  rw [if_neg hno, if_neg hhead, if_neg htotal, if_neg hone, u64Sub_of_le hsent (by omega)] at h
  refine ⟨by omega, ?_⟩
  by_cases hall : bundle.payload.length ≤ bytesSent - payloadOffset blocks
  · have hpos : unsentFrom bundle blocks bytesSent = bundle.payload.length - 1 := by
      unfold unsentFrom
      omega
    rw [if_pos (by omega)] at h
    cases hfind : blocks.find? (fun b => b.type = .payload) with
    | none => simp [hfind] at h
    | some payloadBlock =>
      simp only [hfind] at h
      rw [u64Sub_of_le hsize (by omega)] at h
      rw [hpos, show bundle.payload.length - (bundle.payload.length - 1) = 1 by omega]
      split_ifs at h
      exact exceptMap_some h
  · have hpos : unsentFrom bundle blocks bytesSent =
        min bundle.payload.length (bytesSent - payloadOffset blocks) := by
      unfold unsentFrom
      omega
    rw [if_neg (by omega), u64Sub_of_le hsize (min_le_left _ _), ← hpos] at h
    exact exceptMap_some h

/-- What is subtracted is a word, of which a multiple may be lost. -/
theorem foldl_u64Sub_eq {l : List ℕ} {n : ℕ} (hn : n < 2 ^ 64) :
    l.foldl u64Sub n = u64 (n + (2 ^ 64 - u64 l.sum)) := by
  induction l generalizing n with
  | nil =>
    unfold u64
    rw [List.foldl_nil, List.sum_nil]
    omega
  | cons d l ih =>
    have hlt : u64Sub n d < 2 ^ 64 := by
      unfold u64Sub
      exact u64_lt _
    rw [List.foldl_cons, ih hlt, List.sum_cons]
    unfold u64Sub u64
    omega

theorem subtrahends_pos (r : FragmentRequest) (offset : ℕ) (first last : Bool) :
    12 ≤ (r.subtrahends offset first last).sum := by
  simp only [FragmentRequest.subtrahends, List.sum_append, List.sum_singleton]
  omega

/-- What is lost for blocks and fields of a tail from a position on. -/
def lostFrom (bundle : Bundle) (blocks : List BlockInfo) (pos : ℕ) : ℕ :=
  u64 ((reactiveRequest bundle blocks (bundle.payload.length - pos)).subtrahends pos false true).sum

/-- The check for an overallocated length, after a subtraction that may have wrapped. -/
theorem clampLength_lost {r : FragmentRequest} {pos lost : ℕ}
    (hsize : r.bundle.payload.length < 2 ^ 64) (hpos : pos < r.bundle.payload.length)
    (hlost : lost < 2 ^ 64) {length : ℕ}
    (hlength : length =
      r.clampLength pos (u64 (r.bundle.payload.length - pos + (2 ^ 64 - lost))) false)
    (hfits : pos + length ≤ r.bundle.payload.length) :
    (r.bundle.payload.length < lost ∧ length = r.bundle.payload.length - pos) ∨
      (pos + lost ≤ r.bundle.payload.length ∧ length = r.bundle.payload.length - pos - lost) := by
  unfold FragmentRequest.clampLength at hlength
  simp only [u64Sub_of_le hsize hpos.le, Bool.false_eq_true, if_false] at hlength
  by_cases hfew : pos + lost ≤ r.bundle.payload.length
  · right
    refine ⟨hfew, ?_⟩
    have hword : u64 (r.bundle.payload.length - pos + (2 ^ 64 - lost)) =
        r.bundle.payload.length - pos - lost := by
      unfold u64
      omega
    rw [hword, u64_of_lt (by omega)] at hlength
    split_ifs at hlength <;> omega
  · left
    have hword : u64 (r.bundle.payload.length - pos + (2 ^ 64 - lost)) =
        r.bundle.payload.length - pos + (2 ^ 64 - lost) := u64_of_lt (by omega)
    rw [hword] at hlength
    by_cases hmany : r.bundle.payload.length < lost
    · rw [u64_of_lt (by omega), if_pos (by omega)] at hlength
      exact ⟨hmany, hlength⟩
    · have hsum : u64 (pos + (r.bundle.payload.length - pos + (2 ^ 64 - lost))) =
          r.bundle.payload.length - lost := by
        unfold u64
        omega
      rw [hsum] at hlength
      split_ifs at hlength <;> omega

/-- A tail that is made lacks what was subtracted, unless this is more than the whole payload. -/
theorem tail_payload (hsize : bundle.payload.length < 2 ^ 64) {pos : ℕ}
    (hpos : pos < bundle.payload.length)
    (h : (reactiveRequest bundle blocks (bundle.payload.length - pos)).createFragment pos false true =
      .ok tail) :
    (bundle.payload.length < lostFrom bundle blocks pos ∧ tail.payload = bundle.payload.drop pos) ∨
      (pos + lostFrom bundle blocks pos ≤ bundle.payload.length ∧
        tail.payload.length = bundle.payload.length - pos - lostFrom bundle blocks pos) := by
  obtain ⟨length, hlength, hfits, htail⟩ := FragmentRequest.createFragment_ok h
  have hpayload : tail.payload = slice bundle.payload pos length := congrArg Bundle.payload htail
  have hfold := foldl_u64Sub_eq (n := bundle.payload.length - pos)
    (l := (reactiveRequest bundle blocks (bundle.payload.length - pos)).subtrahends pos false true)
    (by omega)
  change length = (reactiveRequest bundle blocks _).clampLength pos (List.foldl u64Sub
    (bundle.payload.length - pos) _) false at hlength
  rw [hfold] at hlength
  obtain ⟨hmany, rfl⟩ | ⟨hfew, rfl⟩ := clampLength_lost hsize hpos (u64_lt _) hlength hfits
  · left
    refine ⟨hmany, ?_⟩
    rw [hpayload]
    apply List.take_of_length_le
    rw [List.length_drop]
    exact le_rfl
  · right
    refine ⟨hfew, ?_⟩
    rw [hpayload, length_slice_of_le (l := bundle.payload) hfits]
    rfl

theorem unsentFrom_lt (h : 1 < bundle.payload.length) (blocks : List BlockInfo) (bytesSent : ℕ) :
    unsentFrom bundle blocks bytesSent < bundle.payload.length := by
  unfold unsentFrom
  omega

/-- The whole rest of the payload is in the tail exactly if what is subtracted for blocks and fields
is a multiple of the word size, or more than the payload. -/
theorem tryToReactivelyFragment_payload_iff (hsize : bundle.payload.length < 2 ^ 64)
    (hsent : bytesSent < 2 ^ 64)
    (h : tryToReactivelyFragment bundle blocks bytesSent = .ok (some tail)) :
    tail.payload = bundle.payload.drop (unsentFrom bundle blocks bytesSent) ↔
      lostFrom bundle blocks (unsentFrom bundle blocks bytesSent) = 0 ∨
        bundle.payload.length < lostFrom bundle blocks (unsentFrom bundle blocks bytesSent) := by
  obtain ⟨hlong, hmade⟩ := tryToReactivelyFragment_eq hsize hsent h
  have hpos := unsentFrom_lt hlong blocks bytesSent
  obtain ⟨length, hlength, hfits, htail⟩ := FragmentRequest.createFragment_ok hmade
  obtain ⟨hmany, hall⟩ | ⟨hfew, hlen⟩ := tail_payload hsize hpos hmade
  · exact iff_of_true hall (Or.inr hmany)
  · constructor
    · intro hall
      left
      have := congrArg List.length hall
      rw [hlen, List.length_drop] at this
      omega
    · intro hcases
      have hzero : lostFrom bundle blocks (unsentFrom bundle blocks bytesSent) = 0 := by omega
      rw [hzero] at hlen
      have hpayload : tail.payload = slice bundle.payload _ length := congrArg Bundle.payload htail
      rw [hpayload, slice, List.take_eq_self_iff, List.length_drop]
      rw [hpayload, length_slice_of_le (l := bundle.payload) hfits] at hlen
      omega

/-- No tail that is made has the rest of the payload without a subtraction that wraps. -/
theorem tryToReactivelyFragment_loses (bundle tail : Bundle) (blocks : List BlockInfo)
    (bytesSent : ℕ) (hsize : bundle.payload.length < 2 ^ 64) (hsent : bytesSent < 2 ^ 64)
    (h : tryToReactivelyFragment bundle blocks bytesSent = .ok (some tail)) :
    ¬ KeepsUnsent bundle blocks bytesSent tail := by
  intro hkeeps
  have hpos := unsentFrom_lt (tryToReactivelyFragment_eq hsize hsent h).1 blocks bytesSent
  have hsum := noBorrow_iff.mp hkeeps.noWrap
  have htwelve := subtrahends_pos (reactiveRequest bundle blocks
    (bundle.payload.length - unsentFrom bundle blocks bytesSent))
    (unsentFrom bundle blocks bytesSent) false true
  have hall := (tryToReactivelyFragment_payload_iff hsize hsent h).mp hkeeps.payload
  rw [lostFrom, u64_of_lt (by omega)] at hall
  omega

/-- A bundle of version 6 with a payload of 100 bytes, behind a primary block of 20. -/
def hundredBytes : Bundle := { bpVersion := 6, payload := List.replicate 100 7 }

def hundredBlocks : List BlockInfo :=
  [{ type := .primary, contents := List.replicate 20 0, dataLength := 18, dataOffset := 2 },
    { type := .payload, contents := [1, 8, 100], blockFlags := 8, dataLength := 100, dataOffset := 3 }]

theorem tryToReactivelyFragment_loses_hundred :
    ∃ tail, tryToReactivelyFragment hundredBytes hundredBlocks 43 = .ok (some tail) ∧
      ¬ KeepsUnsent hundredBytes hundredBlocks 43 tail := by
  obtain ⟨made, hmade, hsome⟩ : ∃ made, tryToReactivelyFragment hundredBytes hundredBlocks 43 =
      .ok made ∧ made.isSome = true := by
    decide +kernel
  obtain ⟨tail, rfl⟩ := Option.isSome_iff_exists.mp hsome
  exact ⟨tail, hmade, tryToReactivelyFragment_loses hundredBytes tail hundredBlocks 43 (by decide)
    (by decide) hmade⟩

/-- Of the 80 bytes that were not sent, the tail has 46. -/
theorem tryToReactivelyFragment_hundred :
    ∃ made, tryToReactivelyFragment hundredBytes hundredBlocks 43 = .ok made ∧
      made.map (fun tail => (tail.payload.length, tail.fragOffset)) = some (46, 20) ∧
      unsentFrom hundredBytes hundredBlocks 43 = 20 ∧
      (hundredBytes.payload.drop 20).length = 80 := by
  decide +kernel

end

end Dtnme.Bundling
