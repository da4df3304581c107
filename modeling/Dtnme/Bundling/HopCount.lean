import Dtnme.Library.Word
import Dtnme.Bundling.TinyCbor

/-! # The hop count block

The block's data is an array of a limit and a count. A receiver stores both, with the count one
higher, deletes a bundle that is not for it once the count has come to the limit, and sends the
block along if it has a limit.
-/

namespace Dtnme.Bundling
open Library TinyCbor

/-- The fields of `Bundle` that the block is about; a limit of 0 is none. -/
structure HopBundle where
  hopLimit : ℕ := 0
  hopCount : ℕ := 0
  deriving DecidableEq, Repr

namespace HopBundle

inductive Write
  | hopLimit (n : ℕ)
  | hopCount (n : ℕ)

def apply (b : HopBundle) : Write → HopBundle
  | .hopLimit n => { b with hopLimit := n }
  | .hopCount n => { b with hopCount := n }

/-- The cursor is not moved into the array between the test of its length and the two numbers. -/
def decodeBlockData : Decode Write Unit := do
  let cvElement ← cborParserInit
  let _ ← validateCborFixedArrayLength cvElement 2 2
  let (hopLimit, cvElement) ← decodeUint cvElement
  let (hopCount, _) ← decodeUint cvElement
  Decoder.assign (.hopLimit hopLimit)
  Decoder.assign (.hopCount (u64 (hopCount + 1)))

/-- `consume` of a complete block; a failure to decode its data is only logged. -/
def consume (b : HopBundle) (data : List UInt8) : HopBundle := (decodeBlockData data).1.foldl apply b

def encodeBlockData (b : HopBundle) : List UInt8 :=
  Cbor.head 4 2 ++ (Cbor.head 0 b.hopLimit ++ Cbor.head 0 b.hopCount)

/-- The data of the block that goes out, if one does. -/
def prepare (b : HopBundle) : Option (List UInt8) :=
  if b.hopLimit = 0 then none else some b.encodeBlockData

/-- `handle_bundle_received` deletes the bundle for its hops. -/
def hopLimitReached (b : HopBundle) (isLocalDelivery : Bool) : Bool :=
  !isLocalDelivery && b.hopLimit != 0 && decide (b.hopLimit ≤ b.hopCount)

/-! ## A chain of nodes -/

/-- What a node of the chain stores, whether it keeps the bundle for forwarding, and the block
that it sends then. -/
structure Visit where
  stored : HopBundle
  kept : Bool
  sent : Option (List UInt8)

def received (block : Option (List UInt8)) : HopBundle :=
  match block with
  | none => {}
  | some data => consume {} data

def visit (block : Option (List UInt8)) (isLocalDelivery : Bool) : Visit where
  stored := received block
  kept := !isLocalDelivery && !(received block).hopLimitReached isLocalDelivery
  sent := (received block).prepare

/-- The bundle goes on from a node to the next as long as it is kept; each node is given by whether
the bundle is delivered there. -/
def visits : Option (List UInt8) → List Bool → List Visit
  | _, [] => []
  | block, isLocalDelivery :: nodes =>
    visit block isLocalDelivery ::
      if (visit block isLocalDelivery).kept then visits (visit block isLocalDelivery).sent nodes else []

/-- Each node finds the limit and counts one more hop, and one that keeps the bundle sends what it
stored and has not come to the limit. -/
def Enforced (hopLimit hopCount : ℕ) (vs : List Visit) : Prop :=
  ∀ i (v : Visit), vs[i]? = some v → v.stored = ⟨hopLimit, hopCount + i + 1⟩ ∧
    (v.kept = true → v.sent = some v.stored.encodeBlockData ∧ v.stored.hopCount < hopLimit)

/-! ## Nothing is decoded -/

theorem dataAvailableToParse_log {ω : Type} (it : CborValue) (len : ℕ) (buf : List UInt8) :
    dataAvailableToParse (ω := ω) it len buf = ([], .done ()) ∨
      dataAvailableToParse (ω := ω) it len buf = ([], .more) := by
  unfold dataAvailableToParse
  split_ifs
  · exact .inl rfl
  · exact .inr rfl

theorem validateCborFixedArrayLength_log {ω : Type} (it : CborValue) (lo hi : ℕ) (buf : List UInt8) :
    (validateCborFixedArrayLength (ω := ω) it lo hi buf).1 = [] := by
  unfold validateCborFixedArrayLength
  rcases dataAvailableToParse_log (ω := ω) it 1 buf with h | h
  · rw [Decoder.bind_done h]
    split_ifs <;> rfl
  · rw [Decoder.bind_more h]

theorem validateCborFixedArrayLength_type {ω : Type} {it : CborValue} {lo hi n : ℕ}
    {buf : List UInt8} {log : List ω}
    (h : validateCborFixedArrayLength it lo hi buf = (log, .done n)) : it.type = .array := by
  by_contra htype
  unfold validateCborFixedArrayLength at h
  obtain ⟨_, _, _, _, hif, _⟩ := Decoder.bind_eq_done h
  rw [if_pos (.inl htype)] at hif
  simp at hif

/-- An array is no number. -/
theorem decodeUint_array {ω : Type} {it : CborValue} (h : it.type = .array) (buf : List UInt8) :
    (decodeUint (ω := ω) it buf).1 = [] ∧ ∀ p, (decodeUint (ω := ω) it buf).2 ≠ .done p := by
  unfold decodeUint
  rcases dataAvailableToParse_log (ω := ω) it 1 buf with ha | ha
  · rw [Decoder.bind_done ha, if_neg (by simp [h])]
    simp
  · rw [Decoder.bind_more ha]
    simp

/-- No data is decoded, whatever it is. -/
theorem decodeBlockData_log (data : List UInt8) : (decodeBlockData data).1 = [] := by
  unfold decodeBlockData
  rcases hcv : cborParserInit (ω := Write) data with ⟨log, cv | _ | e⟩
  · have hlog : log = [] := (congrArg Prod.fst hcv).symm
    rw [Decoder.bind_done hcv, hlog, List.nil_append]
    rcases hv : validateCborFixedArrayLength (ω := Write) cv 2 2 data with ⟨log', n | _ | e⟩
    · obtain ⟨hnil, hnot⟩ := decodeUint_array (ω := Write) (validateCborFixedArrayLength_type hv) data
      have hlog' : log' = [] := by
        rw [← validateCborFixedArrayLength_log cv 2 2 data, hv]
      rw [Decoder.bind_done hv, hlog', List.nil_append]
      rcases hu : decodeUint (ω := Write) cv data with ⟨log'', p | _ | e⟩
      · exact absurd (by rw [hu]) (hnot p)
      · rw [Decoder.bind_more hu, ← hnil, hu]
      · rw [Decoder.bind_stop hu, ← hnil, hu]
    · rw [Decoder.bind_more hv, ← validateCborFixedArrayLength_log cv 2 2 data, hv]
    · rw [Decoder.bind_stop hv, ← validateCborFixedArrayLength_log cv 2 2 data, hv]
  · rw [Decoder.bind_more hcv]
    exact (congrArg Prod.fst hcv).symm
  · rw [Decoder.bind_stop hcv]
    exact (congrArg Prod.fst hcv).symm

theorem received_eq (block : Option (List UInt8)) : received block = {} := by
  cases block with
  | none => rfl
  | some data =>
    change (decodeBlockData data).1.foldl apply {} = _
    rw [decodeBlockData_log]
    rfl

/-- Along every chain no node knows of a limit, and none sends the block. -/
theorem visits_forget (block : Option (List UInt8)) (nodes : List Bool) :
    ∀ v ∈ visits block nodes, v.stored = {} ∧ v.sent = none := by
  induction nodes generalizing block with
  | nil => simp [visits]
  | cons node nodes ih =>
    intro v hv
    rw [visits, List.mem_cons] at hv
    rcases hv with rfl | hv
    · simp [visit, received_eq, prepare]
    · split_ifs at hv
      · exact ih _ v hv
      · simp at hv

/-- The limit is enforced on no chain with a node that receives the block. -/
theorem not_enforced (hopLimit hopCount : ℕ) (node : Bool) (nodes : List Bool) :
    ¬ Enforced hopLimit hopCount
      (visits (some (encodeBlockData ⟨hopLimit, hopCount⟩)) (node :: nodes)) := by
  intro h
  have hfirst := (h 0 (visit (some (encodeBlockData ⟨hopLimit, hopCount⟩)) node) rfl).1
  have hcount := congrArg HopBundle.hopCount hfirst
  have hstored := (visits_forget (some (encodeBlockData ⟨hopLimit, hopCount⟩)) (node :: nodes)
    (visit _ node) (by rw [visits]; exact List.mem_cons_self)).1
  rw [hstored] at hcount
  simp at hcount

/-- A limit of 3 hops is lost at the first of them. -/
theorem hopLimit_lost :
    ¬ Enforced 3 0 (visits (some (encodeBlockData ⟨3, 0⟩)) [false, false, false, false]) := by
  intro h
  have hfirst := (h 0 _ rfl).1
  exact absurd hfirst (by decide +kernel)

end HopBundle

end Dtnme.Bundling
