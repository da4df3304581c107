import Dtnme.Library.Slice

/-! # Blocks of a bundle

`BlockInfo` with the fields the block processors of version 7 and the fragment manager
use. Lengths are the sizes of buffers that exist, so they are numbers. The work buffer of
an outgoing payload block is an oasys `StreamBuffer`.
-/

namespace Dtnme.Bundling
open Library

/-- How a call can fail to return: an `ASSERT`, an access outside of a container, memory that
is not to be had, or a loop that does not end. -/
inductive Fault
  | assertFailed
  | undefined
  | panic
  | noReturn
  deriving DecidableEq, Repr

/-- `ASSERT`. -/
def require (c : Prop) [Decidable c] : Except Fault Unit :=
  if c then .ok () else .error .assertFailed

theorem require_of {c : Prop} [Decidable c] (h : c) : require c = .ok () := if_pos h

theorem ok_bind {α β : Type} (a : α) (f : α → Except Fault β) : (.ok a : Except Fault α) >>= f = f a :=
  rfl

theorem of_bind_ok {α β : Type} {x : Except Fault α} {f : α → Except Fault β} {r : β}
    (h : x >>= f = .ok r) : ∃ a, x = .ok a ∧ f a = .ok r := by
  cases x with
  | error e => cases h
  | ok a => exact ⟨a, rfl, h⟩

/-- `memcpy` of `len` bytes from `off` on. -/
def copyOut (src : List UInt8) (off len : ℕ) : Except Fault (List UInt8) :=
  if off + len ≤ src.length then .ok (slice src off len) else .error .undefined

/-- `BundlePayload::read_data`. -/
def readData (payload : List UInt8) (off len : ℕ) : Except Fault (List UInt8) :=
  if off + len ≤ payload.length then .ok (slice payload off len) else .error .assertFailed

/-! ## Stream buffers -/

/-- `oasys::StreamBuffer`: the allocated bytes, of which those from `start` to `stop` are in use. -/
structure StreamBuffer where
  buf : List UInt8
  start : ℕ
  stop : ℕ
  size : ℕ
  deriving DecidableEq, Repr

namespace StreamBuffer

def new (size : ℕ) : StreamBuffer :=
  let size := if size = 0 then 4 else size
  { buf := List.replicate size 0, start := 0, stop := 0, size := size }

def fullbytes (s : StreamBuffer) : ℕ := s.stop - s.start

def tailbytes (s : StreamBuffer) : ℕ := s.size - s.stop

def fill (s : StreamBuffer) (amount : ℕ) : Except Fault StreamBuffer :=
  if amount ≤ s.tailbytes then .ok { s with stop := s.stop + amount } else .error .assertFailed

def consume (s : StreamBuffer) (amount : ℕ) : Except Fault StreamBuffer :=
  if amount ≤ s.fullbytes then
    if s.start + amount = s.stop then .ok { s with start := 0, stop := 0 }
    else .ok { s with start := s.start + amount }
  else .error .assertFailed

/-- `memcpy` to `start()`. -/
def store (s : StreamBuffer) (bytes : List UInt8) : Except Fault StreamBuffer :=
  if s.start + bytes.length ≤ s.buf.length then
    .ok { s with buf := overwrite s.buf s.start bytes }
  else .error .undefined

/-- `s` is a queue that holds `data`. An empty one has its whole room at the tail. -/
structure Holds (s : StreamBuffer) (data : List UInt8) : Prop where
  data_eq : slice s.buf s.start s.fullbytes = data
  start_le : s.start ≤ s.stop
  stop_le : s.stop ≤ s.size
  length_buf : s.buf.length = s.size
  size_pos : 0 < s.size
  reset : s.start = s.stop → s.start = 0

theorem Holds.fullbytes_eq {s : StreamBuffer} {data : List UInt8} (h : s.Holds data) :
    s.fullbytes = data.length := by
  have hb := h.length_buf
  have h1 := h.start_le
  have h2 := h.stop_le
  rw [← h.data_eq, length_slice_of_le]
  unfold fullbytes
  omega

theorem new_holds (size : ℕ) : (new size).Holds [] where
  data_eq := by simp [new, fullbytes]
  start_le := by simp [new]
  stop_le := by simp [new]
  length_buf := by simp [new]
  size_pos := by
    unfold new
    split_ifs with h
    · decide
    · exact Nat.pos_of_ne_zero h
  reset := by simp [new]

/-- What is taken from the front is the front of the data. -/
theorem Holds.copyOut {s : StreamBuffer} {data : List UInt8} {n : ℕ} (h : s.Holds data)
    (hn : n ≤ data.length) : copyOut s.buf s.start n = .ok (data.take n) := by
  have hf := h.fullbytes_eq
  have h1 := h.start_le
  have h2 := h.stop_le
  have hb := h.length_buf
  have hle : n ≤ s.fullbytes := by omega
  unfold Bundling.copyOut
  rw [if_pos (by unfold fullbytes at hle; omega), ← h.data_eq, take_slice hle]

theorem Holds.consume {s : StreamBuffer} {data : List UInt8} {n : ℕ} (h : s.Holds data)
    (hn : n ≤ data.length) : ∃ s', s.consume n = .ok s' ∧ s'.Holds (data.drop n) := by
  have hf := h.fullbytes_eq
  have h1 := h.start_le
  have h2 := h.stop_le
  have hle : n ≤ s.fullbytes := by omega
  unfold StreamBuffer.consume
  rw [if_pos hle]
  by_cases he : s.start + n = s.stop
  · rw [if_pos he]
    have hnil : data.drop n = [] := by
      apply List.drop_eq_nil_of_le
      unfold fullbytes at hf
      omega
    refine ⟨_, rfl, ?_⟩
    rw [hnil]
    exact ⟨by simp [fullbytes], le_rfl, Nat.zero_le _, h.length_buf, h.size_pos, fun _ => rfl⟩
  · rw [if_neg he]
    refine ⟨_, rfl, ?_, ?_, h2, h.length_buf, h.size_pos, fun hs => absurd hs he⟩
    · change slice s.buf (s.start + n) (s.stop - (s.start + n)) = data.drop n
      rw [← h.data_eq, drop_slice]
      congr 1
      unfold fullbytes
      omega
    · change s.start + n ≤ s.stop
      unfold fullbytes at hle
      omega

theorem Holds.tailbytes_eq {s : StreamBuffer} (h : s.Holds []) : s.tailbytes = s.size := by
  have hf : s.fullbytes = 0 := by simpa using h.fullbytes_eq
  have h1 := h.start_le
  have hr := h.reset (by unfold fullbytes at hf; omega)
  unfold fullbytes at hf
  unfold tailbytes
  omega

/-- An empty buffer takes up to its size. -/
theorem Holds.load {s : StreamBuffer} {bytes : List UInt8} (h : s.Holds [])
    (hb : bytes.length ≤ s.size) (hne : bytes ≠ []) :
    ∃ s₁ s₂, s.store bytes = .ok s₁ ∧ s₁.fill bytes.length = .ok s₂ ∧ s₂.Holds bytes := by
  have hf : s.fullbytes = 0 := by simpa using h.fullbytes_eq
  have h1 := h.start_le
  have hl := h.length_buf
  have heq : s.start = s.stop := by
    unfold fullbytes at hf
    omega
  have hr := h.reset heq
  have hpos : 0 < bytes.length := List.length_pos_iff.mpr hne
  have hroom : s.start + bytes.length ≤ s.buf.length := by omega
  refine ⟨_, { s with buf := overwrite s.buf s.start bytes, stop := s.stop + bytes.length },
    if_pos hroom, ?_, ?_⟩
  · unfold fill
    rw [if_pos]
    unfold tailbytes
    change bytes.length ≤ s.size - s.stop
    omega
  · refine ⟨?_, ?_, ?_, ?_, h.size_pos, ?_⟩
    · change slice (overwrite s.buf s.start bytes) s.start (s.stop + bytes.length - s.start) = bytes
      rw [← heq, Nat.add_sub_cancel_left]
      exact slice_overwrite (by omega)
    · change s.start ≤ s.stop + bytes.length
      omega
    · change s.stop + bytes.length ≤ s.size
      omega
    · exact (length_overwrite hroom).trans hl
    · exact fun _ => hr

end StreamBuffer

/-! ## Blocks -/

/-- The block types the modelled code tells apart. -/
inductive BlockType
  | primary
  | payload
  | extension (code : ℕ)
  deriving DecidableEq, Repr

/-- `BlockInfo`. The `source` is the place of the received block in `recv_blocks`. -/
structure BlockInfo where
  type : BlockType
  source : Option ℕ := none
  contents : List UInt8 := []
  locals : Option StreamBuffer := none
  blockNumber : ℕ := 0
  blockFlags : ℕ := 0
  dataLength : ℕ := 0
  dataOffset : ℕ := 0
  complete : Bool := false
  crcType : ℕ := 0
  crcLength : ℕ := 0
  crcOffset : ℕ := 0
  crcCborBytes : List UInt8 := []
  crcChecked : Bool := false
  crcValidated : Bool := false
  bpv7EobOffset : ℕ := 0
  deriving DecidableEq, Repr

/-- `full_length`. -/
def BlockInfo.fullLength (b : BlockInfo) : ℕ := b.dataOffset + b.dataLength + b.crcLength

/-- `set_locals`. -/
def BlockInfo.setLocals (b : BlockInfo) (l : Option StreamBuffer) : BlockInfo :=
  { b with locals := l }

section setLocals
variable (b : BlockInfo) (l : Option StreamBuffer)

@[simp] theorem BlockInfo.setLocals_type : (b.setLocals l).type = b.type := rfl

@[simp] theorem BlockInfo.setLocals_contents : (b.setLocals l).contents = b.contents := rfl

@[simp] theorem BlockInfo.setLocals_dataOffset : (b.setLocals l).dataOffset = b.dataOffset := rfl

@[simp] theorem BlockInfo.setLocals_locals : (b.setLocals l).locals = l := rfl

@[simp] theorem BlockInfo.setLocals_fullLength : (b.setLocals l).fullLength = b.fullLength := rfl

@[simp] theorem BlockInfo.setLocals_setLocals (l' : Option StreamBuffer) :
    (b.setLocals l).setLocals l' = b.setLocals l' := rfl

end setLocals

end Dtnme.Bundling
