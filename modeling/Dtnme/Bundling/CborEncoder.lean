import Dtnme.Bundling.TinyCbor
import Dtnme.Library.Word

/-! # The CBOR encoder

The encoder of tinycbor writes to a buffer as long as there is room. From then on, and from the
start if there is no buffer, it only counts the bytes that are missing. An array has an encoder of
its own, which its parent goes on from when the array is closed.
-/

namespace Dtnme.Bundling.TinyCbor
open Library

/-- The bytes written and the room behind them. Once `end` is null the pointer is a count. -/
inductive EncoderData
  | ptr (written : List UInt8) (room : ℕ)
  | bytesNeeded (n : UInt64)
  deriving DecidableEq

structure CborEncoder where
  data : EncoderData
  remaining : ℕ
  unknownLength : Bool := false
  deriving DecidableEq

/-- The size of a null buffer is `none`. -/
def cborEncoderInit (size : Option ℕ) : CborEncoder where
  data := match size with
    | none => .bytesNeeded 0
    | some size => .ptr [] size
  remaining := 2

/-- `append_to_buffer`; what is in the buffer is of no use once there are bytes missing. -/
def EncoderData.append : EncoderData → List UInt8 → EncoderData
  | .ptr written room, bytes =>
    if room < bytes.length then .bytesNeeded (UInt64.ofNat (bytes.length - room))
    else .ptr (written ++ bytes) (room - bytes.length)
  | .bytesNeeded n, bytes => .bytesNeeded (n + UInt64.ofNat bytes.length)

namespace CborEncoder

def appendToBuffer (e : CborEncoder) (bytes : List UInt8) : CborEncoder :=
  { e with data := e.data.append bytes }

def saturatedDecrement (e : CborEncoder) : CborEncoder := { e with remaining := e.remaining - 1 }

def encodeNumberNoUpdate (e : CborEncoder) (ui major : ℕ) : CborEncoder :=
  e.appendToBuffer (Cbor.head major ui)

def encodeNumber (e : CborEncoder) (ui major : ℕ) : CborEncoder :=
  e.saturatedDecrement.encodeNumberNoUpdate ui major

def encodeUint (e : CborEncoder) (value : ℕ) : CborEncoder := e.encodeNumber value 0

def encodeBoolean (e : CborEncoder) (value : Bool) : CborEncoder :=
  e.encodeNumber (if value then 21 else 20) 7

def cborIndefiniteLength : ℕ := 2 ^ 64 - 1

/-- `cbor_encoder_create_array`: the encoder of the items. -/
def createArray (e : CborEncoder) (length : ℕ) : CborEncoder :=
  let container : CborEncoder := { data := e.data, remaining := u64 (length + 1) }
  if length = cborIndefiniteLength then
    { container with unknownLength := true }.appendToBuffer [0x9f]
  else container.encodeNumberNoUpdate length 4

/-- `cbor_encoder_close_container`. -/
def closeContainer (e container : CborEncoder) : Except Failure CborEncoder :=
  let e := { e with data := container.data }
  if container.unknownLength then .ok (e.appendToBuffer [breakByte])
  else if container.remaining ≠ 1 then .error .fail
  else .ok e

/-- An array from its creation to its end. -/
def encodeArray (e : CborEncoder) (length : ℕ) (items : CborEncoder → Except Failure CborEncoder) :
    Except Failure CborEncoder := do
  let container ← items (e.createArray length)
  e.saturatedDecrement.closeContainer container

/-- `cbor_encoder_get_extra_bytes_needed`. -/
def extraBytesNeeded (e : CborEncoder) : UInt64 :=
  match e.data with
  | .ptr _ _ => 0
  | .bytesNeeded n => n

/-- The bytes from the beginning of the buffer. -/
def output (e : CborEncoder) : List UInt8 :=
  match e.data with
  | .ptr written _ => written
  | .bytesNeeded _ => []

/-! ## What is written -/

/-- The encoder behind `n` items of these bytes. -/
def wrote (e : CborEncoder) (n : ℕ) (bytes : List UInt8) : CborEncoder :=
  { e with data := e.data.append bytes, remaining := e.remaining - n }

end CborEncoder

@[simp] theorem EncoderData.append_nil (d : EncoderData) : d.append [] = d := by
  cases d <;> simp [append]

theorem EncoderData.append_append (d : EncoderData) (x y : List UInt8) :
    (d.append x).append y = d.append (x ++ y) := by
  cases d with
  | ptr written room =>
    by_cases hx : room < x.length
    · have hxy : room < x.length + y.length := Nat.lt_add_right _ hx
      simp only [append, if_pos hx, List.length_append, if_pos hxy, ← UInt64.ofNat_add]
      rw [Nat.sub_add_comm hx.le]
    · by_cases hy : room - x.length < y.length
      · have hxy : room < x.length + y.length := by omega
        simp only [append, if_neg hx, if_pos hy, List.length_append, if_pos hxy]
        congr 2
        omega
      · have hxy : ¬ room < x.length + y.length := by omega
        simp only [append, if_neg hx, if_neg hy, List.length_append, if_neg hxy, List.append_assoc]
        congr 1
        omega
  | bytesNeeded n => simp only [append, List.length_append, UInt64.ofNat_add, UInt64.add_assoc]

namespace CborEncoder

theorem wrote_wrote (e : CborEncoder) (m n : ℕ) (x y : List UInt8) :
    (e.wrote m x).wrote n y = e.wrote (m + n) (x ++ y) := by
  simp [wrote, EncoderData.append_append, Nat.sub_sub]

theorem encodeUint_eq (e : CborEncoder) (value : ℕ) :
    e.encodeUint value = e.wrote 1 (Cbor.head 0 value) := rfl

theorem encodeBoolean_eq (e : CborEncoder) (value : Bool) :
    e.encodeBoolean value = e.wrote 1 (Cbor.head 7 (if value then 21 else 20)) := rfl

theorem foldl_encodeUint (e : CborEncoder) (values : List ℕ) :
    values.foldl encodeUint e = e.wrote values.length (values.flatMap (Cbor.head 0)) := by
  induction values generalizing e with
  | nil => simp [wrote]
  | cons v values ih =>
    rw [List.foldl_cons, ih, encodeUint_eq, wrote_wrote, List.flatMap_cons, List.length_cons,
      Nat.add_comm]

/-- An array with as many items as announced. -/
theorem encodeArray_wrote (e : CborEncoder) {length : ℕ} {bytes : List UInt8}
    {items : CborEncoder → Except Failure CborEncoder} (hlength : length < cborIndefiniteLength)
    (hitems : ∀ c : CborEncoder, items c = .ok (c.wrote length bytes)) :
    e.encodeArray length items = .ok (e.wrote 1 (Cbor.head 4 length ++ bytes)) := by
  have hword : u64 (length + 1) = length + 1 := by
    apply u64_of_lt
    unfold cborIndefiniteLength at hlength
    omega
  have hclose : length + 1 - length = 1 := Nat.add_sub_cancel_left length 1
  rw [encodeArray, hitems, createArray, if_neg hlength.ne]
  simp only [bind, Except.bind, closeContainer, wrote, encodeNumberNoUpdate, appendToBuffer,
    saturatedDecrement, EncoderData.append_append, hword, hclose]
  rfl

/-- Without a buffer the bytes are counted. -/
theorem wrote_init_none (n : ℕ) (bytes : List UInt8) :
    ((cborEncoderInit none).wrote n bytes).extraBytesNeeded = UInt64.ofNat bytes.length ∧
      ((cborEncoderInit none).wrote n bytes).output = [] := by
  simp [cborEncoderInit, wrote, EncoderData.append, extraBytesNeeded, output]

theorem wrote_init_some (n size : ℕ) (bytes : List UInt8) :
    ((cborEncoderInit (some size)).wrote n bytes).extraBytesNeeded =
        UInt64.ofNat (bytes.length - size) ∧
      ((cborEncoderInit (some size)).wrote n bytes).output =
        if bytes.length ≤ size then bytes else [] := by
  by_cases hroom : bytes.length ≤ size
  · simp [cborEncoderInit, wrote, EncoderData.append, extraBytesNeeded, output, hroom,
      Nat.not_lt.mpr hroom]
  · simp [cborEncoderInit, wrote, EncoderData.append, extraBytesNeeded, output, hroom,
      Nat.lt_of_not_le hroom]

end CborEncoder

end Dtnme.Bundling.TinyCbor
